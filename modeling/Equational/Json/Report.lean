import Equational.Diagnostic
import Equational.Json.Basic
import Equational.Settings.Basic

/-! # Spans, diagnostics and settings as JSON

    These forms are for editors and hosts. Offsets and limits are below 2^64,
    lines and columns below 2^32. The region of a diagnostic and each of the
    settings may be left out.
-/

namespace Equational

namespace Span

/-- The JSON form of a span. -/
def toJson (span : Span) : Json :=
  .object [("start", .natural span.start), ("end", .natural span.stop)]

/-- The span of a JSON value. -/
def ofJson? (json : Json) : Option Span := do
  let start ← (json.field? "start").bind (Json.natural? 0x1_0000_0000_0000_0000)
  let stop ← (json.field? "end").bind (Json.natural? 0x1_0000_0000_0000_0000)
  return ⟨start, stop⟩

end Span

namespace Region

/-- The JSON form of a region. -/
def toJson (region : Region) : Json :=
  let start := region.start.wrapped
  let stop := region.stop.wrapped
  .object [("start_line", .natural start.line), ("start_col", .natural start.column),
    ("end_line", .natural stop.line), ("end_col", .natural stop.column)]

/-- The region of a JSON value. -/
def ofJson? (json : Json) : Option Region := do
  let startLine ← (json.field? "start_line").bind (Json.natural? 0x1_0000_0000)
  let startColumn ← (json.field? "start_col").bind (Json.natural? 0x1_0000_0000)
  let stopLine ← (json.field? "end_line").bind (Json.natural? 0x1_0000_0000)
  let stopColumn ← (json.field? "end_col").bind (Json.natural? 0x1_0000_0000)
  return ⟨⟨startLine, startColumn⟩, ⟨stopLine, stopColumn⟩⟩

end Region

/-- A code is a string, or an object that holds nothing under that name. -/
def DiagnosticCode.ofJson? : Json → Option DiagnosticCode
  | .string text => ofText? text
  | .object [(text, .null)] => ofText? text
  | _ => none

namespace Diagnostic

/-- The JSON form of a diagnostic. -/
def toJson (diagnostic : Diagnostic) : Json :=
  .object [("code", .string diagnostic.code.text), ("message", .string diagnostic.message),
    ("span", .optional Region.toJson diagnostic.region)]

/-- The diagnostic of a JSON value. -/
def ofJson? (json : Json) : Option Diagnostic := do
  let code ← (json.field? "code").bind DiagnosticCode.ofJson?
  let message ← (json.field? "message").bind Json.string?
  let region ← Json.optional? Region.ofJson? ((json.field? "span").getD .null)
  return ⟨code, message, region⟩

end Diagnostic

namespace Settings

/-- The JSON form of settings. -/
def toJson (settings : Settings) : Json :=
  .object [("max_rewrite_steps", .optional .natural settings.maxRewriteSteps),
    ("pretty_print", .bool settings.prettyPrint)]

/-- The settings of a JSON value. What is left out is not set. -/
def ofJson? : Json → Option Settings
  | .object fields => do
    let steps ← Json.optional? (Json.natural? 0x1_0000_0000_0000_0000)
      ((fields.lookup "max_rewrite_steps").getD .null)
    let pretty ← ((fields.lookup "pretty_print").getD (.bool true)).bool?
    return ⟨steps, pretty⟩
  | _ => none

end Settings

end Equational
