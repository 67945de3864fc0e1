/-! # Spans of a text

    A **span** marks a stretch of a text by the byte offsets of its two ends in
    UTF-8. Tokens and errors carry the span they were read from, so that an
    error can be shown where it stands.
-/

namespace Equational

/-- The bytes from `start` up to, and without, `stop`. -/
structure Span where
  start : Nat
  stop : Nat
deriving DecidableEq, Repr

namespace Span

/-- The number of bytes; a span that stops before it starts has none. -/
def length (span : Span) : Nat :=
  span.stop - span.start

/-- Whether the span holds no byte. -/
def isEmpty (span : Span) : Bool :=
  decide (span.stop ≤ span.start)

/-- The span as it is written in messages, such as `3..8`. -/
def text (span : Span) : String :=
  toString span.start ++ ".." ++ toString span.stop

end Span

end Equational
