import Equational.Yaml.Block
import Equational.Yaml.Plain
import Equational.Yaml.Quoted
import Equational.Yaml.Tag

/-! # Scanning a document

    The scanner turns characters into tokens. Beside the cursor it keeps

    * the columns of the collections in lines that are open; a line that is
      indented less than one of them closes it,
    * for each open bracket, and for the whole, the **candidate**: a token that
      turns out to start a key if a colon follows it. It has to do so on the
      same line, within 1024 characters. The mark of the key, and that of the
      mapping it is the first key of, are then put before the candidate.

    A document in which the scanner finds no token has no meaning.
-/

namespace Equational.Yaml

/-- Where a key may have started: the place, the number of tokens before it, and
    whether nothing but a key may stand there. -/
structure Candidate where
  place : Place
  before : Nat
  required : Bool
deriving Repr

namespace Candidate

/-- Whether a colon at a place comes too late. -/
def isStale (candidate : Candidate) (place : Place) : Bool :=
  candidate.place.line < place.line || candidate.place.index + 1024 < place.index

/-- The candidate, if there is one, unless a colon at a place would come too late.
    A key that is required must not be lost. -/
def renew? (place : Place) : Option Candidate → Option (Option Candidate)
  | none => some none
  | some candidate =>
    if candidate.isStale place then
      -- a key that has to be there cannot be given up
      if candidate.required then none else some none
    else some (some candidate)

end Candidate

/-- What is known behind the tokens scanned so far, which are in reverse order. -/
structure Scanner where
  cursor : Cursor
  tokens : List Token
  /-- The candidate within the innermost brackets. -/
  candidate : Option Candidate
  /-- The candidates around the open brackets, innermost first. -/
  outer : List (Option Candidate)
  /-- The columns of the open collections in lines, innermost first. -/
  blocks : List Nat
  /-- Whether a key may start at the cursor. -/
  mayStart : Bool

namespace Scanner

/-- The scanner before a document. -/
def ofCharacters (characters : List Char) : Scanner where
  cursor := ⟨characters, .start⟩
  tokens := []
  candidate := none
  outer := []
  blocks := []
  mayStart := true

/-- Whether the cursor is between brackets. -/
def inFlow (scanner : Scanner) : Bool :=
  !scanner.outer.isEmpty

/-- The column of the cursor. -/
def column (scanner : Scanner) : Nat :=
  scanner.cursor.place.column

/-- The least column of the lines within the innermost collection in lines. -/
def least (scanner : Scanner) : Nat :=
  match scanner.blocks with
  | [] => 0
  | column :: _ => column + 1

/-! ## Tokens -/

/-- Adds a token and goes on behind it. -/
def add (scanner : Scanner) (token : Token) (behind : Cursor) : Scanner :=
  { scanner with tokens := token :: scanner.tokens, cursor := behind }

/-- Adds a token that the next `count` characters make up. -/
def addMark (scanner : Scanner) (token : Token) (count : Nat) : Scanner :=
  scanner.add token (scanner.cursor.drop count)

/-- Puts tokens, in reverse order, behind the first `before` ones. -/
def insert (scanner : Scanner) (before : Nat) (inserted : List Token) : Scanner :=
  let later := scanner.tokens.length - before
  { scanner with
    tokens := scanner.tokens.take later ++ inserted ++ scanner.tokens.drop later }

/-! ## Collections in lines -/

/-- Whether a collection at a column would be inside all that are open. -/
def isDeeper (scanner : Scanner) (column : Nat) : Bool :=
  !scanner.inFlow && scanner.least ≤ column

/-- Opens a collection at the cursor, unless one is open at its column. -/
def openBlock (scanner : Scanner) (token : Token) : Scanner :=
  if scanner.isDeeper scanner.column then
    { scanner with blocks := scanner.column :: scanner.blocks, tokens := token :: scanner.tokens }
  else scanner

/-- Closes the collections whose columns pass the test, from the inside out.
    Between brackets none is closed. -/
def closeBlocks (scanner : Scanner) (test : Nat → Bool) : Scanner :=
  if scanner.inFlow then scanner
  else
    let closed := scanner.blocks.takeWhile test
    { scanner with
      blocks := scanner.blocks.dropWhile test
      tokens := closed.map (fun _ => Token.blockEnd) ++ scanner.tokens }

/-! ## Candidates -/

/-- Drops the candidate. A key that is required must not be lost. -/
def dropCandidate? (scanner : Scanner) : Option Scanner :=
  if scanner.candidate.any Candidate.required then none
  else some { scanner with candidate := none }

/-- Makes the token at the cursor the candidate, if a key may start there. -/
def markCandidate? (scanner : Scanner) : Option Scanner :=
  if scanner.mayStart then do
    let cleared ← scanner.dropCandidate?
    -- at the column of an open collection nothing but a key may stand
    let required := !scanner.inFlow && scanner.blocks.head? == some scanner.column
    return { cleared with
      candidate := some ⟨scanner.cursor.place, scanner.tokens.length, required⟩ }
  else some scanner

/-- Drops the candidates for which a colon comes too late. -/
def renewCandidates? (scanner : Scanner) : Option Scanner := do
  let candidate ← Candidate.renew? scanner.cursor.place scanner.candidate
  let outer ← scanner.outer.mapM (Candidate.renew? scanner.cursor.place)
  return { scanner with candidate := candidate, outer := outer }

/-! ## Marks -/

/-- A directive or the mark of a document, which closes all collections. -/
def startDocumentPart? (scanner : Scanner) : Option Scanner := do
  let scanner ← (scanner.closeBlocks fun _ => true).dropCandidate?
  return { scanner with mayStart := false }

/-- An opening bracket. -/
def openFlow? (scanner : Scanner) (token : Token) : Option Scanner := do
  let scanner ← scanner.markCandidate?
  let inside : Scanner :=
    { scanner with
      candidate := none, outer := scanner.candidate :: scanner.outer, mayStart := true }
  return inside.addMark token 1

/-- A closing bracket. The candidate before the opening one stays a candidate. -/
def closeFlow? (scanner : Scanner) (token : Token) : Option Scanner := do
  let scanner ← scanner.dropCandidate?
  let outside : Scanner :=
    match scanner.outer with
    | [] => { scanner with mayStart := false }
    | candidate :: outer =>
      { scanner with candidate := candidate, outer := outer, mayStart := false }
  return outside.addMark token 1

/-- A comma between brackets. -/
def separate? (scanner : Scanner) : Option Scanner := do
  let scanner ← scanner.dropCandidate?
  return { scanner with mayStart := true }.addMark .flowEntry 1

/-- A dash, which starts an item of a sequence in lines. -/
def startItem? (scanner : Scanner) : Option Scanner := do
  guard (scanner.inFlow || scanner.mayStart)
  let scanner ← (scanner.openBlock .blockSequenceStart).dropCandidate?
  return { scanner with mayStart := true }.addMark .blockEntry 1

/-- A question mark, which announces a key. -/
def startKey? (scanner : Scanner) : Option Scanner := do
  guard (scanner.inFlow || scanner.mayStart)
  let scanner ← (scanner.openBlock .blockMappingStart).dropCandidate?
  return { scanner with mayStart := !scanner.inFlow }.addMark .key 1

/-- A colon. It makes the candidate a key, or else follows a key that was
    announced. -/
def startValue? (scanner : Scanner) : Option Scanner := do
  match scanner.candidate with
  | some candidate =>
    -- the first key of a mapping opens it, at the column of the key
    let column := candidate.place.column
    let scanner :=
      if scanner.isDeeper column then
        { scanner.insert candidate.before [.key, .blockMappingStart] with
          blocks := column :: scanner.blocks }
      else scanner.insert candidate.before [.key]
    return { scanner with candidate := none, mayStart := false }.addMark .value 1
  | none =>
    guard (scanner.inFlow || scanner.mayStart)
    let scanner := scanner.openBlock .blockMappingStart
    return { scanner with mayStart := !scanner.inFlow }.addMark .value 1

/-! ## Nodes -/

/-- A token, read by `read?`, that a key may start with. -/
def startNode? (scanner : Scanner) (read? : Cursor → Option (Token × Cursor)) :
    Option Scanner := do
  let scanner ← scanner.markCandidate?
  let (token, behind) ← read? scanner.cursor
  return { scanner with mayStart := false }.add token behind

/-- A scalar in lines of its own, which is no key. -/
def startBlockScalar? (scanner : Scanner) (isLiteral : Bool) : Option Scanner := do
  let scanner ← scanner.dropCandidate?
  let (token, behind) ← readBlock? isLiteral scanner.least (scanner.cursor.drop 1)
  return { scanner with mayStart := true }.add token behind

/-- A plain scalar. A key may follow it on another line only. -/
def startPlain? (scanner : Scanner) : Option Scanner := do
  let scanner ← scanner.markCandidate?
  let scalar ← readPlain? scanner.inFlow scanner.least [] Gap.none scanner.cursor.rest
    scanner.cursor.place
  return { scanner with mayStart := scalar.endsLine }.add (.scalar .plain scalar.text) scalar.behind

/-- Scans the token that starts at the cursor. -/
def scanToken? (scanner : Scanner) : Option Scanner :=
  let characters := scanner.cursor.rest
  let atLineStart := scanner.column == 0
  let inFlow := scanner.inFlow
  let named (token : String → Token) (cursor : Cursor) : Option (Token × Cursor) :=
    (readName? (cursor.drop 1)).map fun read => (token read.1, read.2)
  let quoted (style : Style) (read? : List Char → Place → Option (String × Cursor))
      (cursor : Cursor) : Option (Token × Cursor) :=
    let behind := cursor.drop 1
    (read? behind.rest behind.place).map fun read => (.scalar style read.1, read.2)
  match characters with
  | [] => none
  | c :: rest =>
    if atLineStart && c == '%' then do
      let scanner ← scanner.startDocumentPart?
      let (token, behind) ← readDirective? (scanner.cursor.drop 1)
      return scanner.add token behind
    else if atLineStart && startsMark '-' characters then
      scanner.startDocumentPart?.map (·.addMark .documentStart 3)
    else if atLineStart && startsMark '.' characters then
      scanner.startDocumentPart?.map (·.addMark .documentEnd 3)
    else if c == '[' then scanner.openFlow? .flowSequenceStart
    else if c == '\x7b' then scanner.openFlow? .flowMappingStart
    else if c == ']' then scanner.closeFlow? .flowSequenceEnd
    else if c == '\x7d' then scanner.closeFlow? .flowMappingEnd
    else if c == ',' then scanner.separate?
    else if c == '-' && endsWord rest then scanner.startItem?
    else if c == '?' && (inFlow || endsWord rest) then scanner.startKey?
    else if c == ':' && (inFlow || endsWord rest) then scanner.startValue?
    else if c == '*' then scanner.startNode? (named .alias)
    else if c == '&' then scanner.startNode? (named .anchor)
    else if c == '!' then scanner.startNode? (readTag? inFlow)
    else if c == '|' && !inFlow then scanner.startBlockScalar? true
    else if c == '>' && !inFlow then scanner.startBlockScalar? false
    else if c == '\'' then
      scanner.startNode? (quoted .singleQuoted (readSingleQuoted? [] Gap.none))
    else if c == '"' then
      scanner.startNode? (quoted .doubleQuoted (readDoubleQuoted? [] Gap.none))
    else if startsPlain inFlow characters then scanner.startPlain?
    else none

/-! ## Documents -/

/-- Goes on to the next token, and closes the collections that end before it. -/
def toToken? (scanner : Scanner) : Option Scanner := do
  let (mayStart, cursor) := Cursor.skipSpace scanner.inFlow scanner.mayStart false
    scanner.cursor.rest scanner.cursor.place
  let scanner ← { scanner with cursor := cursor, mayStart := mayStart }.renewCandidates?
  return scanner.closeBlocks fun column => scanner.column < column

/-- All tokens up to the end. -/
def tokens? (scanner : Scanner) : Option (List Token) :=
  match scanner.toToken? with
  | none => none
  | some atToken =>
    if atToken.cursor.rest.isEmpty then
      ((atToken.closeBlocks fun _ => true).dropCandidate?).map fun last => last.tokens.reverse
    else
      match atToken.scanToken? with
      | none => none
      | some next =>
        -- every token takes a character; what is checked here makes the recursion end
        if next.cursor.rest.length < scanner.cursor.rest.length then tokens? next else none
termination_by scanner.cursor.rest.length

end Scanner

/-- The tokens of a text, if it holds no character that a document may not hold. -/
def Token.ofText? (text : String) : Option (List Token) :=
  if text.toList.all isAllowed then (Scanner.ofCharacters (unifyBreaks text.toList)).tokens?
  else none

end Equational.Yaml
