import Equational.Yaml.Node
import Equational.Yaml.Scanner

/-! # Documents

    The grammar of documents, over tokens, is

        document ::= (directive* "---")? node? "..."*
        node     ::= alias | label content | label | content
        content  ::= scalar
                   | block-sequence-start ("-" node?)* block-end
                   | block-mapping-start ("?" node? (":" node?)?)* block-end
                   | "[" (item ("," item)* ","?)? "]"
                   | "\x7b" (entry ("," entry)* ","?)? "\x7d"
        item     ::= node | "?" node (":" node?)?
        entry    ::= node | "?" node? (":" node?)?

    where `?` and `:` are the marks of a key and of a value. Without the mark
    `---` the node must be there. In a mapping in lines, the items of a sequence
    need no start and no end. A text holds one document at most.
-/

namespace Equational.Yaml

/-! ## Labels -/

/-- The handles that directives explain, the last one first. -/
abbrev Handles := List (String × String)

/-- The handles that need no directive. -/
def Handles.standard : Handles :=
  [("!", "!"), ("!!", "tag:yaml.org,2002:")]

/-- A tag in full. -/
def Handles.resolve? (handles : Handles) (handle suffix : String) : Option String :=
  if handle.isEmpty then some suffix
  else ((handles ++ standard).lookup handle).map fun start => start ++ suffix

/-- Reads an anchor and a tag, in either order, each of which may be missing. -/
def readLabel? (handles : Handles) : List Token → Option (Label × List Token)
  | .anchor name :: .tag handle suffix :: rest =>
    (handles.resolve? handle suffix).map fun tag => (⟨some name, some tag⟩, rest)
  | .tag handle suffix :: .anchor name :: rest =>
    (handles.resolve? handle suffix).map fun tag => (⟨some name, some tag⟩, rest)
  | .anchor name :: rest => some (⟨some name, none⟩, rest)
  | .tag handle suffix :: rest =>
    (handles.resolve? handle suffix).map fun tag => (⟨none, some tag⟩, rest)
  | tokens => some (Label.none, tokens)

theorem readLabel?_length {handles : Handles} {tokens rest : List Token} {label : Label}
    (h : readLabel? handles tokens = some (label, rest)) : rest.length ≤ tokens.length := by
  unfold readLabel? at h
  split at h
  · obtain ⟨_, _, h⟩ := Option.map_eq_some_iff.mp h
    cases h
    simp only [List.length_cons]
    omega
  · obtain ⟨_, _, h⟩ := Option.map_eq_some_iff.mp h
    cases h
    simp only [List.length_cons]
    omega
  · cases h
    simp
  · obtain ⟨_, _, h⟩ := Option.map_eq_some_iff.mp h
    cases h
    simp
  · cases h
    exact Nat.le_refl _

/-! ## Nodes -/

/-- What was read, and fewer than `bound` tokens that are left. -/
structure Taken (bound : Nat) (α : Type) where
  value : α
  rest : List Token
  fewer : rest.length < bound

/-- Whether a token cannot start a node that is a part of a collection in lines,
    and ends the part instead. -/
def endsBlockPart : Token → Bool
  | .key | .value | .blockEnd => true
  | _ => false

/-- Whether a token ends an item between brackets. -/
def endsItem : Token → Bool
  | .flowEntry | .flowSequenceEnd => true
  | _ => false

/-- Whether a token ends an entry between braces. -/
def endsEntry : Token → Bool
  | .flowEntry | .flowMappingEnd => true
  | _ => false

/-- A node that only its label is written for. Without a label it is no node.
    The label is what stands in `tokens` before `content`. -/
def readEmpty? (label : Label) (tokens content : List Token) : Option (Taken tokens.length Node) :=
  if h : content.length < tokens.length then some ⟨.empty label, content, h⟩ else none

mutual
/-- Reads one node. In lines (`inBlock`), it may be a collection in lines;
    `bareItems` allows the items of a sequence without start and end. A label
    before anything else makes a node by itself. -/
def readNode? (handles : Handles) (inBlock bareItems : Bool) (tokens : List Token) :
    Option (Taken tokens.length Node) :=
  match tokens with
  | .alias name :: rest => some ⟨.alias name, rest, Nat.lt_succ_self _⟩
  | tokens =>
    match hlabel : readLabel? handles tokens with
    | none => none
    | some (label, content) =>
      have content_le : content.length ≤ tokens.length := readLabel?_length hlabel
      match content with
      | .scalar style text :: rest =>
        some ⟨.scalar label style text, rest, Nat.lt_of_succ_le content_le⟩
      | .flowSequenceStart :: rest =>
        (readItems? handles rest).map fun items =>
          ⟨.sequence label items.value, items.rest, Nat.lt_trans items.fewer content_le⟩
      | .flowMappingStart :: rest =>
        (readEntries? handles rest).map fun entries =>
          ⟨.mapping label entries.value, entries.rest, Nat.lt_trans entries.fewer content_le⟩
      | .blockSequenceStart :: rest =>
        if inBlock then
          (readBlockItems? handles rest).map fun items =>
            ⟨.sequence label items.value, items.rest, Nat.lt_trans items.fewer content_le⟩
        else readEmpty? label tokens (.blockSequenceStart :: rest)
      | .blockMappingStart :: rest =>
        if inBlock then
          (readBlockEntries? handles rest).map fun entries =>
            ⟨.mapping label entries.value, entries.rest, Nat.lt_trans entries.fewer content_le⟩
        else readEmpty? label tokens (.blockMappingStart :: rest)
      | .blockEntry :: rest =>
        -- the dash of the first item is the start of the sequence
        if bareItems then
          (readBareItems? handles rest).map fun items =>
            ⟨.sequence label items.value, items.rest, Nat.lt_of_lt_of_le items.fewer content_le⟩
        else readEmpty? label tokens (.blockEntry :: rest)
      | content => readEmpty? label tokens content
termination_by (tokens.length, 1)
/-- Reads a node that may be missing before the tokens that `ends` tells. -/
def readPart? (handles : Handles) (ends : Token → Bool) (inBlock bareItems : Bool)
    (tokens : List Token) : Option (Taken (tokens.length + 1) Node) :=
  if tokens.head?.any ends then some ⟨.empty Label.none, tokens, Nat.lt_succ_self _⟩
  else
    (readNode? handles inBlock bareItems tokens).map fun node =>
      ⟨node.value, node.rest, Nat.lt_succ_of_lt node.fewer⟩
termination_by (tokens.length, 2)
/-- Reads the value behind a key, which may be missing. -/
def readValue? (handles : Handles) (ends : Token → Bool) (inBlock : Bool) (tokens : List Token) :
    Option (Taken (tokens.length + 1) Node) :=
  match tokens with
  | .value :: rest =>
    (readPart? handles ends inBlock inBlock rest).map fun node =>
      ⟨node.value, node.rest, Nat.lt_succ_of_lt node.fewer⟩
  | tokens => some ⟨.empty Label.none, tokens, Nat.lt_succ_self _⟩
termination_by (tokens.length, 3)
/-- Reads the items of a sequence in lines, and its end. -/
def readBlockItems? (handles : Handles) (tokens : List Token) :
    Option (Taken tokens.length (List Node)) :=
  match tokens with
  | .blockEnd :: rest => some ⟨[], rest, Nat.lt_succ_self _⟩
  | .blockEntry :: rest => do
    let item ← readPart? handles (fun token => token == .blockEntry || token == .blockEnd)
      true false rest
    have item_fewer : item.rest.length < rest.length + 1 := item.fewer
    let items ← readBlockItems? handles item.rest
    return ⟨item.value :: items.value, items.rest, Nat.lt_trans items.fewer item_fewer⟩
  | _ => none
termination_by (tokens.length, 0)
/-- Reads an item behind a dash, and the others, of a sequence in lines that has
    no end of its own. -/
def readBareItems? (handles : Handles) (tokens : List Token) :
    Option (Taken (tokens.length + 1) (List Node)) := do
  let item ← readPart? handles (fun token => token == .blockEntry || endsBlockPart token)
    true false tokens
  match hrest : item.rest with
  | .blockEntry :: rest =>
    have rest_lt : rest.length < tokens.length := by
      have := item.fewer
      rw [hrest] at this
      exact Nat.lt_of_succ_lt_succ this
    let items ← readBareItems? handles rest
    return ⟨item.value :: items.value, items.rest,
      Nat.lt_trans items.fewer (Nat.succ_lt_succ rest_lt)⟩
  | _ => return ⟨[item.value], item.rest, item.fewer⟩
termination_by (tokens.length, 3)
/-- Reads the entries of a mapping in lines, and its end. -/
def readBlockEntries? (handles : Handles) (tokens : List Token) :
    Option (Taken tokens.length (List (Node × Node))) :=
  match tokens with
  | .blockEnd :: rest => some ⟨[], rest, Nat.lt_succ_self _⟩
  | .key :: rest => do
    let key ← readPart? handles endsBlockPart true true rest
    have key_fewer : key.rest.length < rest.length + 1 := key.fewer
    let value ← readValue? handles endsBlockPart true key.rest
    have value_fewer : value.rest.length < (Token.key :: rest).length :=
      Nat.lt_of_lt_of_le value.fewer key_fewer
    let entries ← readBlockEntries? handles value.rest
    return ⟨(key.value, value.value) :: entries.value, entries.rest,
      Nat.lt_trans entries.fewer value_fewer⟩
  | _ => none
termination_by (tokens.length, 0)
/-- Reads the key of an item that is a mapping of one entry. For a key that is
    missing, the token in its place is taken. -/
def readPairKey? (handles : Handles) (tokens : List Token) : Option (Taken tokens.length Node) :=
  match tokens with
  | [] => none
  | token :: rest =>
    -- the token is passed over, even if it is the mark of the value
    if token == .value || endsItem token then
      some ⟨.empty Label.none, rest, Nat.lt_succ_self _⟩
    else readNode? handles false false (token :: rest)
termination_by (tokens.length, 2)
/-- Reads an item between brackets, which may be a mapping of one entry. -/
def readItem? (handles : Handles) (tokens : List Token) : Option (Taken tokens.length Node) :=
  match tokens with
  | .key :: rest => do
    let key ← readPairKey? handles rest
    have key_fewer : key.rest.length < rest.length := key.fewer
    let value ← readValue? handles endsItem false key.rest
    return ⟨.mapping Label.none [(key.value, value.value)], value.rest,
      Nat.lt_of_lt_of_le value.fewer (Nat.le_succ_of_le key_fewer)⟩
  | tokens => readNode? handles false false tokens
termination_by (tokens.length, 2)
/-- Reads the items behind an opening bracket, and the closing one. -/
def readItems? (handles : Handles) (tokens : List Token) :
    Option (Taken tokens.length (List Node)) :=
  match tokens with
  | .flowSequenceEnd :: rest => some ⟨[], rest, Nat.lt_succ_self _⟩
  | tokens => do
    let item ← readItem? handles tokens
    have item_fewer : item.rest.length < tokens.length := item.fewer
    let items ← readMoreItems? handles item.rest
    return ⟨item.value :: items.value, items.rest, Nat.lt_trans items.fewer item_fewer⟩
termination_by (tokens.length, 3)
/-- Reads the items behind another one, and the closing bracket. A comma may stand
    before it. -/
def readMoreItems? (handles : Handles) (tokens : List Token) :
    Option (Taken tokens.length (List Node)) :=
  match tokens with
  | .flowSequenceEnd :: rest => some ⟨[], rest, Nat.lt_succ_self _⟩
  | .flowEntry :: .flowSequenceEnd :: rest =>
    some ⟨[], rest, Nat.lt_succ_of_lt (Nat.lt_succ_self _)⟩
  | .flowEntry :: rest => do
    let item ← readItem? handles rest
    have item_fewer : item.rest.length < rest.length := item.fewer
    let items ← readMoreItems? handles item.rest
    return ⟨item.value :: items.value, items.rest,
      Nat.lt_succ_of_lt (Nat.lt_trans items.fewer item_fewer)⟩
  | _ => none
termination_by (tokens.length, 0)
/-- Reads an entry between braces. A key that is not announced has no value. -/
def readEntry? (handles : Handles) (tokens : List Token) :
    Option (Taken tokens.length (Node × Node)) :=
  match tokens with
  | .key :: rest => do
    let key ← readPart? handles (fun token => token == .value || endsEntry token)
      false false rest
    have key_fewer : key.rest.length < rest.length + 1 := key.fewer
    let value ← readValue? handles endsEntry false key.rest
    return ⟨(key.value, value.value), value.rest, Nat.lt_of_lt_of_le value.fewer key_fewer⟩
  | tokens =>
    (readNode? handles false false tokens).map fun key =>
      ⟨(key.value, .empty Label.none), key.rest, key.fewer⟩
termination_by (tokens.length, 2)
/-- Reads the entries behind an opening brace, and the closing one. -/
def readEntries? (handles : Handles) (tokens : List Token) :
    Option (Taken tokens.length (List (Node × Node))) :=
  match tokens with
  | .flowMappingEnd :: rest => some ⟨[], rest, Nat.lt_succ_self _⟩
  | tokens => do
    let entry ← readEntry? handles tokens
    have entry_fewer : entry.rest.length < tokens.length := entry.fewer
    let entries ← readMoreEntries? handles entry.rest
    return ⟨entry.value :: entries.value, entries.rest, Nat.lt_trans entries.fewer entry_fewer⟩
termination_by (tokens.length, 3)
/-- Reads the entries behind another one, and the closing brace. A comma may stand
    before it. -/
def readMoreEntries? (handles : Handles) (tokens : List Token) :
    Option (Taken tokens.length (List (Node × Node))) :=
  match tokens with
  | .flowMappingEnd :: rest => some ⟨[], rest, Nat.lt_succ_self _⟩
  | .flowEntry :: .flowMappingEnd :: rest =>
    some ⟨[], rest, Nat.lt_succ_of_lt (Nat.lt_succ_self _)⟩
  | .flowEntry :: rest => do
    let entry ← readEntry? handles rest
    have entry_fewer : entry.rest.length < rest.length := entry.fewer
    let entries ← readMoreEntries? handles entry.rest
    return ⟨entry.value :: entries.value, entries.rest,
      Nat.lt_succ_of_lt (Nat.lt_trans entries.fewer entry_fewer)⟩
  | _ => none
termination_by (tokens.length, 0)
end

/-! ## Documents -/

/-- Whether a token cannot start the node of a document. -/
def endsDocument : Token → Bool
  | .version _ _ | .tagHandle _ _ | .documentStart | .documentEnd => true
  | _ => false

/-- Reads directives up to the mark of the document's start. A version has to be
    1.1 or 1.2. It may be given once, and so may each handle. -/
def readDirectives? (versioned : Bool) (handles : Handles) :
    List Token → Option (Handles × List Token)
  | .version major minor :: rest =>
    if !versioned && major == 1 && (minor == 1 || minor == 2) then
      readDirectives? true handles rest
    else none
  | .tagHandle handle start :: rest =>
    if (handles.lookup handle).isSome then none
    else readDirectives? versioned ((handle, start) :: handles) rest
  | .documentStart :: rest => some (handles, rest)
  | _ => none

/-- The node of a document and the tokens behind it. -/
def readDocument? (tokens : List Token) : Option (Node × List Token) :=
  let opens := tokens.head?.any fun token => endsDocument token && token != .documentEnd
  if opens then do
    let (handles, content) ← readDirectives? false [] tokens
    -- behind the mark the node may be missing
    if content.isEmpty || content.head?.any endsDocument then
      return (.empty Label.none, content)
    else
      let node ← readNode? handles true false content
      return (node.value, node.rest)
  else (readNode? [] true false tokens).map fun node => (node.value, node.rest)

/-- The node of the only document that the tokens make up, if they make up one. -/
def Node.ofTokens? (tokens : List Token) : Option (Option Node) :=
  if tokens.isEmpty then some none
  else do
    let (node, behind) ← readDocument? tokens
    guard (behind.all (· == .documentEnd))
    return some (← node.withoutAliases?)

/-- The node of the only document in a text, if it holds one. -/
def Node.ofText? (text : String) : Option (Option Node) :=
  (Token.ofText? text).bind Node.ofTokens?

end Equational.Yaml
