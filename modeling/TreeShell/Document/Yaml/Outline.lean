import TreeShell.Document.Yaml.Part
import TreeShell.Document.Yaml.Token

/-!
# Outline of a document

The tokens of a text are read as one document: a node with all its parts, still with the references
as they are written. What is expected next is kept on a stack. Every step takes a token or takes
something off that is expected, so reading ends.
-/

namespace TreeShell.Document.Yaml

/-- A part of a document that refers to other parts by their names. -/
abbrev NamedPart := Part (List Char)

/-- A scalar that is not written at all. -/
def emptyScalar : NamedPart := .scalar {} [] true

/-! ## What can come next -/

/-- Where a node stands. -/
inductive NodePlace where
  /-- Between brackets or braces, where columns do not count. -/
  | flow
  /-- In a block. -/
  | block
  /-- In a mapping in a block, where a sequence need not be indented. -/
  | mapping
  deriving DecidableEq, Repr

/-- What is expected next. -/
inductive Expected where
  /-- A node. -/
  | node (place : NodePlace)
  /-- An item of a sequence told by columns, or its end. -/
  | blockItem
  /-- An item of a sequence that is not indented, or anything behind the sequence. -/
  | dashItem
  /-- A key of a mapping told by columns, or its end. -/
  | blockKey
  /-- The value of a key of a mapping told by columns. -/
  | blockValue
  /-- An item of a sequence in brackets, or its end. -/
  | flowItem (first : Bool)
  /-- The key of a mapping that is an item in brackets. -/
  | pairKey
  /-- The value of that key. -/
  | pairValue
  /-- The end of that mapping. -/
  | pairEnd
  /-- A key of a mapping in braces, or its end. -/
  | flowKey (first : Bool)
  /-- The value of a key of a mapping in braces. -/
  | flowValue
  /-- The value of a key without a colon of a mapping in braces. -/
  | noValue
  deriving DecidableEq, Repr

/-- How many steps can be taken for what is expected before a token is taken. -/
def Expected.weight : Expected → Nat
  | .node _ => 2
  | .pairKey => 3
  | .flowItem true => 4
  | .flowKey true => 5
  | _ => 1

/-- How many steps can be taken for all that is expected before a token is taken. -/
@[simp] def totalWeight : List Expected → Nat
  | [] => 0
  | expected :: stack => expected.weight + totalWeight stack

@[simp] theorem totalWeight_append (stack rest : List Expected) :
    totalWeight (stack ++ rest) = totalWeight stack + totalWeight rest := by
  induction stack with
  | nil => simp
  | cons expected stack ih =>
    simp only [List.cons_append, totalWeight, ih]
    omega

/-- How many steps can be taken at most when `stack` is expected and `tokens` are left. -/
def stepBound (stack : List Expected) (tokens : List Token) : Nat :=
  10 * tokens.length + totalWeight stack

/-- What a step gives: the parts that were read, what is expected before all that was expected
already, and the tokens that are left. -/
structure Step where
  /-- The parts that were read. -/
  parts : List NamedPart
  /-- What is expected next. -/
  stack : List Expected
  /-- The tokens that are left. -/
  rest : List Token

/-! ## Nodes -/

/-- What tag handles stand for. -/
abbrev Handles := List (List Char × List UInt8)

/-- The tag that is meant by a written one, if its handle stands for something. -/
def TagText.meaning? (text : TagText) (handles : Handles) : Option (List UInt8) :=
  if text.handle.isEmpty then some text.suffix
  else (handles.lookup text.handle).map (· ++ text.suffix)

/-- Reads what is written before a node. -/
def properties? (handles : Handles) : List Token → Option (Properties × List Token)
  | .anchor name :: .tag text :: rest | .tag text :: .anchor name :: rest =>
    (text.meaning? handles).map fun tag => ({ anchor := some name, tag := some tag }, rest)
  | .anchor name :: rest => some ({ anchor := some name }, rest)
  | .tag text :: rest => (text.meaning? handles).map fun tag => ({ tag := some tag }, rest)
  | rest => some ({}, rest)

/-- The tag that tells nothing of a scalar. -/
def emptyTag : List UInt8 := "!".toUTF8.toList

/-- Reads the start of a node behind its properties. -/
def content? (place : NodePlace) (properties : Properties) : List Token → Option Step
  | .scalar text plain :: rest =>
    let tag := properties.tag.filter (· ≠ emptyTag)
    some ⟨[.scalar { properties with tag } text plain], [], rest⟩
  | .flowSequenceStart :: rest => some ⟨[.openSequence properties], [.flowItem true], rest⟩
  | .flowMappingStart :: rest => some ⟨[.openMapping properties], [.flowKey true], rest⟩
  | token :: rest =>
    if place = .mapping ∧ token = .blockEntry then
      some ⟨[.openSequence properties], [.dashItem], token :: rest⟩
    else if place ≠ .flow ∧ token = .blockSequenceStart then
      some ⟨[.openSequence properties], [.blockItem], rest⟩
    else if place ≠ .flow ∧ token = .blockMappingStart then
      some ⟨[.openMapping properties], [.blockKey], rest⟩
    else if properties.anchor.isSome ∨ properties.tag.isSome then
      some ⟨[.scalar properties [] true], [], token :: rest⟩
    else none
  | [] => none

/-- Reads the start of a node. -/
def node? (handles : Handles) (place : NodePlace) : List Token → Option Step
  | .alias name :: rest => some ⟨[.alias name], [], rest⟩
  | tokens => (properties? handles tokens).bind fun (properties, rest) =>
    content? place properties rest

/-! ## Steps -/

/-- Expects a node, or takes a token of `ends` as a sign that the node is not written. -/
def nodeUnless (place : NodePlace) (ends : List Token) (stack : List Expected)
    (rest : List Token) : Step :=
  if rest.head?.any ends.contains then ⟨[emptyScalar], stack, rest⟩
  else ⟨[], .node place :: stack, rest⟩

/-- Reads an item of a sequence in brackets, or its end. -/
def flowItem? : List Token → Option Step
  | .flowSequenceEnd :: rest => some ⟨[.closeSequence], [], rest⟩
  | .key :: rest =>
    some ⟨[.openMapping {}], [.pairKey, .pairValue, .pairEnd, .flowItem false], rest⟩
  | rest => some ⟨[], [.node .flow, .flowItem false], rest⟩

/-- Reads a key of a mapping in braces, or its end. -/
def flowKey? : List Token → Option Step
  | .flowMappingEnd :: rest => some ⟨[.closeMapping], [], rest⟩
  | .key :: rest =>
    some (nodeUnless .flow [.value, .flowEntry, .flowMappingEnd] [.flowValue, .flowKey false] rest)
  | rest => some ⟨[], [.node .flow, .noValue, .flowKey false], rest⟩

/-- Takes a step for what is expected; `none` if the tokens do not fit or are used up. -/
def step? (handles : Handles) : Expected → List Token → Option Step
  | _, [] => none
  | .node place, tokens => node? handles place tokens
  | .blockItem, .blockEntry :: rest =>
    some (nodeUnless .block [.blockEntry, .blockEnd] [.blockItem] rest)
  | .blockItem, .blockEnd :: rest => some ⟨[.closeSequence], [], rest⟩
  | .blockItem, _ => none
  | .dashItem, .blockEntry :: rest =>
    some (nodeUnless .block [.blockEntry, .key, .value, .blockEnd] [.dashItem] rest)
  | .dashItem, rest => some ⟨[.closeSequence], [], rest⟩
  | .blockKey, .key :: rest =>
    some (nodeUnless .mapping [.key, .value, .blockEnd] [.blockValue, .blockKey] rest)
  | .blockKey, .blockEnd :: rest => some ⟨[.closeMapping], [], rest⟩
  | .blockKey, _ => none
  | .blockValue, .value :: rest => some (nodeUnless .mapping [.key, .value, .blockEnd] [] rest)
  | .blockValue, rest => some ⟨[emptyScalar], [], rest⟩
  | .flowItem true, tokens => flowItem? tokens
  | .flowItem false, .flowSequenceEnd :: rest => some ⟨[.closeSequence], [], rest⟩
  | .flowItem false, .flowEntry :: rest => flowItem? rest
  | .flowItem false, _ => none
  | .pairKey, token :: rest =>
    if token ∈ [.value, .flowEntry, .flowSequenceEnd] then some ⟨[emptyScalar], [], rest⟩
    else some ⟨[], [.node .flow], token :: rest⟩
  | .pairValue, .value :: rest => some (nodeUnless .flow [.flowEntry, .flowSequenceEnd] [] rest)
  | .pairValue, rest => some ⟨[emptyScalar], [], rest⟩
  | .pairEnd, rest => some ⟨[.closeMapping], [], rest⟩
  | .flowKey true, tokens => flowKey? tokens
  | .flowKey false, .flowMappingEnd :: rest => some ⟨[.closeMapping], [], rest⟩
  | .flowKey false, .flowEntry :: rest => flowKey? rest
  | .flowKey false, _ => none
  | .flowValue, .value :: rest => some (nodeUnless .flow [.flowEntry, .flowMappingEnd] [] rest)
  | .flowValue, rest | .noValue, rest => some ⟨[emptyScalar], [], rest⟩

theorem length_of_properties {handles : Handles} {tokens rest : List Token}
    {properties : Properties} (h : properties? handles tokens = some (properties, rest)) :
    rest.length ≤ tokens.length := by
  unfold properties? at h
  split at h <;> simp_all <;> grind

theorem stepBound_of_content {place : NodePlace} {properties : Properties} {tokens : List Token}
    {step : Step} (h : content? place properties tokens = some step) :
    stepBound step.stack step.rest < stepBound [.node place] tokens := by
  unfold content? at h
  grind [stepBound, Expected.weight, totalWeight]

theorem stepBound_of_node {handles : Handles} {place : NodePlace} {tokens : List Token}
    {step : Step} (h : node? handles place tokens = some step) :
    stepBound step.stack step.rest < stepBound [.node place] tokens := by
  unfold node? at h
  split at h
  · grind [stepBound, Expected.weight, totalWeight]
  · simp only [Option.bind_eq_some_iff] at h
    obtain ⟨⟨properties, rest⟩, hproperties, hcontent⟩ := h
    have hlength := length_of_properties hproperties
    have hbound := stepBound_of_content hcontent
    simp only [stepBound] at hbound ⊢
    omega

theorem stepBound_nodeUnless (place : NodePlace) (ends : List Token) (stack : List Expected)
    (rest : List Token) :
    stepBound (nodeUnless place ends stack rest).stack (nodeUnless place ends stack rest).rest ≤
      stepBound stack rest + 2 := by
  unfold nodeUnless
  split
  · simp [stepBound]
  · simp only [stepBound, Expected.weight, totalWeight]
    omega

theorem stepBound_of_flowItem {tokens : List Token} {step : Step}
    (h : flowItem? tokens = some step) :
    stepBound step.stack step.rest < stepBound [.flowItem true] tokens := by
  unfold flowItem? at h
  split at h <;> cases h <;> simp [stepBound, Expected.weight] <;> omega

theorem stepBound_of_flowKey {tokens : List Token} {step : Step}
    (h : flowKey? tokens = some step) :
    stepBound step.stack step.rest < stepBound [.flowKey true] tokens := by
  unfold flowKey? at h
  split at h <;> cases h
  · simp [stepBound, Expected.weight]
    omega
  · next rest =>
    have := stepBound_nodeUnless .flow [.value, .flowEntry, .flowMappingEnd]
      [.flowValue, .flowKey false] rest
    simp [stepBound, Expected.weight] at this ⊢
    omega
  · simp [stepBound, Expected.weight]

/-- Every step lowers the number of steps that can follow. -/
theorem stepBound_of_step {handles : Handles} {expected : Expected} {tokens : List Token}
    {step : Step} (h : step? handles expected tokens = some step) :
    stepBound step.stack step.rest < stepBound [expected] tokens := by
  unfold step? at h
  split at h
  · simp at h
  · exact stepBound_of_node h
  all_goals
    grind [stepBound, Expected.weight, totalWeight, → stepBound_of_flowItem, → stepBound_of_flowKey,
      stepBound_nodeUnless]

/-! ## Documents -/

/-- An outline that starts with further parts. -/
def Outline.prepend (parts : List NamedPart) (outline : Outline (List Char)) :
    Outline (List Char) :=
  { outline with parts := parts ++ outline.parts }

/-- Whether nothing but marks of its end follows a document. -/
def isEnd (tokens : List Token) : Bool :=
  tokens.dropWhile (· = .documentEnd) |>.head?.any (· = .streamEnd)

/-- Reads what is expected, and then the end of the text. -/
def outlineFrom (handles : Handles) (stack : List Expected) (tokens : List Token) :
    Outline (List Char) :=
  match stack with
  | [] => { parts := [], complete := isEnd tokens }
  | expected :: stack =>
    match _h : step? handles expected tokens with
    | none => { parts := [], complete := false }
    | some step => .prepend step.parts (outlineFrom handles (step.stack ++ stack) step.rest)
termination_by stepBound stack tokens
decreasing_by
  have := stepBound_of_step _h
  simp only [stepBound, totalWeight_append, totalWeight] at this ⊢
  omega

/-- What handles stand for without any directive. -/
def defaultHandles : Handles :=
  [("!".toList, "!".toUTF8.toList), ("!!".toList, "tag:yaml.org,2002:".toUTF8.toList)]

/-- Reads the directives before a document, up to the mark of its start. There may be one version,
which must be 1.1 or 1.2, and one meaning for each handle. -/
def directives? (versionSeen : Bool) (handles : Handles) :
    List Token → Option (Handles × List Token)
  | .version major minor :: rest =>
    if versionSeen || major ≠ 1 || (minor ≠ 1 && minor ≠ 2) then none
    else directives? true handles rest
  | .tagHandle handle meaning :: rest =>
    if (handles.lookup handle).isSome then none
    else directives? versionSeen ((handle, meaning) :: handles) rest
  | .documentStart :: rest => some (handles, rest)
  | _ => none

/-- Whether a token can stand only between documents. -/
def Token.isOutside : Token → Bool
  | .version _ _ | .tagHandle _ _ | .documentStart | .documentEnd | .streamEnd => true
  | _ => false

/-- Whether a token starts a document that is marked. -/
def Token.startsMarked : Token → Bool
  | .version _ _ | .tagHandle _ _ | .documentStart => true
  | _ => false

/-- Reads tokens as a document. A document that is not marked must hold something. -/
def outline (tokens : List Token) : Outline (List Char) :=
  if tokens.head?.any Token.startsMarked then
    match directives? false [] tokens with
    | none => { parts := [], complete := false }
    | some (handles, rest) =>
      if rest.head?.any Token.isOutside then .prepend [emptyScalar] (outlineFrom [] [] rest)
      else outlineFrom (handles ++ defaultHandles) [.node .block] rest
  else outlineFrom defaultHandles [.node .block] tokens

end TreeShell.Document.Yaml
