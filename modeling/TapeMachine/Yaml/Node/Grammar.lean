import TapeMachine.Yaml.Node

/-!
# The grammar of documents

Nodes from tokens, by recursive descent.  Every rule takes an amount of fuel that bounds the depth of
its calls.  No five calls in a row leave all tokens in place, so a multiple of their number suffices.
After a fault the `broken` token is all that is left, and every open collection ends with it.
-/

namespace TapeMachine.Yaml

/-- The state of reading a document from its tokens. -/
structure Reading where
  tokens : List Token
  /-- The prefixes that tag handles stand for. -/
  handles : List (String × List Nat)
  /-- The numbers that the anchors stand for now, each name once. -/
  anchors : List (String × Nat)
  size : Nat

abbrev Grammar := StateM Reading

namespace Grammar

/-! ## Moves -/

/-- The token that comes next. -/
def peek : Grammar Token := do
  return (← get).tokens.head?.getD ⟨.streamEnd, .origin⟩

def skip : Grammar Unit :=
  modify fun r => { r with tokens := r.tokens.tail }

/-- Records that a node, or the end of a collection, has been met. -/
def enlarge : Grammar Unit :=
  modify fun r => { r with size := r.size + 1 }

/-- Ends the document with a fault. -/
def fail (fault : Fault) : Grammar Node := do
  modify fun r => { r with tokens := [⟨.broken fault, fault.mark⟩] }
  return .broken fault

/-- A node of which nothing is written. -/
def omitted (mark : Mark) : Grammar Node := do
  enlarge
  return .scalar mark .empty .plain ""

/-! ## Properties -/

/-- The number of a new node with an anchor: that of the names in use. -/
def define (anchor : Option String) : Grammar (Option Nat) := do
  match anchor with
  | none => return none
  | some name =>
    let r ← get
    let number := r.anchors.length
    set { r with anchors := (name, number) :: r.anchors.filter (·.1 != name) }
    return some number

/-- An anchor and a tag with their marks. -/
structure Written where
  anchor : Option (String × Mark)
  tag : Option (TagName × Mark)

def anchor? : Grammar (Option (String × Mark)) := do
  let t ← peek
  match t.kind with
  | .anchor name => skip; return some (name, t.mark)
  | _ => return none

def tag? : Grammar (Option (TagName × Mark)) := do
  let t ← peek
  match t.kind with
  | .tag name => skip; return some (name, t.mark)
  | _ => return none

/-- Reads at most one anchor and one tag, in either order; gives the mark of the first, or that of the
token that follows. -/
def written : Grammar (Written × Mark) := do
  let start := (← peek).mark
  match ← anchor? with
  | some anchor => return (⟨some anchor, ← tag?⟩, start)
  | none =>
    let tag ← tag?
    let anchor ← if tag.isSome then anchor? else pure none
    return (⟨anchor, tag⟩, start)

/-- The octets of a tag; an empty handle stands for nothing. -/
def resolveTag (handles : List (String × List Nat)) (name : TagName) : Option (List Nat) :=
  if name.handle.isEmpty then some name.octets
  else (handles.lookup name.handle).map (· ++ name.octets)

/-! ## Nodes -/

/-- The ends of entries in block collections. -/
def endsBlockValue : TokenKind → Bool
  | .key | .value | .blockEnd => true
  | _ => false

def endsBlockEntry : TokenKind → Bool
  | .blockEntry | .blockEnd => true
  | _ => false

def endsIndentlessEntry : TokenKind → Bool
  | .blockEntry | .key | .value | .blockEnd => true
  | _ => false

def endsFlowSequenceKey : TokenKind → Bool
  | .value | .flowEntry | .flowSequenceEnd => true
  | _ => false

def endsFlowSequenceValue : TokenKind → Bool
  | .flowEntry | .flowSequenceEnd => true
  | _ => false

def endsFlowMappingKey : TokenKind → Bool
  | .value | .flowEntry | .flowMappingEnd => true
  | _ => false

def endsFlowMappingValue : TokenKind → Bool
  | .flowEntry | .flowMappingEnd => true
  | _ => false

mutual

/-- A node.  Block collections may begin only where `block` holds, and a sequence without indentation
only where `indentless` holds, that is inside a block mapping. -/
def node : Nat → (block indentless : Bool) → Grammar Node
  | 0, _, _ => return .scalar .origin .empty .plain ""
  | fuel + 1, block, indentless => do
    let t ← peek
    match t.kind with
    | .reference name =>
      match (← get).anchors.lookup name with
      | none => fail (.bare .anchorUnknown t.mark)
      | some number => skip; enlarge; return .reference t.mark number
    | _ =>
      let (written, start) ← written
      let t ← peek
      match t.kind, written.tag with
      | .broken fault, _ => return .broken fault
      | _, none => content fuel block indentless written start none
      | _, some (name, mark) =>
        match resolveTag (← get).handles name with
        | none => fail (.within .node start .tagHandleUndefined mark)
        | some tag => content fuel block indentless written start (some tag)

/-- A node after its properties. -/
def content : Nat → (block indentless : Bool) → Written → Mark → Option (List Nat) → Grammar Node
  | 0, _, _, _, _, _ => return .scalar .origin .empty .plain ""
  | fuel + 1, block, indentless, written, start, tag => do
    let t ← peek
    let open_ (kind : CollectionKind) (items : Grammar (List Node)) : Grammar Node := do
      let number ← define (written.anchor.map (·.1))
      enlarge
      return .collection start ⟨tag, number⟩ kind (← items)
    match t.kind, block, indentless with
    | .blockEntry, _, true => open_ .sequence (indentlessEntries fuel)
    | .scalar style text, _, _ =>
      skip
      let number ← define (written.anchor.map (·.1))
      enlarge
      return .scalar start ⟨tag, number⟩ style text
    | .flowSequenceStart, _, _ => skip; open_ .sequence (flowEntries fuel t.mark true)
    | .flowMappingStart, _, _ => skip; open_ .mapping (flowPairs fuel t.mark true)
    | .blockSequenceStart, true, _ => skip; open_ .sequence (blockEntries fuel t.mark)
    | .blockMappingStart, true, _ => skip; open_ .mapping (blockPairs fuel t.mark)
    | _, _, _ =>
      if written.anchor.isSome || tag.isSome then
        let number ← define (written.anchor.map (·.1))
        enlarge
        return .scalar start ⟨tag, number⟩ .plain ""
      else fail (.within (if block then .blockNode else .flowNode) start .contentMissing t.mark)

/-- The entries of a block sequence that begins at `start`. -/
def blockEntries : Nat → (start : Mark) → Grammar (List Node)
  | 0, _ => return []
  | fuel + 1, start => do
    let t ← peek
    match t.kind with
    | .blockEntry =>
      skip
      let item ←
        if endsBlockEntry (← peek).kind then omitted t.mark else node fuel true false
      return item :: (← blockEntries fuel start)
    | .blockEnd => skip; enlarge; return []
    | .broken fault => return [.broken fault]
    | _ => return [← fail (.within .blockSequence start .dashMissing t.mark)]

/-- The entries of a sequence that is not indented deeper than the mapping around it. -/
def indentlessEntries : Nat → Grammar (List Node)
  | 0 => return []
  | fuel + 1 => do
    let t ← peek
    match t.kind with
    | .blockEntry =>
      skip
      let item ←
        if endsIndentlessEntry (← peek).kind then omitted t.mark else node fuel true false
      return item :: (← indentlessEntries fuel)
    | .broken fault => return [.broken fault]
    | _ => enlarge; return []

/-- The keys and values of a block mapping that begins at `start`. -/
def blockPairs : Nat → (start : Mark) → Grammar (List Node)
  | 0, _ => return []
  | fuel + 1, start => do
    let t ← peek
    match t.kind with
    | .key =>
      skip
      let key ← if endsBlockValue (← peek).kind then omitted t.mark else node fuel true true
      let value ← blockValue fuel
      return key :: value :: (← blockPairs fuel start)
    | .blockEnd => skip; enlarge; return []
    | .broken fault => return [.broken fault]
    | _ => return [← fail (.within .blockMapping start .keyMissing t.mark)]

/-- The value that belongs to a key of a block mapping. -/
def blockValue : Nat → Grammar Node
  | 0 => return .scalar .origin .empty .plain ""
  | fuel + 1 => do
    let t ← peek
    match t.kind with
    | .value =>
      skip
      if endsBlockValue (← peek).kind then omitted t.mark else node fuel true true
    | .broken fault => return .broken fault
    | _ => omitted t.mark

/-- The entries of a flow sequence that begins at `start`; a comma stands before all but the first. -/
def flowEntries : Nat → (start : Mark) → (first : Bool) → Grammar (List Node)
  | 0, _, _ => return []
  | fuel + 1, start, first => do
    let t ← peek
    match t.kind, first with
    | .flowSequenceEnd, _ => skip; enlarge; return []
    | .broken fault, _ => return [.broken fault]
    | .flowEntry, false =>
      skip
      match (← peek).kind with
      | .flowSequenceEnd => skip; enlarge; return []
      | _ =>
        let item ← flowEntry fuel
        return item :: (← flowEntries fuel start false)
    | _, true =>
      let item ← flowEntry fuel
      return item :: (← flowEntries fuel start false)
    | _, false => return [← fail (.within .flowSequence start .sequenceCommaMissing t.mark)]

/-- An entry of a flow sequence: a node, or a mapping of one pair without braces. -/
def flowEntry : Nat → Grammar Node
  | 0 => return .scalar .origin .empty .plain ""
  | fuel + 1 => do
    let t ← peek
    match t.kind with
    | .key =>
      skip
      enlarge
      let items ← flowPair fuel
      return .collection t.mark .empty .mapping items
    | _ => node fuel false false

/-- The one pair of a mapping without braces.  A key that is left out takes the token after the
question mark with it.  The mapping ends with the pair, but only where a token follows. -/
def flowPair : Nat → Grammar (List Node)
  | 0 => return []
  | fuel + 1 => do
    let t ← peek
    let key ←
      if endsFlowSequenceKey t.kind then do skip; omitted t.mark else node fuel false false
    let t ← peek
    let value ← match t.kind with
      | .value =>
        skip
        if endsFlowSequenceValue (← peek).kind then omitted t.mark else node fuel false false
      | .broken fault => pure (.broken fault)
      | _ => omitted t.mark
    match (← peek).kind with
    | .broken _ => return [key, value]
    | _ => enlarge; return [key, value]

/-- The keys and values of a flow mapping that begins at `start`; a comma stands before all but the
first. -/
def flowPairs : Nat → (start : Mark) → (first : Bool) → Grammar (List Node)
  | 0, _, _ => return []
  | fuel + 1, start, first => do
    let t ← peek
    match t.kind, first with
    | .flowMappingEnd, _ => skip; enlarge; return []
    | .broken fault, _ => return [.broken fault]
    | .flowEntry, false =>
      skip
      match (← peek).kind with
      | .flowMappingEnd => skip; enlarge; return []
      | _ =>
        let (key, value) ← flowMember fuel
        return key :: value :: (← flowPairs fuel start false)
    | _, true =>
      let (key, value) ← flowMember fuel
      return key :: value :: (← flowPairs fuel start false)
    | _, false => return [← fail (.within .flowMapping start .mappingCommaMissing t.mark)]

/-- A key and its value in a flow mapping; a key without a question mark and without a colon has none. -/
def flowMember : Nat → Grammar (Node × Node)
  | 0 => return (.scalar .origin .empty .plain "", .scalar .origin .empty .plain "")
  | fuel + 1 => do
    let t ← peek
    match t.kind with
    | .key =>
      skip
      let t ← peek
      let key ← if endsFlowMappingKey t.kind then omitted t.mark else node fuel false false
      return (key, ← flowValue fuel)
    | _ =>
      let key ← node fuel false false
      let t ← peek
      match t.kind with
      | .broken fault => return (key, .broken fault)
      | _ => return (key, ← omitted t.mark)

def flowValue : Nat → Grammar Node
  | 0 => return .scalar .origin .empty .plain ""
  | fuel + 1 => do
    let t ← peek
    match t.kind with
    | .value =>
      skip
      if endsFlowMappingValue (← peek).kind then omitted t.mark else node fuel false false
    | .broken fault => return .broken fault
    | _ => omitted t.mark

end

/-! ## Documents -/

def coreHandle : String × List Nat := ("!!", "tag:yaml.org,2002:".toList.map Char.toNat)

/-- The prefixes that need no directive. -/
def defaultHandles : List (String × List Nat) := [("!", ['!'.toNat]), coreHandle]

/-- Reads the directives before a document; gives what is wrong with them, if something is. -/
def directives : Nat → (version : Bool) → Grammar (Option Fault)
  | 0, _ => return none
  | fuel + 1, version => do
    let t ← peek
    match t.kind with
    | .versionDirective major minor =>
      if version then return some (.bare .versionRepeated t.mark)
      else if major != 1 || (minor != 1 && minor != 2) then
        return some (.bare .versionUnsupported t.mark)
      else skip; directives fuel true
    | .tagDirective handle octets =>
      if ((← get).handles.lookup handle).isSome then
        return some (.bare .tagDirectiveRepeated t.mark)
      else
        skip
        modify fun r => { r with handles := (handle, octets) :: r.handles }
        directives fuel version
    | .documentStart => skip; return none
    | .broken fault => return some fault
    | _ => return some (.bare .documentStartMissing t.mark)

/-- Whether a token cannot belong to the content of a document. -/
def endsDocument : TokenKind → Bool
  | .versionDirective _ _ | .tagDirective _ _ | .documentStart | .documentEnd | .streamEnd => true
  | _ => false

/-- The root of the first document. -/
def root (fuel : Nat) : Grammar (Option Node) := do
  let t ← peek
  match t.kind with
  | .streamEnd => return none
  | .versionDirective _ _ | .tagDirective _ _ | .documentStart =>
    match ← directives fuel false with
    | some fault => return some (← fail fault)
    | none =>
      modify fun r => { r with handles := r.handles ++ defaultHandles }
      let t ← peek
      if endsDocument t.kind then return some (← omitted t.mark)
      else return some (← node fuel true false)
  | _ =>
    modify fun r => { r with handles := defaultHandles }
    return some (← node fuel true false)

/-- Whether something other than the end of the text follows, past the rules that end documents. -/
def continues : List Token → Bool
  | ⟨.documentEnd, _⟩ :: ts => continues ts
  | ⟨.streamEnd, _⟩ :: _ => false
  | _ => true

/-- The first document. -/
def document (fuel : Nat) : Grammar Document := do
  let t ← peek
  match t.kind with
  | .streamStart => skip
  | _ => pure ()
  let root ← root fuel
  let r ← get
  let fault := match r.tokens with
    | ⟨.broken fault, _⟩ :: _ => some fault
    | _ => none
  return ⟨root, r.size, fault, root.isSome && continues r.tokens⟩

end Grammar

/-- The first document that the tokens of a text hold. -/
def Document.ofTokens (tokens : List Token) : Document :=
  ((Grammar.document (5 * tokens.length + 8)).run ⟨tokens, [], [], 0⟩).1

end TapeMachine.Yaml
