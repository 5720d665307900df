import StyleEngine.Yaml.Token

/-! # YAML nodes

The tree of scalars, sequences and mappings that a YAML text with one document
describes.  Anchors are numbered by how many names were known when they were
met, and an alias names the number its anchor has last been given; `Document`
keeps the nodes by number.
-/
namespace StyleEngine

namespace Yaml

/-- A node of a document. -/
inductive Node where
  | scalar (anchor : Option Nat) (tag : Option String) (style : Style) (text : String)
  | sequence (anchor : Option Nat) (items : List Node)
  | mapping (anchor : Option Nat) (entries : List (Node × Node))
  | alias (target : Nat)

/-- An empty scalar, which stands for what was left out. -/
def Node.nothing : Node := .scalar none none .plain ""

/-- The state of reading nodes: the tokens ahead, the numbers of the anchors, the first for
the latest, and the prefixes that tag handles stand for. -/
structure Compose where
  tokens : List Token
  anchors : List (String × Nat) := []
  handles : List (String × String) := []

namespace Compose

/-- The state after the token ahead. -/
def drop (s : Compose) : Compose := { s with tokens := s.tokens.tail }

/-- How many names the anchors have. -/
def nameCount (s : Compose) : Nat := (s.anchors.map Prod.fst).eraseDups.length

/-- The properties in front of a node: its anchor and its tag, in any order, each once. -/
def properties (s : Compose) : Option String × Option (String × String) × Compose :=
  match s.tokens with
  | .anchor a :: .tag h x :: rest => (some a, some (h, x), { s with tokens := rest })
  | .anchor a :: rest => (some a, none, { s with tokens := rest })
  | .tag h x :: .anchor a :: rest => (some a, some (h, x), { s with tokens := rest })
  | .tag h x :: rest => (none, some (h, x), { s with tokens := rest })
  | _ => (none, none, s)

/-- The tag that a handle and a suffix spell. -/
def resolveTag (s : Compose) : Option (String × String) → Option (Option String)
  | none => some none
  | some ("", suffix) => some (some suffix)
  | some (handle, suffix) =>
    match s.handles.lookup handle with
    | some uri => some (some (uri ++ suffix))
    | none =>
      if handle == "!" then some (some ("!" ++ suffix))
      else if handle == "!!" then some (some ("tag:yaml.org,2002:" ++ suffix))
      else none

/-- Numbers an anchor. -/
def number (s : Compose) : Option String → Option Nat × Compose
  | none => (none, s)
  | some name =>
    (some s.nameCount, { s with anchors := (name, s.nameCount) :: s.anchors })

mutual

/-- A node.  Inside a block (`inBlock`) block collections are allowed, and as a mapping's key
or value (`indentless`) also a sequence that is not indented. -/
def node? (inBlock indentless : Bool) : Nat → Compose → Option (Node × Compose)
  | 0, _ => none
  | fuel + 1, s =>
    match s.tokens with
    | .alias name :: _ => (s.anchors.lookup name).map fun id => (.alias id, s.drop)
    | _ =>
      let (anchor, tagParts, s) := s.properties
      match s.resolveTag tagParts with
      | none => none
      | some tag =>
        let (id, s) := s.number anchor
        match s.tokens with
        | .blockEntry :: _ =>
          if indentless then
            (indentlessItems fuel s).map fun r => (.sequence id r.1, r.2)
          else if anchor.isSome || tag.isSome then some (.scalar id tag .plain "", s)
          else none
        | .scalar style text :: _ =>
          some (.scalar id (if tag == some "!" then none else tag) style text, s.drop)
        | .flowSequenceStart :: _ =>
          (flowItems true fuel s.drop).map fun r => (.sequence id r.1, r.2)
        | .flowMappingStart :: _ =>
          (flowEntries true fuel s.drop).map fun r => (.mapping id r.1, r.2)
        | .blockSequenceStart :: _ =>
          if inBlock then (blockItems fuel s.drop).map fun r => (.sequence id r.1, r.2)
          else if anchor.isSome || tag.isSome then some (.scalar id tag .plain "", s)
          else none
        | .blockMappingStart :: _ =>
          if inBlock then (blockEntries fuel s.drop).map fun r => (.mapping id r.1, r.2)
          else if anchor.isSome || tag.isSome then some (.scalar id tag .plain "", s)
          else none
        | _ =>
          if anchor.isSome || tag.isSome then some (.scalar id tag .plain "", s) else none

/-- The items of a block sequence up to and with its end. -/
def blockItems : Nat → Compose → Option (List Node × Compose)
  | 0, _ => none
  | fuel + 1, s =>
    match s.tokens with
    | .blockEnd :: _ => some ([], s.drop)
    | .blockEntry :: next :: _ =>
      match next with
      | .blockEntry | .blockEnd =>
        (blockItems fuel s.drop).map fun r => (.nothing :: r.1, r.2)
      | _ =>
        match node? true false fuel s.drop with
        | none => none
        | some (n, s) => (blockItems fuel s).map fun r => (n :: r.1, r.2)
    | _ => none

/-- The items of a sequence that is not indented below the key it belongs to. -/
def indentlessItems : Nat → Compose → Option (List Node × Compose)
  | 0, _ => none
  | fuel + 1, s =>
    match s.tokens with
    | .blockEntry :: next :: _ =>
      match next with
      | .blockEntry | .key | .value | .blockEnd =>
        (indentlessItems fuel s.drop).map fun r => (.nothing :: r.1, r.2)
      | _ =>
        match node? true false fuel s.drop with
        | none => none
        | some (n, s) => (indentlessItems fuel s).map fun r => (n :: r.1, r.2)
    | _ => some ([], s)

/-- The entries of a block mapping up to and with its end. -/
def blockEntries : Nat → Compose → Option (List (Node × Node) × Compose)
  | 0, _ => none
  | fuel + 1, s =>
    match s.tokens with
    | .blockEnd :: _ => some ([], s.drop)
    | .key :: next :: _ =>
      let key : Option (Node × Compose) := match next with
        | .key | .value | .blockEnd => some (.nothing, s.drop)
        | _ => node? true true fuel s.drop
      match key with
      | none => none
      | some (k, s) =>
        match blockValue fuel s with
        | none => none
        | some (v, s) => (blockEntries fuel s).map fun r => ((k, v) :: r.1, r.2)
    | _ => none

/-- The value of a block mapping's entry. -/
def blockValue : Nat → Compose → Option (Node × Compose)
  | 0, _ => none
  | fuel + 1, s =>
    match s.tokens with
    | .value :: next :: _ =>
      match next with
      | .key | .value | .blockEnd => some (.nothing, s.drop)
      | _ => node? true true fuel s.drop
    | .value :: [] => none
    | _ => some (.nothing, s)

/-- The items of a flow sequence up to and with its end. -/
def flowItems (first : Bool) : Nat → Compose → Option (List Node × Compose)
  | 0, _ => none
  | fuel + 1, s =>
    match s.tokens with
    | .flowSequenceEnd :: _ => some ([], s.drop)
    | _ =>
      let after : Option Compose :=
        if first then some s
        else match s.tokens with
          | .flowEntry :: _ => some s.drop
          | _ => none
      match after with
      | none => none
      | some s =>
        match s.tokens with
        | .flowSequenceEnd :: _ => some ([], s.drop)
        | .key :: _ =>
          match flowPair fuel s.drop with
          | none => none
          | some (n, s) => (flowItems false fuel s).map fun r => (n :: r.1, r.2)
        | _ =>
          match node? false false fuel s with
          | none => none
          | some (n, s) => (flowItems false fuel s).map fun r => (n :: r.1, r.2)

/-- A mapping of one entry inside a flow sequence, after its key indicator. -/
def flowPair : Nat → Compose → Option (Node × Compose)
  | 0, _ => none
  | fuel + 1, s =>
    let key : Option (Node × Compose) := match s.tokens with
      | .value :: _ | .flowEntry :: _ | .flowSequenceEnd :: _ => some (.nothing, s.drop)
      | _ => node? false false fuel s
    match key with
    | none => none
    | some (k, s) =>
      match s.tokens with
      | .value :: .flowEntry :: _ | .value :: .flowSequenceEnd :: _ =>
        some (.mapping none [(k, .nothing)], s.drop)
      | .value :: _ =>
        (node? false false fuel s.drop).map fun r => (.mapping none [(k, r.1)], r.2)
      | _ => some (.mapping none [(k, .nothing)], s)

/-- The entries of a flow mapping up to and with its end. -/
def flowEntries (first : Bool) : Nat → Compose → Option (List (Node × Node) × Compose)
  | 0, _ => none
  | fuel + 1, s =>
    match s.tokens with
    | .flowMappingEnd :: _ => some ([], s.drop)
    | _ =>
      let after : Option Compose :=
        if first then some s
        else match s.tokens with
          | .flowEntry :: _ => some s.drop
          | _ => none
      match after with
      | none => none
      | some s =>
        match s.tokens with
        | .flowMappingEnd :: _ => some ([], s.drop)
        | .key :: _ =>
          let s := s.drop
          let key : Option (Node × Compose) := match s.tokens with
            | .value :: _ | .flowEntry :: _ | .flowMappingEnd :: _ => some (.nothing, s)
            | _ => node? false false fuel s
          match key with
          | none => none
          | some (k, s) =>
            match flowValue fuel s with
            | none => none
            | some (v, s) => (flowEntries false fuel s).map fun r => ((k, v) :: r.1, r.2)
        | _ =>
          match node? false false fuel s with
          | none => none
          | some (k, s) => (flowEntries false fuel s).map fun r => ((k, .nothing) :: r.1, r.2)

/-- The value of a flow mapping's entry. -/
def flowValue : Nat → Compose → Option (Node × Compose)
  | 0, _ => none
  | fuel + 1, s =>
    match s.tokens with
    | .value :: .flowEntry :: _ | .value :: .flowMappingEnd :: _ => some (.nothing, s.drop)
    | .value :: _ => node? false false fuel s.drop
    | _ => some (.nothing, s)

end

/-- Reads the directives in front of a document.  The version must be 1.1 or 1.2, and no
directive may be given twice. -/
def directives : List Token → Bool → List (String × String) →
    Option (List Token × List (String × String))
  | .versionDirective major minor :: rest, seen, handles =>
    if seen || major != 1 || !(minor == 1 || minor == 2) then none
    else directives rest true handles
  | .tagDirective handle uri :: rest, seen, handles =>
    if (handles.lookup handle).isSome then none else directives rest seen ((handle, uri) :: handles)
  | rest, _, handles => some (rest, handles)

end Compose

mutual

/-- The anchored nodes inside a node, in the order in which they start. -/
def Node.anchored : Node → List (Nat × Node)
  | .scalar (some id) tag style text => [(id, .scalar (some id) tag style text)]
  | .scalar none _ _ _ => []
  | .sequence anchor items =>
    (match anchor with | some id => [(id, .sequence anchor items)] | none => []) ++
      anchoredItems items
  | .mapping anchor entries =>
    (match anchor with | some id => [(id, .mapping anchor entries)] | none => []) ++
      anchoredEntries entries
  | .alias _ => []

def anchoredItems : List Node → List (Nat × Node)
  | [] => []
  | n :: rest => n.anchored ++ anchoredItems rest

def anchoredEntries : List (Node × Node) → List (Nat × Node)
  | [] => []
  | (k, v) :: rest => k.anchored ++ v.anchored ++ anchoredEntries rest

end

/-- A document: its root, absent from an empty text, and the nodes that aliases name. -/
structure Document where
  root : Option Node
  anchors : List (Nat × Node) := []

/-- A document with the anchors of its root, of which the last one of a number counts. -/
def Document.ofNode (n : Node) : Document := { root := some n, anchors := n.anchored.reverse }

/-- Reads a text that holds at most one document. -/
def parse? (text : String) : Option Document :=
  match tokens? text with
  | none => none
  | some [] => some { root := none }
  | some tokens =>
    match Compose.directives tokens false [] with
    | none => none
    | some (rest, handles) =>
      let isExplicit := match rest with | .documentStart :: _ => true | _ => false
      let given := match tokens with
        | .versionDirective _ _ :: _ | .tagDirective _ _ :: _ => true
        | _ => false
      if given && !isExplicit then none
      else
        let start : Compose := { tokens := if isExplicit then rest.tail else rest, handles }
        let found : Option (Node × Compose) :=
          match isExplicit, start.tokens with
          | true, [] | true, .documentEnd :: _ | true, .documentStart :: _
          | true, .versionDirective _ _ :: _ | true, .tagDirective _ _ :: _ =>
            some (.nothing, start)
          | _, _ => Compose.node? true false (4 * tokens.length + 8) start
        match found with
        | none => none
        | some (n, s) =>
          let isEnd : Token → Bool := fun t => match t with | .documentEnd => true | _ => false
          if s.tokens.all isEnd then some (Document.ofNode n) else none

end Yaml

end StyleEngine
