import StyleEngine.Json.Reader
import StyleEngine.Json.Printer
import StyleEngine.Yaml.Node

/-! # Records from data files

Settings, manifests and cached results are records, read from JSON or from YAML.
What the two formats make of a value is gathered in `DataNode`; the records
themselves are read by one set of rules: unknown fields are passed over, a field
given twice is refused, and in JSON a record may also be the list of its fields'
values in the order of their declaration.
-/
namespace StyleEngine

/-- The fields of a record, by name or by place. -/
inductive Fields (ν : Type) where
  | named (fields : List (String × ν))
  | placed (values : List ν)

/-- A node of a data format, and what may be read from it. -/
class DataNode (ν : Type) where
  text? : ν → Option String
  flag? : ν → Option Bool
  count? : ν → Option Nat
  /-- Whether the node says that there is no value; `none` if it says so wrongly. -/
  absent? : ν → Option Bool
  items? : ν → Option (List ν)
  entries? : ν → Option (List (String × ν))
  fields? : ν → Option (Fields ν)
  /-- The name that a node gives to one of a few alternatives. -/
  variant? : ν → Option String

namespace Record

variable {ν α : Type} [DataNode ν]

/-- A value that may be absent. -/
def optional (read : ν → Option α) (n : ν) : Option (Option α) :=
  match DataNode.absent? n with
  | none => none
  | some true => some none
  | some false => (read n).map some

/-- A number up to a bound. -/
def countUpTo (bound : Nat) (n : ν) : Option Nat :=
  (DataNode.count? n).bind fun k => if k ≤ bound then some k else none

/-- The greatest number of 64 bits. -/
def maxCount : Nat := UInt64.size - 1

def list (read : ν → Option α) (n : ν) : Option (List α) :=
  (DataNode.items? n).bind fun items => items.mapM read

/-- A map under text keys, as pairs in ascending order of their keys; of several values under
one key the last one counts. -/
def insertSorted (k : String) (v : α) : List (String × α) → List (String × α)
  | [] => [(k, v)]
  | (k', v') :: rest =>
    if k < k' then (k, v) :: (k', v') :: rest
    else if k = k' then (k, v) :: rest
    else (k', v') :: insertSorted k v rest

def map (read : ν → Option α) (n : ν) : Option (List (String × α)) :=
  (DataNode.entries? n).bind fun entries =>
    (entries.mapM fun e => (read e.2).map (e.1, ·)).map fun entries =>
      entries.foldl (fun m e => insertSorted e.1 e.2 m) []

/-- The values of a record's known fields. -/
abbrev Row (ν : Type) := List (String × ν)

/-- Reads the fields of a record whose fields have the given names, in this order. -/
def row? (names : List String) (n : ν) : Option (Row ν) :=
  match DataNode.fields? n with
  | none => none
  | some (.placed values) =>
    if values.length ≤ names.length then some (names.zip values) else none
  | some (.named fields) =>
    let known := fields.filter fun f => names.contains f.1
    if (known.map Prod.fst).eraseDups.length = known.length then some known else none

/-- A field that must be given. -/
def required (row : Row ν) (name : String) (read : ν → Option α) : Option α :=
  (row.lookup name).bind read

/-- A field that has a value when it is not given. -/
def orElse (row : Row ν) (name : String) (default : α) (read : ν → Option α) : Option α :=
  match row.lookup name with
  | none => some default
  | some n => read n

end Record

/-! ### JSON -/

namespace Json

instance : DataNode Json where
  text? | .str s => some s | _ => none
  flag? | .bool b => some b | _ => none
  count? | .nat n => some n | _ => none
  absent? | .null => some true | _ => some false
  items? | .arr items => some items | _ => none
  entries? | .obj members => some members | _ => none
  fields?
    | .obj members => some (.named members)
    | .arr items => some (.placed items)
    | _ => none
  variant?
    | .str s => some s
    | .obj [(name, .null)] => some name
    | _ => none

end Json

/-! ### YAML -/

namespace Yaml

/-- A node together with the anchors that its aliases refer to; an empty document has none. -/
structure Ref where
  anchors : List (Nat × Node)
  node : Option Node

namespace Ref

/-- The node itself, with an alias followed. -/
def target (r : Ref) : Option Node :=
  match r.node with
  | some (.alias id) => r.anchors.lookup id
  | n => n

/-- Whether a plain scalar says that there is no value. -/
def isNullText (s : String) : Bool := s == "null" || s == "Null" || s == "NULL" || s == "~"

def text? (r : Ref) : Option String :=
  match r.target with
  | some (.scalar _ _ _ text) => some text
  | _ => none

/-- The text of a scalar that may be read as something else than a text. -/
def bare? (r : Ref) (tag : String) : Option String :=
  match r.target with
  | some (.scalar _ t style text) =>
    if style = .plain ∨ (style = .literal ∧ t = some ("tag:yaml.org,2002:" ++ tag)) then some text
    else none
  | _ => none

def flag? (r : Ref) : Option Bool :=
  match r.bare? "bool" with
  | some s =>
    if s == "true" || s == "True" || s == "TRUE" then some true
    else if s == "false" || s == "False" || s == "FALSE" then some false
    else none
  | none => none

/-- The number that digits of a base denote. -/
def digitsValue? (base : Nat) (cs : List Char) : Option Nat :=
  if cs.isEmpty then none
  else cs.foldlM (fun n c =>
    match Json.hexDigit? c with
    | some d => if d < base then some (n * base + d) else none
    | none => none) 0

/-- A number: decimal without needless zeros, or after `0x`, `0o` or `0b`. -/
def number? (text : List Char) : Option Nat :=
  let body := match text with
    | '+' :: rest => rest
    | cs => cs
  match body with
  | '0' :: 'x' :: rest => digitsValue? 16 rest
  | '0' :: 'o' :: rest => digitsValue? 8 rest
  | '0' :: 'b' :: rest => digitsValue? 2 rest
  | '0' :: _ :: _ => none
  | cs => digitsValue? 10 cs

def count? (r : Ref) : Option Nat := (r.bare? "int").bind fun s => number? s.toList

def absent? (r : Ref) : Option Bool :=
  match r.target with
  | none => some true
  | some (.scalar _ tag .plain text) =>
    match tag with
    | some "tag:yaml.org,2002:null" => if isNullText text then some true else none
    | some _ => some false
    | none => some (text.isEmpty || isNullText text)
  | some _ => some false

/-- Whether nothing is written where a collection is expected. -/
def isBlankValue (r : Ref) : Bool :=
  match r.target with
  | none => true
  | some (.scalar _ _ .plain text) => text.isEmpty
  | _ => false

def items? (r : Ref) : Option (List Ref) :=
  match r.target with
  | some (.sequence _ items) => some (items.map fun n => ⟨r.anchors, some n⟩)
  | _ => if r.isBlankValue then some [] else none

def entries? (r : Ref) : Option (List (String × Ref)) :=
  match r.target with
  | some (.mapping _ entries) =>
    entries.mapM fun e =>
      (Ref.text? ⟨r.anchors, some e.1⟩).map fun key => (key, ⟨r.anchors, some e.2⟩)
  | _ => if r.isBlankValue then some [] else none

def variant? (r : Ref) : Option String :=
  match r.target with
  | some (.scalar _ tag style text) =>
    match tag.map String.toList with
    | some ('!' :: name) =>
      if style = .plain ∧ (text.isEmpty ∨ isNullText text) then some (String.ofList name) else none
    | _ => some text
  | _ => none

instance : DataNode Ref where
  text? := text?
  flag? := flag?
  count? := count?
  absent? := absent?
  items? := items?
  entries? := entries?
  fields? r := r.entries?.map .named
  variant? := variant?

end Ref

end Yaml

/-- The data formats. -/
inductive DataFormat where
  | json
  | yaml
deriving DecidableEq

/-- Reads a text in a format by a rule that holds for both. -/
def DataFormat.read? {α : Type} (f : DataFormat)
    (read : (ν : Type) → [DataNode ν] → ν → Option α) (text : String) : Option α :=
  match f with
  | .json => (Json.parse? text).bind (read Json)
  | .yaml => (Yaml.parse? text).bind fun d => read Yaml.Ref ⟨d.anchors, d.root⟩

end StyleEngine
