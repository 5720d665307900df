import StyleEngine.Rule
import StyleEngine.Settings.Basic

/-! # Module manifests

A module declares add-ins: for each the factory that builds it and the
descriptors it is configured with, the most specific first.
-/
namespace StyleEngine

/-- One layer of what an add-in is configured with. -/
structure InitDescriptor where
  id : String
  name : Option String := none
  description : Option String := none
  rules : List Rule := []
  /-- Free properties, in ascending order of their keys. -/
  properties : List (String × String) := []

/-- A map of texts as JSON. -/
def Json.ofTextMap (m : List (String × String)) : Json := .obj (m.map fun e => (e.1, .str e.2))

namespace InitDescriptor

def read? {ν : Type} [DataNode ν] (n : ν) : Option InitDescriptor :=
  (Record.row? ["id", "name", "description", "rules", "properties"] n).bind fun row => do
    let id ← Record.required row "id" DataNode.text?
    let name ← Record.orElse row "name" none (Record.optional DataNode.text?)
    let description ← Record.orElse row "description" none (Record.optional DataNode.text?)
    let rules ← Record.orElse row "rules" [] (Record.list Rule.read?)
    let properties ← Record.orElse row "properties" [] (Record.map DataNode.text?)
    return { id, name, description, rules, properties }

def toJson (d : InitDescriptor) : Json :=
  .obj [("id", .str d.id), ("name", Json.ofOption .str d.name),
    ("description", Json.ofOption .str d.description), ("rules", .arr (d.rules.map Rule.toJson)),
    ("properties", Json.ofTextMap d.properties)]

def withProperty (d : InitDescriptor) (key value : String) : InitDescriptor :=
  { d with properties := Record.insertSorted key value d.properties }

end InitDescriptor

/-- The two kinds of add-ins. -/
inductive AddInKind where
  | parser
  | analyzer
deriving DecidableEq

namespace AddInKind

def name : AddInKind → String
  | .parser => "parser"
  | .analyzer => "analyzer"

def ofName? (name : String) : Option AddInKind :=
  if name = "parser" then some .parser
  else if name = "analyzer" then some .analyzer
  else none

def read? {ν : Type} [DataNode ν] (n : ν) : Option AddInKind :=
  (DataNode.variant? n).bind ofName?

end AddInKind

/-- The declaration of an add-in. -/
structure AddInSpec where
  id : String
  kind : AddInKind
  factory : String
  /-- The parser whose files an analyzer checks. -/
  parser : Option String := none
  /-- The extensions of the files that a parser reads. -/
  extensions : List String := []
  descriptors : List InitDescriptor := []
  properties : List (String × String) := []

namespace AddInSpec

def fieldNames : List String :=
  ["id", "kind", "factory", "parser", "extensions", "descriptors", "properties"]

def read? {ν : Type} [DataNode ν] (n : ν) : Option AddInSpec :=
  (Record.row? fieldNames n).bind fun row => do
    let id ← Record.required row "id" DataNode.text?
    let kind ← Record.required row "kind" AddInKind.read?
    let factory ← Record.required row "factory" DataNode.text?
    let parser ← Record.orElse row "parser" none (Record.optional DataNode.text?)
    let extensions ← Record.orElse row "extensions" [] (Record.list DataNode.text?)
    let descriptors ← Record.orElse row "descriptors" [] (Record.list InitDescriptor.read?)
    let properties ← Record.orElse row "properties" [] (Record.map DataNode.text?)
    return { id, kind, factory, parser, extensions, descriptors, properties }

def toJson (s : AddInSpec) : Json :=
  .obj [("id", .str s.id), ("kind", .str s.kind.name), ("factory", .str s.factory),
    ("parser", Json.ofOption .str s.parser), ("extensions", Json.ofTexts s.extensions),
    ("descriptors", .arr (s.descriptors.map InitDescriptor.toJson)),
    ("properties", Json.ofTextMap s.properties)]

end AddInSpec

/-- A module of add-ins. -/
structure Manifest where
  name : String
  version : String := "1.0.0"
  description : String := ""
  /-- The key by which a host knows a module it trusts. -/
  key : Option String := none
  addins : List AddInSpec := []

namespace Manifest

/-- Reads what a module says about itself. -/
def readHead? {ν : Type} [DataNode ν] (n : ν) : Option Manifest :=
  (Record.row? ["name", "version", "description", "key"] n).bind fun row => do
    let name ← Record.required row "name" DataNode.text?
    let version ← Record.orElse row "version" "1.0.0" DataNode.text?
    let description ← Record.orElse row "description" "" DataNode.text?
    let key ← Record.orElse row "key" none (Record.optional DataNode.text?)
    return { name, version, description, key }

def read? {ν : Type} [DataNode ν] (n : ν) : Option Manifest :=
  (Record.row? ["module", "addins"] n).bind fun row => do
    let head ← Record.required row "module" readHead?
    let addins ← Record.orElse row "addins" [] (Record.list AddInSpec.read?)
    return { head with addins }

def parse? (f : DataFormat) (text : String) : Option Manifest :=
  f.read? (fun _ => read?) text

def toJson (m : Manifest) : Json :=
  .obj [("module", .obj [("name", .str m.name), ("version", .str m.version),
      ("description", .str m.description), ("key", Json.ofOption .str m.key)]),
    ("addins", .arr (m.addins.map AddInSpec.toJson))]

end Manifest

/-- Whether a module's key is the host's, byte by byte.  A module without a key is never
trusted. -/
def isTrustedKey (key : Option String) (hostKey : List UInt8) : Bool :=
  match key with
  | some k => k.toUTF8.toList == hostKey
  | none => false

end StyleEngine
