import StyleEngine.Project
import StyleEngine.Text.Split

/-! # Cached results

A cache document holds, for each project, the configuration and the settings it
was last analyzed under, and for each file the violations that were found, with
the configuration, settings and content that they belong to.
-/
namespace StyleEngine

/-- The format of cache documents; documents of another version are of no use. -/
def cacheVersion : Nat := 2

/-- What a project was last analyzed under. -/
structure ProjectEntry where
  configuration : String
  settingsDigest : String := ""
deriving DecidableEq

/-- The results of a file, and what they belong to. -/
structure FileEntry where
  configuration : String
  settingsDigest : String := ""
  contentDigest : String
  violations : List Violation
deriving DecidableEq

/-- All cached results, under keys in ascending order. -/
structure CacheDocument where
  version : Nat := cacheVersion
  projects : List (String × ProjectEntry) := []
  files : List (String × FileEntry) := []

namespace ProjectEntry

def read? {ν : Type} [DataNode ν] (n : ν) : Option ProjectEntry :=
  (Record.row? ["configuration", "settings_digest"] n).bind fun row => do
    let configuration ← Record.required row "configuration" DataNode.text?
    let settingsDigest ← Record.orElse row "settings_digest" "" DataNode.text?
    return { configuration, settingsDigest }

def toJson (e : ProjectEntry) : Json :=
  .obj [("configuration", .str e.configuration), ("settings_digest", .str e.settingsDigest)]

end ProjectEntry

namespace FileEntry

/-- Whether two entries say the same, with the files of violations compared as paths. -/
def agrees (a b : FileEntry) : Bool :=
  a.configuration == b.configuration && a.settingsDigest == b.settingsDigest &&
    a.contentDigest == b.contentDigest && a.violations.length == b.violations.length &&
    (a.violations.zip b.violations).all fun vs => vs.1.agrees vs.2

def fieldNames : List String :=
  ["configuration", "settings_digest", "content_digest", "violations"]

def read? {ν : Type} [DataNode ν] (n : ν) : Option FileEntry :=
  (Record.row? fieldNames n).bind fun row => do
    let configuration ← Record.required row "configuration" DataNode.text?
    let settingsDigest ← Record.orElse row "settings_digest" "" DataNode.text?
    let contentDigest ← Record.required row "content_digest" DataNode.text?
    let violations ← Record.required row "violations" (Record.list Violation.read?)
    return { configuration, settingsDigest, contentDigest, violations }

def toJson (e : FileEntry) : Json :=
  .obj [("configuration", .str e.configuration), ("settings_digest", .str e.settingsDigest),
    ("content_digest", .str e.contentDigest),
    ("violations", .arr (e.violations.map Violation.toJson))]

end FileEntry

namespace CacheDocument

def read? {ν : Type} [DataNode ν] (n : ν) : Option CacheDocument :=
  (Record.row? ["version", "projects", "files"] n).bind fun row => do
    let version ← Record.required row "version" (Record.countUpTo (UInt32.size - 1))
    let projects ← Record.orElse row "projects" [] (Record.map ProjectEntry.read?)
    let files ← Record.orElse row "files" [] (Record.map FileEntry.read?)
    return { version, projects, files }

def parse? (f : DataFormat) (text : String) : Option CacheDocument :=
  f.read? (fun _ => read?) text

def toJson (d : CacheDocument) : Json :=
  .obj [("version", .nat d.version),
    ("projects", .obj (d.projects.map fun e => (e.1, e.2.toJson))),
    ("files", .obj (d.files.map fun e => (e.1, e.2.toJson)))]

end CacheDocument

/-- The flags in a text that joins them by semicolons; blanks around flags and empty flags do
not count. -/
def cachedFlags (text : String) : List String :=
  ((splitParts ';' text).map trimBlanks).filter fun flag => !flag.isEmpty

/-- Whether cached flags are the flags of a project: as many, and each among them. -/
def sameConfiguration (cached : String) (flags : List String) : Bool :=
  let old := (cachedFlags cached).eraseDups
  old.length == flags.length && old.all flags.contains

/-- The key of a project. -/
def ProjectInfo.cacheKey (p : ProjectInfo) : String := p.root.text ++ "|" ++ p.name

/-- The key of a file. -/
def Path.cacheKey (p : Path) : String := p.text

end StyleEngine
