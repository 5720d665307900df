import StyleEngine.Cache.Store

/-! # The results cache

A cache is a document over a store.  It is dirty when the document has changed
since it was last saved.  An entry of a file is used only while the content of
the file, the settings and the configuration are those it was made under.
-/
namespace StyleEngine

/-- The cached results over a store. -/
structure Cache where
  store : CacheStore
  document : CacheDocument := {}
  dirty : Bool := false

namespace Cache

/-- The cache over a store.  If nothing can be read from the store, the cache is empty. -/
def openOver (store : CacheStore) (t : FileTree) : Cache :=
  match store.load t with
  | .ok (some document) => { store, document }
  | _ => { store }

/-! ### Projects -/

/-- The configuration that a project was last analyzed under. -/
def loadProject? (c : Cache) (p : ProjectInfo) : Option String :=
  (c.document.projects.lookup p.cacheKey).map ProjectEntry.configuration

/-- Whether the results of a project can be used. -/
def isProjectValid (c : Cache) (p : ProjectInfo) (settingsDigest : String) : Bool :=
  match c.document.projects.lookup p.cacheKey with
  | some e =>
    e.settingsDigest == settingsDigest && sameConfiguration e.configuration p.flags
  | none => false

/-- Notes what a project is analyzed under. -/
def saveProject (c : Cache) (p : ProjectInfo) (settingsDigest : String) : Cache :=
  let entry : ProjectEntry := { configuration := p.fingerprint, settingsDigest }
  { c with
    document.projects := Record.insertSorted p.cacheKey entry c.document.projects
    dirty := c.dirty || c.document.projects.lookup p.cacheKey != some entry }

/-! ### Files -/

/-- Whether an entry belongs to a file as it is now. -/
def isCurrent (e : FileEntry) (p : ProjectInfo) (f : SourceFile) (settingsDigest : String) :
    Bool :=
  e.contentDigest == f.digest && e.settingsDigest == settingsDigest &&
    sameConfiguration e.configuration p.flags

/-- The cached violations of a file, if they can be used. -/
def loadFile? (c : Cache) (p : ProjectInfo) (f : SourceFile) (settingsDigest : String) :
    Option (List Violation) :=
  match c.document.files.lookup f.path.cacheKey with
  | some e => if isCurrent e p f settingsDigest then some e.violations else none
  | none => none

/-- Puts an entry under a key. -/
def putEntry (c : Cache) (key : String) (e : FileEntry) : Cache :=
  { c with
    document.files := Record.insertSorted key e c.document.files
    dirty := c.dirty || !((c.document.files.lookup key).any fun old => old.agrees e) }

/-- The entry for the violations of a file. -/
def entryFor (p : ProjectInfo) (f : SourceFile) (settingsDigest : String)
    (violations : List Violation) : FileEntry :=
  { configuration := p.fingerprint, settingsDigest, contentDigest := f.digest, violations }

/-- Stores the violations of a file. -/
def saveFile (c : Cache) (p : ProjectInfo) (f : SourceFile) (settingsDigest : String)
    (violations : List Violation) : Cache :=
  c.putEntry f.path.cacheKey (entryFor p f settingsDigest violations)

/-- Drops the entry of a file. -/
def removeFile (c : Cache) (path : Path) : Cache :=
  { c with
    document.files := c.document.files.filter fun e => e.1 != path.cacheKey
    dirty := c.dirty || (c.document.files.lookup path.cacheKey).isSome }

/-! ### The whole document -/

/-- Saves the document if it has changed. -/
def flush (c : Cache) (t : FileTree) : Cache × FileTree × Except FileFault Unit :=
  if !c.dirty then (c, t, .ok ())
  else
    let (store, t, result) := c.store.save t c.document
    match result with
    | .error e => ({ c with store }, t, .error e)
    | .ok () => ({ c with store, dirty := false }, t, .ok ())

/-- The wording of a failure to save or read a cache. -/
def faultMessage (e : FileFault) : String := "IO error: " ++ e.message

/-- Drops the entries of files that are no more; the number is how many. -/
def prune (c : Cache) (t : FileTree) : Cache × Nat :=
  let files := c.document.files.filter fun e => t.exists? ⟨e.1⟩
  let removed := c.document.files.length - files.length
  ({ c with document.files := files, dirty := c.dirty || removed != 0 }, removed)

/-- Drops all entries. -/
def clear (c : Cache) : Cache :=
  { c with
    document.projects := []
    document.files := []
    dirty := c.dirty || !c.document.projects.isEmpty || !c.document.files.isEmpty }

/-- The numbers of projects, files and violations. -/
def stats (c : Cache) : Nat × Nat × Nat :=
  (c.document.projects.length, c.document.files.length,
    (c.document.files.flatMap fun e => e.2.violations).length)

def describe (c : Cache) : String :=
  "ResultsCache \x7b stats: CacheStats \x7b total_projects: " ++ toString c.stats.1 ++
    ", total_entries: " ++ toString c.stats.2.1 ++ ", total_violations: " ++
    toString c.stats.2.2 ++ " \x7d, dirty: " ++ toString c.dirty ++ ", .. \x7d"

end Cache

end StyleEngine
