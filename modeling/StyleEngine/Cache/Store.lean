import StyleEngine.Cache.Document

/-! # Stores of cached results

Where a cache document is kept between runs: in memory or in a file.  A file is
written next to its place and then moved there, so that its reader sees either
the old document or the new one.
-/
namespace StyleEngine

/-- The place of a cache document. -/
inductive CacheStore where
  /-- In memory, with the number of times something was saved. -/
  | memory (document : Option CacheDocument) (saves : Nat)
  | file (path : Path)

namespace CacheStore

/-- The document of a text, if it is one of the current version. -/
def usable? (text : String) : Option CacheDocument :=
  (CacheDocument.parse? .json text).filter fun d => d.version == cacheVersion

/-- The stored document, if there is a usable one. -/
def load (s : CacheStore) (t : FileTree) : Except FileFault (Option CacheDocument) :=
  match s with
  | .memory document _ => .ok document
  | .file path =>
    match t.read path with
    | .error .notFound => .ok none
    | .error e => .error e
    | .ok (.bytes _) => .ok none
    | .ok (.text text) => .ok (usable? text)

/-- The file that is written before it takes the place of another. -/
def draft (path : Path) : Path := path.withExtension "json.tmp"

/-- Makes the directory of a file and writes the file. -/
def writeDraft (t : FileTree) (path : Path) (text : String) :
    FileTree × Except FileFault Unit :=
  match t.makeDirectories (path.parent?.getD ⟨""⟩) with
  | .error e => (t, .error e)
  | .ok t =>
    match t.write (draft path) (.text text) with
    | .error e => (t, .error e)
    | .ok t => (t, .ok ())

/-- Saves a document.  What was done before a failure stays done. -/
def save (s : CacheStore) (t : FileTree) (d : CacheDocument) :
    CacheStore × FileTree × Except FileFault Unit :=
  match s with
  | .memory _ saves => (.memory (some d) (saves + 1), t, .ok ())
  | .file path =>
    match writeDraft t path d.toJson.compact with
    | (t, .error e) => (s, t, .error e)
    | (t, .ok ()) =>
      match t.rename (draft path) path with
      | .error e => (s, t, .error e)
      | .ok t => (s, t, .ok ())

end CacheStore

end StyleEngine
