import StyleEngine.FileTree

/-! # File patterns

A pattern on the command line stands for the files it matches, in the order of
their names.  It is matched component by component: `?` and `*` stand for one and
for any number of characters, `[...]` and `[!...]` for one of a set and for any
other, and a component `**` for any number of directories.
-/
namespace StyleEngine

namespace FilePattern

/-- What is wrong with a pattern. -/
inductive Reason where
  | wildcards
  | recursion
  | range
deriving DecidableEq

def Reason.text : Reason → String
  | .wildcards => "wildcards are either regular \x60*\x60 or recursive \x60**\x60"
  | .recursion => "recursive wildcards must form a single path component"
  | .range => "invalid range pattern"

/-- A fault in a pattern and its place. -/
structure Fault where
  position : Nat
  reason : Reason
deriving DecidableEq

def Fault.message (f : Fault) : String :=
  "Pattern syntax error near position " ++ toString f.position ++ ": " ++ f.reason.text

/-- A range of characters. -/
structure Range where
  low : Char
  high : Char

inductive Token where
  | literal (c : Char)
  | any
  | sequence
  | directories
  | within (ranges : List Range)
  | without (ranges : List Range)

/-- The ranges between brackets: `a-z`, or one character. -/
def ranges : List Char → List Range
  | a :: '-' :: b :: rest => ⟨a, b⟩ :: ranges rest
  | a :: rest => ⟨a, a⟩ :: ranges rest
  | [] => []

/-- Reads a set of characters after its opening bracket.  A closing bracket right at the start
belongs to the set. -/
def readSet? : List Char → Option (Token × List Char)
  | '!' :: first :: rest =>
    match rest.span (· != ']') with
    | (inside, ']' :: after) => some (.without (ranges (first :: inside)), after)
    | _ => none
  | ['!'] => none
  | first :: rest =>
    match rest.span (· != ']') with
    | (inside, ']' :: after) => some (.within (ranges (first :: inside)), after)
    | _ => none
  | [] => none

/-- Reads the tokens of a pattern from a position on; `before` is the character in front of it
and `fuel` bounds the number of tokens. -/
def readFrom : Nat → Nat → Option Char → List Char → Except Fault (List Token)
  | 0, _, _, _ => .ok []
  | _ + 1, _, _, [] => .ok []
  | fuel + 1, position, before, '*' :: cs =>
    let stars := (cs.takeWhile (· == '*')).length + 1
    let rest := cs.dropWhile (· == '*')
    if stars > 2 then .error ⟨position + 2, .wildcards⟩
    else if stars = 1 then (readFrom fuel (position + 1) (some '*') rest).map (.sequence :: ·)
    else if position ≠ 0 ∧ before ≠ some '/' then .error ⟨position - 1, .recursion⟩
    else match rest with
      | [] => .ok [.directories]
      | '/' :: after => (readFrom fuel (position + 3) (some '/') after).map (.directories :: ·)
      | _ => .error ⟨position + 2, .recursion⟩
  | fuel + 1, position, _, '?' :: cs => (readFrom fuel (position + 1) (some '?') cs).map (.any :: ·)
  | fuel + 1, position, _, '[' :: cs =>
    match readSet? cs with
    | some (token, rest) =>
      (readFrom fuel (position + 1 + (cs.length - rest.length)) (some ']') rest).map (token :: ·)
    | none => .error ⟨position, .range⟩
  | fuel + 1, position, _, c :: cs =>
    (readFrom fuel (position + 1) (some c) cs).map (.literal c :: ·)

/-- The tokens of a pattern. -/
def read (cs : List Char) : Except Fault (List Token) := readFrom (cs.length + 1) 0 none cs

/-- One component of a pattern. -/
structure Part where
  tokens : List Token

namespace Part

/-- The name that a component without wildcards stands for. -/
def literal? (p : Part) : Option String :=
  (p.tokens.mapM fun (t : Token) =>
    match t with
    | .literal c => some c
    | _ => none).map String.ofList

def isRecursive (p : Part) : Bool := p.tokens.any fun
  | .directories => true
  | _ => false

def startsWithDot (p : Part) : Bool :=
  match p.tokens with
  | .literal '.' :: _ => true
  | _ => false

end Part

def inRanges (rs : List Range) (c : Char) : Bool := rs.any fun r => r.low ≤ c && c ≤ r.high

/-- Whether tokens match a name; `fuel` bounds the work. -/
def matchesName : Nat → List Token → List Char → Bool
  | 0, _, _ => false
  | _ + 1, [], name => name.isEmpty
  | fuel + 1, .sequence :: ts, name =>
    matchesName fuel ts name ||
      match name with
      | [] => false
      | _ :: rest => matchesName fuel (.sequence :: ts) rest
  | fuel + 1, .directories :: ts, name => matchesName fuel ts name
  | _ + 1, _ :: _, [] => false
  | fuel + 1, t :: ts, c :: rest =>
    (match t with
      | .literal d => c == d
      | .within rs => inRanges rs c
      | .without rs => !inRanges rs c
      | _ => true) && matchesName fuel ts rest

def Part.matchesText (p : Part) (name : String) : Bool :=
  let cs := name.toList
  matchesName (p.tokens.length + cs.length + 1) p.tokens cs

/-! ### Looking for files -/

/-- Where a pattern is looked for. -/
structure Search where
  tree : FileTree
  /-- Whether only directories count. -/
  directoriesOnly : Bool

namespace Search

/-- A path at the end of a pattern. -/
def hit (s : Search) (p : Path) : List Path :=
  if s.directoriesOnly && !s.tree.isDirectory p then [] else [p]

/-- A name in a directory; in the working directory it stands alone. -/
def within (p : Path) (name : String) : Path :=
  if p.sameAs ⟨"."⟩ then ⟨name⟩ else p.join ⟨name⟩

/-- The names in a directory. -/
def names (s : Search) (p : Path) : List String :=
  match s.tree.resolve p with
  | .ok l => s.tree.names l
  | .error _ => []

/-- The recursive components at the start of a pattern as one, and those after them. -/
def collapse : List Part → List Part × List Part
  | [] => ([], [])
  | p :: rest =>
    if p.isRecursive then
      match collapse rest with
      | ([], after) => ([p], after)
      | (last, after) => (last, after)
    else ([], p :: rest)

mutual

/-- What the components match in a directory. -/
def fill (s : Search) : Nat → List Part → Path → List Path
  | 0, _, _ => []
  | _ + 1, [], _ => []
  | fuel + 1, part :: rest, path =>
    match part.literal? with
    | some name =>
      let next := within path name
      let found := if name = "." ∨ name = ".." then s.tree.isDirectory path
        else s.tree.exists? next
      if !found then []
      else if rest.isEmpty then s.hit next
      else fill s fuel rest next
    | none =>
      if !s.tree.isDirectory path then []
      else
        let special := if part.startsWithDot then
            ["..", "."].filter part.matchesText else []
        special.flatMap (fun name =>
            let next := path.join ⟨name⟩
            if rest.isEmpty then s.hit next else fill s fuel rest next) ++
          (s.names path).flatMap fun name =>
            visit s fuel (part :: rest) (within path name) name

/-- What the components match at an entry of a directory. -/
def visit (s : Search) : Nat → List Part → Path → String → List Path
  | 0, _, _, _ => []
  | fuel + 1, parts, path, name =>
    match collapse parts with
    | ([], after) => meet s fuel after path name
    | (last, after) =>
      if s.tree.isDirectory path then
        (if after.isEmpty then [path] else meet s fuel after path name) ++
          fill s fuel (last ++ after) path
      else if after.isEmpty then []
      else meet s fuel after path name

/-- What the components match at an entry, the first of them its name. -/
def meet (s : Search) : Nat → List Part → Path → String → List Path
  | 0, _, _, _ => []
  | _ + 1, [], _, _ => []
  | fuel + 1, part :: rest, path, name =>
    if !part.matchesText name then []
    else if rest.isEmpty then s.hit path
    else fill s fuel rest path

end

end Search

/-- The components of a pattern: what stands between separators; a separator at the end
starts no component. -/
def components (pattern : String) : List (List Char) :=
  let parts := (Path.mk pattern).segments.map Prod.fst
  if parts.getLast? == some [] then parts.dropLast else parts

/-- The paths that a pattern matches in a file tree. -/
def expand (t : FileTree) (pattern : String) : Except Fault (List Path) :=
  match read pattern.toList with
  | .error f => .error f
  | .ok _ =>
    let absolute := (Path.mk pattern).isAbsolute
    let inner := if absolute then String.ofList (pattern.toList.drop 1) else pattern
    let texts := if inner.isEmpty then [[]] else components inner
    match texts.mapM read with
    | .error f => .error f
    | .ok parts =>
      let s : Search := ⟨t, FileTree.endsOpen ⟨pattern⟩⟩
      let fuel := 3 * (parts.length + 1) * (t.depth + parts.length + 2)
      .ok (s.fill fuel (parts.map Part.mk) ⟨if absolute then "/" else "."⟩)

end FilePattern

end StyleEngine
