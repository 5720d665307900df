import StyleEngine.Yaml.Scalar

/-! # YAML tokens

A YAML text is a list of tokens in which the block structure, told by
indentation, is made explicit: `Token.blockSequenceStart`, `blockMappingStart`
and `blockEnd` bracket the blocks, and `key` stands in front of every key.  A
*simple key* is a key without an indicator; it is known to be one only when its
colon is met, on the same line and within 1024 characters, and its `key` token
is put in front of it then.
-/
namespace StyleEngine

namespace Yaml

/-- A token of a YAML text. -/
inductive Token where
  | versionDirective (major minor : Nat)
  | tagDirective (handle uri : String)
  | documentStart
  | documentEnd
  | blockSequenceStart
  | blockMappingStart
  | blockEnd
  | flowSequenceStart
  | flowSequenceEnd
  | flowMappingStart
  | flowMappingEnd
  | blockEntry
  | flowEntry
  | key
  | value
  | anchor (name : String)
  | alias (name : String)
  | tag (handle suffix : String)
  | scalar (style : Style) (text : String)

/-- A place at which a simple key may have started. -/
structure SimpleKey where
  possible : Bool := false
  required : Bool := false
  token : Nat := 0
  index : Nat := 0
  line : Nat := 0
  column : Nat := 0

/-- The state of reading tokens.  `keys` has a simple key for each level of flow collections,
the innermost first, and one for the block context. -/
structure Scan where
  cursor : Cursor
  tokens : Array Token := #[]
  indent : Int := -1
  indents : List Int := []
  keyAllowed : Bool := true
  keys : List SimpleKey := [{}]

namespace Scan

/-- Whether reading is inside a flow collection. -/
def inFlow (s : Scan) : Bool := s.keys.length > 1

def push (s : Scan) (t : Token) : Scan := { s with tokens := s.tokens.push t }

/-- Puts a token in front of the one at a place. -/
def insertAt (s : Scan) (i : Nat) (t : Token) : Scan :=
  { s with tokens := s.tokens.extract 0 i ++ #[t] ++ s.tokens.extract i s.tokens.size }

/-- Closes the blocks that are indented deeper than a column; `depth` bounds their number. -/
def unrollTo (column : Int) : Nat → Scan → Scan
  | 0, s => s
  | depth + 1, s =>
    if s.indent > column then
      unrollTo column depth
        { s with
          tokens := s.tokens.push .blockEnd
          indent := s.indents.headD (-1)
          indents := s.indents.drop 1 }
    else s

def unroll (s : Scan) (column : Int) : Scan :=
  if s.inFlow then s else unrollTo column (s.indents.length + 1) s

/-- Opens a block at a column that is deeper than the current one; its token goes in front of
the one at `place`, or to the end. -/
def roll (s : Scan) (column : Int) (place : Option Nat) (t : Token) : Scan :=
  if !s.inFlow && decide (s.indent < column) then
    let s := { s with indents := s.indent :: s.indents, indent := column }
    match place with
    | some i => s.insertAt i t
    | none => s.push t
  else s

/-- Gives up the simple key of the current level; a required one must not be lost. -/
def removeKey (s : Scan) : Option Scan :=
  match s.keys with
  | [] => some s
  | k :: rest =>
    if k.possible && k.required then none
    else some { s with keys := { k with possible := false } :: rest }

/-- Notes that a simple key may start here. -/
def saveKey (s : Scan) : Option Scan :=
  if s.keyAllowed then
    match s.removeKey with
    | none => none
    | some s =>
      some { s with keys :=
        { possible := true
          required := !s.inFlow && s.indent == (s.cursor.column : Int)
          token := s.tokens.size
          index := s.cursor.index
          line := s.cursor.line
          column := s.cursor.column } :: s.keys.drop 1 }
  else some s

/-- Gives up the simple keys that the cursor has left behind. -/
def dropStaleKeys (s : Scan) : Option Scan :=
  let isStale : SimpleKey → Bool := fun k =>
    k.possible && (k.line < s.cursor.line || k.index + 1024 < s.cursor.index)
  if s.keys.any fun k => isStale k && k.required then none
  else some { s with
    keys := s.keys.map fun k => if isStale k then { k with possible := false } else k }

/-- Passes over blanks, comments and line breaks; `fuel` bounds the number of lines. -/
def skipToToken : Nat → Scan → Scan
  | 0, s => s
  | fuel + 1, s =>
    let p := s.cursor
    let p := if p.index == 0 && p.rest.head? == some '\ufeff' then p.skip else p
    let p := p.skipWhile fun c => c == ' ' || ((s.inFlow || !s.keyAllowed) && c == '\t')
    let p := if p.rest.head? == some '#' then p.skipWhile fun c => !isBreak c else p
    match p.rest with
    | [] => { s with cursor := p }
    | c :: _ =>
      if isBreak c then
        skipToToken fuel
          { s with cursor := p.skipLine, keyAllowed := s.keyAllowed || !s.inFlow }
      else { s with cursor := p }

/-- One token that is an indicator of `n` characters. -/
def indicator (s : Scan) (n : Nat) (t : Token) : Scan :=
  { s with cursor := s.cursor.skipN n, tokens := s.tokens.push t }

/-! ### Directives, tags and anchors -/

/-- A version number of at most nine digits. -/
def versionNumber? (p : Cursor) : Option (Nat × Cursor) :=
  let ds := p.rest.takeWhile Char.isDigit
  if ds.isEmpty || ds.length > 9 then none
  else some (Json.decimalValue ds, p.skipN ds.length)

/-- A tag handle: `!`, `!!` or `!word!`; in front of a suffix also the start of a word. -/
def tagHandle? (inDirective : Bool) (p : Cursor) : Option (List Char × Cursor) :=
  match p.rest with
  | '!' :: rest =>
    let word := rest.takeWhile isWordChar
    let q := p.skipN (1 + word.length)
    match q.rest with
    | '!' :: _ => some ('!' :: word ++ ['!'], q.skip)
    | _ => if inDirective && !word.isEmpty then none else some ('!' :: word, q)
  | _ => none

/-- Whether a character may stand in a tag. -/
def isTagChar (uri : Bool) (c : Char) : Bool :=
  isWordChar c || (";/?:@&=+$.!~*'()%".toList).contains c || (uri && [',', '[', ']'].contains c)

/-- The characters of a tag, with percent escapes of single bytes read. -/
def tagChars (uri : Bool) : Nat → Cursor → List Char → Option (List Char × Cursor)
  | 0, p, acc => some (acc.reverse, p)
  | fuel + 1, p, acc =>
    match p.rest with
    | '%' :: rest =>
      match hexNumber? 2 0 rest with
      | some n => if n < 0x80 then tagChars uri fuel (p.skipN 3) (Char.ofNat n :: acc) else none
      | none => none
    | c :: _ =>
      if isTagChar uri c then tagChars uri fuel p.skip (c :: acc) else some (acc.reverse, p)
    | [] => some (acc.reverse, p)

/-- The rest of a tag after a start that was read as a handle; it must not be empty. -/
def tagRest? (uri : Bool) (head : List Char) (p : Cursor) : Option (List Char × Cursor) :=
  match tagChars uri p.rest.length p [] with
  | none => none
  | some (cs, q) => if head.isEmpty && cs.isEmpty then none else some (head.drop 1 ++ cs, q)

/-- A tag, from its exclamation mark on. -/
def tag? (inFlow : Bool) (p : Cursor) : Option (Token × Cursor) :=
  let found : Option (List Char × List Char × Cursor) :=
    match p.rest with
    | '!' :: '<' :: _ =>
      match tagRest? true [] (p.skipN 2) with
      | some (uri, q) => if q.rest.head? == some '>' then some ([], uri, q.skip) else none
      | none => none
    | _ =>
      match tagHandle? false p with
      | none => none
      | some (handle, q) =>
        if handle.length ≥ 2 && handle.getLast? == some '!' then
          (tagRest? false [] q).map fun r => (handle, r.1, r.2)
        else match tagRest? false handle q with
          | none => none
          | some ([], q) => some ([], ['!'], q)
          | some (suffix, q) => some (['!'], suffix, q)
  match found with
  | none => none
  | some (handle, suffix, q) =>
    if (inFlow && q.rest.head? == some ',') || atGap q.rest then
      some (.tag (String.ofList handle) (String.ofList suffix), q)
    else none

/-- An anchor or an alias, from its indicator on. -/
def anchorName? (p : Cursor) : Option (String × Cursor) :=
  let word := p.skip.rest.takeWhile isWordChar
  let q := p.skip.skipN word.length
  if word.isEmpty then none
  else if atGap q.rest || (match q.rest with
      | c :: _ => ['?', ':', ',', ']', '}', '%', '@', '\x60'].contains c
      | [] => true) then some (String.ofList word, q)
  else none

/-- A directive, from its percent sign up to and with the end of its line. -/
def directive? (p : Cursor) : Option (Token × Cursor) :=
  let name := p.skip.rest.takeWhile isWordChar
  let q := p.skip.skipN name.length
  if name.isEmpty || !atGap q.rest then none
  else
    let found : Option (Token × Cursor) :=
      if String.ofList name == "YAML" then
        match versionNumber? (q.skipWhile isGap) with
        | some (major, q) =>
          if q.rest.head? == some '.' then
            (versionNumber? q.skip).map fun r => (.versionDirective major r.1, r.2)
          else none
        | none => none
      else if String.ofList name == "TAG" then
        match tagHandle? true (q.skipWhile isGap) with
        | some (handle, q) =>
          match q.rest with
          | c :: _ =>
            if isGap c then
              match tagRest? true [] (q.skipWhile isGap) with
              | some (uri, q) =>
                if atGap q.rest then
                  some (.tagDirective (String.ofList handle) (String.ofList uri), q)
                else none
              | none => none
            else none
          | [] => none
        | none => none
      else none
    match found with
    | none => none
    | some (t, q) =>
      let q := q.skipWhile isGap
      let q := if q.rest.head? == some '#' then q.skipWhile fun c => !isBreak c else q
      if atBreak q.rest then some (t, q.skipLine) else none

/-! ### One token after another -/

/-- The end of the text: all blocks are closed. -/
def finish (s : Scan) : Option Scan := (s.unroll (-1)).removeKey

/-- A token that no simple key can contain, at the outermost level. -/
def fetchOuter (s : Scan) (next : Option (Token × Cursor)) : Option Scan :=
  match (s.unroll (-1)).removeKey, next with
  | some s, some (t, cursor) =>
    some { s with cursor, keyAllowed := false, tokens := s.tokens.push t }
  | _, _ => none

def fetchFlowStart (s : Scan) (t : Token) : Option Scan :=
  s.saveKey.map fun s => { s.indicator 1 t with keys := {} :: s.keys, keyAllowed := true }

def fetchFlowEnd (s : Scan) (t : Token) : Option Scan :=
  s.removeKey.map fun s =>
    { s.indicator 1 t with
      keys := if s.inFlow then s.keys.drop 1 else s.keys
      keyAllowed := false }

def fetchFlowEntry (s : Scan) : Option Scan :=
  s.removeKey.map fun s => { s.indicator 1 .flowEntry with keyAllowed := true }

def fetchBlockEntry (s : Scan) : Option Scan :=
  if !s.inFlow && !s.keyAllowed then none
  else (s.roll s.cursor.column none .blockSequenceStart).removeKey.map fun s =>
    { s.indicator 1 .blockEntry with keyAllowed := true }

def fetchKey (s : Scan) : Option Scan :=
  if !s.inFlow && !s.keyAllowed then none
  else (s.roll s.cursor.column none .blockMappingStart).removeKey.map fun s =>
    { s.indicator 1 .key with keyAllowed := !s.inFlow }

def fetchValue (s : Scan) : Option Scan :=
  match s.keys with
  | [] => none
  | k :: rest =>
    if k.possible then
      let s := (s.insertAt k.token .key).roll k.column (some k.token) .blockMappingStart
      some { s.indicator 1 .value with
        keys := { k with possible := false } :: rest, keyAllowed := false }
    else if !s.inFlow && !s.keyAllowed then none
    else
      let s := s.roll s.cursor.column none .blockMappingStart
      some { s.indicator 1 .value with keyAllowed := !s.inFlow }

/-- A token that a simple key may start with. -/
def fetchKeyed (s : Scan) (next : Cursor → Option (Token × Cursor)) : Option Scan :=
  match s.saveKey with
  | none => none
  | some s =>
    (next s.cursor).map fun r =>
      { s with cursor := r.2, tokens := s.tokens.push r.1, keyAllowed := false }

def fetchBlockScalar (s : Scan) (isLiteral : Bool) : Option Scan :=
  match s.removeKey with
  | none => none
  | some s =>
    (block isLiteral s.indent s.cursor).map fun r =>
      { s with
        cursor := r.1
        tokens := s.tokens.push (.scalar (if isLiteral then .literal else .folded) r.2)
        keyAllowed := true }

def fetchPlain (s : Scan) : Option Scan :=
  match s.saveKey with
  | none => none
  | some s =>
    (plain s.inFlow s.indent s.cursor).map fun r =>
      { s with
        cursor := r.1
        tokens := s.tokens.push (.scalar .plain r.2.1)
        keyAllowed := r.2.2 }

/-- The characters that no plain scalar starts with. -/
def indicators : List Char :=
  ['-', '?', ':', ',', '[', ']', '{', '}', '#', '&', '*', '!', '|', '>', '\'', '"', '%', '@',
    '\x60']

/-- Reads the token that starts with `c`, which `rest` follows. -/
def fetch (s : Scan) (c : Char) (rest : List Char) : Option Scan :=
  let p := s.cursor
  if p.column == 0 && c == '%' then s.fetchOuter (directive? p)
  else if p.column == 0 && atMarker '-' p.rest then s.fetchOuter (some (.documentStart, p.skipN 3))
  else if p.column == 0 && atMarker '.' p.rest then s.fetchOuter (some (.documentEnd, p.skipN 3))
  else if c == '[' then s.fetchFlowStart .flowSequenceStart
  else if c == '{' then s.fetchFlowStart .flowMappingStart
  else if c == ']' then s.fetchFlowEnd .flowSequenceEnd
  else if c == '}' then s.fetchFlowEnd .flowMappingEnd
  else if c == ',' then s.fetchFlowEntry
  else if c == '-' && atGap rest then s.fetchBlockEntry
  else if c == '?' && (s.inFlow || atGap rest) then s.fetchKey
  else if c == ':' && (s.inFlow || atGap rest) then s.fetchValue
  else if c == '*' then s.fetchKeyed fun p => (anchorName? p).map fun r => (.alias r.1, r.2)
  else if c == '&' then s.fetchKeyed fun p => (anchorName? p).map fun r => (.anchor r.1, r.2)
  else if c == '!' then s.fetchKeyed (tag? s.inFlow)
  else if c == '|' && !s.inFlow then s.fetchBlockScalar true
  else if c == '>' && !s.inFlow then s.fetchBlockScalar false
  else if c == '\'' then
    s.fetchKeyed fun p => (quoted true p).map fun r => (.scalar .single r.2, r.1)
  else if c == '"' then
    s.fetchKeyed fun p => (quoted false p).map fun r => (.scalar .double r.2, r.1)
  else if !(isGap c || indicators.contains c) ||
      (c == '-' && !(match rest with | d :: _ => isGap d | [] => false)) ||
      (!s.inFlow && (c == '?' || c == ':') && !atGap rest) then s.fetchPlain
  else none

/-- Reads all tokens; each takes at least one character. -/
def run : Nat → Scan → Option Scan
  | 0, _ => none
  | fuel + 1, s =>
    match (s.skipToToken (s.cursor.rest.length + 1)).dropStaleKeys with
    | none => none
    | some s =>
      let s := s.unroll s.cursor.column
      match s.cursor.rest with
      | [] => s.finish
      | c :: rest =>
        match s.fetch c rest with
        | none => none
        | some s => run fuel s

end Scan

/-- The tokens of a YAML text. -/
def tokens? (text : String) : Option (List Token) :=
  let cs := match text.toList with
    | '\ufeff' :: rest => rest
    | cs => cs
  if cs.all isAdmitted then
    (Scan.run (cs.length + 2) { cursor := { rest := cs } }).map fun s => s.tokens.toList
  else none

end Yaml

end StyleEngine
