import StyleEngine.Pattern.Basic
import StyleEngine.Text.Case
import StyleEngine.Text.Script
import StyleEngine.Text.Blank

/-! # Classes of characters in patterns

Sets closed under simple case folding, the classes with POSIX names such as
`[:alpha:]`, and the Unicode properties that `\p` names.
-/
namespace StyleEngine

namespace Pattern

/-- Every character that has a simple case folding other than itself, with that folding. -/
def foldPairs : List (Nat × Nat) :=
  Case.foldRuns.toList.flatMap fun r =>
    (CharSet.stride r.first r.last r.step).map fun p => (p.1, r.image + (p.1 - r.first))

/-- Whether a code point is in a set. -/
def holds (s : CharSet) (n : Nat) : Bool := CharSet.search s.ranges n 0 s.ranges.size

/-- The set with all characters that fold to the same character as one of its own. -/
def closeFold (s : CharSet) : CharSet :=
  let targets := CharSet.ofRanges ((foldPairs.filter fun p => holds s p.1 || holds s p.2).map
    fun p => (p.2, p.2))
  let sources := CharSet.ofRanges ((foldPairs.filter fun p => holds targets p.2).map
    fun p => (p.1, p.1))
  (s.union targets).union sources

/-- The same for the letters of ASCII only. -/
def closeFoldAscii (s : CharSet) : CharSet :=
  let letters := (List.range 26).flatMap fun i =>
    (if holds s (65 + i) then [(97 + i, 97 + i)] else []) ++
      (if holds s (97 + i) then [(65 + i, 65 + i)] else [])
  s.union (CharSet.ofRanges letters)

/-- The class with a POSIX name. -/
def posix? (name : String) : Option CharSet :=
  ([("alnum", "30-39 41-5A 61-7A"), ("alpha", "41-5A 61-7A"), ("ascii", "0-7F"),
    ("blank", "9 20"), ("cntrl", "0-1F 7F"), ("digit", "30-39"), ("graph", "21-7E"),
    ("lower", "61-7A"), ("print", "20-7E"), ("punct", "21-2F 3A-40 5B-60 7B-7E"),
    ("space", "9-D 20"), ("upper", "41-5A"), ("word", "30-39 41-5A 5F 61-7A"),
    ("xdigit", "30-39 41-46 61-66")].lookup name).map CharSet.ofTable

/-- The general categories under their short and long names. -/
def category? (name : String) : Option CharSet :=
  [("lu", CharSet.uppercaseLetter), ("uppercaseletter", CharSet.uppercaseLetter),
   ("ll", CharSet.lowercaseLetter), ("lowercaseletter", CharSet.lowercaseLetter),
   ("lt", CharSet.titlecaseLetter), ("titlecaseletter", CharSet.titlecaseLetter),
   ("lc", CharSet.casedLetter), ("casedletter", CharSet.casedLetter),
   ("lm", CharSet.modifierLetter), ("modifierletter", CharSet.modifierLetter),
   ("lo", CharSet.otherLetter), ("otherletter", CharSet.otherLetter),
   ("l", CharSet.letter), ("letter", CharSet.letter),
   ("mn", CharSet.nonspacingMark), ("nonspacingmark", CharSet.nonspacingMark),
   ("mc", CharSet.spacingMark), ("spacingmark", CharSet.spacingMark),
   ("me", CharSet.enclosingMark), ("enclosingmark", CharSet.enclosingMark),
   ("m", CharSet.mark), ("mark", CharSet.mark), ("combiningmark", CharSet.mark),
   ("nd", CharSet.decimalNumber), ("decimalnumber", CharSet.decimalNumber),
   ("digit", CharSet.decimalNumber),
   ("nl", CharSet.letterNumber), ("letternumber", CharSet.letterNumber),
   ("no", CharSet.otherNumber), ("othernumber", CharSet.otherNumber),
   ("n", CharSet.number), ("number", CharSet.number),
   ("pc", CharSet.connectorPunctuation), ("connectorpunctuation", CharSet.connectorPunctuation),
   ("pd", CharSet.dashPunctuation), ("dashpunctuation", CharSet.dashPunctuation),
   ("ps", CharSet.openPunctuation), ("openpunctuation", CharSet.openPunctuation),
   ("pe", CharSet.closePunctuation), ("closepunctuation", CharSet.closePunctuation),
   ("pi", CharSet.initialPunctuation), ("initialpunctuation", CharSet.initialPunctuation),
   ("pf", CharSet.finalPunctuation), ("finalpunctuation", CharSet.finalPunctuation),
   ("po", CharSet.otherPunctuation), ("otherpunctuation", CharSet.otherPunctuation),
   ("p", CharSet.punctuation), ("punctuation", CharSet.punctuation),
   ("punct", CharSet.punctuation),
   ("sm", CharSet.mathSymbol), ("mathsymbol", CharSet.mathSymbol),
   ("sc", CharSet.currencySymbol), ("currencysymbol", CharSet.currencySymbol),
   ("sk", CharSet.modifierSymbol), ("modifiersymbol", CharSet.modifierSymbol),
   ("so", CharSet.otherSymbol), ("othersymbol", CharSet.otherSymbol),
   ("s", CharSet.symbol), ("symbol", CharSet.symbol),
   ("zs", CharSet.spaceSeparator), ("spaceseparator", CharSet.spaceSeparator),
   ("zl", CharSet.lineSeparator), ("lineseparator", CharSet.lineSeparator),
   ("zp", CharSet.paragraphSeparator), ("paragraphseparator", CharSet.paragraphSeparator),
   ("z", CharSet.separator), ("separator", CharSet.separator),
   ("cc", CharSet.control), ("control", CharSet.control), ("cntrl", CharSet.control),
   ("cf", CharSet.format), ("format", CharSet.format),
   ("co", CharSet.privateUse), ("privateuse", CharSet.privateUse),
   ("cn", CharSet.unassigned), ("unassigned", CharSet.unassigned),
   ("c", CharSet.other), ("other", CharSet.other),
   ("any", CharSet.full), ("ascii", ascii), ("assigned", CharSet.unassigned.compl)].lookup name

/-- Some of the properties that are no categories. -/
def property? (name : String) : Option CharSet :=
  [("alphabetic", CharSet.alphabetic), ("alpha", CharSet.alphabetic),
   ("uppercase", CharSet.uppercase), ("upper", CharSet.uppercase),
   ("lowercase", CharSet.lowercase), ("lower", CharSet.lowercase),
   ("whitespace", CharSet.whiteSpace), ("wspace", CharSet.whiteSpace),
   ("space", CharSet.whiteSpace), ("cased", Case.cased),
   ("caseignorable", Case.ignorable)].lookup name

/-- A property's name in lower case, without blanks, hyphens, underscores and a leading
`is`. -/
def normalizeName (name : List Char) : String :=
  let cs := (name.filter fun c => !(isBlank c || c == '-' || c == '_')).map Char.toLower
  match cs with
  | 'i' :: 's' :: 'c' :: [] => "isc"
  | 'i' :: 's' :: rest => String.ofList rest
  | cs => String.ofList cs

/-- The class that a name in `\p` stands for. -/
def named? (name : List Char) : Option CharSet :=
  let n := normalizeName name
  match property? n with
  | some s => some s
  | none =>
    match category? n with
    | some s => some s
    | none => CharSet.script? n

/-- The class that a property and a value in `\p` stand for. -/
def valued? (property value : List Char) : Option CharSet :=
  let p := normalizeName property
  let v := normalizeName value
  if p == "generalcategory" || p == "gc" then category? v
  else if p == "script" || p == "sc" || p == "scriptextensions" || p == "scx" then
    CharSet.script? v
  else none

end Pattern

end StyleEngine
