/-! # Parts of a text

A text is cut at each occurrence of a character, which belongs to none of the
parts.  There is always one part more than there are occurrences.
-/
namespace StyleEngine

/-- Puts a character in front of the first part, or starts a part behind a separator. -/
def consPart (sep c : Char) (rest : List (List Char)) : List (List Char) :=
  if c = sep then [] :: rest
  else match rest with
    | [] => [[c]]
    | p :: ps => (c :: p) :: ps

/-- The characters between the occurrences of a separator. -/
def parts (sep : Char) (cs : List Char) : List (List Char) := cs.foldr (consPart sep) [[]]

/-- The parts of a text between the occurrences of a character. -/
def splitParts (sep : Char) (s : String) : List String := (parts sep s.toList).map String.ofList

end StyleEngine
