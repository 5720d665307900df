/-! # Lines of a text

A text is cut after each line feed into *pieces* (`pieces`); a *line* is a piece
without its terminator (`pieceContent`), which is a line feed or a carriage
return followed by one.  Only the last piece may lack a terminator, and a
carriage return at its end then belongs to the line.
-/
namespace StyleEngine

/-- Puts a character in front of the first piece, or starts a piece: a line feed always ends
the piece it stands in. -/
def consPiece (c : Char) (rest : List (List Char)) : List (List Char) :=
  if c = '\n' then ['\n'] :: rest
  else match rest with
    | [] => [[c]]
    | p :: ps => (c :: p) :: ps

/-- A text cut after each line feed. -/
def pieces (cs : List Char) : List (List Char) := cs.foldr consPiece []

@[simp] theorem pieces_nil : pieces [] = [] := rfl

@[simp] theorem pieces_cons (c : Char) (cs : List Char) :
    pieces (c :: cs) = consPiece c (pieces cs) := rfl

/-- A piece without its terminator. -/
def pieceContent (p : List Char) : List Char :=
  match p.reverse with
  | '\n' :: '\r' :: rest => rest.reverse
  | '\n' :: rest => rest.reverse
  | _ => p

/-- The lines of a text. -/
def splitLines (s : String) : List String :=
  (pieces s.toList).map fun p => String.ofList (pieceContent p)

/-- Whether a carriage return followed by a line feed stands somewhere in a text. -/
def hasCrlf : List Char → Bool
  | [] => false
  | '\r' :: '\n' :: _ => true
  | _ :: rest => hasCrlf rest

end StyleEngine
