/-! # JSON values

Objects keep their members in the order written, repeated keys included.  A
number that is a plain run of digits is read as the number it denotes; any other
one keeps its spelling.  A string may escape half of a surrogate pair, and is
then no text: such a string, and an object with such a key, is `garbled` — it
can be passed over, but nothing can be read from it.
-/
namespace StyleEngine

/-- A JSON value. -/
inductive Json where
  | null
  | bool (b : Bool)
  | nat (n : Nat)
  | number (spelling : String)
  | str (s : String)
  | arr (items : List Json)
  | obj (members : List (String × Json))
  | garbled

end StyleEngine
