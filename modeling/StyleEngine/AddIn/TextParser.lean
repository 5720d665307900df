import StyleEngine.AddIn.Basic

/-! # The text parser

The parser that splits texts into lines.
-/
namespace StyleEngine

namespace Profile

/-- Takes over the name of the first descriptor. -/
def named (p : Profile) (d : InitDescriptor) (primary : Bool) : Profile :=
  if primary then { p with name := d.name } else p

def hasRule (p : Profile) (id : String) : Bool := p.rules.any (·.id == id)

/-- Takes over a rule for an add-in, unless it has one with the same id. -/
def addRule (p : Profile) (addin : String) (r : Rule) : Profile :=
  if p.hasRule r.id then p else { p with rules := p.rules ++ [r.ownedBy addin] }

end Profile

namespace TextParser

/-- Parses a file that has its text; a file without text must have a model already. -/
def parse : Act ParseOutcome :=
  .takeText fun
    | some text => .setModel (TextModel.ofText text) (.done .complete)
    | none => .look fun f =>
      if f.model.isSome then .done .complete
      else .fail (.failed ("No source text for " ++ f.path.text))

end TextParser

/-- The parser of texts with some extensions. -/
def textParser (id : String) (extensions : List String) : Parser where
  id
  configure d primary _ p _ := .ok (d.rules.foldl (fun p r => p.addRule id r) (p.named d primary))
  extensions := extensions.map lowerCase
  parse _ _ := TextParser.parse

/-- The text parser that a module declares. -/
def textParserOf (spec : AddInSpec) : Parser := textParser spec.id spec.extensions

end StyleEngine
