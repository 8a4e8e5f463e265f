import TemplateLint.Concrete.Read.Statement
import TemplateLint.Text.Position
import TemplateLint.Tree.Layout

namespace TemplateLint

/-- Why a source is no template, and where. -/
structure SyntaxError where
  cause : Concrete.ParseError
  position : Position
  deriving DecidableEq, Repr

/-- The place of a failure in the text whose end its rest is. -/
def Concrete.Failure.inText (f : Concrete.Failure) (cs : List Char) : SyntaxError :=
  ⟨f.cause, Text.positionAt (Text.size cs - Text.size f.rest) cs⟩

namespace Tree.Template

def ofConcrete (statements : List Concrete.Statement) : Template :=
  ⟨Concrete.Statement.atAll 0 statements, ⟨0, Concrete.Statement.widthAll statements⟩⟩

def parse (source : String) : Except SyntaxError Template :=
  match Concrete.Statement.readAll source.toList with
  | .ok statements => .ok (ofConcrete statements)
  | .error failure => .error (failure.inText source.toList)

end Tree.Template

end TemplateLint
