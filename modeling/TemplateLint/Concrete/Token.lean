
namespace TemplateLint.Concrete

/-- The fixed marks of the template language. -/
inductive Token where
  | mustacheOpen
  | mustacheClose
  | tripleClose
  | bang
  | hash
  | slash
  | elseWord
  | asWord
  | bar
  | groupOpen
  | groupClose
  | tagOpen
  | closingTagOpen
  | commentOpen
  deriving DecidableEq, Repr

/-- How a mark is written. -/
def Token.chars : Token → List Char
  | .mustacheOpen => ['{', '{']
  | .mustacheClose => ['}', '}']
  | .tripleClose => ['}', '}', '}']
  | .bang => ['!']
  | .hash => ['#']
  | .slash => ['/']
  | .elseWord => ['e', 'l', 's', 'e']
  | .asWord => ['a', 's']
  | .bar => ['|']
  | .groupOpen => ['(']
  | .groupClose => [')']
  | .tagOpen => ['<']
  | .closingTagOpen => ['<', '/']
  | .commentOpen => ['<', '!', '-', '-']

end TemplateLint.Concrete
