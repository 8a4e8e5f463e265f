import TemplateLint.Concrete.Token

namespace TemplateLint

namespace Concrete

inductive ParseError where
  | expected (token : Token) (atEnd : Bool)
  | expectedExpression
  | unterminatedString
  | unclosedExpression
  | positionalAfterNamed
  | unclosedComment
  | blockNameNotPath
  | invalidBlockParameter
  | unclosedBlock (name : List Char)
  | strayClose
  | strayElse
  | elseAfterElse
  | closeMismatch (found name : List Char)
  | unclosedOpeningTag (tag : List Char)
  | blockInOpeningTag
  | expectedAttributeName
  | missingValue (name : List Char)
  | unterminatedValue
  | unclosedElement (tag : List Char)
  | strayClosingTag
  | tagMismatch (found tag : List Char)
  deriving DecidableEq, Repr

/-- Why a text is no template, whatever the place in a source where that text stands. -/
structure Failure where
  cause : ParseError
  /-- The text from the place that is reported. -/
  rest : List Char
  deriving DecidableEq, Repr

/-- `cs` between double braces, for a message. -/
private def braced (cs : String) : String := "\x7b\x7b" ++ cs ++ "\x7d\x7d"

def ParseError.message : ParseError → String
  | .expected token false => "Expected `" ++ String.ofList token.chars ++ "`"
  | .expected token true =>
    "Expected `" ++ String.ofList token.chars ++ "` but reached end of input"
  | .expectedExpression => "Expected an expression"
  | .unterminatedString => "Unterminated string literal"
  | .unclosedExpression => "Unclosed expression"
  | .positionalAfterNamed => "Positional argument after named arguments"
  | .unclosedComment => "Unclosed comment"
  | .blockNameNotPath => "Block helper name must be a path"
  | .invalidBlockParameter => "Invalid block parameter"
  | .unclosedBlock name => "Unclosed block `" ++ braced ("#" ++ String.ofList name) ++ "`"
  | .strayClose => "Closing tag without a matching block"
  | .strayElse => "`" ++ braced "else" ++ "` outside of a block"
  | .elseAfterElse =>
    "Unexpected `" ++ braced "else" ++ "` after the final `" ++ braced "else" ++ "`"
  | .closeMismatch found name =>
    "`" ++ braced ("/" ++ String.ofList found) ++ "` does not match `" ++
      braced ("#" ++ String.ofList name) ++ "`"
  | .unclosedOpeningTag tag => "Unclosed opening tag `<" ++ String.ofList tag ++ ">`"
  | .blockInOpeningTag => "Blocks are not allowed inside an opening tag"
  | .expectedAttributeName => "Expected an attribute name"
  | .missingValue name => "Missing value for `" ++ String.ofList name ++ "`"
  | .unterminatedValue => "Unterminated attribute value"
  | .unclosedElement tag => "Unclosed element `<" ++ String.ofList tag ++ ">`"
  | .strayClosingTag => "Closing tag without a matching element"
  | .tagMismatch found tag =>
    "Closing tag `</" ++ String.ofList found ++ ">` does not match `<" ++ String.ofList tag ++ ">`"

end Concrete

end TemplateLint
