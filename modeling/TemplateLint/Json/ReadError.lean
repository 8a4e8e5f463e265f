import TemplateLint.Json.Printer
import TemplateLint.Text.Quoted

namespace TemplateLint.Json

/-- What the end of a text left unfinished. -/
inductive Unfinished where
  | value
  | object
  | list
  | string
  deriving DecidableEq, Repr

/-- What stands where something else was expected. -/
inductive Unexpected where
  | null
  | bool (b : Bool)
  | int (i : Int)
  | float (x : Binary64)
  | string (s : String)
  | sequence
  | map
  deriving DecidableEq, Repr

/-- What a place of a document has to hold. -/
inductive Expected where
  | configuration
  | map
  | string
  deriving DecidableEq, Repr

/-- Why a text is not the JSON that was asked for. -/
inductive ReadError where
  | unfinished (what : Unfinished)
  | expectedValue
  | expectedIdent
  | expectedColon
  | expectedCommaOrBrace
  | expectedCommaOrBracket
  | keyNotString
  | trailingComma
  | trailingCharacters
  | invalidNumber
  | numberOutOfRange
  | invalidEscape
  | loneSurrogate
  | endOfHexEscape
  | controlCharacter
  | recursionLimit
  | unknownField (name : String)
  | duplicateField (name : String)
  | invalidType (found : Unexpected) (expected : Expected)
  deriving DecidableEq, Repr

def Unfinished.text : Unfinished → String
  | .value => "a value"
  | .object => "an object"
  | .list => "a list"
  | .string => "a string"

def Unexpected.text : Unexpected → String
  | .null => "null"
  | .bool b => "boolean `" ++ (Value.bool b).compact ++ "`"
  | .int i => "integer `" ++ (Value.int i).compact ++ "`"
  | .float x => "floating point `" ++ (Value.float x).compact ++ "`"
  | .string s => "string " ++ Text.quoted s
  | .sequence => "sequence"
  | .map => "map"

def Expected.text : Expected → String
  | .configuration => "struct LinterConfiguration"
  | .map => "a map"
  | .string => "a string"

def ReadError.message : ReadError → String
  | .unfinished what => "EOF while parsing " ++ what.text
  | .expectedValue => "expected value"
  | .expectedIdent => "expected ident"
  | .expectedColon => "expected `:`"
  | .expectedCommaOrBrace => "expected `,` or `\x7d`"
  | .expectedCommaOrBracket => "expected `,` or `]`"
  | .keyNotString => "key must be a string"
  | .trailingComma => "trailing comma"
  | .trailingCharacters => "trailing characters"
  | .invalidNumber => "invalid number"
  | .numberOutOfRange => "number out of range"
  | .invalidEscape => "invalid escape"
  | .loneSurrogate => "lone leading surrogate in hex escape"
  | .endOfHexEscape => "unexpected end of hex escape"
  | .controlCharacter => "control character (\\u0000-\\u001F) found while parsing a string"
  | .recursionLimit => "recursion limit exceeded"
  | .unknownField name => "unknown field `" ++ name ++ "`, expected `$schema` or `rules`"
  | .duplicateField name => "duplicate field `" ++ name ++ "`"
  | .invalidType found expected => "invalid type: " ++ found.text ++ ", expected " ++ expected.text

/-- What a reader gives: mostly a part and the text after it. -/
abbrev Result := Except ReadError

end TemplateLint.Json
