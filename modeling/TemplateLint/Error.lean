import TemplateLint.Edit.Apply
import TemplateLint.Tree.Parse

namespace TemplateLint

inductive ErrorKind where
  | config
  | parse
  | io
  | autofix
  deriving DecidableEq, Repr

/-- What can go wrong between a configuration, a template and its fixed text. -/
inductive Error where
  /-- A rule was given a value that it does not accept. -/
  | config (ruleId message : String)
  /-- A configuration document could not be read, for the reason given. -/
  | configParse (message : String)
  /-- A relaxed configuration document could not be read; no reason is given for those. -/
  | configUnreadable
  | unknownRule (ruleId : String)
  | parse (message : String) (position : Position)
  | io (path cause : String)
  | autofix (message : String)
  deriving DecidableEq, Repr

namespace Error

def ofSyntax (e : SyntaxError) : Error := .parse e.cause.message e.position

def ofMisfit (m : Misfit) : Error := .autofix m.message

def kind : Error → ErrorKind
  | .config .. | .configParse _ | .configUnreadable | .unknownRule _ => .config
  | .parse .. => .parse
  | .io .. => .io
  | .autofix _ => .autofix

/-- Only a configuration that is wrong keeps a linter from starting. -/
def isFatal (e : Error) : Bool := e.kind == .config

def message : Error → String
  | .config ruleId message => "Configuration error in '" ++ ruleId ++ "': " ++ message
  | .configParse message => "Configuration error: " ++ message
  | .configUnreadable => "Configuration error: Invalid configuration"
  | .unknownRule ruleId => "Unknown rule '" ++ ruleId ++ "'"
  | .parse message position =>
    "Parse error: " ++ message ++ " at line " ++ toString position.line ++ ", column " ++
      toString position.column
  | .io path cause => "IO error for path '" ++ path ++ "': " ++ cause
  | .autofix message => "Autofix error: " ++ message

end Error

end TemplateLint
