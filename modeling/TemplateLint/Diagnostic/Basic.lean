import TemplateLint.Diagnostic.Severity
import TemplateLint.Edit.Fix
import TemplateLint.Text.Position
import TemplateLint.Tree.Node

namespace TemplateLint

/-- A finding as it is shown, with the place and the text that it is about. -/
structure Diagnostic where
  message : String
  /-- The text of `span`. -/
  source : String
  /-- Where `span` starts. -/
  position : Position
  /-- Set together with `fix`, but kept apart from it. -/
  isFixable : Bool
  ruleId : String
  severity : Severity
  span : Span
  nodeKind : Option NodeKind
  fix : Option Fix
  deriving DecidableEq, Repr

namespace Diagnostic

/-- A diagnostic about a range of a source; an error until it is given another severity. -/
def new (ruleId message source : String) (span : Span) : Diagnostic where
  message := message
  source := Text.slice span source
  position := Text.positionAt span.start source.toList
  isFixable := false
  ruleId := ruleId
  severity := default
  span := span
  nodeKind := none
  fix := none

def withSeverity (d : Diagnostic) (severity : Severity) : Diagnostic := { d with severity }

def withNodeKind (d : Diagnostic) (kind : NodeKind) : Diagnostic := { d with nodeKind := some kind }

def withFix (d : Diagnostic) (fix : Fix) : Diagnostic :=
  { d with isFixable := true, fix := some fix }

def isError (d : Diagnostic) : Bool := d.severity == .error

/-- The line that a report has for a diagnostic. -/
def render (d : Diagnostic) : String :=
  toString d.position.line ++ ":" ++ toString d.position.column ++ "  " ++ d.severity.name ++
    "  " ++ d.message ++ "  " ++ d.ruleId

end Diagnostic

end TemplateLint
