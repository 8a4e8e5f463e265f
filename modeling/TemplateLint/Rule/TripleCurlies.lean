import TemplateLint.Rule.Basic

namespace TemplateLint.TripleCurlies

def metadata : RuleMetadata where
  id := "no-triple-curlies"
  description := "Disallow unescaped `\x7b\x7b\x7b \x7d\x7d\x7d` interpolation"
  category := .suspicious
  defaultSeverity := .error
  fixable := false
  docsUrl := none

def message : String := "Usage of triple curly brackets is unsafe"

def findings (_ : String) : Tree.Node → List Finding
  | .mustache m => if m.trusting then [⟨message, m.span, .mustache, none⟩] else []
  | _ => []

/-- Mustaches that write their value without escaping it. -/
def rule : Rule := ⟨metadata, [.mustache], findings⟩

end TemplateLint.TripleCurlies
