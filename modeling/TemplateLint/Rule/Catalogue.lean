import TemplateLint.Rule.ComponentArguments
import TemplateLint.Rule.NegatedCondition
import TemplateLint.Rule.TripleCurlies

namespace TemplateLint.Catalogue

def rules : List Rule := [NegatedCondition.rule, ComponentArguments.rule, TripleCurlies.rule]

def find? (id : String) : Option Rule := rules.find? fun r => r.id == id

def ids : List String := rules.map Rule.id

end TemplateLint.Catalogue
