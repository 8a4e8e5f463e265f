import TemplateLint.Component.Registry
import TemplateLint.Component.Suggestion
import TemplateLint.Rule.Basic

namespace TemplateLint.ComponentArguments

open TemplateLint.Tree

def metadata : RuleMetadata where
  id := "no-unknown-arguments-for-builtin-components"
  description :=
    "Disallow unknown, missing, conflicting and deprecated arguments on built-in components"
  category := .correctness
  defaultSeverity := .error
  fixable := true
  docsUrl := none

def unknownMessage (component argument : String) (suggestion : Option String) : String :=
  "\"@" ++ argument ++ "\" is not a known argument for the <" ++ component ++ " /> component." ++
    match suggestion with
    | some candidate => " Did you mean \"@" ++ candidate ++ "\"?"
    | none => ""

/-- Names of arguments, quoted and with commas between them. -/
def quoted (names : List String) : String :=
  String.intercalate ", " (names.map fun name => "\"@" ++ name ++ "\"")

def requiredMessage (component : String) (group : List String) : String :=
  "One of the arguments " ++ quoted group ++ " is required for the <" ++ component ++
    " /> component."

def conflictMessage (component argument : String) (group : List String) : String :=
  "\"@" ++ argument ++ "\" conflicts with other arguments of the <" ++ component ++
    " /> component; only one of " ++ quoted group ++ " may be passed."

/-- A text as a string of a template, in quotes that it does not hold itself. -/
def stringLiteral? (value : String) : Option String :=
  if !value.toList.contains '"' then some ("\"" ++ value ++ "\"")
  else if !value.toList.contains '\'' then some ("'" ++ value ++ "'")
  else none

/-- The range of a call from its callee to its last argument. -/
def callSpan (c : Call) : Span :=
  let stop := match c.hash.getLast?, c.params.getLast? with
    | some pair, _ => pair.span.stop
    | none, some param => param.span.stop
    | none, none => c.callee.span.stop
  ⟨c.callee.span.start, stop⟩

/-- The value of an event argument, written as the argument of a modifier. -/
def handler? (source : String) (value : AttrValue) : Option String :=
  match value with
  | .valueless => none
  | .mustache m =>
    let call := Text.slice (callSpan m.call) source
    if m.call.params.isEmpty && m.call.hash.isEmpty then some call else some ("(" ++ call ++ ")")
  | .text t =>
    let raw := Text.slice t.span source
    match raw.toList.head? with
    | some '"' | some '\'' => some raw
    | _ => stringLiteral? t.chars
  | .concat _ span => some (Text.slice span source)

/-- The fix for a deprecated argument. There is none when the element has the attribute already. -/
def migrationFix? (source : String) (e : Element) (a : Attribute) : Migration → Option Fix
  | .attribute name => if e.hasAttribute name then none else some ⟨a.nameSpan, name⟩
  | .event event => do
    let handler ← handler? source a.value
    some ⟨a.span, inBraces ("on \"" ++ event ++ "\" " ++ handler)⟩

/-- The required groups of which the element has no argument. -/
def missing (c : ComponentSchema) (e : Element) : List Finding :=
  (c.requiredOneOf.filter fun group => !group.any e.hasArgument).map fun group =>
    ⟨requiredMessage c.name group, e.tagSpan, .element, none⟩

/-- The groups that hold the argument and of which the element has more than one. -/
def conflicts (c : ComponentSchema) (e : Element) (name : String) : List (List String) :=
  c.conflictGroups.filter fun group =>
    1 < (group.filter e.hasArgument).length && group.contains name

/-- What is wrong with one argument. -/
def argumentFindings (source : String) (c : ComponentSchema) (e : Element)
    (argument : String × Attribute) : List Finding :=
  let (name, a) := argument
  match c.deprecation? name with
  | some d => [⟨d.message, a.nameSpan, .attribute, d.fix.bind (migrationFix? source e a)⟩]
  | none =>
    if !c.isKnown name then
      [⟨unknownMessage c.name name (c.suggest? name), a.nameSpan, .attribute, none⟩]
    else
      (conflicts c e name).map fun group =>
        ⟨conflictMessage c.name name group, a.nameSpan, .attribute, none⟩

def elementFindings (source : String) (c : ComponentSchema) (e : Element) : List Finding :=
  missing c e ++ e.arguments.flatMap (argumentFindings source c e)

def findings (source : String) : Node → List Finding
  | .element e =>
    match Component.schema? e.tag with
    | some c => elementFindings source c e
    | none => []
  | _ => []

/-- The arguments of built-in components against their schemas. -/
def rule : Rule := ⟨metadata, [.element], findings⟩

end TemplateLint.ComponentArguments
