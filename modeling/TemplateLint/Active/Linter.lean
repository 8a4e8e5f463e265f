import TemplateLint.Linter

namespace TemplateLint.Active

/-- A rule with the value that enabled it. -/
structure EnabledRule where
  rule : Rule
  value : Json.Value

/-- A linter that keeps the values by which its rules were enabled, in the order of their ids, and
makes the rules from these values anew for every template. -/
structure Linter where
  active : List EnabledRule

/-- A rule at work on a template. -/
structure Run where
  rule : Rule
  context : RuleContext

namespace Run

def new (source : String) (rule : Rule) : Run := ⟨rule, RuleContext.new rule.metadata source⟩

/-- Shows a node to the rule, which logs what it finds there. -/
def dispatch (node : Tree.Node) (run : Run) : Run :=
  { run with context := (run.rule.visit run.context.source node).foldl RuleContext.log run.context }

end Run

namespace Linter

/-- Checks the value of a configured rule, which joins the enabled ones when the value lets it run. -/
def enroll (active : List EnabledRule) (entry : String × Json.Value) :
    Except Error (List EnabledRule) :=
  match Catalogue.find? entry.1 with
  | none => .error (.unknownRule entry.1)
  | some rule => do
    match ← rule.build? (some entry.2) with
    | some _ => .ok (active ++ [⟨rule, entry.2⟩])
    | none => .ok active

/-- A linter for a configuration, of which every value is checked. -/
def new (config : Configuration) : Except Error Linter := do
  let active ← config.rules.entries.foldlM enroll []
  .ok ⟨active⟩

def ruleIds (l : Linter) : List String := l.active.map fun enabled => enabled.rule.id

/-- Makes a rule from the value that is kept, and puts it behind others. -/
def make (rules : List Rule) (enabled : EnabledRule) : Except Error (List Rule) := do
  match ← enabled.rule.build? (some enabled.value) with
  | some rule => .ok (rules ++ [rule])
  | none => .ok rules

def instantiate (l : Linter) : Except Error (List Rule) := l.active.foldlM make []

/-- Lints a tree; texts and places come from `source`. -/
def lintTemplate (l : Linter) (source : String) (template : Tree.Template) :
    Except Error LintOutcome := do
  let rules ← l.instantiate
  let runs := template.nodes.foldl (fun runs node => runs.map (Run.dispatch node))
    (rules.map (Run.new source))
  let diagnostics := runs.flatMap fun run => run.context.take.1
  .ok ⟨TemplateLint.Linter.inOrder diagnostics, none⟩

def lint (l : Linter) (source : String) : Except Error LintOutcome :=
  match Tree.Template.parse source with
  | .ok template => l.lintTemplate source template
  | .error e => .error (.ofSyntax e)

end Linter

end TemplateLint.Active
