import TemplateLint.Config.Basic
import TemplateLint.Edit.LineDiff
import TemplateLint.Rule.Catalogue

namespace TemplateLint

/-- What linting gives, and fixing with its output. -/
structure LintOutcome where
  diagnostics : List Diagnostic
  output : Option String
  deriving DecidableEq, Repr

namespace LintOutcome

def isClean (o : LintOutcome) : Bool := o.diagnostics.isEmpty

def fixes (o : LintOutcome) : List Fix := o.diagnostics.filterMap Diagnostic.fix

def fixableCount (o : LintOutcome) : Nat := o.diagnostics.countP Diagnostic.isFixable

end LintOutcome

/-- Rules that are enabled, in the order of their ids. -/
structure Linter where
  rules : List Rule

namespace Linter

/-- The rules that are enabled among the configured ones. -/
def enabled : List (String × Json.Value) → Except Error (List Rule)
  | [] => .ok []
  | (id, value) :: rest =>
    match Catalogue.find? id with
    | none => .error (.unknownRule id)
    | some rule => do
      let built ← rule.build? (some value)
      let rules ← enabled rest
      .ok (built.toList ++ rules)

/-- A linter for a configuration. The first id that is unknown or has a wrong value decides the
error. -/
def new (config : Configuration) : Except Error Linter := do
  let rules ← enabled config.rules.entries
  .ok ⟨rules⟩

def ruleIds (l : Linter) : List String := l.rules.map Rule.id

/-- Diagnostics by where they start; those that start together keep their order. -/
def inOrder (diagnostics : List Diagnostic) : List Diagnostic :=
  diagnostics.mergeSort fun a b => a.span.start ≤ b.span.start

/-- Lints a tree; texts and places come from `source`. -/
def lintTemplate (l : Linter) (source : String) (template : Tree.Template) : LintOutcome :=
  ⟨inOrder (l.rules.flatMap fun r => r.diagnose source template.nodes), none⟩

def lint (l : Linter) (source : String) : Except Error LintOutcome :=
  match Tree.Template.parse source with
  | .ok template => .ok (l.lintTemplate source template)
  | .error e => .error (.ofSyntax e)

/-- How often fixes are applied to one template at most. -/
def maxPasses : Nat := 10

/-- Applies the fixes of a text, then those of the result, until there are none, nothing changes or
`passes` are over. -/
def settle (l : Linter) : Nat → String → List Fix → Except Error String
  | 0, text, _ => .ok text
  | passes + 1, text, fixes =>
    if fixes.isEmpty then .ok text
    else match Fix.applyAll text fixes with
      | .error m => .error (.ofMisfit m)
      | .ok applied =>
        if applied.output = text then .ok text
        else do
          let outcome ← l.lint applied.output
          settle l passes applied.output outcome.fixes

/-- Lints a template and fixes it. The diagnostics are those of the template as it was. -/
def fix (l : Linter) (source : String) : Except Error LintOutcome := do
  let outcome ← l.lint source
  let output ← l.settle maxPasses source outcome.fixes
  .ok { outcome with output := some output }

/-- A template beside its fixed form. -/
def preview (l : Linter) (source : String) : Except Error FixPreview := do
  let outcome ← l.fix source
  .ok (FixPreview.new source (outcome.output.getD source))

/-- Lints several templates, each on its own. -/
def lintMany (l : Linter) (sources : List String) : List (Except Error LintOutcome) :=
  sources.map l.lint

end Linter

end TemplateLint
