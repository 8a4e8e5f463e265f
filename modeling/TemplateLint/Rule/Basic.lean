import TemplateLint.Diagnostic.Basic
import TemplateLint.Error
import TemplateLint.Json.Printer

namespace TemplateLint

inductive RuleCategory where
  /-- What is wrong in any style. -/
  | correctness
  /-- What is allowed but likely a mistake. -/
  | suspicious
  | style
  | deprecated
  deriving DecidableEq, Repr

namespace RuleCategory

def all : List RuleCategory := [.correctness, .suspicious, .style, .deprecated]

def slug : RuleCategory → String
  | .correctness => "correctness"
  | .suspicious => "suspicious"
  | .style => "style"
  | .deprecated => "deprecated"

end RuleCategory

structure RuleMetadata where
  /-- The name of the rule in a configuration. -/
  id : String
  description : String
  category : RuleCategory
  defaultSeverity : Severity
  fixable : Bool
  docsUrl : Option String
  deriving DecidableEq, Repr

/-- What a rule has to say about a node. -/
structure Finding where
  message : String
  span : Span
  nodeKind : NodeKind
  fix : Option Fix
  deriving DecidableEq, Repr

/-- The diagnostics of one rule for one source. -/
structure RuleContext where
  ruleId : String
  severity : Severity
  source : String
  diagnostics : List Diagnostic

namespace RuleContext

def new (metadata : RuleMetadata) (source : String) : RuleContext :=
  ⟨metadata.id, metadata.defaultSeverity, source, []⟩

/-- The text of a range. -/
def text (ctx : RuleContext) (span : Span) : String := Text.slice span ctx.source

/-- A finding with its place, its text and the rule that it comes from. -/
def complete (ctx : RuleContext) (f : Finding) : Diagnostic :=
  let d := ((Diagnostic.new ctx.ruleId f.message ctx.source f.span).withSeverity
    ctx.severity).withNodeKind f.nodeKind
  match f.fix with
  | some fix => d.withFix fix
  | none => d

def log (ctx : RuleContext) (f : Finding) : RuleContext :=
  { ctx with diagnostics := ctx.diagnostics ++ [ctx.complete f] }

/-- The diagnostics so far, and the context without them. -/
def take (ctx : RuleContext) : List Diagnostic × RuleContext :=
  (ctx.diagnostics, { ctx with diagnostics := [] })

end RuleContext

/-- Whether a rule runs. -/
inductive Toggle where
  | enabled
  | disabled
  deriving DecidableEq, Repr, Inhabited

def Toggle.isEnabled (t : Toggle) : Bool := t == .enabled

/-- The text about a configuration value that a rule does not take: what it takes, and the value. -/
def configMessage (ruleId : String) (shapes : List String) (value : Json.Value) : String :=
  "The " ++ ruleId ++ " rule accepts one of the following values.\n" ++
    String.join (shapes.map fun shape => "  * " ++ shape ++ "\n") ++
    "You specified `" ++ value.compact ++ "`"

def booleanShape : String := "boolean - `true` to enable / `false` to disable"

/-- Reads the configuration of a rule that can only be switched; it is off when there is none. -/
def Toggle.ofValue (ruleId : String) : Option Json.Value → Except Error Toggle
  | none => .ok .disabled
  | some (.bool false) => .ok .disabled
  | some (.bool true) => .ok .enabled
  | some value => .error (.config ruleId (configMessage ruleId [booleanShape] value))

structure Rule where
  metadata : RuleMetadata
  /-- The kinds of node that it looks at. -/
  visits : List NodeKind
  /-- What it finds at a node, given the source that the node is shown from. -/
  findings : String → Tree.Node → List Finding

namespace Rule

def id (r : Rule) : String := r.metadata.id

/-- The rule, when its configuration lets it run. -/
def build? (r : Rule) (value : Option Json.Value) : Except Error (Option Rule) := do
  let toggle ← Toggle.ofValue r.id value
  .ok (if toggle.isEnabled then some r else none)

/-- The findings at nodes that the rule looks at. -/
def visit (r : Rule) (source : String) (node : Tree.Node) : List Finding :=
  if r.visits.contains node.kind then r.findings source node else []

/-- The diagnostics of the rule for the nodes of a tree. -/
def diagnose (r : Rule) (source : String) (nodes : List Tree.Node) : List Diagnostic :=
  ((nodes.flatMap (r.visit source)).foldl RuleContext.log
    (RuleContext.new r.metadata source)).diagnostics

end Rule

end TemplateLint
