import TemplateLint.Proofs.Fixing.Alone
import TemplateLint.Proofs.Layout.Nodes
import TemplateLint.Proofs.Reporting.Order

namespace TemplateLint

namespace Tree

/-- `(not x)` where `x` is no call. -/
def Expr.IsNegation : Expr → Prop
  | .subExpression e =>
    e.call.helperName? = some "not" ∧ e.call.hash = [] ∧
      ∃ operand, e.call.params = [operand] ∧ ∀ call, operand ≠ .subExpression call
  | _ => False

/-- A call of `if` or `unless` whose condition is a negation. -/
def Call.IsNegated (c : Call) : Prop :=
  (c.helperName? = some "if" ∨ c.helperName? = some "unless") ∧
    ∃ condition values, c.params = condition :: values ∧ condition.IsNegation

/-- A block with nothing but a negated condition, unless its `else` goes on with another helper after
`if`, or a value with a negated condition and one or two values to choose from. -/
def Node.IsNegated : Node → Prop
  | .block b =>
    b.isSegment = false ∧ b.call.IsNegated ∧ b.call.params.length = 1 ∧
      ¬ (b.call.helperName? = some "if" ∧ b.inverse.isChained = true)
  | .mustache m => m.call.IsNegated ∧ (m.call.params.length = 2 ∨ m.call.params.length = 3)
  | .subExpression e => e.call.IsNegated ∧ (e.call.params.length = 2 ∨ e.call.params.length = 3)
  | _ => False

end Tree

/-- Where a diagnostic is, the kind of node there, and the range that its fix replaces. -/
def Diagnostic.place (d : Diagnostic) : Span × Option NodeKind × Option Span :=
  (d.span, d.nodeKind, d.fix.map Fix.range)

namespace NegatedCondition

open TemplateLint.Tree (Node)

variable {source : String}

theorem negatedOperand?_isSome_iff (condition : Tree.Expr) :
    (negatedOperand? condition).isSome = true ↔ condition.IsNegation := by
  cases condition with
  | path p => simp [negatedOperand?, Tree.Expr.subExpression?, Tree.Expr.IsNegation]
  | literal l => simp [negatedOperand?, Tree.Expr.subExpression?, Tree.Expr.IsNegation]
  | subExpression e =>
    simp only [negatedOperand?, Tree.Expr.subExpression?, Tree.Expr.IsNegation]
    split
    · next operand hname hparams hhash =>
      rw [hname, hparams, hhash]
      cases operand <;> simp
    · next hno =>
      constructor
      · intro h
        cases h
      · rintro ⟨hname, hhash, operand, hparams, -⟩
        exact absurd hhash (hno operand hname hparams)

theorem ofCall?_eq_some_iff (c : Tree.Call) (helper : Conditional) :
    Conditional.ofCall? c = some helper ↔ c.helperName? = some helper.helper := by
  unfold Conditional.ofCall?
  split
  · next h => rw [h]; cases helper <;> simp [Conditional.helper]
  · next h => rw [h]; cases helper <;> simp [Conditional.helper]
  · next hif hunless =>
    cases helper with
    | whenTrue => exact ⟨fun h => Option.some_ne_none _ h.symm |>.elim, fun h => absurd h hif⟩
    | whenFalse => exact ⟨fun h => Option.some_ne_none _ h.symm |>.elim, fun h => absurd h hunless⟩

theorem isNegated_iff (c : Tree.Call) :
    c.IsNegated ↔ ∃ helper condition values operand, Conditional.ofCall? c = some helper ∧
      c.params = condition :: values ∧ negatedOperand? condition = some operand := by
  unfold Tree.Call.IsNegated
  constructor
  · rintro ⟨hname, condition, values, hparams, hnegation⟩
    obtain ⟨operand, hoperand⟩ :=
      Option.isSome_iff_exists.1 ((negatedOperand?_isSome_iff condition).2 hnegation)
    rcases hname with hname | hname
    · exact ⟨.whenTrue, condition, values, operand, (ofCall?_eq_some_iff c _).2 hname, hparams,
        hoperand⟩
    · exact ⟨.whenFalse, condition, values, operand, (ofCall?_eq_some_iff c _).2 hname, hparams,
        hoperand⟩
  · rintro ⟨helper, condition, values, operand, hhelper, hparams, hoperand⟩
    have hname := (ofCall?_eq_some_iff c helper).1 hhelper
    refine ⟨by cases helper <;> simp_all [Conditional.helper], condition, values, hparams, ?_⟩
    exact (negatedOperand?_isSome_iff condition).1 (Option.isSome_iff_exists.2 ⟨operand, hoperand⟩)

/-- What a finding at a node says of the place: the range and the kind of the node, and that a fix of
that range comes with it. -/
structure Reports (n : Node) (finding : Finding) : Prop where
  span : finding.span = n.span
  nodeKind : finding.nodeKind = n.kind
  fix : ∃ fix, finding.fix = some fix ∧ fix.range = n.span

theorem inlineEdits_isSome_iff (helper : Conditional) (callee : Tree.Expr) (values : List Tree.Expr)
    (fix : FixBuilder) :
    (inlineEdits helper callee values fix).isSome = true ↔
      values.length = 1 ∨ values.length = 2 := by
  match values with
  | [] => cases helper <;> simp [inlineEdits]
  | [_] => cases helper <;> simp [inlineEdits]
  | [_, _] => cases helper <;> simp [inlineEdits]
  | _ :: _ :: _ :: _ => cases helper <;> simp [inlineEdits]

theorem inlineFinding?_isSome_iff (source : String) (c : Tree.Call) (span : Span) (kind : NodeKind) :
    (inlineFinding? source c span kind).isSome = true ↔
      c.IsNegated ∧ (c.params.length = 2 ∨ c.params.length = 3) := by
  rw [isNegated_iff]
  constructor
  · intro h
    obtain ⟨finding, h⟩ := Option.isSome_iff_exists.1 h
    unfold inlineFinding? at h
    obtain ⟨helper, hhelper, h⟩ := Option.bind_eq_some_iff.1 h
    split at h
    · next condition values hparams =>
      obtain ⟨operand, hoperand, h⟩ := Option.bind_eq_some_iff.1 h
      obtain ⟨edits, hedits, -⟩ := Option.bind_eq_some_iff.1 h
      refine ⟨⟨helper, condition, values, operand, hhelper, hparams, hoperand⟩, ?_⟩
      have hlength := (inlineEdits_isSome_iff helper c.callee values _).1
        (Option.isSome_iff_exists.2 ⟨edits, hedits⟩)
      simpa [hparams] using hlength
    · cases h
  · rintro ⟨⟨helper, condition, values, operand, hhelper, hparams, hoperand⟩, hlength⟩
    have hvalues : values.length = 1 ∨ values.length = 2 := by simpa [hparams] using hlength
    obtain ⟨edits, hedits⟩ := Option.isSome_iff_exists.1
      ((inlineEdits_isSome_iff helper c.callee values (FixBuilder.new source span)).2 hvalues)
    simp [inlineFinding?, hhelper, hparams, hoperand, hedits]

theorem blockEdits_isSome_iff (helper : Conditional) (b : Tree.Block) (close : Tree.CloseTag)
    (fix : FixBuilder) :
    (blockEdits helper b close fix).isSome = true ↔
      ¬ (helper = .whenTrue ∧ b.inverse.isChained = true) := by
  cases helper <;> cases h : b.inverse <;> simp [blockEdits, h, Tree.ElsePart.isChained]

theorem blockFinding?_isSome_iff (source : String) (b : Tree.Block) :
    (blockFinding? source b).isSome = true ↔ (Node.block b).IsNegated := by
  simp only [Node.IsNegated, isNegated_iff, Tree.Block.isSegment]
  constructor
  · intro h
    obtain ⟨finding, h⟩ := Option.isSome_iff_exists.1 h
    unfold blockFinding? at h
    obtain ⟨helper, hhelper, h⟩ := Option.bind_eq_some_iff.1 h
    obtain ⟨close, hclose, h⟩ := Option.bind_eq_some_iff.1 h
    split at h
    · next condition hparams =>
      obtain ⟨operand, hoperand, h⟩ := Option.bind_eq_some_iff.1 h
      obtain ⟨edits, hedits, -⟩ := Option.bind_eq_some_iff.1 h
      have hchain := (blockEdits_isSome_iff helper b close _).1
        (Option.isSome_iff_exists.2 ⟨edits, hedits⟩)
      refine ⟨by simp [hclose], ⟨helper, condition, [], operand, hhelper, hparams, hoperand⟩,
        by simp [hparams], fun ⟨hname, hchained⟩ => hchain ⟨?_, hchained⟩⟩
      have hif := (ofCall?_eq_some_iff b.call .whenTrue).2 hname
      exact Option.some.inj (hhelper.symm.trans hif)
    · cases h
  · rintro ⟨hclose, ⟨helper, condition, values, operand, hhelper, hparams, hoperand⟩, hlength,
      hchain⟩
    obtain ⟨close, hclose⟩ := Option.isSome_iff_exists.1 (by simpa using hclose)
    obtain rfl : values = [] := by simpa [hparams] using hlength
    have hedits : (blockEdits helper b close (FixBuilder.new source b.span)).isSome = true := by
      rw [blockEdits_isSome_iff]
      rintro ⟨rfl, hchained⟩
      exact hchain ⟨(ofCall?_eq_some_iff b.call .whenTrue).1 hhelper, hchained⟩
    obtain ⟨edits, hedits⟩ := Option.isSome_iff_exists.1 hedits
    simp [blockFinding?, hhelper, hclose, hparams, hoperand, hedits]

theorem nodeKind_of_inlineFinding? {c : Tree.Call} {span : Span} {kind : NodeKind}
    {finding : Finding} (h : inlineFinding? source c span kind = some finding) :
    finding.nodeKind = kind := by
  unfold inlineFinding? at h
  obtain ⟨helper, -, h⟩ := Option.bind_eq_some_iff.1 h
  split at h
  · obtain ⟨operand, -, h⟩ := Option.bind_eq_some_iff.1 h
    obtain ⟨edits, -, h⟩ := Option.bind_eq_some_iff.1 h
    cases h
    rfl
  · cases h

theorem nodeKind_of_blockFinding? {b : Tree.Block} {finding : Finding}
    (h : blockFinding? source b = some finding) : finding.nodeKind = .block := by
  unfold blockFinding? at h
  obtain ⟨helper, -, h⟩ := Option.bind_eq_some_iff.1 h
  obtain ⟨close, -, h⟩ := Option.bind_eq_some_iff.1 h
  split at h
  · obtain ⟨operand, -, h⟩ := Option.bind_eq_some_iff.1 h
    obtain ⟨edits, -, h⟩ := Option.bind_eq_some_iff.1 h
    cases h
    rfl
  · cases h

theorem reports_of_inlineFinding? {n : Node} {c : Tree.Call} {finding : Finding}
    (h : inlineFinding? source c n.span n.kind = some finding) : Reports n finding := by
  obtain ⟨-, hspan, hfix⟩ := eq_of_inlineFinding? h
  exact ⟨hspan, nodeKind_of_inlineFinding? h, hfix⟩

theorem reports_of_blockFinding? {b : Tree.Block} {finding : Finding}
    (h : blockFinding? source b = some finding) : Reports (.block b) finding := by
  obtain ⟨-, hspan, hfix⟩ := eq_of_blockFinding? h
  exact ⟨hspan, nodeKind_of_blockFinding? h, hfix⟩

theorem toList_cases {n : Node} {found : Option Finding}
    (hfound : found.isSome = true ↔ n.IsNegated)
    (hreports : ∀ finding, found = some finding → Reports n finding) :
    (¬ n.IsNegated ∧ found.toList = []) ∨
      n.IsNegated ∧ ∃ finding, found.toList = [finding] ∧ Reports n finding := by
  cases found with
  | none => exact Or.inl ⟨hfound.not.1 Bool.false_ne_true, rfl⟩
  | some finding => exact Or.inr ⟨hfound.1 rfl, finding, rfl, hreports finding rfl⟩

/-- A node with a negated condition has one finding, any other node none. -/
theorem visit_cases (source : String) (n : Node) :
    (¬ n.IsNegated ∧ rule.visit source n = []) ∨
      n.IsNegated ∧ ∃ finding, rule.visit source n = [finding] ∧ Reports n finding := by
  cases n with
  | block b =>
    exact toList_cases (blockFinding?_isSome_iff source b) fun _ => reports_of_blockFinding?
  | mustache m =>
    exact toList_cases (inlineFinding?_isSome_iff source m.call m.span .mustache)
      fun _ h => reports_of_inlineFinding? h
  | subExpression e =>
    exact toList_cases (inlineFinding?_isSome_iff source e.call e.span .subExpression)
      fun _ h => reports_of_inlineFinding? h
  | _ => exact Or.inl ⟨id, rfl⟩

/-- Whether the rule has something to say about a node. -/
def isReported (source : String) (n : Node) : Bool := !(rule.visit source n).isEmpty

theorem isReported_iff {n : Node} : isReported source n = true ↔ n.IsNegated := by
  rcases visit_cases source n with ⟨hn, hvisit⟩ | ⟨hn, finding, hvisit, -⟩
  · simp [isReported, hvisit, hn]
  · simp [isReported, hvisit, hn]

/-- The diagnostics are about the reported nodes, one about each. -/
theorem diagnose_places (nodes : List Node) :
    (rule.diagnose source nodes).map Diagnostic.place =
      (nodes.filter (isReported source)).map fun n => (n.span, some n.kind, some n.span) := by
  rw [Linter.diagnose_eq]
  induction nodes with
  | nil => rfl
  | cons n nodes ih =>
    rw [List.flatMap_cons, List.map_append, List.map_append, ih]
    rcases visit_cases source n with ⟨hn, hvisit⟩ | ⟨hn, finding, hvisit, hreports⟩
    · rw [List.filter_cons_of_neg (isReported_iff.not.2 hn), hvisit]
      rfl
    · obtain ⟨fix, hfix, hrange⟩ := hreports.fix
      rw [List.filter_cons_of_pos (isReported_iff.2 hn), hvisit]
      simp [Diagnostic.place, span_complete, nodeKind_complete, Linter.fix_complete, hreports.span,
        hreports.nodeKind, hfix, hrange]

/-- The ranges of the fixes are those of the reported nodes. -/
theorem fixes_ranges (nodes : List Node) :
    (Fixers.negations.fixesIn source nodes).map Fix.range =
      (nodes.filter (isReported source)).map Node.span := by
  induction nodes with
  | nil => rfl
  | cons n nodes ih =>
    have hat : Fixers.negations.fixesAt source n = (rule.visit source n).filterMap Finding.fix :=
      List.append_nil _
    rw [Fixers.fixesIn_cons, List.map_append, ih, hat]
    rcases visit_cases source n with ⟨hn, hvisit⟩ | ⟨hn, finding, hvisit, hreports⟩
    · rw [List.filter_cons_of_neg (isReported_iff.not.2 hn), hvisit]
      rfl
    · obtain ⟨fix, hfix, hrange⟩ := hreports.fix
      rw [List.filter_cons_of_pos (isReported_iff.2 hn), hvisit]
      simp [hfix, hrange]

/-- No two reported nodes start together. -/
theorem reported_starts {ss : List Concrete.Statement} (hs : Concrete.Statement.AllStand ss []) :
    ((Tree.Template.ofConcrete ss).nodes.filter
      (isReported (Concrete.Statement.toSource ss))).Pairwise
        fun m n => m.span.start ≠ n.span.start := by
  have hfixes := (Linter.fixesIn_perm_draft .negations hs).symm.pairwise
    (Draft.fixes_starts (hs.sound .negations) 0) fun h => h.symm
  rw [← List.pairwise_map (f := Node.span) (R := fun a b => a.start ≠ b.start), ← fixes_ranges,
    List.pairwise_map]
  exact hfixes

end NegatedCondition

namespace Linter

open TemplateLint.Tree (Node)

/-- The rule for negated conditions reports the nodes that have one, wherever they stand in the tree,
and nothing else. Each is reported once, with a fix of its range, in the order of the source. -/
theorem lint_negations {config : Configuration} {l : Linter} (hl : Linter.new config = .ok l)
    (hrule : NegatedCondition.rule.id ∈ l.ruleIds) {source : String} {t : Tree.Template}
    (ht : Tree.Template.parse source = .ok t) :
    ∃ (outcome : LintOutcome) (nodes : List Node), l.lint source = .ok outcome ∧
      nodes.Pairwise (fun m n => m.span.start < n.span.start) ∧
      (∀ n, n ∈ nodes ↔ t.Holds (.node n) ∧ n.IsNegated) ∧
      (outcome.diagnostics.filter fun d => d.ruleId == NegatedCondition.rule.id).map
          Diagnostic.place =
        nodes.map fun n => (n.span, some n.kind, some n.span) := by
  have hlint := lint_of_parse (l := l) ht
  have hvalid := valid_of_new hl
  have hmem := mem_rules_of_mem_ruleIds hvalid List.mem_cons_self hrule
  let reported := t.nodes.filter (NegatedCondition.isReported source)
  have hperm : (reported.mergeSort fun m n => m.span.start ≤ n.span.start).Perm reported :=
    List.mergeSort_perm _ _
  refine ⟨_, reported.mergeSort fun m n => m.span.start ≤ n.span.start, hlint, ?_, ?_, ?_⟩
  · obtain ⟨ss, hs, rfl, rfl⟩ := Tree.Template.parse_eq_ok.1 ht
    have hstarts := hperm.symm.pairwise (NegatedCondition.reported_starts hs) fun h => h.symm
    have hsorted := pairwise_mergeSort_start (fun n : Node => n.span.start) reported
    exact hstarts.imp₂ (fun m n hne hle => Nat.lt_of_le_of_ne hle hne) hsorted
  · intro n
    rw [hperm.mem_iff, List.mem_filter, Tree.Template.mem_nodes_iff,
      NegatedCondition.isReported_iff]
  · rw [filter_lintTemplate hvalid hmem]
    exact map_inOrder (fun v => v.1.start) (fun _ => rfl)
      (NegatedCondition.diagnose_places t.nodes)

/-- A value of an attribute, an argument of a modifier, and content. The block that goes on with
another helper and the modifier itself are left alone. -/
def scatteredNegations : String :=
  "<p a=\x7b\x7bif (not b) c\x7d\x7d \x7b\x7bunless (not d) (unless (not e) f)\x7d\x7d>" ++
    "\x7b\x7b#if (not g)\x7d\x7d\x7b\x7belse if h\x7d\x7d\x7b\x7bif (not i) j k\x7d\x7d" ++
    "\x7b\x7b/if\x7d\x7d\x7b\x7b#unless (not l)\x7d\x7d\x7b\x7b/unless\x7d\x7d</p>"

theorem lint_negations_scattered :
    ∃ (t : Tree.Template) (nodes : List Node), Tree.Template.parse scatteredNegations = .ok t ∧
      (∀ n, n ∈ nodes ↔ t.Holds (.node n) ∧ n.IsNegated) ∧
      nodes.map (fun n => (n.span, some n.kind, some n.span)) =
        [(⟨5, 21⟩, some .mustache, some ⟨5, 21⟩), (⟨39, 57⟩, some .subExpression, some ⟨39, 57⟩),
          (⟨88, 106⟩, some .mustache, some ⟨88, 106⟩),
          (⟨113, 143⟩, some .block, some ⟨113, 143⟩)] := by
  have hreports : (Tree.Template.parse scatteredNegations).toOption.map (fun t =>
      (NegatedCondition.rule.diagnose scatteredNegations t.nodes).map Diagnostic.place) =
        some [(⟨5, 21⟩, some .mustache, some ⟨5, 21⟩),
          (⟨39, 57⟩, some .subExpression, some ⟨39, 57⟩),
          (⟨88, 106⟩, some .mustache, some ⟨88, 106⟩),
          (⟨113, 143⟩, some .block, some ⟨113, 143⟩)] := by
    decide +kernel
  cases ht : Tree.Template.parse scatteredNegations with
  | error e =>
    rw [ht] at hreports
    cases hreports
  | ok t =>
    obtain ⟨outcome, nodes, hlint, -, hnodes, hplaces⟩ :=
      lint_negations new_conditionsConfig (by decide) ht
    rw [ht] at hreports
    rw [lint_of_parse ht] at hlint
    cases hlint
    have hplaces' := map_filter_lintTemplate (valid_of_new new_conditionsConfig) List.mem_cons_self
      (fun v => v.1.start) (fun _ => rfl) (Option.some.inj hreports) (by decide)
    exact ⟨t, nodes, rfl, hnodes, hplaces.symm.trans hplaces'⟩

end Linter

end TemplateLint
