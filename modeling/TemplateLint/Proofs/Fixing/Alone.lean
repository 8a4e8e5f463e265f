import TemplateLint.Proofs.Fixing.Apart
import TemplateLint.Proofs.Fixing.Failing
import TemplateLint.Proofs.Fixing.Passes

namespace TemplateLint

open Text (size)
open Concrete (Statement)

namespace Tree

/-- A node with a negated condition whose counterpart takes the same branch, whatever the condition
is. -/
def Node.HasCounterpart : Node → Prop
  | .mustache m => ∃ c, m.call.unnegated? = some c ∧ ∀ holds, c.value? holds = m.call.value? holds
  | .subExpression e =>
    ∃ c, e.call.unnegated? = some c ∧ ∀ holds, c.value? holds = e.call.value? holds
  | .block b => ∃ c, b.unnegated? = some c ∧ ∀ holds, c.rendered? holds = b.rendered? holds
  | _ => False

end Tree

namespace NegatedCondition

variable {source : String}

theorem eq_of_inlineFinding? {call : Tree.Call} {span : Span} {kind : NodeKind}
    {finding : Finding} (h : inlineFinding? source call span kind = some finding) :
    (∃ c, call.unnegated? = some c) ∧ finding.span = span ∧
      ∃ fix, finding.fix = some fix ∧ fix.range = span := by
  unfold inlineFinding? at h
  obtain ⟨helper, hhelper, h⟩ := Option.bind_eq_some_iff.1 h
  split at h
  · next condition values hparams =>
    obtain ⟨operand, hoperand, h⟩ := Option.bind_eq_some_iff.1 h
    obtain ⟨⟨message, fix⟩, hedits, h⟩ := Option.bind_eq_some_iff.1 h
    cases h
    have hnegated : call.negated? = some (helper, operand, values) := by
      simp [Tree.Call.negated?, hhelper, hparams, hoperand]
    unfold inlineEdits at hedits
    unfold Tree.Call.unnegated?
    rw [hnegated, Option.bind_some]
    dsimp only
    split at hedits
    · cases hedits
      exact ⟨⟨_, rfl⟩, rfl, _, rfl, rfl⟩
    · cases hedits
      exact ⟨⟨_, rfl⟩, rfl, _, rfl, rfl⟩
    · cases hedits
      exact ⟨⟨_, rfl⟩, rfl, _, rfl, rfl⟩
    · cases hedits
      exact ⟨⟨_, rfl⟩, rfl, _, rfl, rfl⟩
    · cases hedits
  · cases h

theorem eq_of_blockFinding? {b : Tree.Block} {finding : Finding}
    (h : blockFinding? source b = some finding) :
    (∃ c, b.unnegated? = some c) ∧ finding.span = b.span ∧
      ∃ fix, finding.fix = some fix ∧ fix.range = b.span := by
  unfold blockFinding? at h
  obtain ⟨helper, hhelper, h⟩ := Option.bind_eq_some_iff.1 h
  obtain ⟨close, hclose, h⟩ := Option.bind_eq_some_iff.1 h
  split at h
  · next condition hparams =>
    obtain ⟨operand, hoperand, h⟩ := Option.bind_eq_some_iff.1 h
    obtain ⟨⟨message, fix⟩, hedits, h⟩ := Option.bind_eq_some_iff.1 h
    cases h
    have hnegated : b.call.negated? = some (helper, operand, []) := by
      simp [Tree.Call.negated?, hhelper, hparams, hoperand]
    unfold blockEdits at hedits
    unfold Tree.Block.unnegated? Tree.Block.without?
    rw [hclose, Option.bind_some, hnegated, Option.bind_some]
    dsimp only [List.isEmpty_nil]
    rw [if_pos rfl]
    cases helper with
    | whenFalse =>
      cases hedits
      exact ⟨⟨_, rfl⟩, rfl, _, rfl, rfl⟩
    | whenTrue =>
      cases hinverse : b.inverse with
      | chained segment =>
        rw [hinverse] at hedits
        cases hedits
      | final elseSpan body =>
        rw [hinverse] at hedits
        cases hedits
        exact ⟨⟨_, rfl⟩, rfl, _, rfl, rfl⟩
      | absent =>
        rw [hinverse] at hedits
        cases hedits
        exact ⟨⟨_, rfl⟩, rfl, _, rfl, rfl⟩
  · cases h

theorem hasCounterpart_of_visit {n : Tree.Node} {finding : Finding}
    (h : finding ∈ rule.visit source n) :
    n.HasCounterpart ∧ finding.span = n.span ∧
      ∃ fix, finding.fix = some fix ∧ fix.range = n.span := by
  unfold Rule.visit at h
  split at h
  · change finding ∈ findings source n at h
    cases n with
    | mustache m =>
      obtain ⟨⟨c, hc⟩, hspan⟩ := eq_of_inlineFinding? (Option.mem_toList.1 h)
      exact ⟨⟨c, hc, Tree.Call.value?_unnegated hc⟩, hspan⟩
    | subExpression e =>
      obtain ⟨⟨c, hc⟩, hspan⟩ := eq_of_inlineFinding? (Option.mem_toList.1 h)
      exact ⟨⟨c, hc, Tree.Call.value?_unnegated hc⟩, hspan⟩
    | block b =>
      obtain ⟨⟨c, hc⟩, hspan⟩ := eq_of_blockFinding? (Option.mem_toList.1 h)
      exact ⟨⟨c, hc, Tree.Block.rendered?_unnegated hc⟩, hspan⟩
    | _ => cases h
  · cases h

end NegatedCondition

namespace Concrete

mutual

/-- Without any rule there is no fix that could be read as another thing. -/
theorem Statement.reads_nothing : ∀ s : Statement, s.reads ⟨false, false⟩ = true
  | .text _ => rfl
  | .comment _ => rfl
  | .note _ => rfl
  | .mustache _ => rfl
  | .block _ program sections _ => by
    simp [Statement.reads, Statement.readsAll_nothing program, Section.readsAll_nothing sections]
  | .whole opening => opening.reads_onlyConditions ⟨false, false⟩
  | .element opening children _ => by
    have htag : opening.reads ⟨false, false⟩ = true := opening.reads_onlyConditions ⟨false, false⟩
    simp [Statement.reads, htag, Statement.readsAll_nothing children]

theorem Statement.readsAll_nothing : ∀ ss, Statement.readsAll ⟨false, false⟩ ss = true
  | [] => rfl
  | s :: ss => by
    simp [Statement.readsAll, Statement.reads_nothing s, Statement.readsAll_nothing ss]

theorem Section.readsAll_nothing : ∀ ss, Section.readsAll ⟨false, false⟩ ss = true
  | [] => rfl
  | ⟨_, body⟩ :: ss => by
    simp [Section.readsAll, Statement.readsAll_nothing body, Section.readsAll_nothing ss]

end

/-- The statements without the selected negations are read back with the counterparts in their places
exactly if no words are joined. -/
theorem Statement.AllStand.parse_edit {ss : List Statement} (h : Statement.AllStand ss [])
    (g : Span → Bool) :
    (∃ t, Tree.Template.parse
          (Statement.toSource (Statement.editAll .negations g 0 ss)) = .ok t ∧
        t.shape nowhere = (Tree.Template.ofConcrete ss).shape g) ↔
      Statement.admitsAll .negations g 0 ss = true ∧ Statement.apartAll g 0 ss = true := by
  have hshape : ∀ ss', (Tree.Template.ofConcrete ss').shape nowhere =
      (Tree.Template.ofConcrete ss).shape g ↔
        Statement.bareAll ss' = Tree.Statement.shapeAll g (Statement.atAll 0 ss) := by
    intro ss'
    simp only [Tree.Template.ofConcrete, Tree.Template.shape, Tree.Template.mk.injEq, and_true]
    rfl
  rw [← h.shape_edit 0, ← hshape]
  constructor
  · rintro ⟨t, ht, hsame⟩
    obtain ⟨ss', hs', hsource, rfl⟩ := Tree.Template.parse_eq_ok.1 ht
    have hchars := String.ofList_injective hsource
    have hadmits : Statement.admitsAll .negations g 0 ss = true := by
      rw [← h.readAll_edit 0]
      exact ⟨ss', by rw [hchars, hs'.readAll_eq]⟩
    have hread := (h.edit hadmits).readAll_eq
    rw [hchars, hs'.readAll_eq] at hread
    obtain rfl := Except.ok.inj hread
    exact ⟨hadmits, hsame⟩
  · rintro ⟨hadmits, hsame⟩
    exact ⟨_, Tree.Template.parse_eq_ok.2 ⟨_, h.edit hadmits, rfl, rfl⟩, hsame⟩

end Concrete

/-- Whether no word is joined with one beside it when the negation at one range is taken away. -/
def keepsApart (source : String) (span : Span) : Bool :=
  Statement.admitsAll .negations (· == span) 0 (Statement.ofSource source) &&
    Statement.apartAll (· == span) 0 (Statement.ofSource source)

namespace Rule

theorem mem_diagnose {r : Rule} {source : String} {nodes : List Tree.Node} {d : Diagnostic} :
    d ∈ r.diagnose source nodes ↔ ∃ n ∈ nodes, ∃ finding ∈ r.visit source n,
      (RuleContext.new r.metadata source).complete finding = d := by
  rw [Rule.diagnose, Linter.foldl_log]
  simp only [RuleContext.new, List.nil_append, List.mem_map, List.mem_flatMap]
  grind

end Rule

/-- Every report of a negated condition has a fix of its range, which can be applied alone. The new
text is read as the old one with the counterpart of the reported node exactly if no word is joined
with one beside it. The counterpart takes the same branch whatever the condition is. -/
theorem fix_alone {source : String} {t : Tree.Template} (ht : Tree.Template.parse source = .ok t)
    {d : Diagnostic} (hd : d ∈ NegatedCondition.rule.diagnose source t.nodes) :
    (∃ n ∈ t.nodes, n.span = d.span ∧ n.HasCounterpart) ∧
    ∃ fix applied, d.fix = some fix ∧ fix.range = d.span ∧
      Fix.applyAll source [fix] = .ok applied ∧
      ((∃ t', Tree.Template.parse applied.output = .ok t' ∧
          t'.shape nowhere = t.shape (· == d.span)) ↔ keepsApart source d.span = true) := by
  obtain ⟨n, hn, finding, hfinding, rfl⟩ := Rule.mem_diagnose.1 hd
  obtain ⟨hcounterpart, hspan, fix, hfix, hrange⟩ :=
    NegatedCondition.hasCounterpart_of_visit hfinding
  have hdspan := span_complete (RuleContext.new NegatedCondition.rule.metadata source) finding
  have hdfix := Linter.fix_complete (RuleContext.new NegatedCondition.rule.metadata source) finding
  rw [hdspan, hspan, hdfix]
  refine ⟨⟨n, hn, rfl, hcounterpart⟩, ?_⟩
  obtain ⟨ss, hs, rfl, rfl⟩ := Tree.Template.parse_eq_ok.1 ht
  have hplace : fix ∈ (Statement.draftAll .negations ss).fixes 0 := by
    rw [← (Linter.fixesIn_perm_draft .negations hs).mem_iff]
    refine List.mem_flatMap.2 ⟨n, hn, List.mem_append_left _ ?_⟩
    exact List.mem_filterMap.2 ⟨finding, hfinding, hfix⟩
  have hplaces : ∀ x ∈ [fix], x ∈ (Statement.draftAll .negations ss).fixes 0 := by
    simpa using hplace
  obtain ⟨skipped, happly⟩ := Draft.applyAll_eq (hs.sound .negations) hplaces
  have hselects : Draft.selects [fix] = (· == n.span) := by
    funext s
    simp [Draft.selects, hrange, BEq.comm]
  rw [Concrete.Statement.chars_draftAll, hselects,
    ← Concrete.Statement.chars_editAll .negations _ ss (Concrete.Statement.readsAll_nothing ss)]
    at happly
  refine ⟨fix, _, hfix, hrange, happly, ?_⟩
  rw [keepsApart, Bool.and_eq_true]
  have hof : Statement.ofSource (String.ofList (Statement.charsAll ss)) = ss := hs.ofSource_eq
  rw [hof]
  exact hs.parse_edit (· == n.span)

/-- A mustache whose condition would be joined with its helper, as nothing but a parenthesis parts
them. -/
def joinedValue : String := "\x7b\x7bif(not a) b\x7d\x7d"

theorem fix_alone_joined :
    ∃ t d fix applied, Tree.Template.parse joinedValue = .ok t ∧
      d ∈ NegatedCondition.rule.diagnose joinedValue t.nodes ∧ d.fix = some fix ∧
      Fix.applyAll joinedValue [fix] = .ok applied ∧
      ¬ ∃ t', Tree.Template.parse applied.output = .ok t' ∧
        t'.shape nowhere = t.shape (· == d.span) := by
  have hreports : ((Tree.Template.parse joinedValue).toOption.map fun t =>
      (NegatedCondition.rule.diagnose joinedValue t.nodes).map Diagnostic.span) =
        some [⟨0, 15⟩] := by
    decide +kernel
  have hjoined : keepsApart joinedValue ⟨0, 15⟩ = false := by decide +kernel
  cases ht : Tree.Template.parse joinedValue with
  | error e =>
    rw [ht] at hreports
    cases hreports
  | ok t =>
    rw [ht] at hreports
    have hspans : (NegatedCondition.rule.diagnose joinedValue t.nodes).map Diagnostic.span =
        [⟨0, 15⟩] := Option.some.inj hreports
    obtain ⟨d, hd, hspan⟩ : ∃ d ∈ NegatedCondition.rule.diagnose joinedValue t.nodes,
        d.span = ⟨0, 15⟩ := by
      rw [← List.mem_map, hspans]
      exact List.mem_singleton.2 rfl
    obtain ⟨-, fix, applied, hfix, -, happly, hshape⟩ := fix_alone ht hd
    refine ⟨t, d, fix, applied, rfl, hd, hfix, happly, ?_⟩
    rw [hshape, hspan, hjoined]
    decide

end TemplateLint
