import Mathlib.Data.List.Perm.Basic
import TemplateLint.Linter
import TemplateLint.Proofs.Fixing.Statement
import TemplateLint.Proofs.Reading.Source

namespace TemplateLint

open Text (size opens)
open Concrete (Statement)

/-- No two rules have the same id. -/
theorem Catalogue.eq_of_id {r s : Rule} (hr : r ∈ Catalogue.rules) (hs : s ∈ Catalogue.rules)
    (h : r.id = s.id) : r = s := by
  simp only [Catalogue.rules, List.mem_cons, List.not_mem_nil, or_false] at hr hs
  rcases hr with rfl | rfl | rfl <;> rcases hs with rfl | rfl | rfl
  all_goals first | rfl | exact absurd h (by decide)

section

variable (ctx : RuleContext) (finding : Finding)

theorem RuleContext.complete_eq : ctx.complete finding =
    { message := finding.message
      source := Text.slice finding.span ctx.source
      position := Text.positionAt finding.span.start ctx.source.toList
      isFixable := finding.fix.isSome
      ruleId := ctx.ruleId
      severity := ctx.severity
      span := finding.span
      nodeKind := some finding.nodeKind
      fix := finding.fix } := by
  unfold RuleContext.complete
  cases finding.fix <;> rfl

theorem span_complete : (ctx.complete finding).span = finding.span := by
  rw [RuleContext.complete_eq]

theorem message_complete : (ctx.complete finding).message = finding.message := by
  rw [RuleContext.complete_eq]

theorem source_complete :
    (ctx.complete finding).source = Text.slice finding.span ctx.source := by
  rw [RuleContext.complete_eq]

theorem position_complete : (ctx.complete finding).position =
    Text.positionAt finding.span.start ctx.source.toList := by
  rw [RuleContext.complete_eq]

theorem nodeKind_complete : (ctx.complete finding).nodeKind = some finding.nodeKind := by
  rw [RuleContext.complete_eq]

theorem ruleId_complete : (ctx.complete finding).ruleId = ctx.ruleId := by
  rw [RuleContext.complete_eq]

end

namespace Linter

variable {l : Linter} {source : String}

theorem lint_of_parse {t : Tree.Template} (ht : Tree.Template.parse source = .ok t) :
    l.lint source = .ok (l.lintTemplate source t) := by
  rw [lint, ht]

theorem exists_template_of_lint {o : LintOutcome} (h : l.lint source = .ok o) :
    ∃ t, Tree.Template.parse source = .ok t ∧ o = l.lintTemplate source t := by
  unfold lint at h
  split at h
  · next t ht =>
    cases h
    exact ⟨t, ht, rfl⟩
  · cases h

/-- What the first of the configured rules adds to the enabled ones. -/
theorem eq_of_enabled {id : String} {value : Json.Value} {rest : List (String × Json.Value)}
    {rules : List Rule} (h : enabled ((id, value) :: rest) = .ok rules) :
    ∃ rule built more, Catalogue.find? id = some rule ∧ (built = some rule ∨ built = none) ∧
      enabled rest = .ok more ∧ rules = built.toList ++ more := by
  simp only [enabled] at h
  split at h
  · cases h
  · next rule hfind =>
    cases hb : rule.build? (some value) with
    | error e =>
      rw [hb] at h
      cases h
    | ok built =>
      rw [hb] at h
      cases hr : enabled rest with
      | error e =>
        simp only [hr] at h
        cases h
      | ok more =>
        simp only [hr] at h
        cases h
        have hbuilt : built = some rule ∨ built = none := by
          unfold Rule.build? at hb
          cases ht : Toggle.ofValue rule.id (some value) with
          | error e =>
            rw [ht] at hb
            cases hb
          | ok toggle =>
            rw [ht] at hb
            cases hb
            cases toggle.isEnabled <;> simp
        exact ⟨rule, built, more, hfind, hbuilt, rfl, rfl⟩

theorem mem_enabled {entries : List (String × Json.Value)} {rules : List Rule}
    (h : enabled entries = .ok rules) :
    ∀ r ∈ rules, r ∈ Catalogue.rules ∧ ∃ value, (r.id, value) ∈ entries := by
  induction entries generalizing rules with
  | nil =>
    cases h
    simp
  | cons entry rest ih =>
    obtain ⟨id, value⟩ := entry
    obtain ⟨rule, built, more, hfind, hbuilt, hmore, rfl⟩ := eq_of_enabled h
    intro r hr
    rcases List.mem_append.1 hr with hr | hr
    · obtain rfl : r = rule := by
        rcases hbuilt with rfl | rfl
        · simpa using hr
        · simp at hr
      have hid : r.id = id := by simpa using List.find?_some hfind
      exact ⟨List.mem_of_find?_eq_some hfind, value, by simp [hid]⟩
    · obtain ⟨hcatalogue, v, hv⟩ := ih hmore r hr
      exact ⟨hcatalogue, v, List.mem_cons_of_mem _ hv⟩

/-- Enabled rules stand in the order of their ids, each once. -/
theorem enabled_ordered {entries : List (String × Json.Value)} {rules : List Rule}
    (h : enabled entries = .ok rules) (ho : entries.Pairwise fun a b => a.1 < b.1) :
    rules.Pairwise fun r s => r.id < s.id := by
  induction entries generalizing rules with
  | nil =>
    cases h
    exact .nil
  | cons entry rest ih =>
    obtain ⟨id, value⟩ := entry
    obtain ⟨rule, built, more, hfind, hbuilt, hmore, rfl⟩ := eq_of_enabled h
    obtain ⟨hfirst, ho⟩ := List.pairwise_cons.1 ho
    have hrest := ih hmore ho
    have hid : rule.id = id := by simpa using List.find?_some hfind
    rcases hbuilt with rfl | rfl
    · refine List.pairwise_cons.2 ⟨fun r hr => ?_, hrest⟩
      obtain ⟨-, v, hv⟩ := mem_enabled hmore r hr
      rw [hid]
      exact hfirst _ hv
    · exact hrest

theorem entries_of_new {config : Configuration} (h : Linter.new config = .ok l) :
    enabled config.rules.entries = .ok l.rules := by
  unfold Linter.new at h
  cases hr : enabled config.rules.entries with
  | error e =>
    rw [hr] at h
    cases h
  | ok rules =>
    rw [hr] at h
    cases h
    rfl

/-- The rules of a linter are of the catalogue, and none of them stands twice. -/
structure Valid (l : Linter) : Prop where
  catalogue : ∀ r ∈ l.rules, r ∈ Catalogue.rules
  nodup : l.rules.Nodup

theorem valid_of_new {config : Configuration} (h : Linter.new config = .ok l) : l.Valid := by
  refine ⟨fun r hr => (mem_enabled (entries_of_new h) r hr).1, ?_⟩
  apply (enabled_ordered (entries_of_new h) config.rules.ordered).imp
  rintro r s hrs rfl
  exact String.lt_irrefl _ hrs

/-- The linter that only looks for negated conditions, and its configuration. -/
def conditionsOnly : Linter := ⟨[NegatedCondition.rule]⟩

def conditionsConfig : Configuration :=
  Configuration.new.withRule NegatedCondition.rule.id (.bool true)

theorem new_conditionsConfig : Linter.new conditionsConfig = .ok conditionsOnly := by rfl

/-- The rules with fixes that a linter has. -/
def fixers (l : Linter) : Fixers where
  conditions := l.ruleIds.contains NegatedCondition.rule.id
  arguments := l.ruleIds.contains ComponentArguments.rule.id

theorem foldl_log (findings : List Finding) (ctx : RuleContext) :
    (findings.foldl RuleContext.log ctx).diagnostics =
      ctx.diagnostics ++ findings.map ctx.complete := by
  induction findings generalizing ctx with
  | nil => simp
  | cons finding findings ih =>
    have hcomplete : (ctx.log finding).complete = ctx.complete := rfl
    rw [List.foldl_cons, ih, hcomplete]
    simp [RuleContext.log]

theorem fix_complete (ctx : RuleContext) (finding : Finding) :
    (ctx.complete finding).fix = finding.fix := by
  rw [RuleContext.complete_eq]

theorem fixes_diagnose (r : Rule) (nodes : List Tree.Node) :
    (r.diagnose source nodes).filterMap Diagnostic.fix =
      nodes.flatMap fun n => (r.visit source n).filterMap Finding.fix := by
  have hfix : (Diagnostic.fix ∘ (RuleContext.new r.metadata source).complete) = Finding.fix := by
    funext finding
    exact fix_complete _ finding
  rw [Rule.diagnose, foldl_log, List.filterMap_append, List.filterMap_map, hfix,
    List.filterMap_flatMap]
  rfl

theorem visit_tripleCurlies (n : Tree.Node) :
    (TripleCurlies.rule.visit source n).filterMap Finding.fix = [] := by
  unfold Rule.visit
  split
  · cases n with
    | mustache m =>
      simp only [TripleCurlies.rule, TripleCurlies.findings]
      split <;> rfl
    | _ => rfl
  · rfl

theorem contains_ruleIds {r : Rule} (hr : r ∈ Catalogue.rules)
    (hl : ∀ s ∈ l.rules, s ∈ Catalogue.rules) : l.ruleIds.contains r.id = true ↔ r ∈ l.rules := by
  rw [List.contains_iff_mem, Linter.ruleIds, List.mem_map]
  constructor
  · rintro ⟨s, hs, he⟩
    rw [← Catalogue.eq_of_id (hl s hs) hr he]
    exact hs
  · intro h
    exact ⟨r, h, rfl⟩

/-- The rules of a linter are those of the catalogue whose ids it has. -/
theorem rules_perm (hl : l.Valid) :
    l.rules.Perm (Catalogue.rules.filter fun r => l.ruleIds.contains r.id) := by
  have hcatalogue : Catalogue.rules.Nodup := by
    have hids : (Catalogue.rules.map Rule.id).Nodup := by decide
    exact (List.pairwise_map.1 hids).imp fun hrs he => hrs (congrArg Rule.id he)
  apply (List.perm_ext_iff_of_nodup hl.nodup (hcatalogue.filter _)).2
  intro r
  rw [List.mem_filter]
  constructor
  · intro hr
    exact ⟨hl.catalogue r hr, (contains_ruleIds (hl.catalogue r hr) hl.catalogue).2 hr⟩
  · rintro ⟨hr, hid⟩
    exact (contains_ruleIds hr hl.catalogue).1 hid

/-- The fixes of a linter for a tree are those of its rules at all nodes. -/
theorem fixes_perm (hl : l.Valid)
    (t : Tree.Template) :
    (l.lintTemplate source t).fixes.Perm (l.fixers.fixesIn source t.nodes) := by
  let found (r : Rule) : List Fix :=
    t.nodes.flatMap fun n => (r.visit source n).filterMap Finding.fix
  have hall : (l.lintTemplate source t).fixes.Perm (l.rules.flatMap found) := by
    have hperm := List.mergeSort_perm (l.rules.flatMap fun r => r.diagnose source t.nodes)
      fun a b => a.span.start ≤ b.span.start
    refine (hperm.filterMap _).trans ?_
    rw [List.filterMap_flatMap]
    simp only [fixes_diagnose]
    exact .refl _
  have hnone : found TripleCurlies.rule = [] := by
    simp only [found, visit_tripleCurlies, List.flatMap_eq_nil_iff, implies_true]
  have hrules : (Catalogue.rules.filter fun r => l.ruleIds.contains r.id).flatMap found =
      (if l.fixers.conditions then found NegatedCondition.rule else []) ++
        if l.fixers.arguments then found ComponentArguments.rule else [] := by
    have hfixers : l.fixers = ⟨l.ruleIds.contains NegatedCondition.rule.id,
      l.ruleIds.contains ComponentArguments.rule.id⟩ := rfl
    rw [hfixers, Catalogue.rules]
    simp only [List.filter_cons, List.filter_nil]
    cases l.ruleIds.contains NegatedCondition.rule.id <;>
      cases l.ruleIds.contains ComponentArguments.rule.id <;>
      cases l.ruleIds.contains TripleCurlies.rule.id <;> simp [hnone]
  have hnodes : (l.fixers.fixesIn source t.nodes).Perm
      ((if l.fixers.conditions then found NegatedCondition.rule else []) ++
        if l.fixers.arguments then found ComponentArguments.rule else []) := by
    have hempty : (t.nodes.flatMap fun _ => ([] : List Fix)) = [] := by
      simp only [List.flatMap_eq_nil_iff, implies_true]
    refine (List.flatMap_append_perm _ _ _).symm.trans ?_
    cases l.fixers.conditions <;> cases l.fixers.arguments <;> simp [found, hempty]
  exact hall.trans (((rules_perm hl).flatMap_right found).trans (hrules ▸ hnodes.symm))

/-- The fixes of rules at all nodes of a tree are the places of the draft of its text. -/
theorem fixesIn_perm_draft (f : Fixers) {ss : List Statement} (hs : Statement.AllStand ss []) :
    (f.fixesIn (Statement.toSource ss) (Tree.Template.ofConcrete ss).nodes).Perm
      ((Statement.draftAll f ss).fixes 0) := by
  have htemplate : ∀ t, f.fixesAt (Statement.toSource ss) (.template t) = [] := by
    intro t
    simp [Fixers.fixesAt, Rule.visit, NegatedCondition.rule, ComponentArguments.rule,
      Tree.Node.kind]
  rw [Tree.Template.nodes, Fixers.fixesIn_cons, htemplate, List.nil_append]
  exact hs.fixes_perm f [] [] (Statement.toSource ss) (by simp [Statement.toSource]) rfl

/-- The fixes for a template are the places of the draft of its text. -/
theorem fixes_perm_draft (hl : l.Valid) {ss : List Statement} (hs : Statement.AllStand ss []) :
    (l.lintTemplate (Statement.toSource ss) (.ofConcrete ss)).fixes.Perm
      ((Statement.draftAll l.fixers ss).fixes 0) :=
  (fixes_perm hl _).trans (fixesIn_perm_draft l.fixers hs)

end Linter

end TemplateLint
