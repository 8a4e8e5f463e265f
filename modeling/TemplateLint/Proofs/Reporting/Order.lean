import TemplateLint.Proofs.Fixing.Passes

namespace TemplateLint

/-- Two lists are the same in both parts when a test holds all through the first parts, and nowhere in
the second ones. -/
theorem eq_of_append_eq_append {α : Type} {q : α → Bool} {xs ys xs' ys' : List α}
    (h : xs ++ ys = xs' ++ ys') (hx : ∀ x ∈ xs, q x = true) (hy : ∀ y ∈ ys, q y = false)
    (hx' : ∀ x ∈ xs', q x = true) (hy' : ∀ y ∈ ys', q y = false) : xs = xs' ∧ ys = ys' := by
  have hfilter := congrArg (List.filter q) h
  have hnone : ∀ zs : List α, (∀ z ∈ zs, q z = false) → zs.filter q = [] := by
    intro zs hzs
    exact List.filter_eq_nil_iff.2 fun z hz => by simp [hzs z hz]
  rw [List.filter_append, List.filter_append, List.filter_eq_self.2 hx, List.filter_eq_self.2 hx',
    hnone ys hy, hnone ys' hy', List.append_nil, List.append_nil] at hfilter
  subst hfilter
  exact ⟨rfl, List.append_cancel_left h⟩

section

variable {α : Type} (start : α → Nat)

theorem start_le_trans (a b c : α) (hab : decide (start a ≤ start b) = true)
    (hbc : decide (start b ≤ start c) = true) : decide (start a ≤ start c) = true := by
  simp only [decide_eq_true_eq] at *
  omega

theorem start_le_total (a b : α) :
    (decide (start a ≤ start b) || decide (start b ≤ start a)) = true := by
  simp only [Bool.or_eq_true, decide_eq_true_eq]
  omega

/-- Things that are sorted by a number stand in the order of these numbers. -/
theorem pairwise_mergeSort_start (xs : List α) :
    (xs.mergeSort fun a b => start a ≤ start b).Pairwise fun a b => start a ≤ start b := by
  have hsorted := List.pairwise_mergeSort (start_le_trans start) (start_le_total start) xs
  exact hsorted.imp fun h => of_decide_eq_true h

end

namespace Linter

variable {l : Linter} {source : String}

theorem inOrder_pairwise (ds : List Diagnostic) :
    (inOrder ds).Pairwise fun a b => a.span.start ≤ b.span.start :=
  pairwise_mergeSort_start (fun d => d.span.start) ds

/-- A diagnostic goes before those that do not start earlier. -/
theorem inOrder_cons (d : Diagnostic) (ds : List Diagnostic) :
    ∃ before after, inOrder (d :: ds) = before ++ d :: after ∧ inOrder ds = before ++ after ∧
      (∀ b ∈ before, b.span.start < d.span.start) ∧ ∀ a ∈ after, d.span.start ≤ a.span.start := by
  obtain ⟨before, after, hcons, hds, hbefore⟩ :=
    List.mergeSort_cons (start_le_trans fun d : Diagnostic => d.span.start)
      (start_le_total fun d : Diagnostic => d.span.start) d ds
  refine ⟨before, after, hcons, hds, fun b hb => ?_, fun a ha => ?_⟩
  · simpa using hbefore b hb
  · have hsorted := inOrder_pairwise (d :: ds)
    rw [inOrder, hcons] at hsorted
    exact (List.pairwise_cons.1 (List.pairwise_append.1 hsorted).2.1).1 a ha

/-- Leaving diagnostics out before they are put in order or after that is the same. -/
theorem filter_inOrder (p : Diagnostic → Bool) (ds : List Diagnostic) :
    (inOrder ds).filter p = inOrder (ds.filter p) := by
  induction ds with
  | nil => simp [inOrder]
  | cons d ds ih =>
    obtain ⟨before, after, hcons, hds, hbefore, hafter⟩ := inOrder_cons d ds
    rw [hds, List.filter_append] at ih
    rw [hcons, List.filter_append]
    cases hp : p d with
    | false => rw [List.filter_cons_of_neg (by simp [hp]), List.filter_cons_of_neg (by simp [hp]), ih]
    | true =>
      rw [List.filter_cons_of_pos hp, List.filter_cons_of_pos hp]
      obtain ⟨before', after', hcons', hds', hbefore', hafter'⟩ := inOrder_cons d (ds.filter p)
      rw [hds'] at ih
      obtain ⟨h₁, h₂⟩ := eq_of_append_eq_append (q := fun b => b.span.start < d.span.start) ih
        (fun b hb => decide_eq_true (hbefore b (List.mem_filter.1 hb).1))
        (fun a ha => by simpa using hafter a (List.mem_filter.1 ha).1)
        (fun b hb => decide_eq_true (hbefore' b hb)) (fun a ha => by simpa using hafter' a ha)
      rw [hcons', h₁, h₂]

/-- Diagnostics are in order already when what they tell of is. -/
theorem inOrder_eq_self {β : Type} {ds : List Diagnostic} {view : Diagnostic → β} (start : β → Nat)
    (hstart : ∀ d, start (view d) = d.span.start)
    (h : (ds.map view).Pairwise fun a b => start a ≤ start b) : inOrder ds = ds := by
  refine List.mergeSort_of_pairwise ((List.pairwise_map.1 h).imp fun hab => ?_)
  rw [hstart, hstart] at hab
  exact decide_eq_true hab

/-- Diagnostics that each tell of one of some things are put in order as those things are. -/
theorem map_inOrder {α β : Type} {ds : List Diagnostic} {things : List α} {view : Diagnostic → β}
    {tell : α → β} (start : β → Nat) (hstart : ∀ d, start (view d) = d.span.start)
    (h : ds.map view = things.map tell) :
    (inOrder ds).map view =
      (things.mergeSort fun a b => start (tell a) ≤ start (tell b)).map tell := by
  have hview := List.map_mergeSort (l := ds) (f := view)
    (r := fun a b => decide (a.span.start ≤ b.span.start))
    (s := fun a b => decide (start a ≤ start b)) fun a _ b _ => by rw [hstart, hstart]
  have htell := List.map_mergeSort (l := things) (f := tell)
    (r := fun a b => decide (start (tell a) ≤ start (tell b)))
    (s := fun a b => decide (start a ≤ start b)) fun _ _ _ _ => rfl
  rw [inOrder, hview, h, htell]

theorem diagnose_eq (r : Rule) (nodes : List Tree.Node) :
    r.diagnose source nodes =
      (nodes.flatMap (r.visit source)).map (RuleContext.new r.metadata source).complete := by
  rw [Rule.diagnose, foldl_log]
  exact List.nil_append _

theorem ruleId_of_mem_diagnose {r : Rule} {nodes : List Tree.Node} {d : Diagnostic}
    (hd : d ∈ r.diagnose source nodes) : d.ruleId = r.id := by
  rw [diagnose_eq] at hd
  obtain ⟨finding, -, rfl⟩ := List.mem_map.1 hd
  exact ruleId_complete _ finding

/-- The diagnostics of a linter that come from one of its rules are those of the rule in order. -/
theorem filter_lintTemplate (hl : l.Valid) {r : Rule} (hr : r ∈ l.rules) (t : Tree.Template) :
    (l.lintTemplate source t).diagnostics.filter (fun d => d.ruleId == r.id) =
      inOrder (r.diagnose source t.nodes) := by
  have hown : (r.diagnose source t.nodes).filter (fun d => d.ruleId == r.id) =
      r.diagnose source t.nodes :=
    List.filter_eq_self.2 fun d hd => by simp [ruleId_of_mem_diagnose hd]
  have hother : ∀ rules : List Rule, (∀ s ∈ rules, s ∈ l.rules ∧ s ≠ r) →
      (rules.flatMap fun s => s.diagnose source t.nodes).filter (fun d => d.ruleId == r.id) = [] := by
    intro rules hrules
    refine List.filter_eq_nil_iff.2 fun d hd => ?_
    obtain ⟨s, hs, hd⟩ := List.mem_flatMap.1 hd
    obtain ⟨hsl, hne⟩ := hrules s hs
    rw [ruleId_of_mem_diagnose hd]
    simpa using fun hid => hne (Catalogue.eq_of_id (hl.catalogue s hsl) (hl.catalogue r hr) hid)
  obtain ⟨before, after, hrules⟩ := List.append_of_mem hr
  have hnodup := hl.nodup
  rw [hrules, List.perm_middle.nodup_iff, List.nodup_cons] at hnodup
  have hne : ∀ s ∈ before ++ after, s ∈ l.rules ∧ s ≠ r := by
    intro s hs
    refine ⟨?_, fun he => hnodup.1 (he ▸ hs)⟩
    rw [hrules]
    exact List.perm_middle.mem_iff.2 (List.mem_cons_of_mem _ hs)
  rw [lintTemplate, filter_inOrder, hrules, List.flatMap_append, List.flatMap_cons,
    List.filter_append, List.filter_append, hown,
    hother before fun s hs => hne s (List.mem_append_left _ hs),
    hother after fun s hs => hne s (List.mem_append_right _ hs), List.nil_append, List.append_nil]

theorem mem_rules_of_mem_ruleIds (hl : l.Valid) {r : Rule} (hr : r ∈ Catalogue.rules)
    (hid : r.id ∈ l.ruleIds) : r ∈ l.rules :=
  (contains_ruleIds hr hl.catalogue).1 (List.contains_iff_mem.2 hid)

/-- What the diagnostics of one of the rules tell of, when the rule finds it in order. -/
theorem map_filter_lintTemplate (hl : l.Valid) {r : Rule} (hr : r ∈ l.rules) {t : Tree.Template}
    {β : Type} {view : Diagnostic → β} (start : β → Nat)
    (hstart : ∀ d, start (view d) = d.span.start) {vs : List β}
    (h : (r.diagnose source t.nodes).map view = vs)
    (hsorted : vs.Pairwise fun v w => start v ≤ start w) :
    ((l.lintTemplate source t).diagnostics.filter fun d => d.ruleId == r.id).map view = vs := by
  subst h
  rw [filter_lintTemplate hl hr, inOrder_eq_self start hstart hsorted]

/-- Each rule can be enabled alone. -/
theorem new_single {r : Rule} (hr : r ∈ Catalogue.rules) :
    Linter.new (Configuration.new.withRule r.id (.bool true)) = .ok ⟨[r]⟩ := by
  simp only [Catalogue.rules, List.mem_cons, List.not_mem_nil, or_false] at hr
  rcases hr with rfl | rfl | rfl <;> rfl

theorem rules_of_ruleIds {r : Rule} (hl : l.Valid) (hr : r ∈ Catalogue.rules)
    (hids : l.ruleIds = [r.id]) : l.rules = [r] := by
  obtain ⟨s, hs, hid⟩ := List.map_eq_singleton_iff.1 hids
  have hmem : s ∈ l.rules := by rw [hs]; exact List.mem_singleton_self s
  rw [hs, Catalogue.eq_of_id (hl.catalogue s hmem) hr hid]

theorem diagnostics_single (r : Rule) (t : Tree.Template) :
    (lintTemplate ⟨[r]⟩ source t).diagnostics = inOrder (r.diagnose source t.nodes) := by
  rw [lintTemplate, List.flatMap_singleton]

theorem ruleId_of_mem_lintTemplate {t : Tree.Template} {d : Diagnostic}
    (hd : d ∈ (l.lintTemplate source t).diagnostics) : d.ruleId ∈ l.ruleIds := by
  obtain ⟨r, hr, hd⟩ := List.mem_flatMap.1 (List.mem_mergeSort.1 hd)
  rw [ruleId_of_mem_diagnose hd]
  exact List.mem_map_of_mem hr

/-- Every diagnostic of a linter is of one of its rules, and those of one rule are what a linter gives
that has nothing but this rule, in the same order. Each of the rules can be enabled alone. -/
theorem lint_restrict {config : Configuration} {l : Linter} (hl : Linter.new config = .ok l)
    {source : String} {t : Tree.Template} (ht : Tree.Template.parse source = .ok t) :
    ∃ outcome, l.lint source = .ok outcome ∧
      (∀ d ∈ outcome.diagnostics, d.ruleId ∈ l.ruleIds) ∧
      ∀ id ∈ l.ruleIds,
        (∃ config' alone, Linter.new config' = .ok alone ∧ alone.ruleIds = [id]) ∧
        ∀ config' alone, Linter.new config' = .ok alone → alone.ruleIds = [id] →
          ∃ own, alone.lint source = .ok own ∧
            outcome.diagnostics.filter (fun d => d.ruleId == id) = own.diagnostics := by
  have hlint : ∀ m : Linter, m.lint source = .ok (m.lintTemplate source t) :=
    fun m => lint_of_parse ht
  have hvalid := valid_of_new hl
  refine ⟨_, hlint l, fun d hd => ruleId_of_mem_lintTemplate hd, fun id hid => ?_⟩
  obtain ⟨r, hr, rfl⟩ := List.mem_map.1 hid
  have hcatalogue := hvalid.catalogue r hr
  refine ⟨⟨_, _, new_single hcatalogue, rfl⟩, fun config' alone halone hids => ⟨_, hlint alone, ?_⟩⟩
  obtain ⟨rules⟩ := alone
  obtain rfl : rules = [r] := rules_of_ruleIds (valid_of_new halone) hcatalogue hids
  rw [filter_lintTemplate hvalid hr, diagnostics_single]

/-- A condition in a value that its component deprecates, and one beside unsafe content. -/
def mixedFindings : String :=
  "<Input @click=\x7b\x7bif (not a) b c\x7d\x7d />\x7b\x7b\x7bif (not d) e\x7d\x7d\x7d"

/-- The configuration with all rules, and the linter for it. -/
def allConfig : Configuration :=
  Catalogue.ids.foldl (fun config id => config.withRule id (.bool true)) Configuration.new

def allRules : Linter :=
  ⟨[NegatedCondition.rule, TripleCurlies.rule, ComponentArguments.rule]⟩

theorem new_allConfig : Linter.new allConfig = .ok allRules := by rfl

theorem lint_restrict_mixed :
    ∃ outcome own, allRules.lint mixedFindings = .ok outcome ∧
      conditionsOnly.lint mixedFindings = .ok own ∧
      (∀ d ∈ outcome.diagnostics, d.ruleId ∈ Catalogue.ids) ∧
      outcome.diagnostics.filter (fun d => d.ruleId == NegatedCondition.rule.id) =
        own.diagnostics := by
  have hparse : (Tree.Template.parse mixedFindings).isOk = true := by decide +kernel
  cases ht : Tree.Template.parse mixedFindings with
  | error e =>
    rw [ht] at hparse
    cases hparse
  | ok t =>
    obtain ⟨outcome, hlint, hids, hrules⟩ := lint_restrict new_allConfig ht
    obtain ⟨own, halone, hfilter⟩ :=
      (hrules NegatedCondition.rule.id (by decide)).2 _ _ new_conditionsConfig rfl
    have hcatalogue : ∀ id ∈ allRules.ruleIds, id ∈ Catalogue.ids := by decide
    exact ⟨outcome, own, hlint, halone, fun d hd => hcatalogue _ (hids d hd), hfilter⟩

end Linter

end TemplateLint
