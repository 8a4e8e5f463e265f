import TemplateLint.Active.Linter
import TemplateLint.Proofs.Config.Calls
import TemplateLint.Proofs.Fixing.Passes
import TemplateLint.Proofs.Text.Bytes

namespace TemplateLint

/-- What is wrong with a configured id and its value, when something is. -/
def fault? (entry : String × Json.Value) : Option Error :=
  if entry.1 ∈ Catalogue.ids then
    match entry.2 with
    | .bool _ => none
    | value => some (.config entry.1 (configMessage entry.1 [booleanShape] value))
  else some (.unknownRule entry.1)

/-- The rule that a configured value enables, with the value. -/
def enabledRule? (entry : String × Json.Value) : Option Active.EnabledRule :=
  match entry.2 with
  | .bool true => (Catalogue.find? entry.1).map (⟨·, .bool true⟩)
  | _ => none

theorem Catalogue.find?_eq_none_iff {id : String} : find? id = none ↔ id ∉ ids := by
  simp [find?, ids]

theorem Catalogue.id_of_find? {id : String} {rule : Rule} (h : find? id = some rule) :
    rule.id = id := by
  simpa using List.find?_some h

theorem Catalogue.mem_ids_of_find? {id : String} {rule : Rule} (h : find? id = some rule) :
    id ∈ ids := by
  rw [← id_of_find? h]
  exact List.mem_map_of_mem (List.mem_of_find?_eq_some h)

theorem fault?_eq_none_iff {entry : String × Json.Value} :
    fault? entry = none ↔ entry.1 ∈ Catalogue.ids ∧ ∃ b, entry.2 = .bool b := by
  obtain ⟨id, value⟩ := entry
  unfold fault?
  by_cases hid : id ∈ Catalogue.ids
  · cases value <;> simp [hid]
  · simp [hid]

/-- A boolean only switches a rule. -/
theorem build?_bool (rule : Rule) (b : Bool) :
    rule.build? (some (.bool b)) = .ok (if b then some rule else none) := by
  cases b <;> rfl

/-- A value that is wrong is found by making the rule. -/
theorem build?_eq_error {id : String} {rule : Rule} {value : Json.Value} {e : Error}
    (hrule : Catalogue.find? id = some rule) (he : fault? (id, value) = some e) :
    rule.build? (some value) = .error e := by
  have hruleId := Catalogue.id_of_find? hrule
  rw [fault?, if_pos (Catalogue.mem_ids_of_find? hrule)] at he
  unfold Rule.build?
  cases value with
  | bool b => cases he
  | _ =>
    cases he
    rw [hruleId]
    rfl

/-- The linter that makes its rules once fails with the first fault, or has the enabled rules. -/
theorem Linter.enabled_eq (entries : List (String × Json.Value)) :
    enabled entries = match entries.findSome? fault? with
      | some e => .error e
      | none => .ok ((entries.filterMap enabledRule?).map Active.EnabledRule.rule) := by
  induction entries with
  | nil => rfl
  | cons entry entries ih =>
    obtain ⟨id, value⟩ := entry
    rw [enabled, List.findSome?_cons, List.filterMap_cons]
    cases hfind : Catalogue.find? id with
    | none =>
      have hid := Catalogue.find?_eq_none_iff.1 hfind
      simp [fault?, hid]
    | some rule =>
      cases hfault : fault? (id, value) with
      | some e =>
        simp only [build?_eq_error hfind hfault]
        rfl
      | none =>
        obtain ⟨-, b, rfl⟩ := fault?_eq_none_iff.1 hfault
        simp only [build?_bool, ih]
        cases entries.findSome? fault? with
        | some e => rfl
        | none => cases b <;> simp [enabledRule?, hfind] <;> rfl

namespace Active.Linter

/-- What one configured value adds to the enabled rules, or what is wrong with it. -/
theorem enroll_eq (active : List EnabledRule) (entry : String × Json.Value) :
    enroll active entry = match fault? entry with
      | some e => .error e
      | none => .ok (active ++ (enabledRule? entry).toList) := by
  obtain ⟨id, value⟩ := entry
  unfold enroll
  cases hfind : Catalogue.find? id with
  | none =>
    have hid := Catalogue.find?_eq_none_iff.1 hfind
    simp [fault?, hid]
  | some rule =>
    cases hfault : fault? (id, value) with
    | some e =>
      simp only [build?_eq_error hfind hfault]
      rfl
    | none =>
      obtain ⟨-, b, rfl⟩ := fault?_eq_none_iff.1 hfault
      simp only [build?_bool]
      cases b <;> simp [enabledRule?, hfind] <;> rfl

/-- All configured values together. -/
theorem foldlM_enroll (active : List EnabledRule) (entries : List (String × Json.Value)) :
    entries.foldlM enroll active = match entries.findSome? fault? with
      | some e => .error e
      | none => .ok (active ++ entries.filterMap enabledRule?) := by
  induction entries generalizing active with
  | nil => simp; rfl
  | cons entry entries ih =>
    rw [List.foldlM_cons, enroll_eq, List.findSome?_cons, List.filterMap_cons]
    cases fault? entry with
    | some e => rfl
    | none =>
      refine (ih (active ++ (enabledRule? entry).toList)).trans ?_
      cases enabledRule? entry <;> simp

theorem new_eq (config : Configuration) :
    new config = match config.rules.entries.findSome? fault? with
      | some e => .error e
      | none => .ok ⟨config.rules.entries.filterMap enabledRule?⟩ := by
  rw [new, foldlM_enroll]
  cases config.rules.entries.findSome? fault? <;> rfl

/-- The linter with its rules made once. -/
def plain (l : Linter) : TemplateLint.Linter := ⟨l.active.map EnabledRule.rule⟩

/-- Both linters are made from the same configurations, with the same errors for the others. -/
theorem map_plain_new (config : Configuration) :
    (new config).map plain = TemplateLint.Linter.new config := by
  rw [new_eq, TemplateLint.Linter.new, TemplateLint.Linter.enabled_eq]
  cases config.rules.entries.findSome? fault? <;> rfl

/-- Every value that is kept lets its rule run. -/
def Enabling (l : Linter) : Prop := ∀ enabled ∈ l.active, enabled.value = .bool true

theorem value_of_enabledRule? {entry : String × Json.Value} {enabled : EnabledRule}
    (h : enabledRule? entry = some enabled) :
    entry = (enabled.rule.id, .bool true) ∧ enabled.value = .bool true := by
  obtain ⟨id, value⟩ := entry
  unfold enabledRule? at h
  split at h
  · next hvalue =>
    obtain ⟨rule, hrule, rfl⟩ := Option.map_eq_some_iff.1 h
    exact ⟨Prod.ext (Catalogue.id_of_find? hrule).symm hvalue, rfl⟩
  · cases h

/-- A linter is made from a configuration without faults. -/
theorem eq_of_new {config : Configuration} {l : Linter} (h : new config = .ok l) :
    (∀ entry ∈ config.rules.entries, fault? entry = none) ∧
      l.active = config.rules.entries.filterMap enabledRule? := by
  rw [new_eq] at h
  split at h
  · cases h
  · next hnone =>
    cases h
    exact ⟨List.findSome?_eq_none_iff.1 hnone, rfl⟩

theorem enabling_of_new {config : Configuration} {l : Linter} (h : new config = .ok l) :
    l.Enabling := by
  intro enabled henabled
  rw [(eq_of_new h).2, List.mem_filterMap] at henabled
  obtain ⟨entry, -, hentry⟩ := henabled
  exact (value_of_enabledRule? hentry).2

theorem foldlM_make {active : List EnabledRule} (h : ∀ enabled ∈ active, enabled.value = .bool true)
    (rules : List Rule) :
    active.foldlM make rules = .ok (rules ++ active.map EnabledRule.rule) := by
  induction active generalizing rules with
  | nil => simp; rfl
  | cons enabled active ih =>
    have hmake : make rules enabled = .ok (rules ++ [enabled.rule]) := by
      rw [make, h enabled List.mem_cons_self, build?_bool]
      rfl
    rw [List.foldlM_cons, hmake]
    refine (ih (fun e he => h e (List.mem_cons_of_mem _ he)) _).trans ?_
    simp

theorem instantiate_eq {l : Linter} (h : l.Enabling) : l.instantiate = .ok l.plain.rules :=
  foldlM_make h []

/-- A walk that shows each node to all rules shows each rule all nodes. -/
theorem foldl_map_dispatch (nodes : List Tree.Node) (runs : List Run) :
    nodes.foldl (fun runs node => runs.map (Run.dispatch node)) runs =
      runs.map fun run => nodes.foldl (fun run node => run.dispatch node) run := by
  induction nodes generalizing runs with
  | nil => simp
  | cons node nodes ih =>
    rw [List.foldl_cons, ih, List.map_map]
    rfl

theorem source_foldl_log (findings : List Finding) (ctx : RuleContext) :
    (findings.foldl RuleContext.log ctx).source = ctx.source := by
  induction findings generalizing ctx with
  | nil => rfl
  | cons finding findings ih => rw [List.foldl_cons, ih]; rfl

/-- One rule logs what it finds at the nodes one after the other. -/
theorem foldl_dispatch (nodes : List Tree.Node) (run : Run) :
    nodes.foldl (fun run node => run.dispatch node) run =
      ⟨run.rule, (nodes.flatMap (run.rule.visit run.context.source)).foldl RuleContext.log
        run.context⟩ := by
  induction nodes generalizing run with
  | nil => rfl
  | cons node nodes ih =>
    rw [List.foldl_cons, ih, List.flatMap_cons, List.foldl_append]
    simp only [Run.dispatch, source_foldl_log]

theorem lintTemplate_eq {l : Linter} (h : l.Enabling) (source : String) (template : Tree.Template) :
    l.lintTemplate source template = .ok (l.plain.lintTemplate source template) := by
  rw [lintTemplate, instantiate_eq h]
  change Except.ok _ = _
  rw [foldl_map_dispatch, List.map_map, List.flatMap_map]
  simp only [Function.comp_apply, foldl_dispatch]
  rfl

theorem lint_eq {l : Linter} (h : l.Enabling) (source : String) :
    l.lint source = l.plain.lint source := by
  unfold lint TemplateLint.Linter.lint
  cases Tree.Template.parse source with
  | ok template => exact lintTemplate_eq h source template
  | error e => rfl

/-- There is such a rule, and the value that it was given last is one that it accepts. -/
def Accepted (calls : List (String × Json.Value)) (id : String) : Prop :=
  id ∈ Catalogue.ids ∧ ∃ b, lastValue? calls id = some (.bool b)

variable {calls : List (String × Json.Value)}

theorem accepted_iff {id : String} {value : Json.Value} (h : lastValue? calls id = some value) :
    Accepted calls id ↔ fault? (id, value) = none := by
  rw [fault?_eq_none_iff, Accepted, h]
  simp

/-- No configured value has a fault exactly when all rules that were called for are accepted. -/
theorem forall_fault?_iff :
    (∀ entry ∈ (Configuration.ofCalls calls).rules.entries, fault? entry = none) ↔
      ∀ id ∈ calls.map Prod.fst, Accepted calls id := by
  constructor
  · intro h id hid
    obtain ⟨value, hvalue⟩ := Option.isSome_iff_exists.1 (isSome_lastValue?.2 hid)
    exact (accepted_iff hvalue).2 (h _ (Configuration.mem_entries_ofCalls.2 hvalue))
  · rintro h ⟨id, value⟩ hmem
    have hvalue := Configuration.mem_entries_ofCalls.1 hmem
    have hid := isSome_lastValue?.1 (Option.isSome_of_eq_some hvalue)
    exact (accepted_iff hvalue).1 (h id hid)

theorem exists_new_iff {config : Configuration} :
    (∃ l, new config = .ok l) ↔ ∀ entry ∈ config.rules.entries, fault? entry = none := by
  constructor
  · rintro ⟨l, h⟩
    exact (eq_of_new h).1
  · intro h
    rw [new_eq, List.findSome?_eq_none_iff.2 h]
    exact ⟨_, rfl⟩

/-- Enabled rules stand in the order of the bytes of their ids. -/
theorem ruleIds_pairwise {config : Configuration} {l : Linter} (h : new config = .ok l) :
    l.ruleIds.Pairwise fun a b => Text.bytes a.toList < Text.bytes b.toList := by
  rw [ruleIds, List.pairwise_map, (eq_of_new h).2]
  refine config.rules.ordered.filterMap enabledRule? fun entry entry' hlt rule hrule rule' hrule' => ?_
  rw [(value_of_enabledRule? hrule).1, (value_of_enabledRule? hrule').1] at hlt
  exact Text.bytes_lt_of_lt (String.lt_iff.1 hlt)

theorem mem_ruleIds_iff {config : Configuration} {l : Linter} (h : new config = .ok l) {id : String} :
    id ∈ l.ruleIds ↔ (id, .bool true) ∈ config.rules.entries := by
  obtain ⟨hfaults, hactive⟩ := eq_of_new h
  rw [ruleIds, hactive, List.mem_map]
  constructor
  · rintro ⟨enabled, henabled, rfl⟩
    obtain ⟨entry, hentry, hrule⟩ := List.mem_filterMap.1 henabled
    rwa [← (value_of_enabledRule? hrule).1]
  · intro hmem
    have hid := (fault?_eq_none_iff.1 (hfaults _ hmem)).1
    cases hrule : Catalogue.find? id with
    | none => exact absurd hid (Catalogue.find?_eq_none_iff.1 hrule)
    | some rule =>
      refine ⟨⟨rule, .bool true⟩, List.mem_filterMap.2 ⟨_, hmem, ?_⟩, Catalogue.id_of_find? hrule⟩
      simp [enabledRule?, hrule]

/-- A linter is refused for the first fault. -/
theorem exists_of_new_error {config : Configuration} {e : Error} (h : new config = .error e) :
    ∃ entry ∈ config.rules.entries, fault? entry = some e ∧
      ∀ entry' ∈ config.rules.entries, fault? entry' ≠ none →
        entry' = entry ∨ Text.bytes entry.1.toList < Text.bytes entry'.1.toList := by
  rw [new_eq] at h
  split at h
  · next e' hfault =>
    cases h
    obtain ⟨before, entry, after, hentries, hentry, hbefore⟩ := List.findSome?_eq_some_iff.1 hfault
    have hordered := config.rules.ordered
    rw [hentries] at hordered ⊢
    refine ⟨entry, by simp, hentry, fun entry' hmem hne => ?_⟩
    rcases List.mem_append.1 hmem with hmem | hmem
    · exact absurd (hbefore entry' hmem) hne
    · rcases List.mem_cons.1 hmem with rfl | hmem
      · exact .inl rfl
      · have hlt := (List.pairwise_cons.1 (List.pairwise_append.1 hordered).2.1).1 entry' hmem
        exact .inr (Text.bytes_lt_of_lt (String.lt_iff.1 hlt))
  · cases h

/-- Which linter is made from values that are set one after the other. It is refused for the smallest
id that is not accepted, and else has the rules of which the last value is `true`; then linting does
not fail for the values any more, and gives what it gives with rules that are made once. -/
theorem new_ofCalls (calls : List (String × Json.Value)) :
    (new (.ofCalls calls)).map plain = TemplateLint.Linter.new (.ofCalls calls) ∧
    ((∃ l, new (.ofCalls calls) = .ok l) ↔ ∀ id ∈ calls.map Prod.fst, Accepted calls id) ∧
    (∀ l, new (.ofCalls calls) = .ok l →
      (l.ruleIds.Pairwise fun a b => Text.bytes a.toList < Text.bytes b.toList) ∧
      (∀ id, id ∈ l.ruleIds ↔ lastValue? calls id = some (.bool true)) ∧
      (∀ source template,
        l.lintTemplate source template = .ok (l.plain.lintTemplate source template)) ∧
      ∀ source, l.lint source = l.plain.lint source ∧
        ∀ e, l.lint source = .error e → e.kind ≠ .config) ∧
    (∀ e, new (.ofCalls calls) = .error e →
      ∃ id value, lastValue? calls id = some value ∧ ¬ Accepted calls id ∧
        (∀ id' ∈ calls.map Prod.fst, ¬ Accepted calls id' →
          id' = id ∨ Text.bytes id.toList < Text.bytes id'.toList) ∧
        e = if id ∈ Catalogue.ids then .config id (configMessage id [booleanShape] value)
          else .unknownRule id) ∧
    ∀ calls' : List (String × Json.Value),
      (∀ id, calls'.filter (fun call => call.1 == id) = calls.filter fun call => call.1 == id) →
        new (.ofCalls calls') = new (.ofCalls calls) := by
  refine ⟨map_plain_new _, exists_new_iff.trans forall_fault?_iff,
    fun l h => ⟨ruleIds_pairwise h, ?_, ?_, ?_⟩, fun e h => ?_,
    fun calls' h => by simp only [Configuration.ofCalls_eq, RuleValues.ofMembers_congr h]⟩
  · intro id
    rw [mem_ruleIds_iff h, Configuration.mem_entries_ofCalls]
  · exact lintTemplate_eq (enabling_of_new h)
  · intro source
    refine ⟨lint_eq (enabling_of_new h) source, fun e he => ?_⟩
    rw [lint_eq (enabling_of_new h), TemplateLint.Linter.lint] at he
    split at he
    · cases he
    · cases he
      exact fun hkind => by cases hkind
  · obtain ⟨⟨id, value⟩, hmem, hfault, hfirst⟩ := exists_of_new_error h
    have hvalue := Configuration.mem_entries_ofCalls.1 hmem
    refine ⟨id, value, hvalue, ?_, ?_, ?_⟩
    · rw [accepted_iff hvalue, hfault]
      exact fun hnone => by cases hnone
    · intro id' hid' hbad
      obtain ⟨value', hvalue'⟩ := Option.isSome_iff_exists.1 (isSome_lastValue?.2 hid')
      rw [accepted_iff hvalue'] at hbad
      exact (hfirst _ (Configuration.mem_entries_ofCalls.2 hvalue') hbad).imp_left
        (congrArg Prod.fst)
    · rw [fault?] at hfault
      split at hfault
      · next hid =>
        rw [if_pos hid]
        split at hfault
        · cases hfault
        · exact (Option.some.inj hfault).symm
      · next hid =>
        rw [if_neg hid]
        exact (Option.some.inj hfault).symm

end Active.Linter

end TemplateLint
