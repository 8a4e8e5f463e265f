import Mathlib.Data.List.Induction
import Mathlib.Data.List.Perm.Basic
import TemplateLint.Config.Basic

namespace TemplateLint

/-- A pair in front is found by its own id only. -/
theorem lookup_cons_eq_ite (id : String) (entry : String × Json.Value)
    (entries : List (String × Json.Value)) :
    (entry :: entries).lookup id = if id = entry.1 then some entry.2 else entries.lookup id := by
  obtain ⟨k, value⟩ := entry
  rw [List.lookup_cons]
  by_cases hid : id = k
  · simp [hid]
  · have hne : (id == k) = false := by simpa using hid
    rw [hne, if_neg hid]

namespace RuleValues

/-- Setting a value is seen at its id and nowhere else. -/
theorem lookup_setEntry (id k : String) (value : Json.Value) (rules : List (String × Json.Value)) :
    (setEntry id value rules).lookup k = if k = id then some value else rules.lookup k := by
  induction rules with
  | nil => exact lookup_cons_eq_ite k (id, value) []
  | cons rule rules ih =>
    obtain ⟨j, v⟩ := rule
    unfold setEntry
    split
    · rw [lookup_cons_eq_ite]
    · split
      · next heq =>
        subst heq
        rw [lookup_cons_eq_ite, lookup_cons_eq_ite]
        by_cases hk : k = id <;> simp [hk]
      · next hne =>
        rw [lookup_cons_eq_ite, lookup_cons_eq_ite, ih]
        by_cases hk : k = j
        · subst hk
          simp [Ne.symm hne]
        · simp [hk]

/-- Every id has one value. -/
theorem mem_entries_iff (rules : RuleValues) {id : String} {value : Json.Value} :
    (id, value) ∈ rules.entries ↔ rules.entries.lookup id = some value := by
  obtain ⟨entries, ordered⟩ := rules
  dsimp only
  induction entries with
  | nil => simp
  | cons entry entries ih =>
    obtain ⟨k, v⟩ := entry
    obtain ⟨hfirst, ordered⟩ := List.pairwise_cons.1 ordered
    rw [lookup_cons_eq_ite]
    by_cases hid : id = k
    · subst hid
      have habsent : (id, value) ∉ entries := by
        intro hmem
        exact String.lt_irrefl id (hfirst _ hmem)
      simp [habsent, eq_comm]
    · rw [if_neg hid, ← ih ordered]
      simp [hid]

/-- Rules with the same values are the same. -/
theorem eq_of_lookup {rules rules' : RuleValues}
    (h : ∀ id, rules.entries.lookup id = rules'.entries.lookup id) : rules = rules' := by
  have hnodup (r : RuleValues) : r.entries.Nodup := by
    refine r.ordered.imp ?_
    rintro a b hab rfl
    exact String.lt_irrefl _ hab
  have hperm : rules.entries.Perm rules'.entries := by
    refine (List.perm_ext_iff_of_nodup (hnodup rules) (hnodup rules')).2 ?_
    rintro ⟨id, value⟩
    rw [mem_entries_iff, mem_entries_iff, h]
  have hentries : rules.entries = rules'.entries :=
    hperm.eq_of_pairwise (fun a b _ _ hab hba => absurd (String.lt_trans hab hba)
      (String.lt_irrefl _)) rules.ordered rules'.ordered
  cases rules
  cases rules'
  cases hentries
  rfl

end RuleValues

/-- The last value that calls give to a rule. -/
def lastValue? (calls : List (String × Json.Value)) (id : String) : Option Json.Value :=
  calls.reverse.lookup id

/-- The rules with a value are those that a call is for. -/
theorem isSome_lastValue? {calls : List (String × Json.Value)} {id : String} :
    (lastValue? calls id).isSome ↔ id ∈ calls.map Prod.fst := by
  rw [lastValue?, List.lookup_isSome_iff, List.mem_map]
  simp only [List.mem_reverse, beq_iff_eq, eq_comm (a := id)]

/-- The last value of a rule is that of the calls for this rule. -/
theorem lastValue?_filter (calls : List (String × Json.Value)) (id : String) :
    lastValue? (calls.filter fun call => call.1 == id) id = lastValue? calls id := by
  rw [lastValue?, lastValue?, ← List.filter_reverse]
  induction calls.reverse with
  | nil => rfl
  | cons call calls ih =>
    rw [List.filter_cons, lookup_cons_eq_ite id call]
    by_cases hid : id = call.1
    · rw [if_pos hid, if_pos (beq_iff_eq.2 hid.symm), lookup_cons_eq_ite, if_pos hid]
    · rw [if_neg hid, if_neg fun h => hid (beq_iff_eq.1 h).symm, ih]

namespace RuleValues

/-- A rule has the value that it was given last. -/
theorem lookup_ofMembers (calls : List (String × Json.Value)) (id : String) :
    (ofMembers calls).entries.lookup id = lastValue? calls id := by
  induction calls using List.reverseRecOn with
  | nil => rfl
  | append_singleton calls call ih =>
    have hset : (ofMembers (calls ++ [call])).entries =
        setEntry call.1 call.2 (ofMembers calls).entries := by
      rw [ofMembers, List.foldl_append]
      rfl
    rw [hset, lookup_setEntry, ih, lastValue?, lastValue?, List.reverse_append,
      List.reverse_singleton, List.singleton_append, lookup_cons_eq_ite]

/-- Calls for different rules can change places. -/
theorem ofMembers_congr {calls calls' : List (String × Json.Value)}
    (h : ∀ id, calls.filter (fun call => call.1 == id) = calls'.filter fun call => call.1 == id) :
    ofMembers calls = ofMembers calls' := by
  refine eq_of_lookup fun id => ?_
  rw [lookup_ofMembers, lookup_ofMembers, ← lastValue?_filter calls, h, lastValue?_filter]

/-- An id after all others is put behind them. -/
theorem setEntry_of_forall_lt {id : String} (value : Json.Value)
    {rules : List (String × Json.Value)} (h : ∀ rule ∈ rules, rule.1 < id) :
    setEntry id value rules = rules ++ [(id, value)] := by
  induction rules with
  | nil => rfl
  | cons rule rules ih =>
    obtain ⟨k, v⟩ := rule
    have hk : k < id := h _ List.mem_cons_self
    have hne : ¬ id = k := by
      rintro rfl
      exact String.lt_irrefl _ hk
    rw [setEntry, if_neg (String.lt_asymm hk), if_neg hne,
      ih fun rule hrule => h rule (List.mem_cons_of_mem _ hrule), List.cons_append]

/-- Rules are made by setting them in their order. -/
theorem ofMembers_entries (rules : RuleValues) : ofMembers rules.entries = rules := by
  have hmore (more : List (String × Json.Value)) (front : RuleValues)
      (hordered : (front.entries ++ more).Pairwise fun a b => a.1 < b.1) :
      (more.foldl (fun rules m => rules.set m.1 m.2) front).entries = front.entries ++ more := by
    induction more generalizing front with
    | nil => rw [List.foldl_nil, List.append_nil]
    | cons rule more ih =>
      have hlast : (front.set rule.1 rule.2).entries = front.entries ++ [rule] := by
        refine setEntry_of_forall_lt _ fun r hr => ?_
        exact (List.pairwise_append.1 hordered).2.2 r hr rule List.mem_cons_self
      rw [List.foldl_cons, ih, hlast, List.append_assoc, List.singleton_append]
      rwa [hlast, List.append_assoc, List.singleton_append]
  have hentries : (ofMembers rules.entries).entries = rules.entries :=
    hmore rules.entries empty rules.ordered
  exact eq_of_lookup fun id => by rw [hentries]

end RuleValues

namespace Configuration

/-- The new configuration after one call for each pair of an id and a value. -/
def ofCalls (calls : List (String × Json.Value)) : Configuration :=
  calls.foldl (fun config call => config.withRule call.1 call.2) Configuration.new

theorem ofCalls_eq (calls : List (String × Json.Value)) : ofCalls calls = ⟨none, .ofMembers calls⟩ := by
  have hmore (config : Configuration) :
      calls.foldl (fun config call => config.withRule call.1 call.2) config =
        ⟨config.schema, calls.foldl (fun rules call => rules.set call.1 call.2) config.rules⟩ := by
    induction calls generalizing config with
    | nil => rfl
    | cons call calls ih => exact ih _
  exact hmore Configuration.new

theorem mem_entries_ofCalls {calls : List (String × Json.Value)} {id : String}
    {value : Json.Value} :
    (id, value) ∈ (ofCalls calls).rules.entries ↔ lastValue? calls id = some value := by
  rw [ofCalls_eq, RuleValues.mem_entries_iff, RuleValues.lookup_ofMembers]

end Configuration

end TemplateLint
