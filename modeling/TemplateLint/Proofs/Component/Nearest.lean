import Mathlib.Order.Lattice.Nat
import TemplateLint.Proofs.Component.Distance

namespace TemplateLint

/-- The length of the shortest script of single changes that turns one text into the other. -/
noncomputable def spellingDistance (s t : String) : Nat :=
  sInf {n | ∃ script : List CharEdit, script.length = n ∧
    CharEdit.applyAll? script s.toList = some t.toList}

theorem spellingDistance_eq (s t : String) :
    spellingDistance s t = editDistance s.toList t.toList :=
  (isLeast_editDistance s.toList t.toList).csInf_eq

/-- What a search for the candidate nearest to a name finds: the first of those that none is nearer
than, unless all are too far away. -/
inductive Best (name : String) (cs : List String) : Option (String × Nat) → Prop where
  | found (before : List String) (s : String) (after : List String)
    (split : cs = before ++ s :: after) (near : spellingDistance name s ≤ maxSuggestionDistance)
    (earlier : ∀ t ∈ before, spellingDistance name s < spellingDistance name t)
    (later : ∀ t ∈ after, spellingDistance name s ≤ spellingDistance name t) :
    Best name cs (some (s, spellingDistance name s))
  | nothing (far : ∀ t ∈ cs, maxSuggestionDistance < spellingDistance name t) : Best name cs none

namespace Best

variable {name : String} {cs : List String}

theorem eq_none_iff {found : Option (String × Nat)} (h : Best name cs found) :
    found = none ↔ ∀ t ∈ cs, maxSuggestionDistance < spellingDistance name t := by
  cases h with
  | nothing far => exact ⟨fun _ => far, fun _ => rfl⟩
  | found before s after split near earlier later =>
    constructor
    · intro h
      cases h
    · intro hfar
      have hs := hfar s (by rw [split]; exact List.mem_append_right _ List.mem_cons_self)
      omega

/-- No candidate is nearer than the one that is found. -/
theorem le_of_mem {s t : String} {d : Nat} (h : Best name cs (some (s, d))) (ht : t ∈ cs) :
    d ≤ spellingDistance name t := by
  cases h with
  | found before s after split near earlier later =>
    rw [split] at ht
    rcases List.mem_append.1 ht with ht | ht
    · exact Nat.le_of_lt (earlier t ht)
    · rcases List.mem_cons.1 ht with rfl | ht
      · exact Nat.le_refl _
      · exact later t ht

/-- The first of the nearest candidates stands in one place. -/
theorem eq_of_splits {before before' after after' : List String} {s s' : String}
    (hsplit : before ++ s :: after = before' ++ s' :: after')
    (hearlier : ∀ t ∈ before', spellingDistance name s' < spellingDistance name t)
    (hlater : ∀ t ∈ after, spellingDistance name s ≤ spellingDistance name t)
    (hlength : before.length ≤ before'.length) : s = s' := by
  have hfront : before <+: before' ++ s' :: after' := by
    rw [← hsplit]
    exact List.prefix_append _ _
  obtain ⟨more, rfl⟩ := List.prefix_of_prefix_length_le hfront (List.prefix_append _ _) hlength
  rw [List.append_assoc] at hsplit
  have htail := List.append_cancel_left hsplit
  cases more with
  | nil => exact (List.cons.inj htail).1
  | cons t more =>
    obtain ⟨rfl, hafter⟩ := List.cons.inj htail
    have hless := hearlier s (List.mem_append_right _ List.mem_cons_self)
    have hle := hlater s' (by rw [hafter]; exact List.mem_append_right _ List.mem_cons_self)
    omega

/-- There is one such candidate only. -/
theorem unique {found found' : Option (String × Nat)} (h : Best name cs found)
    (h' : Best name cs found') : found = found' := by
  cases h with
  | nothing far => exact (h'.eq_none_iff.2 far).symm
  | found before s after split near earlier later =>
    cases h' with
    | nothing far => exact (Best.found before s after split near earlier later).eq_none_iff.2 far
    | found before' s' after' split' near' earlier' later' =>
      have hsplit : before ++ s :: after = before' ++ s' :: after' := split.symm.trans split'
      have hs : s = s' := by
        rcases Nat.le_total before.length before'.length with hlength | hlength
        · exact eq_of_splits hsplit earlier' later hlength
        · exact (eq_of_splits hsplit.symm earlier later' hlength).symm
      rw [hs]

end Best

/-- The search that compares a candidate with the best of those behind it. -/
theorem best_nearest (name : String) (cs : List String) : Best name cs (nearest name cs) := by
  induction cs with
  | nil =>
    apply Best.nothing
    intro t ht
    cases ht
  | cons c cs ih =>
    unfold nearest
    dsimp only
    rw [← spellingDistance_eq]
    generalize hrest : nearest name cs = rest at ih
    cases ih with
    | nothing far =>
      dsimp only
      split
      · next hnear =>
        refine Best.found [] c cs rfl hnear ?_ fun t ht => ?_
        · intro t ht
          cases ht
        · exact Nat.le_trans hnear (Nat.le_of_lt (far t ht))
      · next hfar =>
        apply Best.nothing
        intro t ht
        rcases List.mem_cons.1 ht with rfl | ht
        · exact Nat.lt_of_not_le hfar
        · exact far t ht
    | found before s after split near earlier later =>
      dsimp only
      split
      · next hle =>
        have hbest := Best.found before s after split near earlier later
        refine Best.found [] c cs rfl (Nat.le_trans hle near) ?_ fun t ht => ?_
        · intro t ht
          cases ht
        · exact Nat.le_trans hle (hbest.le_of_mem ht)
      · next hlt =>
        refine Best.found (c :: before) s after (by rw [split]; rfl) near (fun t ht => ?_) later
        rcases List.mem_cons.1 ht with rfl | ht
        · exact Nat.lt_of_not_le hlt
        · exact earlier t ht

/-- One more candidate behind those that were looked at. -/
theorem Best.better {name : String} {cs : List String} {best : Option (String × Nat)}
    (h : Best name cs best) (c : String) : Best name (cs ++ [c]) (better name best c) := by
  unfold TemplateLint.better
  dsimp only
  rw [rowsDistance_eq, ← spellingDistance_eq]
  cases h with
  | nothing far =>
    rw [Option.all_none, Bool.and_true]
    split
    · next hnear =>
      refine Best.found cs c [] rfl (of_decide_eq_true hnear) (fun t ht => ?_) ?_
      · exact Nat.lt_of_le_of_lt (of_decide_eq_true hnear) (far t ht)
      · intro t ht
        cases ht
    · next hfar =>
      apply Best.nothing
      intro t ht
      rcases List.mem_append.1 ht with ht | ht
      · exact far t ht
      · rw [List.mem_singleton.1 ht]
        exact Nat.lt_of_not_le fun hle => hfar (decide_eq_true hle)
  | found before s after split near earlier later =>
    have hbest := Best.found before s after split near earlier later
    rw [Option.all_some]
    split
    · next hless =>
      obtain ⟨hnear, hless⟩ := Bool.and_eq_true_iff.1 hless
      refine Best.found cs c [] rfl (of_decide_eq_true hnear) (fun t ht => ?_) ?_
      · exact Nat.lt_of_lt_of_le (of_decide_eq_true hless) (hbest.le_of_mem ht)
      · intro t ht
        cases ht
    · next hmore =>
      refine Best.found before s (after ++ [c]) (by rw [split]; simp) near earlier fun t ht => ?_
      rcases List.mem_append.1 ht with ht | ht
      · exact later t ht
      · rw [List.mem_singleton.1 ht]
        apply Nat.le_of_not_lt
        intro hlt
        have hnear := Nat.le_trans (Nat.le_of_lt hlt) near
        exact hmore (Bool.and_eq_true_iff.2 ⟨decide_eq_true hnear, decide_eq_true hlt⟩)

theorem best_foldl {name : String} {seen : List String} {best : Option (String × Nat)}
    (h : Best name seen best) (cs : List String) :
    Best name (seen ++ cs) (cs.foldl (better name) best) := by
  induction cs generalizing seen best with
  | nil => rwa [List.append_nil]
  | cons c cs ih =>
    have hrest := ih (h.better c)
    rwa [List.append_assoc] at hrest

/-- A pass that keeps the best candidate so far finds what the search from the end finds. -/
theorem foldl_better (name : String) (cs : List String) :
    cs.foldl (better name) none = nearest name cs := by
  have hnone : Best name [] none := by
    apply Best.nothing
    intro t ht
    cases ht
  exact (best_foldl hnone cs).unique (best_nearest name cs)

/-- The suggestion for a name is the first of the known arguments that none is nearer to it than, when
it is at most two changes away, and there is none exactly if all of them are farther away. One pass
over the arguments finds it. -/
theorem suggest?_iff (c : ComponentSchema) (name : String) :
    (∀ s, c.suggest? name = some s ↔
      spellingDistance name s ≤ 2 ∧ ∃ before after, c.knownArguments = before ++ s :: after ∧
        (∀ t ∈ before, spellingDistance name s < spellingDistance name t) ∧
        ∀ t ∈ after, spellingDistance name s ≤ spellingDistance name t) ∧
    (c.suggest? name = none ↔ ∀ s ∈ c.knownArguments, 2 < spellingDistance name s) ∧
    c.scan? name = c.suggest? name := by
  have hbest := best_nearest name c.knownArguments
  refine ⟨fun s => ⟨fun h => ?_, ?_⟩, ?_, ?_⟩
  · obtain ⟨⟨found, d⟩, hfound, rfl⟩ := Option.map_eq_some_iff.1 h
    rw [hfound] at hbest
    cases hbest with
    | found before s after split near earlier later =>
      exact ⟨near, before, after, split, earlier, later⟩
  · rintro ⟨hnear, before, after, hsplit, hearlier, hlater⟩
    have hfound := (Best.found before s after hsplit hnear hearlier hlater).unique hbest
    rw [ComponentSchema.suggest?, ← hfound]
    rfl
  · rw [ComponentSchema.suggest?, Option.map_eq_none_iff]
    exact hbest.eq_none_iff
  · rw [ComponentSchema.scan?, ComponentSchema.suggest?, foldl_better]

end TemplateLint
