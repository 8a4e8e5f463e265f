import TemplateLint.Edit.Apply

namespace TemplateLint

open Text (size isBoundary)

theorem Text.le_size_of_isBoundary {n : Nat} {cs : List Char} (h : isBoundary n cs = true) :
    n ≤ size cs := by
  obtain ⟨⟨s, t⟩, hs⟩ := Option.isSome_iff_exists.1 h
  obtain ⟨rfl, rfl⟩ := eq_append_of_splitAt? hs
  simp

/-- A range of the text: it does not go backwards or past the end, and both of its ends lie between
characters. -/
def Span.Fits (cs : List Char) (s : Span) : Prop :=
  s.start ≤ s.stop ∧ s.stop ≤ size cs ∧ isBoundary s.start cs = true ∧ isBoundary s.stop cs = true

theorem Span.fits_append (u x v : List Char) :
    (Span.mk (size u) (size u + size x)).Fits (u ++ (x ++ v)) := by
  have hstop := Text.splitAt?_append (u ++ x) v
  rw [Text.size_append, List.append_assoc] at hstop
  simp only [Span.Fits, isBoundary, Text.splitAt?_append, hstop, Text.size_append]
  refine ⟨?_, ?_, rfl, rfl⟩ <;> omega

namespace Fix

/-- The range of a fix is one of the text: it does not go backwards or past the end, and both of
its ends lie between characters. -/
def Within (cs : List Char) (f : Fix) : Prop :=
  f.range.start ≤ f.range.stop ∧ f.range.stop ≤ size cs ∧
    isBoundary f.range.start cs = true ∧ isBoundary f.range.stop cs = true

theorem within_of_range {f : Fix} {u x : List Char} (v : List Char)
    (h : f.range = ⟨size u, size u + size x⟩) : f.Within (u ++ (x ++ v)) := by
  have hfits := Span.fits_append u x v
  rw [← h] at hfits
  exact hfits

theorem fits_iff (cs : List Char) (f : Fix) : f.fits cs = true ↔ f.Within cs := by
  simp only [fits, Within, Bool.and_eq_true, decide_eq_true_eq, and_assoc]
  constructor
  · intro h
    exact ⟨h.1, Text.le_size_of_isBoundary h.2.2, h.2⟩
  · intro h
    exact ⟨h.1, h.2.2⟩

/-- The order of two ranges, by where they start and then by where they end. -/
def Before (f g : Fix) : Prop :=
  f.range.start < g.range.start ∨
    f.range.start = g.range.start ∧ f.range.stop ≤ g.range.stop

theorem le_iff (f g : Fix) : le f g = true ↔ f.Before g := by
  simp [le, Before]

theorem Before.trans {f g h : Fix} (hfg : f.Before g) (hgh : g.Before h) : f.Before h := by
  unfold Before at *
  omega

theorem before_total (f g : Fix) : f.Before g ∨ g.Before f := by
  unfold Before
  omega

theorem sort_pairwise (fixes : List Fix) : (sort fixes).Pairwise Before := by
  have trans : ∀ f g h : Fix, le f g = true → le g h = true → le f h = true := by
    intro f g h hfg hgh
    rw [le_iff] at *
    exact hfg.trans hgh
  have total : ∀ f g : Fix, (le f g || le g f) = true := by
    intro f g
    rw [Bool.or_eq_true, le_iff, le_iff]
    exact before_total f g
  exact (List.pairwise_mergeSort trans total fixes).imp fun h => (le_iff _ _).1 h

theorem sort_perm (fixes : List Fix) : (sort fixes).Perm fixes := List.mergeSort_perm fixes le

/-- The first of two fixes ends before the second one starts, and they do not start together. -/
def Apart (f g : Fix) : Prop :=
  f.range.start < g.range.start ∧ f.range.stop ≤ g.range.start

theorem Apart.not_conflict {f g : Fix} (h : f.Apart g) : f.conflictsWith g = false := by
  have hs : f.range.start ≠ g.range.start := by
    have := h.1
    omega
  have ho : ¬ (g.range.start < f.range.stop) := by
    have := h.2
    omega
  simp [conflictsWith, hs, ho]

theorem apart_of_not_conflict {f g : Fix} (hf : f.Before g) (hg : g.range.start ≤ g.range.stop)
    (h : f.conflictsWith g = false) : f.Apart g := by
  have hc : f.range.start ≠ g.range.start ∧
      ¬ (f.range.start < g.range.stop ∧ g.range.start < f.range.stop) := by
    simpa [conflictsWith] using h
  unfold Before at hf
  unfold Apart
  omega

theorem choose_perm (last : Option Fix) (fixes : List Fix) :
    ((choose last fixes).1 ++ (choose last fixes).2).Perm fixes := by
  induction fixes generalizing last with
  | nil => exact List.Perm.refl _
  | cons f fs ih =>
    unfold choose
    split
    · exact List.perm_middle.trans ((ih last).cons f)
    · exact (ih (some f)).cons f

theorem choose_sublist (last : Option Fix) (fixes : List Fix) :
    (choose last fixes).1.Sublist fixes := by
  induction fixes generalizing last with
  | nil => exact List.Sublist.refl _
  | cons f fs ih =>
    unfold choose
    split
    · exact (ih last).cons f
    · exact (ih (some f)).cons_cons f

/-- The taken fixes follow one another, the first of them after the one taken before. -/
theorem choose_apart (last : Option Fix) (fixes : List Fix) (ho : fixes.Pairwise Before)
    (hl : ∀ l ∈ last, ∀ f ∈ fixes, l.Before f)
    (hr : ∀ f ∈ fixes, f.range.start ≤ f.range.stop) :
    (∀ l ∈ last, ∀ f ∈ (choose last fixes).1, l.Apart f) ∧
      (choose last fixes).1.Pairwise Apart := by
  induction fixes generalizing last with
  | nil => simp [choose]
  | cons f fs ih =>
    obtain ⟨hf, ho⟩ := List.pairwise_cons.1 ho
    have hr' : ∀ g ∈ fs, g.range.start ≤ g.range.stop := fun g hg => hr g (by simp [hg])
    have hl' : ∀ l ∈ last, ∀ g ∈ fs, l.Before g := fun l h g hg => hl l h g (by simp [hg])
    unfold choose
    split
    · exact ih last ho hl' hr'
    · next hc =>
      have hnext : ∀ l ∈ some f, ∀ g ∈ fs, l.Before g := by
        intro l hlf g hg
        obtain rfl : f = l := by simpa using hlf
        exact hf g hg
      obtain ⟨hfs, hp⟩ := ih (some f) ho hnext hr'
      have hff := hfs f rfl
      refine ⟨?_, List.pairwise_cons.2 ⟨hff, hp⟩⟩
      intro l hll g hg
      have hlf : l.Apart f := by
        apply apart_of_not_conflict (hl l hll f (by simp)) (hr f (by simp))
        obtain rfl : last = some l := hll
        simpa using hc
      rcases List.mem_cons.1 hg with rfl | hg
      · exact hlf
      · have hfg := hff g hg
        have hrf := hr f (by simp)
        unfold Apart at hlf hfg ⊢
        omega

/-- A fix that is left out conflicts with one that was taken and does not come after it. -/
theorem choose_skipped (last : Option Fix) (fixes : List Fix) (ho : fixes.Pairwise Before)
    (hl : ∀ l ∈ last, ∀ f ∈ fixes, l.Before f) {s : Fix} (hs : s ∈ (choose last fixes).2) :
    ∃ f, (f ∈ last ∨ f ∈ (choose last fixes).1) ∧ f.Before s ∧ f.conflictsWith s = true := by
  induction fixes generalizing last with
  | nil => simp [choose] at hs
  | cons f fs ih =>
    obtain ⟨hf, ho⟩ := List.pairwise_cons.1 ho
    have hl' : ∀ l ∈ last, ∀ g ∈ fs, l.Before g := fun l h g hg => hl l h g (by simp [hg])
    have hnext : ∀ l ∈ some f, ∀ g ∈ fs, l.Before g := by
      intro l hlf g hg
      obtain rfl : f = l := by simpa using hlf
      exact hf g hg
    unfold choose at hs ⊢
    split
    · next hc =>
      rw [if_pos hc] at hs
      rcases List.mem_cons.1 hs with rfl | hs
      · cases last with
        | none => simp at hc
        | some l => exact ⟨l, Or.inl rfl, hl l rfl s (by simp), by simpa using hc⟩
      · exact ih last ho hl' hs
    · next hc =>
      rw [if_neg hc] at hs
      obtain ⟨g, hg, hb, hcg⟩ := ih (some f) ho hnext hs
      refine ⟨g, Or.inr ?_, hb, hcg⟩
      rcases hg with hg | hg
      · obtain rfl : f = g := by simpa using hg
        exact List.mem_cons_self
      · exact List.mem_cons_of_mem f hg

theorem find?_misfit {cs : List Char} {fixes : List Fix} {f : Fix}
    (h : (sort fixes).find? (fun f => !f.fits cs) = some f) :
    f ∈ fixes ∧ ¬ f.Within cs ∧ ∀ g ∈ fixes, ¬ g.Within cs → f.Before g := by
  obtain ⟨hf, pre, post, he, hpre⟩ := List.find?_eq_some_iff_append.1 h
  have hmem : ∀ g ∈ fixes, g ∈ pre ∨ g ∈ f :: post := by
    intro g hg
    have hs := (sort_perm fixes).mem_iff.2 hg
    rw [he] at hs
    exact List.mem_append.1 hs
  refine ⟨(sort_perm fixes).mem_iff.1 (by simp [he]), ?_, ?_⟩
  · rw [← fits_iff]
    simpa using hf
  · intro g hg hmis
    rcases hmem g hg with hg | hg
    · have hfit := hpre g hg
      rw [← fits_iff] at hmis
      simp only [Bool.not_not] at hfit
      exact absurd hfit hmis
    · rcases List.mem_cons.1 hg with rfl | hg
      · exact Or.inr ⟨rfl, Nat.le_refl _⟩
      · have ho := sort_pairwise fixes
        rw [he] at ho
        exact (List.pairwise_cons.1 (List.pairwise_append.1 ho).2.1).1 g hg

theorem applyAll_of_misfit {source : String} {fixes : List Fix} {f : Fix}
    (h : (sort fixes).find? (fun f => !f.fits source.toList) = some f) :
    applyAll source fixes = .error ⟨f.range, size source.toList⟩ := by
  simp [applyAll, h]

theorem applyAll_of_within {source : String} {fixes : List Fix}
    (h : ∀ f ∈ fixes, f.Within source.toList) :
    applyAll source fixes = .ok
      ⟨String.ofList (splice source.toList 0 (size source.toList) (choose none (sort fixes)).1),
        (choose none (sort fixes)).1, (choose none (sort fixes)).2⟩ := by
  have hfind : (sort fixes).find? (fun f => !f.fits source.toList) = none := by
    rw [List.find?_eq_none]
    intro f hf
    have hfit := (fits_iff _ _).2 (h f ((sort_perm fixes).mem_iff.1 hf))
    simp [hfit]
  simp [applyAll, hfind]

/-- Applying fixes fails just when one of them has no range of the source, and then names the first
of those in order. Else every fix is applied or skipped: the applied ones follow one another without
conflict, and every skipped one conflicts with an applied one. -/
theorem applyAll_selects (source : String) (fixes : List Fix) :
    match applyAll source fixes with
    | .error m =>
      ∃ f ∈ fixes, ¬ f.Within source.toList ∧
        (∀ g ∈ fixes, ¬ g.Within source.toList → f.Before g) ∧
        m = ⟨f.range, size source.toList⟩
    | .ok o =>
      (∀ f ∈ fixes, f.Within source.toList) ∧
        (o.applied ++ o.skipped).Perm fixes ∧
        o.applied.Pairwise (fun f g => f.range.start < g.range.start ∧
          f.range.stop ≤ g.range.start ∧ f.conflictsWith g = false) ∧
        ∀ s ∈ o.skipped, ∃ f ∈ o.applied, f.conflictsWith s = true := by
  cases hfind : (sort fixes).find? (fun f => !f.fits source.toList) with
  | some f =>
    rw [applyAll_of_misfit hfind]
    obtain ⟨hf, hmis, hfirst⟩ := find?_misfit hfind
    exact ⟨f, hf, hmis, hfirst, rfl⟩
  | none =>
    have hfit : ∀ f ∈ fixes, f.Within source.toList := by
      intro f hf
      rw [← fits_iff]
      simpa using List.find?_eq_none.1 hfind f ((sort_perm fixes).mem_iff.2 hf)
    have hr : ∀ f ∈ sort fixes, f.range.start ≤ f.range.stop := by
      intro f hf
      exact (hfit f ((sort_perm fixes).mem_iff.1 hf)).1
    have ho := sort_pairwise fixes
    rw [applyAll_of_within hfit]
    refine ⟨hfit, (choose_perm none _).trans (sort_perm fixes), ?_, ?_⟩
    · have hp := (choose_apart none (sort fixes) ho (by simp) hr).2
      exact hp.imp fun h => ⟨h.1, h.2, h.not_conflict⟩
    · intro s hs
      obtain ⟨f, hf, -, hc⟩ := choose_skipped none (sort fixes) ho (by simp) hs
      exact ⟨f, by simpa using hf, hc⟩

end Fix

end TemplateLint
