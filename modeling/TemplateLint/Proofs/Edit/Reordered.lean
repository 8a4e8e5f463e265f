import TemplateLint.Proofs.Edit.Selection

namespace TemplateLint.Fix

theorem Before.antisymm {f g : Fix} (hfg : f.Before g) (hgf : g.Before f) : f.range = g.range := by
  have hstart : f.range.start = g.range.start := by
    unfold Before at hfg hgf
    omega
  have hstop : f.range.stop = g.range.stop := by
    unfold Before at hfg hgf
    omega
  cases hf : f.range
  cases hg : g.range
  simp_all

/-- The range of a fix without what it puts there. -/
def emptied (f : Fix) : Fix := delete f.range

theorem emptied_eq_iff {f g : Fix} : f.emptied = g.emptied ↔ f.range = g.range := by
  simp [emptied, delete]

theorem map_range_emptied (fixes : List Fix) : (fixes.map emptied).map range = fixes.map range := by
  rw [List.map_map]
  rfl

/-- What is taken is decided by the ranges. -/
theorem choose_emptied (last : Option Fix) (fixes : List Fix) :
    choose (last.map emptied) (fixes.map emptied) =
      ((choose last fixes).1.map emptied, (choose last fixes).2.map emptied) := by
  induction fixes generalizing last with
  | nil => rfl
  | cons f fixes ih =>
    have hconflict : (last.map emptied).any (conflictsWith · f.emptied) =
        last.any (conflictsWith · f) := by
      cases last <;> rfl
    rw [List.map_cons, choose, choose, hconflict]
    split
    · rw [ih]
      rfl
    · have hnext := ih (some f)
      rw [Option.map_some] at hnext
      rw [hnext]
      rfl

theorem find?_misfit_emptied (cs : List Char) (fixes : List Fix) :
    (fixes.map emptied).find? (fun f => !f.fits cs) =
      (fixes.find? fun f => !f.fits cs).map emptied := by
  rw [List.find?_map]
  rfl

variable {fixes fixes' : List Fix}

/-- Sorting brings the same ranges to the same places, whatever stands for them. -/
theorem map_emptied_sort (h : fixes.Perm fixes') :
    (sort fixes).map emptied = (sort fixes').map emptied := by
  have hperm : (sort fixes).Perm (sort fixes') :=
    (sort_perm fixes).trans (h.trans (sort_perm fixes').symm)
  have hsorted : ∀ fs, ((sort fs).map emptied).Pairwise Before := fun fs =>
    List.pairwise_map.2 (sort_pairwise fs)
  apply (hperm.map emptied).eq_of_pairwise _ (hsorted fixes) (hsorted fixes')
  intro f g hf hg hfg hgf
  obtain ⟨f, -, rfl⟩ := List.mem_map.1 hf
  obtain ⟨g, -, rfl⟩ := List.mem_map.1 hg
  exact emptied_eq_iff.2 (Before.antisymm hfg hgf)

theorem sort_eq_of_agree (h : fixes.Perm fixes')
    (hagree : ∀ f ∈ fixes, ∀ g ∈ fixes, f.range = g.range → f.replacement = g.replacement) :
    sort fixes = sort fixes' := by
  have hperm : (sort fixes).Perm (sort fixes') :=
    (sort_perm fixes).trans (h.trans (sort_perm fixes').symm)
  apply hperm.eq_of_pairwise _ (sort_pairwise fixes) (sort_pairwise fixes')
  intro f g hf hg hfg hgf
  have hrange := hfg.antisymm hgf
  have hreplacement := hagree f ((sort_perm fixes).mem_iff.1 hf) g
    (h.mem_iff.2 ((sort_perm fixes').mem_iff.1 hg)) hrange
  cases f
  cases g
  simp_all

/-- Two outcomes of applying fixes that took and left the same ranges, or failed at the same one. -/
def SameRanges : Except Misfit FixOutcome → Except Misfit FixOutcome → Prop
  | .error m, .error m' => m = m'
  | .ok o, .ok o' =>
    o.applied.map range = o'.applied.map range ∧ o.skipped.map range = o'.skipped.map range
  | _, _ => False

/-- Fixes in another order are applied and skipped at the same ranges, or fail at the same one. Where
those of one range put the same text there, all of the outcome is the same. -/
theorem applyAll_reordered (source : String) (h : fixes.Perm fixes') :
    SameRanges (applyAll source fixes) (applyAll source fixes') ∧
      ((∀ f ∈ fixes, ∀ g ∈ fixes, f.range = g.range → f.replacement = g.replacement) →
        applyAll source fixes = applyAll source fixes') := by
  refine ⟨?_, fun hagree => ?_⟩
  · have hsort := map_emptied_sort h
    have hfind := congrArg (List.find? fun f => !f.fits source.toList) hsort
    have hchoose := congrArg (choose none) hsort
    rw [find?_misfit_emptied, find?_misfit_emptied] at hfind
    have hchosen := choose_emptied none
    rw [Option.map_none] at hchosen
    rw [hchosen, hchosen] at hchoose
    obtain ⟨happlied, hskipped⟩ := Prod.mk.inj hchoose
    unfold applyAll
    dsimp only
    cases hm : (sort fixes).find? fun f => !f.fits source.toList with
    | some f =>
      rw [hm] at hfind
      obtain ⟨g, hg, hrange⟩ := Option.map_eq_some_iff.1 hfind.symm
      rw [hg]
      exact congrArg (Misfit.mk · _) (emptied_eq_iff.1 hrange).symm
    | none =>
      rw [hm] at hfind
      rw [Option.map_eq_none_iff.1 hfind.symm]
      have ranges : ∀ {fs gs : List Fix}, fs.map emptied = gs.map emptied →
          fs.map range = gs.map range := by
        intro fs gs hmap
        rw [← map_range_emptied fs, hmap, map_range_emptied]
      exact ⟨ranges happlied, ranges hskipped⟩
  · unfold applyAll
    rw [sort_eq_of_agree h hagree]

/-- An insertion given twice, one fix before it and one over it. -/
theorem applyAll_reordered_twice :
    ∃ fixes fixes' : List Fix,
      fixes = [⟨⟨2, 2⟩, "x"⟩, ⟨⟨0, 2⟩, ""⟩, ⟨⟨2, 2⟩, "x"⟩, ⟨⟨1, 3⟩, "y"⟩] ∧
      fixes' = [⟨⟨1, 3⟩, "y"⟩, ⟨⟨2, 2⟩, "x"⟩, ⟨⟨2, 2⟩, "x"⟩, ⟨⟨0, 2⟩, ""⟩] ∧ fixes.Perm fixes' ∧
      SameRanges (applyAll "abc" fixes) (applyAll "abc" fixes') ∧
      applyAll "abc" fixes = applyAll "abc" fixes' := by
  have hperm : ([⟨⟨2, 2⟩, "x"⟩, ⟨⟨0, 2⟩, ""⟩, ⟨⟨2, 2⟩, "x"⟩, ⟨⟨1, 3⟩, "y"⟩] : List Fix).Perm
      [⟨⟨1, 3⟩, "y"⟩, ⟨⟨2, 2⟩, "x"⟩, ⟨⟨2, 2⟩, "x"⟩, ⟨⟨0, 2⟩, ""⟩] := by
    decide
  obtain ⟨hranges, houtcome⟩ := applyAll_reordered "abc" hperm
  exact ⟨_, _, rfl, rfl, hperm, hranges, houtcome (by decide)⟩

end TemplateLint.Fix
