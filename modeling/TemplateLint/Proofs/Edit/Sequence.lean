import TemplateLint.Proofs.Edit.Draft
import TemplateLint.Proofs.Text.Scan

namespace TemplateLint

open Text (size slice?)

namespace Fix

/-- A text at `k` of a source, and the text with fixes in it. Before each fix something is kept, then
the replacement stands for what was in the range, and behind the last fix all is kept. -/
inductive Spliced : Nat → List Char → List Fix → List Char → Prop where
  | rest (k : Nat) (kept : List Char) : Spliced k kept [] kept
  | cut {k : Nat} {f : Fix} {fs : List Fix} {s t : List Char} (kept old : List Char)
      (range : f.range = ⟨k + size kept, k + size kept + size old⟩)
      (more : Spliced (k + size kept + size old) s fs t) :
      Spliced k (kept ++ (old ++ s)) (f :: fs) (kept ++ (f.replacement.toList ++ t))

/-- The fix puts its replacement where its range stands. -/
theorem applyAll_single {f : Fix} {u old : List Char} (v : List Char)
    (h : f.range = ⟨size u, size u + size old⟩) :
    applyAll (String.ofList (u ++ (old ++ v))) [f] =
      .ok ⟨String.ofList (u ++ (f.replacement.toList ++ v)), [f], []⟩ := by
  have hwithin : ∀ g ∈ [f], g.Within (String.ofList (u ++ (old ++ v))).toList := by
    intro g hg
    obtain rfl := List.mem_singleton.1 hg
    rw [String.toList_ofList]
    exact within_of_range v h
  have hsort : sort [f] = [f] := List.mergeSort_singleton f
  have hbefore : slice? ⟨0, size u⟩ (u ++ (old ++ v)) = some u := by
    simpa using Text.slice?_append [] u (old ++ v)
  have hafter : slice? ⟨size u + size old, size (u ++ (old ++ v))⟩ (u ++ (old ++ v)) = some v := by
    have hslice := Text.slice?_append (u ++ old) v []
    simpa [Nat.add_assoc] using hslice
  rw [applyAll_of_within hwithin, hsort, String.toList_ofList]
  simp only [choose, Option.any_none, Bool.false_eq_true, if_false, splice, h, hbefore, hafter,
    Option.getD_some, List.append_assoc]

/-- Fixes that follow one another in a text, the first of them not before its front `u`, cut the rest
of the text into what is kept and what is replaced. -/
theorem spliced_splice {cs u s : List Char} {fixes : List Fix} (hcs : cs = u ++ s)
    (hapart : fixes.Pairwise Apart) (hwithin : ∀ f ∈ fixes, f.Within cs)
    (hfront : ∀ f ∈ fixes, size u ≤ f.range.start) :
    Spliced (size u) s fixes (splice cs (size u) (size cs) fixes) := by
  induction fixes generalizing u s with
  | nil =>
    have hrest : slice? ⟨size u, size cs⟩ cs = some s := by
      simpa [hcs] using Text.slice?_append u s []
    rw [splice, hrest]
    exact .rest _ s
  | cons f fixes ih =>
    obtain ⟨hnext, hapart⟩ := List.pairwise_cons.1 hapart
    obtain ⟨hle, -, hstart, hstop⟩ := hwithin f List.mem_cons_self
    obtain ⟨⟨a, b⟩, ha⟩ := Option.isSome_iff_exists.1 hstart
    obtain ⟨⟨a', b'⟩, ha'⟩ := Option.isSome_iff_exists.1 hstop
    obtain ⟨hab, hsize⟩ := Text.eq_append_of_splitAt? ha
    obtain ⟨hab', hsize'⟩ := Text.eq_append_of_splitAt? ha'
    obtain ⟨kept, rfl, rfl⟩ := Text.front_of_size_le (hcs.symm.trans hab)
      (by rw [← hsize]; exact hfront f List.mem_cons_self)
    obtain ⟨old, rfl, rfl⟩ := Text.front_of_size_le (hab.symm.trans hab') (by omega)
    have hrange : f.range = ⟨size u + size kept, size u + size kept + size old⟩ := by
      rw [← Text.size_append, ← Text.size_append, ← hsize, ← hsize']
    have hkept : slice? ⟨size u, size u + size kept⟩ cs = some kept := by
      rw [hcs]
      exact Text.slice?_append u kept (old ++ b')
    have hmore := ih hab' hapart (fun g hg => hwithin g (List.mem_cons_of_mem f hg)) fun g hg => by
      rw [← hsize']
      exact (hnext g hg).2
    rw [Text.size_append, Text.size_append] at hmore
    rw [splice, hrange, hkept, Option.getD_some, List.append_assoc]
    exact .cut kept old hrange hmore

/-- Applies fixes one at a time, the last of them first, each to the text that the ones after it have
made. -/
def applyEach (source : String) : List Fix → Except Misfit String
  | [] => .ok source
  | f :: fs => do
    let text ← applyEach source fs
    let outcome ← applyAll text [f]
    .ok outcome.output

/-- The induction goes from the last fix to the first: what stands before a fix is still as it was. -/
theorem Spliced.applyEach_eq {k : Nat} {s t : List Char} {fixes : List Fix}
    (h : Spliced k s fixes t) {u : List Char} (hu : size u = k) :
    applyEach (String.ofList (u ++ s)) fixes = .ok (String.ofList (u ++ t)) := by
  induction h generalizing u with
  | rest k kept => rfl
  | cut kept old hrange more ih =>
    have hmore := ih (u := u ++ (kept ++ old)) (by simp only [Text.size_append]; omega)
    have hrange' := hrange.trans (show _ = (⟨size (u ++ kept), size (u ++ kept) + size old⟩ : Span) by
      rw [Text.size_append, hu])
    simp only [List.append_assoc] at hmore
    rw [applyEach, hmore, ← List.append_assoc u, ← List.append_assoc u]
    simp only [bind, Except.bind, applyAll_single _ hrange']

/-- Fixes that were applied are ranges of the source, and what was applied was chosen of them in their
order. -/
theorem eq_of_applyAll {source : String} {fixes : List Fix} {o : FixOutcome}
    (h : applyAll source fixes = .ok o) :
    (∀ f ∈ fixes, f.Within source.toList) ∧
      o = ⟨String.ofList (splice source.toList 0 (size source.toList) (choose none (sort fixes)).1),
        (choose none (sort fixes)).1, (choose none (sort fixes)).2⟩ := by
  cases hfind : (sort fixes).find? (fun f => !f.fits source.toList) with
  | some f =>
    rw [applyAll_of_misfit hfind] at h
    cases h
  | none =>
    have hwithin : ∀ f ∈ fixes, f.Within source.toList := by
      intro f hf
      rw [← fits_iff]
      simpa using List.find?_eq_none.1 hfind f ((sort_perm fixes).mem_iff.2 hf)
    rw [applyAll_of_within hwithin] at h
    exact ⟨hwithin, (Except.ok.inj h).symm⟩

/-- The fixes that were applied at once can be applied one at a time from the last to the first, each
alone, and give the same text. Every part of the source outside of their ranges is kept in it, once
and in its place. -/
theorem applyAll_sequential {source : String} {fixes : List Fix} {o : FixOutcome}
    (h : applyAll source fixes = .ok o) :
    applyEach source o.applied = .ok o.output ∧
      Spliced 0 source.toList o.applied o.output.toList := by
  obtain ⟨hwithin, rfl⟩ := eq_of_applyAll h
  have hsorted : ∀ f ∈ sort fixes, f.Within source.toList := fun f hf =>
    hwithin f ((sort_perm fixes).mem_iff.1 hf)
  have hapart := (choose_apart none (sort fixes) (sort_pairwise fixes) (by simp)
    fun f hf => (hsorted f hf).1).2
  have happlied : ∀ f ∈ (choose none (sort fixes)).1, f.Within source.toList := fun f hf =>
    hsorted f ((choose_sublist none (sort fixes)).subset hf)
  have hspliced : Spliced 0 source.toList (choose none (sort fixes)).1
      (splice source.toList 0 (size source.toList) (choose none (sort fixes)).1) :=
    spliced_splice (List.nil_append _).symm hapart happlied fun f _ => Nat.zero_le _
  have heach := hspliced.applyEach_eq Text.size_nil
  rw [List.nil_append, List.nil_append, String.ofList_toList] at heach
  exact ⟨heach, by rwa [String.toList_ofList]⟩

/-- Two neighbours, the first of them behind a character of two bytes, and one that conflicts. -/
theorem applyAll_sequential_neighbours :
    ∃ o, applyAll "éab" [⟨⟨3, 4⟩, ""⟩, ⟨⟨2, 3⟩, "xy"⟩, ⟨⟨2, 4⟩, "z"⟩] = .ok o ∧
      applyEach "éab" o.applied = .ok o.output ∧ Spliced 0 "éab".toList o.applied o.output.toList := by
  have hwithin : ∀ f ∈ ([⟨⟨3, 4⟩, ""⟩, ⟨⟨2, 3⟩, "xy"⟩, ⟨⟨2, 4⟩, "z"⟩] : List Fix),
      f.Within "éab".toList := by
    simp only [← fits_iff]
    decide
  have h := applyAll_of_within hwithin
  exact ⟨_, h, applyAll_sequential h⟩

end Fix

end TemplateLint
