import TemplateLint.Proofs.Edit.Building

namespace TemplateLint

open Text (size isBoundary)

/-- An offset in the front of a text lies between characters of the text just if it does in the front. -/
theorem Text.isBoundary_front {n : Nat} {a b : List Char} (h : isBoundary n (a ++ b) = true)
    (hle : n ≤ size a) : isBoundary n a = true := by
  obtain ⟨⟨x, y⟩, hxy⟩ := Option.isSome_iff_exists.1 h
  obtain ⟨he, rfl⟩ := eq_append_of_splitAt? hxy
  obtain ⟨kept, rfl, -⟩ := front_of_size_le he.symm hle
  rw [isBoundary, splitAt?_append]
  rfl

/-- A range of a text cuts the text into what is before, in and after it. -/
theorem Span.Fits.exists_append {cs : List Char} {s : Span} (h : s.Fits cs) :
    ∃ u x v, cs = u ++ (x ++ v) ∧ s = ⟨size u, size u + size x⟩ := by
  obtain ⟨hle, -, hstart, hstop⟩ := h
  obtain ⟨⟨u, w⟩, hu⟩ := Option.isSome_iff_exists.1 hstart
  obtain ⟨⟨a, v⟩, ha⟩ := Option.isSome_iff_exists.1 hstop
  obtain ⟨hw, hsizeu⟩ := Text.eq_append_of_splitAt? hu
  obtain ⟨hv, hsizea⟩ := Text.eq_append_of_splitAt? ha
  obtain ⟨x, rfl, rfl⟩ := Text.front_of_size_le (hw.symm.trans hv) (by omega)
  have hsize : size u + size x = s.stop := by rw [hsizea, Text.size_append]
  exact ⟨u, x, v, hw, by rw [hsize, ← hsizeu]⟩

namespace Fix

theorem Within.front {a b : List Char} {f : Fix} (h : f.Within (a ++ b))
    (hle : f.range.stop ≤ size a) : f.Within a := by
  obtain ⟨hrange, -, hstart, hstop⟩ := h
  exact ⟨hrange, hle, Text.isBoundary_front hstart (by omega), Text.isBoundary_front hstop hle⟩

/-- Fixes that follow one another are all taken. -/
theorem choose_of_apart {last : Option Fix} {fixes : List Fix}
    (h : (last.toList ++ fixes).Pairwise Apart) : choose last fixes = (fixes, []) := by
  induction fixes generalizing last with
  | nil => rfl
  | cons f fixes ih =>
    have hfree : last.any (conflictsWith · f) = false := by
      cases last with
      | none => rfl
      | some l =>
        have hl : l.Apart f := (List.pairwise_cons.1 h).1 f List.mem_cons_self
        exact hl.not_conflict
    have hnext : choose (some f) fixes = (fixes, []) :=
      ih (h.sublist (List.sublist_append_right last.toList (f :: fixes)))
    rw [choose, hfree, hnext]
    rfl

namespace Spliced

variable {k : Nat} {s t : List Char} {fixes : List Fix}

theorem before (h : Spliced k s fixes t) (v : List Char) : Spliced k (s ++ v) fixes (t ++ v) := by
  induction h with
  | rest k kept => exact .rest k (kept ++ v)
  | @cut k f fs s t kept old range more ih =>
    simpa only [List.append_assoc] using Spliced.cut kept old range ih

theorem after {u : List Char} (h : Spliced (k + size u) s fixes t) :
    Spliced k (u ++ s) fixes (u ++ t) := by
  cases h with
  | rest _ kept => exact .rest k (u ++ s)
  | @cut _ f fs s t kept old range more =>
    have hkept : k + size (u ++ kept) = k + size u + size kept := by
      rw [Text.size_append, Nat.add_assoc]
    rw [← hkept] at range more
    simpa only [List.append_assoc] using Spliced.cut (u ++ kept) old range more

end Spliced

/-- Fixes none of which conflicts with another follow one another when they are in order. -/
theorem sort_apart {cs : List Char} {fixes : List Fix} (hwithin : ∀ f ∈ fixes, f.Within cs)
    (hfree : fixes.Pairwise fun f g => f.conflictsWith g = false) : (sort fixes).Pairwise Apart := by
  have hsorted : (sort fixes).Pairwise fun f g => f.conflictsWith g = false := by
    refine ((sort_perm fixes).pairwise_iff ?_).2 hfree
    intro f g hfg
    rwa [conflictsWith_comm]
  refine ((sort_pairwise fixes).and hsorted).imp_of_mem ?_
  intro f g _ hg h
  exact apart_of_not_conflict h.1 (hwithin g ((sort_perm fixes).mem_iff.1 hg)).1 h.2

/-- Fixes none of which conflicts with another are all applied. -/
theorem applyAll_of_free {source : String} {fixes : List Fix}
    (hwithin : ∀ f ∈ fixes, f.Within source.toList)
    (hfree : fixes.Pairwise fun f g => f.conflictsWith g = false) :
    applyAll source fixes = .ok
      ⟨String.ofList (splice source.toList 0 (size source.toList) (sort fixes)), sort fixes, []⟩ := by
  have hchoose : choose none (sort fixes) = (sort fixes, []) :=
    choose_of_apart (sort_apart hwithin hfree)
  rw [applyAll_of_within hwithin, hchoose]

/-- Fixes inside the middle of a text cut that middle alone. -/
theorem spliced_middle {u x v : List Char} {fixes : List Fix} (hapart : fixes.Pairwise Apart)
    (hwithin : ∀ f ∈ fixes, f.Within (u ++ (x ++ v)))
    (hinside : ∀ f ∈ fixes, size u ≤ f.range.start ∧ f.range.stop ≤ size u + size x) :
    ∃ t, Spliced (size u) x fixes t := by
  have hfront : ∀ f ∈ fixes, f.Within (u ++ x) := by
    intro f hf
    have hf' := hwithin f hf
    rw [← List.append_assoc] at hf'
    refine hf'.front ?_
    rw [Text.size_append]
    exact (hinside f hf).2
  exact ⟨_, spliced_splice rfl hapart hfront fun f hf => (hinside f hf).1⟩

end Fix

/-- A builder that is given edits one after the other. -/
def FixBuilder.replaceAll (b : FixBuilder) (edits : List Fix) : FixBuilder :=
  edits.foldl (fun b f => b.replace f.range f.replacement) b

theorem FixBuilder.replaceAll_new (source : String) (range : Span) (edits : List Fix) :
    (new source range).replaceAll edits = ⟨source, range, edits⟩ := by
  have hpush : ∀ (b : FixBuilder), b.replaceAll edits = { b with edits := b.edits ++ edits } := by
    induction edits with
    | nil => simp [replaceAll]
    | cons f edits ih =>
      intro b
      have hb := ih (b.replace f.range f.replacement)
      rw [replaceAll] at hb ⊢
      rw [List.foldl_cons, hb]
      simp [replace]
  exact hpush (new source range)

namespace Fix

/-- Edits inside a range of a source, none of which starts with another or overlaps it, give one text
whether a builder makes one fix of them, pushed in any order, or they are applied as they are. -/
theorem applyAll_build {source : String} {range : Span} {edits pushed : List Fix}
    (hrange : range.Fits source.toList)
    (hinside : ∀ f ∈ edits, f.range.Fits source.toList ∧ range.start ≤ f.range.start ∧
      f.range.stop ≤ range.stop)
    (hfree : edits.Pairwise fun f g => f.range.start ≠ g.range.start ∧
      (f.range.stop ≤ g.range.start ∨ g.range.stop ≤ f.range.start))
    (hpushed : pushed.Perm edits) :
    ∃ built direct,
      applyAll source [((FixBuilder.new source range).replaceAll pushed).build] = .ok built ∧
        applyAll source edits = .ok direct ∧ built.output = direct.output ∧
        direct.applied.Perm edits ∧ direct.skipped = [] := by
  have hwithin : ∀ f ∈ edits, f.Within source.toList := fun f hf => (hinside f hf).1
  have hconflict : edits.Pairwise fun f g => f.conflictsWith g = false := by
    refine hfree.imp fun {f g} h => ?_
    have hlap : ¬ (f.range.start < g.range.stop ∧ g.range.start < f.range.stop) := by omega
    simpa [conflictsWith, h.1] using hlap
  have hapart := sort_apart hwithin hconflict
  have hsort : sort pushed = sort edits :=
    sort_eq (hpushed.trans (sort_perm edits).symm) hapart
  obtain ⟨u, x, v, hsource, rfl⟩ := hrange.exists_append
  obtain ⟨t, ht⟩ := spliced_middle (v := v) hapart
    (fun f hf => hsource ▸ hwithin f ((sort_perm edits).mem_iff.1 hf))
    fun f hf => (hinside f ((sort_perm edits).mem_iff.1 hf)).2
  have hsource' : source = String.ofList (u ++ (x ++ v)) := by rw [← hsource, String.ofList_toList]
  have hedits : Edits (size u) x pushed t := ⟨hsort ▸ hapart, hsort ▸ ht⟩
  have hbuild : ((FixBuilder.new source ⟨size u, size u + size x⟩).replaceAll pushed).build =
      ⟨⟨size u, size u + size x⟩, String.ofList t⟩ := by
    rw [FixBuilder.replaceAll_new]
    exact hedits.build v hsource'
  have hdirect : splice source.toList 0 (size source.toList) (sort edits) = u ++ (t ++ v) := by
    have hwhole : Spliced 0 (u ++ (x ++ v)) (sort edits) (u ++ (t ++ v)) :=
      .after (by simpa using ht.before v)
    have hsplice := hwhole.splice_eq (u := []) [] rfl
    simpa [hsource] using hsplice
  have hbuilt := applyAll_single (f := ⟨⟨size u, size u + size x⟩, String.ofList t⟩) v rfl
  rw [← hsource', ← hbuild] at hbuilt
  refine ⟨_, _, hbuilt, applyAll_of_free hwithin hconflict, ?_, sort_perm edits, rfl⟩
  simp only [hbuild, hdirect, String.toList_ofList]

/-- An insertion at the start of a range and two edits one right behind the other, the last at its end,
after a character of two bytes. -/
theorem applyAll_build_neighbours :
    ∃ built direct,
      applyAll "éabcd" [((FixBuilder.new "éabcd" ⟨2, 5⟩).replaceAll
        [⟨⟨4, 5⟩, ""⟩, ⟨⟨2, 2⟩, "x"⟩, ⟨⟨3, 4⟩, "yz"⟩]).build] = .ok built ∧
      applyAll "éabcd" [⟨⟨2, 2⟩, "x"⟩, ⟨⟨3, 4⟩, "yz"⟩, ⟨⟨4, 5⟩, ""⟩] = .ok direct ∧
      built.output = direct.output ∧
      direct.applied.Perm [⟨⟨2, 2⟩, "x"⟩, ⟨⟨3, 4⟩, "yz"⟩, ⟨⟨4, 5⟩, ""⟩] ∧ direct.skipped = [] := by
  have hrange : (Span.mk 2 5).Fits "éabcd".toList := by
    unfold Span.Fits
    decide
  have hinside : ∀ f ∈ ([⟨⟨2, 2⟩, "x"⟩, ⟨⟨3, 4⟩, "yz"⟩, ⟨⟨4, 5⟩, ""⟩] : List Fix),
      f.range.Fits "éabcd".toList ∧ 2 ≤ f.range.start ∧ f.range.stop ≤ 5 := by
    unfold Span.Fits
    decide
  exact applyAll_build hrange hinside (by decide) (by decide)

end Fix

end TemplateLint
