import TemplateLint.Proofs.Fixing.Passes

namespace TemplateLint

open Text (size)
open Concrete (Statement)

namespace Fix

/-- The range of the first fix holds that of the second, and more. -/
def Encloses (f g : Fix) : Prop :=
  f.range.start ≤ g.range.start ∧ g.range.stop ≤ f.range.stop ∧ f.range ≠ g.range

/-- Two fixes start at different places, and they are beside each other, or one encloses the other. -/
def Nested (f g : Fix) : Prop :=
  f.range.start ≠ g.range.start ∧
    (f.range.stop ≤ g.range.start ∨ g.range.stop ≤ f.range.start ∨ f.Encloses g ∨ g.Encloses f)

theorem Nested.symm {f g : Fix} (h : f.Nested g) : g.Nested f := by
  obtain ⟨hstart, hbefore | hafter | hfg | hgf⟩ := h
  · exact ⟨hstart.symm, Or.inr (Or.inl hbefore)⟩
  · exact ⟨hstart.symm, Or.inl hafter⟩
  · exact ⟨hstart.symm, Or.inr (Or.inr (Or.inr hfg))⟩
  · exact ⟨hstart.symm, Or.inr (Or.inr (Or.inl hgf))⟩

end Fix

namespace Draft

variable {d : Draft}

theorem fixes_nested (hd : d.Sound) (k : Nat) : (d.fixes k).Pairwise Fix.Nested := by
  apply List.Pairwise.imp_of_mem _ (fixes_starts hd k)
  intro f g hf hg hstart
  have hne : f.range ≠ g.range := fun he => hstart (congrArg Span.start he)
  refine ⟨hstart, ?_⟩
  rcases fixes_laminar hd hf hg with rfl | hbefore | hafter | ⟨hlt, hstop⟩ | ⟨hlt, hstop⟩
  · exact absurd rfl hstart
  · exact Or.inl hbefore
  · exact Or.inr (Or.inl hafter)
  · exact Or.inr (Or.inr (Or.inl ⟨Nat.le_of_lt hlt, hstop, hne⟩))
  · exact Or.inr (Or.inr (Or.inr ⟨Nat.le_of_lt hlt, hstop, hne.symm⟩))

/-- Of all fixes of a draft those are taken that no other one encloses. -/
theorem mem_taken_iff (hd : d.Sound) {k : Nat} {f : Fix} :
    f ∈ d.taken (selects (d.fixes k)) k ↔ f ∈ d.fixes k ∧ ∀ g ∈ d.fixes k, ¬ g.Encloses f := by
  have htaken := taken_apart (selects (d.fixes k)) hd k
  constructor
  · intro hf
    obtain ⟨hfd, -⟩ := mem_fixes_of_taken hf
    refine ⟨hfd, fun g hg hencloses => ?_⟩
    obtain ⟨t, ht, hstart, hstop⟩ := taken_covers hd hg (selects_of_mem hg)
    obtain ⟨hgstart, hgstop, hne⟩ := hencloses
    have hfr := fixes_range hd hfd
    have hgr := fixes_range hd hg
    obtain rfl := Fix.eq_of_overlap htaken ht hf (by omega) (by omega)
    have hstarts : g.range.start = t.range.start := by omega
    have hstops : g.range.stop = t.range.stop := by omega
    exact hne (by rw [show g.range = ⟨g.range.start, g.range.stop⟩ from rfl, hstarts, hstops])
  · rintro ⟨hfd, houter⟩
    obtain ⟨t, ht, hstart, hstop⟩ := taken_covers hd hfd (selects_of_mem hfd)
    obtain ⟨htd, -⟩ := mem_fixes_of_taken ht
    by_cases hrange : t.range = f.range
    · obtain rfl := eq_of_range hd htd hfd hrange
      exact ht
    · exact absurd ⟨hstart, hstop, hrange⟩ (houter t htd)

/-- Every fix of a draft that is not taken is enclosed by one that is. -/
theorem enclosed_of_not_taken (hd : d.Sound) {k : Nat} {f : Fix} (hf : f ∈ d.fixes k)
    (hn : f ∉ d.taken (selects (d.fixes k)) k) :
    ∃ g ∈ d.taken (selects (d.fixes k)) k, g.Encloses f := by
  obtain ⟨t, ht, hstart, hstop⟩ := taken_covers hd hf (selects_of_mem hf)
  refine ⟨t, ht, hstart, hstop, fun hrange => ?_⟩
  obtain rfl := eq_of_range hd (mem_fixes_of_taken ht).1 hf hrange
  exact hn ht

theorem selects_congr {fixes fixes' : List Fix} (h : ∀ f, f ∈ fixes ↔ f ∈ fixes') :
    selects fixes = selects fixes' := by
  funext s
  rw [Bool.eq_iff_iff, selects, selects, List.any_eq_true, List.any_eq_true]
  exact exists_congr fun f => and_congr_left' (h f)

/-- Applying all fixes of a draft, in whatever order they are listed, takes the outermost of them and
skips those that a taken one encloses. -/
theorem applyAll_outermost (hd : d.Sound) {fixes : List Fix} (h : fixes.Perm (d.fixes 0)) :
    ∃ o, Fix.applyAll (String.ofList d.chars) fixes = .ok o ∧ (o.applied ++ o.skipped).Perm fixes ∧
      (∀ f, f ∈ o.applied ↔ f ∈ fixes ∧ ∀ g ∈ fixes, ¬ g.Encloses f) ∧
      ∀ f, f ∈ o.skipped ↔ f ∈ fixes ∧ ∃ g ∈ o.applied, g.Encloses f := by
  have hmem : ∀ f, f ∈ fixes ↔ f ∈ d.fixes 0 := fun f => h.mem_iff
  have hwithin : ∀ f ∈ fixes, f.Within (String.ofList d.chars).toList := by
    intro f hf
    have hw := within_of_mem (u := []) (v := []) ((hmem f).1 hf)
    simpa using hw
  have hchosen := choose_sort hd fun f hf => (hmem f).1 hf
  rw [selects_congr hmem] at hchosen
  have hperm := (Fix.choose_perm none (Fix.sort fixes)).trans (Fix.sort_perm fixes)
  have hnodup : fixes.Nodup :=
    h.symm.nodup ((fixes_starts hd 0).imp fun hne he => hne (congrArg (fun f => f.range.start) he))
  refine ⟨_, Fix.applyAll_of_within hwithin, hperm, fun f => ?_, fun f => ?_⟩
  · simp only [hchosen, mem_taken_iff hd, hmem]
  · have hdisjoint := (List.nodup_append.1 (hperm.symm.nodup hnodup)).2.2
    have hsplit : f ∈ fixes ↔ f ∈ (Fix.choose none (Fix.sort fixes)).1 ∨
        f ∈ (Fix.choose none (Fix.sort fixes)).2 := by
      rw [← hperm.mem_iff, List.mem_append]
    constructor
    · intro hf
      have hff := hsplit.2 (Or.inr hf)
      refine ⟨hff, ?_⟩
      simp only [hchosen] at hdisjoint ⊢
      exact enclosed_of_not_taken hd ((hmem f).1 hff) fun ht => hdisjoint f ht f hf rfl
    · rintro ⟨hff, g, hg, hencloses⟩
      refine (hsplit.1 hff).resolve_left fun hf => ?_
      simp only [hchosen] at hf hg
      exact ((mem_taken_iff hd).1 hf).2 g (mem_fixes_of_taken hg).1 hencloses

end Draft

namespace Linter

/-- The fixes for a template are ranges of its source that start at different places and are beside
each other or one inside of the other. They can always be applied: those are applied that no other
one encloses, and those are skipped that an applied one encloses. -/
theorem lint_fixes_nested {config : Configuration} {l : Linter} (hl : Linter.new config = .ok l)
    {source : String} {t : Tree.Template} (ht : Tree.Template.parse source = .ok t) :
    ∃ outcome o, l.lint source = .ok outcome ∧
      (∀ f ∈ outcome.fixes, f.Within source.toList) ∧ outcome.fixes.Pairwise Fix.Nested ∧
      Fix.applyAll source outcome.fixes = .ok o ∧ (o.applied ++ o.skipped).Perm outcome.fixes ∧
      (∀ f, f ∈ o.applied ↔ f ∈ outcome.fixes ∧ ∀ g ∈ outcome.fixes, ¬ g.Encloses f) ∧
      ∀ f, f ∈ o.skipped ↔ f ∈ outcome.fixes ∧ ∃ g ∈ o.applied, g.Encloses f := by
  have hlint := lint_of_parse (l := l) ht
  obtain ⟨ss, hs, rfl, rfl⟩ := Tree.Template.parse_eq_ok.1 ht
  have hperm := fixes_perm_draft (valid_of_new hl) hs
  have hsound := hs.sound l.fixers
  have hchars := Concrete.Statement.chars_draftAll l.fixers ss
  have hnested := hperm.symm.pairwise (Draft.fixes_nested hsound 0) fun h => h.symm
  obtain ⟨o, happly, hsplit, happlied, hskipped⟩ := Draft.applyAll_outermost hsound hperm
  rw [hchars] at happly
  refine ⟨_, o, hlint, fun f hf => ?_, hnested, happly, hsplit, happlied, hskipped⟩
  have hwithin := Draft.within_of_mem (u := []) (v := []) (hperm.mem_iff.1 hf)
  rw [List.nil_append, List.append_nil, hchars] at hwithin
  rwa [String.toList_ofList]

/-- A negated value inside of a block whose condition is negated too. -/
theorem lint_fixes_nested_value :
    ∃ outcome o, conditionsOnly.lint
        "\x7b\x7b#if (not a)\x7d\x7d\x7b\x7bif (not b) c\x7d\x7d\x7b\x7b/if\x7d\x7d" =
          .ok outcome ∧
      outcome.fixes.Pairwise Fix.Nested ∧
      Fix.applyAll
        "\x7b\x7b#if (not a)\x7d\x7d\x7b\x7bif (not b) c\x7d\x7d\x7b\x7b/if\x7d\x7d"
          outcome.fixes = .ok o ∧
      ∀ f, f ∈ o.skipped ↔ f ∈ outcome.fixes ∧ ∃ g ∈ o.applied, g.Encloses f := by
  have hok : (Tree.Template.parse
      "\x7b\x7b#if (not a)\x7d\x7d\x7b\x7bif (not b) c\x7d\x7d\x7b\x7b/if\x7d\x7d").isOk =
        true := by
    decide +kernel
  cases ht : Tree.Template.parse
      "\x7b\x7b#if (not a)\x7d\x7d\x7b\x7bif (not b) c\x7d\x7d\x7b\x7b/if\x7d\x7d" with
  | error e =>
    rw [ht] at hok
    cases hok
  | ok t =>
    obtain ⟨outcome, o, hlint, -, hnested, happly, -, -, hskipped⟩ :=
      lint_fixes_nested new_conditionsConfig ht
    exact ⟨outcome, o, hlint, hnested, happly, hskipped⟩

end Linter

end TemplateLint
