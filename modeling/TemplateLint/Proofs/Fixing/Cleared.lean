import TemplateLint.Proofs.Fixing.Failing
import TemplateLint.Proofs.Fixing.Settle

namespace TemplateLint

open Text (size)

namespace Concrete

variable {f : Fixers}

mutual

/-- Without places for fixes no condition is joined with the words beside it. -/
theorem Statement.reads_of_depth : ∀ {s : Statement}, s.reads f.onlyArguments = true →
    s.depth f = 0 → s.reads f = true
  | .text _, _, _ => rfl
  | .comment _, _, _ => rfl
  | .note _, _, _ => rfl
  | .mustache _, _, _ => rfl
  | .block opening program sections closing, h, hd => by
    simp only [Statement.reads, Bool.and_eq_true] at h
    simp only [Statement.depth, Nat.add_eq_zero_iff, level_eq_zero, Nat.max_eq_zero_iff] at hd
    obtain ⟨hnone, -, hdp, hds⟩ := hd
    have hjoins := joins_of_unnegatedBlock? id hnone
    have h₂ := Statement.readsAll_of_depth h.1.2 hdp
    have h₃ := Section.readsAll_of_depth h.2 hds
    simp [Statement.reads, hjoins, h₂, h₃]
  | .whole _, h, _ => h
  | .element opening children _, h, hd => by
    simp only [Statement.reads, Bool.and_eq_true] at h ⊢
    exact ⟨h.1, Statement.readsAll_of_depth h.2 (Nat.max_eq_zero_iff.1 hd).2⟩

theorem Statement.readsAll_of_depth : ∀ {ss : List Statement},
    Statement.readsAll f.onlyArguments ss = true → Statement.depthAll f ss = 0 →
      Statement.readsAll f ss = true
  | [], _, _ => rfl
  | s :: ss, h, hd => by
    simp only [Statement.readsAll, Bool.and_eq_true] at h ⊢
    obtain ⟨hd, hds⟩ := Nat.max_eq_zero_iff.1 hd
    exact ⟨Statement.reads_of_depth h.1 hd, Statement.readsAll_of_depth h.2 hds⟩

theorem Section.readsAll_of_depth : ∀ {ss : List Section},
    Section.readsAll f.onlyArguments ss = true → Section.depthAll f ss = 0 →
      Section.readsAll f ss = true
  | [], _, _ => rfl
  | ⟨tag, body⟩ :: ss, h, hd => by
    simp only [Section.readsAll, Bool.and_eq_true] at h ⊢
    simp only [Section.depthAll, Nat.max_eq_zero_iff] at hd
    exact ⟨Statement.readsAll_of_depth h.1 hd.2.1, Section.readsAll_of_depth h.2 hd.2.2⟩

end

mutual

/-- The fixes of a statement are read as they are meant if those of this pass leave all words apart
and what is left after it is read so. -/
theorem Statement.reads_of_edit : ∀ {s : Statement} {k : Nat}, s.admits f everywhere k = true →
    s.reads f.onlyArguments = true → (s.edit f everywhere k).reads f = true → s.reads f = true
  | .text _, _, _, _, _ => rfl
  | .comment _, _, _, _, _ => rfl
  | .note _, _, _, _, _ => rfl
  | .mustache _, _, _, _, _ => rfl
  | .block opening program sections closing, k, ha, h, hr => by
    rw [Statement.edit, everywhere, pick_true] at hr
    rw [Statement.admits, everywhere, Bool.true_and] at ha
    cases hs : f.unnegatedBlock? (.block opening program sections closing) with
    | some s' =>
      rw [hs, Option.isSome_some, if_pos rfl, Bool.not_eq_true'] at ha
      rw [hs, Option.getD_some] at hr
      obtain ⟨n, -, ⟨tilde, lead, trail, after, body, more, -, rfl, rfl⟩ | rfl⟩ :=
        eq_of_blockUnnegated? (Fixers.eq_of_unnegatedBlock? hs).2
      · simp only [Statement.reads, Section.readsAll, Bool.and_eq_true] at hr
        simp [Statement.reads, Section.readsAll, ha, hr]
      · simp only [Statement.reads, Bool.and_eq_true] at hr
        simp [Statement.reads, ha, hr]
    | none =>
      rw [hs, Option.isSome_none, if_neg Bool.false_ne_true, Bool.and_eq_true] at ha
      rw [hs, Option.getD_none] at hr
      simp only [Statement.reads, Bool.and_eq_true] at h hr
      have hjoins := joins_of_unnegatedBlock? id hs
      have h₂ := Statement.readsAll_of_edit ha.1 h.1.2 hr.1.2
      have h₃ := Section.readsAll_of_edit ha.2 h.2 hr.2
      simp [Statement.reads, hjoins, h₂, h₃]
  | .whole _, _, _, h, _ => h
  | .element opening children _, _, ha, h, hr => by
    simp only [Statement.edit, Statement.reads, Bool.and_eq_true] at h hr ⊢
    exact ⟨h.1, Statement.readsAll_of_edit ha h.2 hr.2⟩

theorem Statement.readsAll_of_edit : ∀ {ss : List Statement} {k : Nat},
    Statement.admitsAll f everywhere k ss = true → Statement.readsAll f.onlyArguments ss = true →
      Statement.readsAll f (Statement.editAll f everywhere k ss) = true →
        Statement.readsAll f ss = true
  | [], _, _, _, _ => rfl
  | s :: ss, _, ha, h, hr => by
    simp only [Statement.admitsAll, Bool.and_eq_true] at ha
    simp only [Statement.editAll, Statement.readsAll, Bool.and_eq_true] at h hr ⊢
    exact ⟨Statement.reads_of_edit ha.1 h.1 hr.1, Statement.readsAll_of_edit ha.2 h.2 hr.2⟩

theorem Section.readsAll_of_edit : ∀ {ss : List Section} {k : Nat},
    Section.admitsAll f everywhere k ss = true → Section.readsAll f.onlyArguments ss = true →
      Section.readsAll f (Section.editAll f everywhere k ss) = true → Section.readsAll f ss = true
  | [], _, _, _, _ => rfl
  | ⟨tag, body⟩ :: ss, _, ha, h, hr => by
    simp only [Section.admitsAll, Bool.and_eq_true] at ha
    simp only [Section.editAll, Section.readsAll, Bool.and_eq_true] at h hr ⊢
    exact ⟨Statement.readsAll_of_edit ha.1 h.1 hr.1, Section.readsAll_of_edit ha.2 h.2 hr.2⟩

end

end Concrete

namespace Linter

open Concrete (Statement everywhere)

variable {l : Linter}

/-- Where the passes end with a text that is settled, they had fixes that are all read as they are
meant, and no more levels of them than passes. -/
theorem reads_of_settled (hl : l.Valid) {passes : Nat} {ss : List Statement}
    (hs : Statement.AllStand ss []) (hr : Statement.readsAll l.fixers.onlyArguments ss = true)
    {t : String} (h : l.settle passes (Statement.toSource ss) (l.fixesOf ss) = .ok t)
    (ht : l.Settled t) :
    Statement.readsAll l.fixers ss = true ∧ Statement.depthAll l.fixers ss ≤ passes := by
  induction passes generalizing ss with
  | zero =>
    cases h
    have hdepth := (fixesOf_eq_nil hl hs).1 (ht.fixesOf_eq_nil hs)
    exact ⟨Statement.readsAll_of_depth hr hdepth, by omega⟩
  | succ passes ih =>
    by_cases hnil : l.fixesOf ss = []
    · have hdepth := (fixesOf_eq_nil hl hs).1 hnil
      exact ⟨Statement.readsAll_of_depth hr hdepth, by omega⟩
    · let edited := Statement.editAll l.fixers everywhere 0 ss
      have hnext : l.next (Statement.toSource ss) = Statement.toSource edited := by
        rw [next_toSource hs, ← Concrete.Statement.chars_editAll l.fixers everywhere ss hr 0]
        rfl
      have hstep := settle_pass (lint_toSource hs) (pass_next hl (lint_toSource hs) hnil) passes
      rw [hnext] at hstep
      replace h := hstep.symm.trans h
      cases hlint : l.lint (Statement.toSource edited) with
      | error e =>
        rw [hlint] at h
        cases h
      | ok outcome =>
        obtain ⟨ss', hs', htext, -⟩ := lint_eq_ok.1 hlint
        have hchars : Statement.charsAll edited = Statement.charsAll ss' :=
          String.ofList_injective htext
        have hadmits : Statement.admitsAll l.fixers everywhere 0 ss = true :=
          (hs.readAll_edit 0).1 ⟨ss', hchars ▸ hs'.readAll_eq⟩
        have hedited : Statement.AllStand edited [] := hs.edit hadmits
        rw [lint_toSource hedited] at h
        have hnames : Statement.readsAll l.fixers.onlyArguments edited = true :=
          hs.reads_edit (fun hb => absurd hb Bool.false_ne_true) hr 0
        obtain ⟨hreads, hdepth⟩ := ih hedited hnames h
        have hall := Statement.readsAll_of_edit hadmits hr hreads
        have hlevel : Statement.depthAll l.fixers edited = Statement.depthAll l.fixers ss - 1 :=
          hs.depth_edit hall 0
        exact ⟨hall, by omega⟩

end Linter

end TemplateLint
