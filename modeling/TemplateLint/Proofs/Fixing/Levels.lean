import TemplateLint.Proofs.Fixing.Handler

namespace TemplateLint.Concrete

/-- `{{#if (not a)}}` -/
def negatedIf : BlockTag where
  tilde := false
  call :=
    { lead := []
      callee := .word ['i', 'f']
      args := [⟨[' '], none,
        .group ⟨[], .word ['n', 'o', 't'], [⟨[' '], none, .word ['a']⟩], []⟩⟩]
      trail := [] }
  ending := ⟨none, [], false⟩

/-- `{{/if}}` -/
def endIf : CloseTag := ⟨false, [], ['i', 'f'], [], false⟩

/-- Statements in `n` negated blocks. -/
def negatedIn (ss : List Statement) : Nat → List Statement
  | 0 => ss
  | n + 1 => [.block negatedIf (negatedIn ss n) [] endIf]

theorem charsAll_negatedIn (ss : List Statement) (n : Nat) :
    Statement.charsAll (negatedIn ss (n + 1)) =
      negatedIf.chars ++ Statement.charsAll (negatedIn ss n) ++ endIf.chars := by
  simp [negatedIn, Statement.charsAll, Statement.chars, Section.charsAll]

theorem negatedIf_stands : negatedIf.Stands := by
  have hread : BlockTag.read (negatedIf.chars ++ []) = .ok ((negatedIf, ['i', 'f']), []) := by rfl
  exact (BlockTag.eq_of_read hread).2.1

theorem endIf_stands : endIf.Stands ['i', 'f'] := ⟨by simp [endIf], rfl, by simp [endIf]⟩

/-- What stands at the end of a template and at that of a block stands in blocks. -/
theorem allStand_negatedIn {ss : List Statement} (h : Statement.AllStand ss [])
    (hblock : Statement.AllStand ss endIf.chars) (n : Nat) :
    Statement.AllStand (negatedIn ss n) [] ∧ Statement.AllStand (negatedIn ss n) endIf.chars := by
  induction n with
  | zero => exact ⟨h, hblock⟩
  | succ n ih =>
    have hstands : ∀ rest,
        (Statement.block negatedIf (negatedIn ss n) [] endIf).Stands rest := fun _ =>
      ⟨negatedIf_stands, ih.2, trivial, _, rfl, endIf_stands⟩
    exact ⟨⟨hstands _, trivial⟩, hstands _, trivial⟩

theorem eventValuesAll_negatedIn (ss : List Statement) (n : Nat) :
    Statement.eventValuesAll (negatedIn ss n) = Statement.eventValuesAll ss := by
  induction n with
  | zero => rfl
  | succ n ih =>
    simp [negatedIn, Statement.eventValuesAll, Statement.eventValues, Section.eventValuesAll, ih]

variable {f : Fixers}

theorem readsAll_negatedIn (ss : List Statement) (n : Nat) :
    Statement.readsAll f (negatedIn ss n) = Statement.readsAll f ss := by
  induction n with
  | zero => rfl
  | succ n ih =>
    have hjoins : (Statement.block negatedIf (negatedIn ss n) [] endIf).joins = false := rfl
    simp [negatedIn, Statement.readsAll, Statement.reads, Section.readsAll, hjoins, ih]

theorem depthAll_negatedIn (hf : f.conditions = true) (ss : List Statement) (n : Nat) :
    Statement.depthAll f (negatedIn ss n) = n + Statement.depthAll f ss := by
  obtain ⟨conditions, arguments⟩ := f
  obtain rfl : conditions = true := hf
  induction n with
  | zero => exact (Nat.zero_add _).symm
  | succ n ih =>
    have hcall : negatedIf.call.depth ⟨true, arguments⟩ = 0 := rfl
    have hlevel : level ((Fixers.mk true arguments).unnegatedBlock?
        (.block negatedIf (negatedIn ss n) [] endIf)) = 1 := rfl
    simp only [negatedIn, Statement.depthAll, Statement.depth, Section.depthAll, hcall, hlevel, ih]
    omega

theorem settledAll_negatedIn (hf : f.conditions = false) (ss : List Statement) (n : Nat) :
    Statement.settledAll f (negatedIn ss n) = negatedIn (Statement.settledAll f ss) n := by
  obtain ⟨conditions, arguments⟩ := f
  obtain rfl : conditions = false := hf
  induction n with
  | zero => rfl
  | succ n ih =>
    simp only [negatedIn, Statement.settledAll, ih.symm]
    rfl

end TemplateLint.Concrete
