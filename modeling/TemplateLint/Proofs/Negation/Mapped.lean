import TemplateLint.Proofs.Negation.Block

namespace TemplateLint.Concrete

open NegatedCondition (Conditional)

/-- A change that only reaches into calls in parentheses and keeps which of them are negations. -/
structure Expr.Inner (h : Expr → Expr) : Prop where
  alone : ∀ e, e.isGroup = false → h e = e
  group : ∀ c, (h (.group c)).isGroup = true
  operand : ∀ e, operand? (h e) = operand? e

def Arg.mapValue (h : Expr → Expr) (a : Arg) : Arg := ⟨a.lead, a.key, h a.value⟩

def Call.mapParts (h : Expr → Expr) (c : Call) : Call :=
  ⟨c.lead, h c.callee, c.args.map (Arg.mapValue h), c.trail⟩

def Negated.mapRest (h : Expr → Expr) (n : Negated) : Negated :=
  ⟨n.helper, n.gap, n.operand, n.rest.map (Arg.mapValue h)⟩

/-- A call without the blanks around it. -/
def Call.trimmed (c : Call) : Call := ⟨[], c.callee, c.args, []⟩

section

variable {h : Expr → Expr} (hh : Expr.Inner h)

include hh

theorem Expr.Inner.word (w : List Char) : h (.word w) = .word w := hh.alone _ rfl

theorem Expr.Inner.quoted (mark : Char) (raw : List Char) :
    h (.quoted mark raw) = .quoted mark raw := hh.alone _ rfl

theorem Expr.Inner.eq_group (c : Call) : ∃ c', h (.group c) = .group c' := by
  have hg := hh.group c
  cases he : h (.group c) with
  | group c' => exact ⟨c', rfl⟩
  | word w =>
    rw [he] at hg
    cases hg
  | quoted mark raw =>
    rw [he] at hg
    cases hg

theorem Arg.mapValue_join (lead : List Char) (e : Expr) (args : List Arg) :
    (Arg.join lead e args).map (Arg.mapValue h) =
      Arg.join lead (h e) (args.map (Arg.mapValue h)) := by
  cases e with
  | quoted mark raw =>
    rw [hh.quoted]
    simp [Arg.join, Arg.mapValue, hh.quoted]
  | group c =>
    obtain ⟨c', hc'⟩ := hh.eq_group c
    rw [hc']
    simp [Arg.join, Arg.mapValue, hc']
  | word v =>
    rw [hh.word]
    match args with
    | [] => simp [Arg.join, Arg.mapValue, hh.word]
    | ⟨c :: gap, key, value⟩ :: args => simp [Arg.join, Arg.mapValue, hh.word]
    | ⟨[], some key, value⟩ :: args => simp [Arg.join, Arg.mapValue]
    | ⟨[], none, .word w⟩ :: args => simp [Arg.join, Arg.mapValue, hh.word]
    | ⟨[], none, .quoted mark raw⟩ :: args => simp [Arg.join, Arg.mapValue, hh.word, hh.quoted]
    | ⟨[], none, .group c⟩ :: args =>
      obtain ⟨c', hc'⟩ := hh.eq_group c
      simp [Arg.join, Arg.mapValue, hh.word, hc']

theorem Call.mapParts_join (lead : List Char) (e : Expr) (args : List Arg) (trail : List Char) :
    (Call.join lead e args trail).mapParts h =
      Call.join lead (h e) (args.map (Arg.mapValue h)) trail := by
  cases e with
  | quoted mark raw =>
    rw [hh.quoted]
    simp [Call.join, Call.mapParts, hh.quoted]
  | group c =>
    obtain ⟨c', hc'⟩ := hh.eq_group c
    rw [hc']
    simp [Call.join, Call.mapParts, hc']
  | word v =>
    rw [hh.word]
    match args with
    | [] => simp [Call.join, Call.mapParts, hh.word]
    | ⟨c :: gap, key, value⟩ :: args =>
      simp [Call.join, Call.mapParts, Arg.mapValue, hh.word]
    | ⟨[], some key, value⟩ :: args => simp [Call.join, Call.mapParts, Arg.mapValue, hh.word]
    | ⟨[], none, .word w⟩ :: args => simp [Call.join, Call.mapParts, Arg.mapValue, hh.word]
    | ⟨[], none, .quoted mark raw⟩ :: args =>
      simp [Call.join, Call.mapParts, Arg.mapValue, hh.word, hh.quoted]
    | ⟨[], none, .group c⟩ :: args =>
      obtain ⟨c', hc'⟩ := hh.eq_group c
      simp [Call.join, Call.mapParts, Arg.mapValue, hh.word, hc']

theorem helper?_map (e : Expr) : helper? (h e) = helper? e := by
  cases e with
  | word w => rw [hh.word]
  | quoted mark raw => rw [hh.quoted]
  | group c =>
    obtain ⟨c', hc'⟩ := hh.eq_group c
    rw [hc']
    rfl

theorem Call.negated?_mapParts (c : Call) :
    (c.mapParts h).negated? = c.negated?.map (Negated.mapRest h) := by
  obtain ⟨lead, callee, args, trail⟩ := c
  match args with
  | [] => rfl
  | ⟨gap, some key, value⟩ :: rest => rfl
  | ⟨gap, none, condition⟩ :: rest =>
    simp only [Call.mapParts, List.map_cons, Arg.mapValue, Call.negated?, helper?_map hh,
      hh.operand]
    cases helper? callee with
    | none => rfl
    | some helper =>
      cases operand? condition with
      | none => rfl
      | some operand => rfl

end

theorem Arg.values_mapValue (h : Expr → Expr) (args : List Arg) :
    Arg.values (args.map (Arg.mapValue h)) = (Arg.values args).map (Arg.mapValue h) :=
  List.takeWhile_map ..

theorem Arg.named_mapValue (h : Expr → Expr) (args : List Arg) :
    Arg.named (args.map (Arg.mapValue h)) = (Arg.named args).map (Arg.mapValue h) :=
  List.dropWhile_map ..

section

variable {h : Expr → Expr} (hh : Expr.Inner h)

include hh

theorem Call.mapParts_freed {c : Call} {n : Negated} (hn : c.negated? = some n) (helper : Expr)
    (hhelper : helper.isGroup = false) :
    (c.freed n helper).mapParts h = (c.mapParts h).freed (n.mapRest h) helper := by
  obtain ⟨condition, -, -, ho⟩ := eq_of_negated? hn
  obtain ⟨-, -, -, -, hoperand⟩ := eq_of_operand? ho
  rw [Call.freed, Call.mapParts_join hh, Arg.mapValue_join hh, hh.alone _ hhelper,
    hh.alone _ hoperand]
  rfl

theorem Call.mapParts_flipped {c : Call} {n : Negated} (hn : c.negated? = some n) (v₁ v₂ : Arg) :
    (c.flipped n v₁ v₂).mapParts h =
      (c.mapParts h).flipped (n.mapRest h) (v₁.mapValue h) (v₂.mapValue h) := by
  obtain ⟨condition, -, -, ho⟩ := eq_of_negated? hn
  obtain ⟨-, -, -, -, hoperand⟩ := eq_of_operand? ho
  rw [Call.flipped, Call.mapParts_join hh, Arg.mapValue_join hh, Arg.mapValue_join hh,
    Arg.mapValue_join hh, hh.alone _ hoperand, ← Arg.named_mapValue]
  rfl

/-- What is done inside of the values of a call does not matter to its fix. -/
theorem Call.unnegated?_mapParts (c : Call) :
    (c.mapParts h).unnegated? = c.unnegated?.map (Call.mapParts h) := by
  unfold Call.unnegated?
  rw [Call.negated?_mapParts hh]
  cases hn : c.negated? with
  | none => rfl
  | some n =>
    have hfreed := Call.mapParts_freed hh hn (helperWord n.helper.flip) rfl
    rw [Option.map_some, Option.bind_some, Option.bind_some]
    unfold Call.without?
    rw [show (n.mapRest h).helper = n.helper from rfl,
      show (n.mapRest h).rest = n.rest.map (Arg.mapValue h) from rfl, Arg.values_mapValue]
    rcases Arg.values n.rest with _ | ⟨v₁, _ | ⟨v₂, _ | ⟨v₃, vs⟩⟩⟩
    · cases n.helper <;> rfl
    · cases hhelper : n.helper with
      | whenTrue =>
        rw [hhelper] at hfreed
        exact congrArg some hfreed.symm
      | whenFalse =>
        rw [hhelper] at hfreed
        exact congrArg some hfreed.symm
    · cases hhelper : n.helper with
      | whenTrue => exact congrArg some (Call.mapParts_flipped hh hn v₁ v₂).symm
      | whenFalse =>
        rw [hhelper] at hfreed
        exact congrArg some hfreed.symm
    · cases n.helper <;> rfl

end

theorem Call.trimmed_join (lead : List Char) (e : Expr) (args : List Arg) (trail : List Char) :
    (Call.join lead e args trail).trimmed = Call.join [] e args [] := by
  unfold Call.join
  split <;> rfl

theorem Call.unnegated?_trimmed (c : Call) : c.trimmed.unnegated? = c.unnegated?.map Call.trimmed := by
  have hn : c.trimmed.negated? = c.negated? := by
    obtain ⟨lead, callee, args, trail⟩ := c
    rcases args with _ | ⟨⟨gap, _ | key, value⟩, rest⟩ <;> rfl
  unfold Call.unnegated?
  rw [hn]
  cases c.negated? with
  | none => rfl
  | some n =>
    rw [Option.bind_some, Option.bind_some]
    unfold Call.without?
    split
    · exact congrArg some (Call.trimmed_join _ _ _ _).symm
    · exact congrArg some (Call.trimmed_join _ _ _ _).symm
    · exact congrArg some (Call.trimmed_join _ _ _ _).symm
    · exact congrArg some (Call.trimmed_join _ _ _ _).symm
    · rfl

def BlockTag.mapParts (h : Expr → Expr) (t : BlockTag) : BlockTag := t.withCall (t.call.mapParts h)

def ElseTag.mapParts (h : Expr → Expr) (t : ElseTag) : ElseTag :=
  match t.tail with
  | .plain _ _ => t
  | .chained call ending => ⟨t.tilde, t.lead, .chained (call.mapParts h) ending⟩

def Section.mapParts (h : Expr → Expr) (body : List Statement → List Statement)
    (s : Section) : Section := ⟨s.tag.mapParts h, body s.body⟩

/-- A block changed inside of its tags and its bodies. -/
def Statement.mapParts (h : Expr → Expr) (body : List Statement → List Statement) :
    Statement → Statement
  | .block opening program sections closing =>
    .block (opening.mapParts h) (body program) (sections.map (Section.mapParts h body)) closing
  | s => s

section

variable {h : Expr → Expr} (hh : Expr.Inner h)

include hh

theorem BlockTag.negated?_mapParts (t : BlockTag) :
    (t.mapParts h).negated? = t.negated?.map (Negated.mapRest h) := by
  unfold BlockTag.negated?
  rw [show (t.mapParts h).call = t.call.mapParts h from rfl, Call.negated?_mapParts hh,
    Option.filter_map]
  congr 2
  funext n
  simp only [Function.comp_apply, Negated.mapRest, Arg.values_mapValue, List.isEmpty_map]

theorem BlockTag.mapParts_freed {t : BlockTag} {n : Negated} (hn : t.negated? = some n)
    (helper : Expr) (hhelper : helper.isGroup = false) :
    (t.withCall (t.call.freed n helper)).mapParts h =
      (t.mapParts h).withCall ((t.mapParts h).call.freed (n.mapRest h) helper) :=
  congrArg t.withCall (Call.mapParts_freed hh (eq_of_blockNegated? hn).1 helper hhelper)

/-- What is done inside of a block does not matter to its fix. -/
theorem Statement.unnegated?_mapParts (body : List Statement → List Statement) (s : Statement) :
    (s.mapParts h body).unnegated? = s.unnegated?.map (Statement.mapParts h body) := by
  cases s with
  | block opening program sections closing =>
    rw [Statement.mapParts, Statement.unnegated?, Statement.unnegated?,
      BlockTag.negated?_mapParts hh]
    cases hn : opening.negated? with
    | none => rfl
    | some n =>
      obtain ⟨condition, -, hhelper, -⟩ := eq_of_negated? (eq_of_blockNegated? hn).1
      have hcallee := eq_of_helper? hhelper
      have hmapped : (opening.mapParts h).call.callee = opening.call.callee := by
        show h opening.call.callee = _
        rw [hcallee]
        exact hh.word _
      have hflip := fun helper => BlockTag.mapParts_freed hh hn (helperWord helper) rfl
      have hkept := BlockTag.mapParts_freed hh hn opening.call.callee
        (by rw [hcallee]; rfl)
      rw [Option.map_some, Option.bind_some, Option.bind_some]
      unfold BlockTag.without?
      rw [show (n.mapRest h).helper = n.helper from rfl, hmapped]
      cases sections with
      | nil => cases n.helper <;> simp [Statement.mapParts, hflip]
      | cons first more =>
        obtain ⟨⟨tilde, lead, tail⟩, other⟩ := first
        cases tail with
        | plain trail after =>
          cases n.helper <;>
            simp [Statement.mapParts, Section.mapParts, ElseTag.mapParts, hflip, hkept]
        | chained call ending =>
          cases n.helper <;> simp [Statement.mapParts, Section.mapParts, ElseTag.mapParts, hflip]
  | _ => rfl

theorem Statement.joins_mapParts (body : List Statement → List Statement) (s : Statement) :
    (s.mapParts h body).joins = s.joins := by
  cases s with
  | block opening program sections closing =>
    have hs := Statement.unnegated?_mapParts hh body (.block opening program sections closing)
    rw [Statement.mapParts] at hs ⊢
    rw [Statement.joins, Statement.joins, hs, BlockTag.negated?_mapParts hh, Option.isSome_map]
    cases opening.negated? with
    | none => rfl
    | some n => simp [BlockTag.joins, Negated.mapRest, BlockTag.mapParts, BlockTag.withCall,
        Call.mapParts]
  | _ => rfl

end

end TemplateLint.Concrete
