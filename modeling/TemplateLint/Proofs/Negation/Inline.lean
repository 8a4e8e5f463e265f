import TemplateLint.Proofs.Edit.Building
import TemplateLint.Proofs.Layout.Range
import TemplateLint.Proofs.Negation.Call

namespace TemplateLint

open Text (size)

namespace Concrete

open NegatedCondition (Conditional negatedOperand?)

theorem helperWord_at (k : Nat) (c : Conditional) :
    (helperWord c).at k = .path ⟨c.helper, .over k c.helper.toList⟩ := by
  cases c <;> rfl

/-- A path is written as its text. -/
theorem eq_word_of_path? {e : Expr} {k : Nat} {p : Tree.Path} (h : (e.at k).path? = some p) :
    e = .word p.text.toList := by
  cases e with
  | quoted mark raw => cases h
  | group call => cases h
  | word w =>
    rw [Expr.at] at h
    rcases wordAt_eq k w with ⟨value, hw⟩ | hw
    · rw [hw] at h
      cases h
    · rw [hw] at h
      cases h
      simp

theorem ofCall?_eq (k : Nat) (c : Call) : Conditional.ofCall? (c.at k) = helper? c.callee := by
  obtain ⟨lead, callee, args, trail⟩ := c
  cases hh : helper? callee with
  | some helper =>
    obtain rfl := eq_of_helper? hh
    have hpath : (Call.at k ⟨lead, helperWord helper, args, trail⟩).callee =
        .path ⟨helper.helper, .over (k + size lead) helper.helper.toList⟩ :=
      helperWord_at (k + size lead) helper
    unfold Conditional.ofCall? Tree.Call.helperName?
    rw [hpath]
    cases helper <;> rfl
  | none =>
    unfold Conditional.ofCall? Tree.Call.helperName?
    have hcallee : (Call.at k ⟨lead, callee, args, trail⟩).callee = callee.at (k + size lead) := rfl
    rw [hcallee]
    cases hp : (callee.at (k + size lead)).path? with
    | none => rfl
    | some p =>
      have hw := eq_word_of_path? hp
      have hif : p.text ≠ "if" := by
        intro he
        rw [he] at hw
        rw [hw] at hh
        simp [helper?, Conditional.helper] at hh
      have hunless : p.text ≠ "unless" := by
        intro he
        rw [he] at hw
        rw [hw] at hh
        simp [helper?, Conditional.helper] at hh
      simp only [Option.map_some]
      split
      · next he => exact absurd (Option.some.inj he) hif
      · next he => exact absurd (Option.some.inj he) hunless
      · rfl

theorem subExpression?_isSome (k : Nat) (e : Expr) :
    (e.at k).subExpression?.isSome = e.isGroup := by
  cases e with
  | word w =>
    rw [Expr.at]
    rcases wordAt_eq k w with ⟨value, hw⟩ | hw <;> rw [hw] <;> rfl
  | quoted mark raw => rfl
  | group call => rfl

theorem eq_nil_of_at {k j : Nat} {args : List Arg} (hp : Arg.paramsAt k args = [])
    (hh : Arg.hashAt j args = []) : args = [] := by
  cases args with
  | nil => rfl
  | cons a args =>
    obtain ⟨lead, key, value⟩ := a
    cases key with
    | none => cases hp
    | some key => cases hh

theorem negatedOperand?_some {e x : Expr} (k : Nat) (h : operand? e = some x) :
    ∃ a b, e.chars = a ++ (x.chars ++ b) ∧ negatedOperand? (e.at k) = some (x.at (k + size a)) := by
  obtain ⟨lead, gap, trail, rfl, hg⟩ := eq_of_operand? h
  refine ⟨'(' :: (lead ++ (['n', 'o', 't'] ++ gap)), trail ++ [')'], ?_, ?_⟩
  · simp [Expr.chars, Call.chars, Arg.charsAll, Arg.chars, keyChars]
  · have hoffset : k + 1 + size lead + Expr.width (.word ['n', 'o', 't']) + size gap =
        k + size ('(' :: (lead ++ (['n', 'o', 't'] ++ gap))) := by
      have hopen : '('.utf8Size = 1 := rfl
      simp only [Expr.width, Text.size_cons, Text.size_append, hopen]
      omega
    have hx := subExpression?_isSome (k + size ('(' :: (lead ++ (['n', 'o', 't'] ++ gap)))) x
    rw [hg] at hx
    have hat : (Expr.group ⟨lead, .word ['n', 'o', 't'], [⟨gap, none, x⟩], trail⟩).at k =
        .subExpression ⟨⟨.path ⟨"not", .over (k + 1 + size lead) ['n', 'o', 't']⟩,
          [x.at (k + size ('(' :: (lead ++ (['n', 'o', 't'] ++ gap))))], []⟩,
          ⟨k, k + (Expr.group ⟨lead, .word ['n', 'o', 't'], [⟨gap, none, x⟩], trail⟩).width⟩⟩ := by
      rw [← hoffset]
      rfl
    rw [hat]
    show (if (x.at (k + size ('(' :: (lead ++ (['n', 'o', 't'] ++ gap))))).subExpression?.isSome
      then none else some _) = _
    rw [hx]
    rfl

theorem negatedOperand?_none {e : Expr} (k : Nat) (h : operand? e = none) :
    negatedOperand? (e.at k) = none := by
  cases e with
  | word w =>
    have hw := subExpression?_isSome k (.word w)
    unfold negatedOperand?
    rw [Option.isSome_eq_false_iff.1 hw |> Option.isNone_iff_eq_none.1]
  | quoted mark raw => rfl
  | group call =>
    obtain ⟨lead, callee, args, trail⟩ := call
    have hsub : ((Expr.group ⟨lead, callee, args, trail⟩).at k).subExpression? =
        some ⟨Call.at (k + 1) ⟨lead, callee, args, trail⟩,
          ⟨k, k + (Expr.group ⟨lead, callee, args, trail⟩).width⟩⟩ := rfl
    unfold negatedOperand?
    rw [hsub]
    simp only [Call.at, Tree.Call.helperName?]
    split
    · next hname hparams hhash =>
      obtain ⟨p, hp, hpn⟩ := Option.map_eq_some_iff.1 hname
      obtain rfl := eq_word_of_path? hp
      rw [hpn] at h hparams hhash
      cases args with
      | nil => cases hparams
      | cons a args =>
        obtain ⟨gap, key, value⟩ := a
        cases key with
        | some key => cases hhash
        | none =>
          simp only [Arg.paramsAt, List.cons.injEq] at hparams
          simp only [Arg.hashAt] at hhash
          obtain ⟨rfl, hparams⟩ := hparams
          obtain rfl := eq_nil_of_at hparams hhash
          rw [subExpression?_isSome]
          cases hg : value.isGroup with
          | true => rfl
          | false => simp [operand?, hg] at h
    · rfl

theorem Arg.paramsAt_append (k : Nat) (as bs : List Arg) :
    Arg.paramsAt k (as ++ bs) = Arg.paramsAt k as ++ Arg.paramsAt (k + size (Arg.charsAll as)) bs := by
  induction as generalizing k with
  | nil => rfl
  | cons a as ih =>
    obtain ⟨lead, key, value⟩ := a
    have hk : k + size lead + size (keyChars key) + value.width + size (Arg.charsAll as) =
        k + size (Arg.charsAll (⟨lead, key, value⟩ :: as)) := by
      simp only [Arg.charsAll, Arg.chars, Text.size_append, Expr.width_eq]
      omega
    cases key with
    | none => simp only [List.cons_append, Arg.paramsAt, ih, hk]
    | some key => simp only [List.cons_append, Arg.paramsAt, ih, hk]

/-- After the values come only named arguments. -/
theorem Arg.AllStand.paramsAt_named {named : Bool} {args : List Arg} {rest : List Char}
    (h : Arg.AllStand named args rest) (k : Nat) : Arg.paramsAt k (Arg.named args) = [] := by
  induction args generalizing named with
  | nil => rfl
  | cons a args ih =>
    obtain ⟨lead, key, value⟩ := a
    cases key with
    | none => exact ih h.2.2.2
    | some key =>
      show Arg.paramsAt k (⟨lead, some key, value⟩ :: args) = []
      exact Arg.AllStand.paramsAt_true h.2.2.2 _

theorem Arg.AllStand.paramsAt_eq {named : Bool} {args : List Arg} {rest : List Char}
    (h : Arg.AllStand named args rest) (k : Nat) :
    Arg.paramsAt k args = Arg.paramsAt k (Arg.values args) := by
  have he := Arg.paramsAt_append k (Arg.values args) (Arg.named args)
  rw [Arg.values_append_named, h.paramsAt_named, List.append_nil] at he
  exact he

/-- The number of positional arguments is the same in a text and in its tree. -/
theorem Arg.length_paramsAt_values (k : Nat) (args : List Arg) :
    (Arg.paramsAt k (Arg.values args)).length = (Arg.values args).length := by
  induction args generalizing k with
  | nil => rfl
  | cons a args ih =>
    obtain ⟨lead, key, value⟩ := a
    cases key with
    | none =>
      show (Arg.paramsAt _ (Arg.values args)).length + 1 = (Arg.values args).length + 1
      rw [ih]
    | some key => rfl

theorem slice_over {src : String} {k : Nat} {w : List Char} (u v : List Char)
    (hs : src = String.ofList (u ++ (w ++ v))) (hk : k = size u) :
    Text.slice (.over k w) src = String.ofList w := by
  rw [Text.slice, hs, hk, String.toList_ofList, Span.over, Text.slice?_append, Option.getD_some]

theorem Expr.Stands.size_pos {e : Expr} {s : List Char} (h : e.Stands s) : 0 < size e.chars :=
  Text.size_pos_of_ne_nil h.ne_nil

/-- What the tree of a negated call holds. -/
theorem negated?_at {c : Call} {n : Negated} (hn : c.negated? = some n) (k : Nat) :
    ∃ (condition : Expr) (p q : List Char),
      c.callee = helperWord n.helper ∧
      c.chars = c.lead ++ (n.helper.helper.toList ++ (n.gap ++ (condition.chars ++
        (Arg.charsAll n.rest ++ c.trail)))) ∧
      condition.chars = p ++ (n.operand.chars ++ q) ∧
      (c.at k).callee.span = .over (k + size c.lead) n.helper.helper.toList ∧
      (c.at k).params = condition.at (k + size (c.lead ++ n.helper.helper.toList ++ n.gap)) ::
        Arg.paramsAt (k + size (c.lead ++ n.helper.helper.toList ++ n.gap ++ condition.chars))
          n.rest ∧
      negatedOperand? (condition.at (k + size (c.lead ++ n.helper.helper.toList ++ n.gap))) =
        some (n.operand.at (k + size (c.lead ++ n.helper.helper.toList ++ n.gap ++ p))) := by
  obtain ⟨condition, hc, hhelper, hoperand⟩ := eq_of_negated? hn
  obtain hcallee := eq_of_helper? hhelper
  obtain ⟨p, q, hchars, hop⟩ :=
    negatedOperand?_some (k + size (c.lead ++ n.helper.helper.toList ++ n.gap)) hoperand
  rw [hcallee] at hc
  refine ⟨condition, p, q, hcallee, ?_, hchars, ?_, ?_, ?_⟩
  · rw [congrArg Call.chars hc]
    simp [Call.chars, Arg.charsAll, Arg.chars, keyChars, helperWord, Expr.chars]
  · rw [hc]
    show ((helperWord n.helper).at (k + size c.lead)).span = _
    rw [Expr.at_span]
    rfl
  · have hwidth : (helperWord n.helper).width = size n.helper.helper.toList := rfl
    rw [hc]
    simp only [Call.at, Arg.paramsAt, hwidth, keyChars, Text.size_append, Text.size_nil,
      Nat.add_zero, Nat.add_assoc, Expr.width_eq]
  · rw [hop]
    simp only [Text.size_append, Nat.add_assoc]

/-- The operand of a negated call in its tree, with its text in a source that the call stands in. -/
theorem operand_at {c : Call} {n : Negated} (hn : c.negated? = some n) (u v : List Char) :
    ∃ (condition : Expr) (operand : Tree.Expr),
      c.callee.chars = n.helper.helper.toList ∧
      c.chars = c.lead ++ (n.helper.helper.toList ++ (n.gap ++ (condition.chars ++
        (Arg.charsAll n.rest ++ c.trail)))) ∧
      size n.operand.chars ≤ size condition.chars ∧
      (c.at (size u)).callee.span = .over (size u + size c.lead) n.helper.helper.toList ∧
      (c.at (size u)).params =
        condition.at (size u + size (c.lead ++ n.helper.helper.toList ++ n.gap)) ::
          Arg.paramsAt (size u + size (c.lead ++ n.helper.helper.toList ++ n.gap ++
            condition.chars)) n.rest ∧
      negatedOperand? (condition.at (size u +
        size (c.lead ++ n.helper.helper.toList ++ n.gap))) = some operand ∧
      Text.slice? operand.span (u ++ (c.chars ++ v)) = some n.operand.chars := by
  obtain ⟨condition, p, q, hcallee, hcc, hchars, hspan, hparams, hoperand⟩ :=
    negated?_at hn (size u)
  refine ⟨condition, _, by rw [hcallee]; rfl, hcc, ?_, hspan, hparams, hoperand, ?_⟩
  · rw [hchars, Text.size_append, Text.size_append]
    omega
  · have hslice := Text.slice?_append (u ++ (c.lead ++ n.helper.helper.toList ++ n.gap ++ p))
      n.operand.chars (q ++ (Arg.charsAll n.rest ++ (c.trail ++ v)))
    rw [Expr.at_span, Span.over, ← Text.size_append, hcc, hchars]
    simpa only [List.append_assoc] using hslice

theorem size_helper_pos (helper : Conditional) : 0 < size helper.helper.toList := by
  cases helper <;> decide

/-- The edits that exchange the helper of a call and free its condition. -/
theorem freed_edits {c : Call} {n : Negated} (hn : c.negated? = some n) (helper : Conditional)
    (u a b v : List Char) {src : String}
    (hsrc : src = String.ofList (u ++ (a ++ (c.chars ++ (b ++ v))))) :
    ∃ condition operand freed, (c.at (size u + size a)).params.head? = some condition ∧
      negatedOperand? condition = some operand ∧ freed.Copies src condition.span operand.span ∧
      Fix.Edits (size u) (a ++ (c.chars ++ b))
        [⟨(c.at (size u + size a)).callee.span, helper.helper⟩, freed]
        (a ++ ((c.freed n (helperWord helper)).chars ++ b)) := by
  rw [← Text.size_append]
  obtain ⟨condition, operand, -, hcc, -, hcallee, hparams, hoperand, hslice⟩ :=
    operand_at hn (u ++ a) (b ++ v)
  refine ⟨_, _, ⟨_, String.ofList n.operand.chars⟩, by rw [hparams]; rfl, hoperand,
    Fix.copies_of_slice? ?_, ?_⟩
  · rw [hsrc, String.toList_ofList, ← hslice, List.append_assoc]
  let patches : List Patch := [⟨a ++ c.lead, n.helper.helper.toList, helper.helper.toList⟩,
    ⟨n.gap, condition.chars, n.operand.chars⟩]
  let d := Draft.patched patches (Arg.charsAll n.rest ++ (c.trail ++ b))
  have hd : d.chars = a ++ (c.chars ++ b) := by
    rw [hcc]
    simp [d, patches]
  have hedited : d.allEdited (size u) =
      a ++ ((c.freed n (helperWord helper)).chars ++ b) := by
    rw [Call.freed, Call.chars_join, Arg.charsAll_join]
    simp [d, patches, helperWord, Expr.chars]
  have hedits : [⟨(c.at (size (u ++ a))).callee.span, helper.helper⟩,
      ⟨(condition.at (size (u ++ a) + size (c.lead ++ n.helper.helper.toList ++ n.gap))).span,
        String.ofList n.operand.chars⟩] = d.allTaken (size u) := by
    rw [hcallee, Expr.at_span]
    simp only [d, patches, Draft.allTaken_patched_cons, Draft.allTaken_patched_nil, Span.over,
      String.ofList_toList, Text.size_append, Nat.add_assoc]
  have hspread : Draft.Spread patches :=
    ⟨Nat.lt_of_lt_of_le (size_helper_pos _) (Nat.le_add_right _ _), trivial⟩
  exact .of_patched hspread hd hedited (.of_eq hedits)

/-- The patches that exchange the two values of a call and free its condition, with the text before
the call. -/
def Call.flippedPatches (c : Call) (n : Negated) (condition : Expr) (a l₁ l₂ : List Char)
    (e₁ e₂ : Expr) : List Patch :=
  [⟨a ++ (c.lead ++ (n.helper.helper.toList ++ n.gap)), condition.chars, n.operand.chars⟩,
    ⟨l₁, e₁.chars, e₂.chars⟩, ⟨l₂, e₂.chars, e₁.chars⟩]

section

variable {c : Call} {n : Negated} {condition : Expr} {l₁ l₂ : List Char} {e₁ e₂ : Expr}

theorem chars_flippedPatches (hcc : c.chars = c.lead ++ (n.helper.helper.toList ++ (n.gap ++
      (condition.chars ++ (Arg.charsAll n.rest ++ c.trail)))))
    (hrest : [⟨l₁, none, e₁⟩, ⟨l₂, none, e₂⟩] ++ Arg.named n.rest = n.rest) (a b : List Char) :
    (Draft.patched (c.flippedPatches n condition a l₁ l₂ e₁ e₂)
      (Arg.charsAll (Arg.named n.rest) ++ (c.trail ++ b))).chars = a ++ (c.chars ++ b) := by
  rw [hcc, ← congrArg Arg.charsAll hrest]
  simp [Call.flippedPatches, Arg.charsAll, Arg.chars, keyChars]

theorem allEdited_flippedPatches (hcallee : c.callee.chars = n.helper.helper.toList)
    (a b : List Char) (k : Nat) :
    (Draft.patched (c.flippedPatches n condition a l₁ l₂ e₁ e₂)
      (Arg.charsAll (Arg.named n.rest) ++ (c.trail ++ b))).allEdited k =
        a ++ ((c.flipped n ⟨l₁, none, e₁⟩ ⟨l₂, none, e₂⟩).chars ++ b) := by
  rw [Call.flipped, Call.chars_join, Arg.charsAll_join, Arg.charsAll_join, Arg.charsAll_join,
    hcallee]
  simp [Call.flippedPatches]

end

/-- The edits that exchange the two values of a call and free its condition. -/
theorem flipped_edits {c : Call} {n : Negated} {rest : List Char} (h : c.Stands rest)
    (hn : c.negated? = some n) {v₁ v₂ : Arg} (hvs : Arg.values n.rest = [v₁, v₂])
    (u a b v : List Char) {src : String}
    (hsrc : src = String.ofList (u ++ (a ++ (c.chars ++ (b ++ v))))) :
    ∃ condition operand w₁ w₂ first second freed,
      (c.at (size u + size a)).params = [condition, w₁, w₂] ∧
      negatedOperand? condition = some operand ∧ first.Copies src w₁.span w₂.span ∧
      second.Copies src w₂.span w₁.span ∧ freed.Copies src condition.span operand.span ∧
      Fix.Edits (size u) (a ++ (c.chars ++ b)) [first, second, freed]
        (a ++ ((c.flipped n v₁ v₂).chars ++ b)) := by
  rw [← Text.size_append]
  obtain ⟨condition, operand, hcallee, hcc, hsize, -, hparams, hoperand, hslice⟩ :=
    operand_at hn (u ++ a) (b ++ v)
  have hsource : src.toList = u ++ ((a ++ (c.chars ++ b)) ++ v) := by
    rw [hsrc, String.toList_ofList]
    simp only [List.append_assoc]
  obtain ⟨-, -, -, hfreed, hargs⟩ := h.negated hn
  have hvalues := Arg.values_append_named n.rest
  rw [hargs.paramsAt_eq, hvs] at hparams
  have hk₁ : v₁.key = none := Arg.key_of_mem_values n.rest (by simp [hvs])
  have hk₂ : v₂.key = none := Arg.key_of_mem_values n.rest (by simp [hvs])
  rw [hvs] at hvalues
  obtain ⟨l₁, k₁, e₁⟩ := v₁
  obtain ⟨l₂, k₂, e₂⟩ := v₂
  obtain rfl : k₁ = none := hk₁
  obtain rfl : k₂ = none := hk₂
  simp only [Arg.paramsAt, keyChars, Text.size_nil, Nat.add_zero, Expr.width_eq] at hparams
  have hspread : Draft.Spread (c.flippedPatches n condition a l₁ l₂ e₁ e₂) := by
    have hcondition := hfreed.size_pos
    have hvalue : 0 < size e₁.chars := by
      rw [← hvalues] at hargs
      exact hargs.2.2.1.size_pos
    refine ⟨?_, ?_, trivial⟩ <;> dsimp only <;> omega
  have hedits : [⟨(condition.at (size (u ++ a) +
        size (c.lead ++ n.helper.helper.toList ++ n.gap))).span, String.ofList n.operand.chars⟩,
      ⟨(e₁.at (size (u ++ a) + size (c.lead ++ n.helper.helper.toList ++ n.gap ++
        condition.chars) + size l₁)).span, String.ofList e₂.chars⟩,
      ⟨(e₂.at (size (u ++ a) + size (c.lead ++ n.helper.helper.toList ++ n.gap ++
        condition.chars) + size l₁ + size e₁.chars + size l₂)).span, String.ofList e₁.chars⟩] =
      (Draft.patched (c.flippedPatches n condition a l₁ l₂ e₁ e₂)
        (Arg.charsAll (Arg.named n.rest) ++ (c.trail ++ b))).allTaken (size u) := by
    simp only [Expr.at_span, Call.flippedPatches, Draft.allTaken_patched_cons,
      Draft.allTaken_patched_nil, Span.over, Text.size_append, Nat.add_assoc]
  have htexts := Draft.slice?_patched (c.flippedPatches n condition a l₁ l₂ e₁ e₂)
    (Arg.charsAll (Arg.named n.rest) ++ (c.trail ++ b)) u v
  rw [chars_flippedPatches hcc hvalues, ← hsource, ← hedits] at htexts
  simp only [Call.flippedPatches, List.map_cons, List.map_nil, List.cons.injEq, and_true] at htexts
  obtain ⟨-, hfirst, hsecond⟩ := htexts
  refine ⟨_, _, _, _, ⟨_, String.ofList e₂.chars⟩, ⟨_, String.ofList e₁.chars⟩,
    ⟨_, String.ofList n.operand.chars⟩, hparams, hoperand, Fix.copies_of_slice? hsecond,
    Fix.copies_of_slice? hfirst, Fix.copies_of_slice? ?_,
    .of_patched hspread (chars_flippedPatches hcc hvalues a b)
      (allEdited_flippedPatches hcallee a b _) ?_⟩
  · rw [hsource, ← hslice]
    simp only [List.append_assoc]
  · rw [← hedits]
    exact List.perm_append_singleton _ [_, _]

theorem freed_fix {c : Call} {n : Negated} (hn : c.negated? = some n) (helper : Conditional)
    (u a b v : List Char) {src : String}
    (hsrc : src = String.ofList (u ++ (a ++ (c.chars ++ (b ++ v))))) :
    ∃ condition operand, (c.at (size u + size a)).params.head? = some condition ∧
      negatedOperand? condition = some operand ∧
      (((FixBuilder.new src ⟨size u, size u + size (a ++ (c.chars ++ b))⟩).replace
          (c.at (size u + size a)).callee.span helper.helper).replace condition.span
            (Text.slice operand.span src)).build =
        ⟨⟨size u, size u + size (a ++ (c.chars ++ b))⟩,
          String.ofList (a ++ ((c.freed n (helperWord helper)).chars ++ b))⟩ := by
  obtain ⟨condition, operand, freed, hcondition, hoperand, hfreed, hedits⟩ :=
    freed_edits hn helper u a b v hsrc
  obtain rfl := hfreed.eq
  have hsource : src = String.ofList (u ++ ((a ++ (c.chars ++ b)) ++ v)) := by
    rw [hsrc]
    simp only [List.append_assoc]
  exact ⟨condition, operand, hcondition, hoperand, hedits.build v hsource⟩

theorem flipped_fix {c : Call} {n : Negated} {rest : List Char} (h : c.Stands rest)
    (hn : c.negated? = some n) {v₁ v₂ : Arg} (hvs : Arg.values n.rest = [v₁, v₂])
    (u a b v : List Char) {src : String}
    (hsrc : src = String.ofList (u ++ (a ++ (c.chars ++ (b ++ v))))) :
    ∃ condition operand w₁ w₂, (c.at (size u + size a)).params = [condition, w₁, w₂] ∧
      negatedOperand? condition = some operand ∧
      (((FixBuilder.new src ⟨size u, size u + size (a ++ (c.chars ++ b))⟩).swap w₁.span
          w₂.span).replace condition.span (Text.slice operand.span src)).build =
        ⟨⟨size u, size u + size (a ++ (c.chars ++ b))⟩,
          String.ofList (a ++ ((c.flipped n v₁ v₂).chars ++ b))⟩ := by
  obtain ⟨condition, operand, w₁, w₂, first, second, freed, hparams, hoperand, hfirst, hsecond,
    hfreed, hedits⟩ := flipped_edits h hn hvs u a b v hsrc
  obtain rfl := hfirst.eq
  obtain rfl := hsecond.eq
  obtain rfl := hfreed.eq
  have hsource : src = String.ofList (u ++ ((a ++ (c.chars ++ b)) ++ v)) := by
    rw [hsrc]
    simp only [List.append_assoc]
  exact ⟨condition, operand, w₁, w₂, hparams, hoperand, hedits.build v hsource⟩

/-- A call that is not negated gives no operand in its tree either. -/
theorem negatedOperand?_of_negated?_none {c : Call} {rest : List Char} (h : c.Stands rest)
    (hn : c.negated? = none) {helper : Conditional} (hh : helper? c.callee = some helper) (k : Nat)
    {condition : Tree.Expr} {values : List Tree.Expr}
    (hp : (c.at k).params = condition :: values) : negatedOperand? condition = none := by
  obtain ⟨lead, callee, args, trail⟩ := c
  obtain ⟨-, -, hargs, -⟩ := h
  match args with
  | [] => cases hp
  | ⟨gap, some key, value⟩ :: args =>
    have hnone := hargs.paramsAt_named (k + size lead + callee.width)
    have hp : Arg.paramsAt (k + size lead + callee.width) (⟨gap, some key, value⟩ :: args) =
        condition :: values := hp
    rw [show Arg.named (⟨gap, some key, value⟩ :: args) = ⟨gap, some key, value⟩ :: args from rfl,
      hp] at hnone
    cases hnone
  | ⟨gap, none, value⟩ :: args =>
    simp only [Call.at, Arg.paramsAt, List.cons.injEq] at hp
    obtain ⟨rfl, -⟩ := hp
    apply negatedOperand?_none
    have hh : helper? callee = some helper := hh
    cases ho : operand? value with
    | none => rfl
    | some operand => simp [Call.negated?, hh, ho] at hn

theorem params_of_negated? {c : Call} {n : Negated} {rest : List Char} (h : c.Stands rest)
    (hn : c.negated? = some n) (k : Nat) :
    ∃ condition values, (c.at k).params = condition :: values ∧
      values.length = (Arg.values n.rest).length := by
  obtain ⟨condition, p, q, -, -, -, -, hparams, -⟩ := negated?_at hn k
  obtain ⟨-, -, -, -, hargs⟩ := h.negated hn
  rw [hargs.paramsAt_eq] at hparams
  exact ⟨_, _, hparams, Arg.length_paramsAt_values _ _⟩

open NegatedCondition (inlineFinding? inlineEdits)

/-- A call that is not negated has no finding. -/
theorem inlineFinding?_of_none {c : Call} {rest : List Char} (h : c.Stands rest)
    (hn : c.negated? = none) (src : String) (k : Nat) (span : Span) (kind : NodeKind) :
    inlineFinding? src (c.at k) span kind = none := by
  unfold inlineFinding?
  rw [ofCall?_eq]
  cases hh : helper? c.callee with
  | none => rfl
  | some helper =>
    cases hp : (c.at k).params with
    | nil => rfl
    | cons condition values =>
      have hop := negatedOperand?_of_negated?_none h hn hh _ hp
      simp [hop]

/-- The finding for a negated call has the fix for it, where there is one. -/
theorem inlineFinding?_of_negated {c : Call} {rest : List Char} (h : c.Stands rest) {n : Negated}
    (hn : c.negated? = some n) (u a b v : List Char) (src : String)
    (hsrc : src = String.ofList (u ++ (a ++ (c.chars ++ (b ++ v))))) (kind : NodeKind) :
    (inlineFinding? src (c.at (size u + size a)) ⟨size u, size u + size (a ++ (c.chars ++ b))⟩
        kind).bind Finding.fix =
      (c.without? n).map fun c' =>
        ⟨⟨size u, size u + size (a ++ (c.chars ++ b))⟩, String.ofList (a ++ (c'.chars ++ b))⟩ := by
  obtain ⟨-, -, hh, -⟩ := eq_of_negated? hn
  obtain ⟨condition, values, hp, hlength⟩ := params_of_negated? h hn (size u + size a)
  obtain ⟨condition', operand, hhead, hop, hfreed⟩ := freed_fix hn n.helper.flip u a b v hsrc
  rw [hp] at hhead
  obtain rfl : condition = condition' := Option.some.inj hhead
  unfold inlineFinding?
  rw [ofCall?_eq, hh, hp, Call.without?]
  simp only [Option.bind_eq_bind, Option.bind_some, hop]
  -- by the number of values after the condition
  rcases hvs : Arg.values n.rest with _ | ⟨v₁, _ | ⟨v₂, _ | ⟨v₃, vs⟩⟩⟩
  · obtain rfl : values = [] := List.eq_nil_of_length_eq_zero (by rw [hlength, hvs]; rfl)
    cases n.helper <;> rfl
  · obtain ⟨w, rfl⟩ := List.length_eq_one_iff.1 (by rw [hlength, hvs]; rfl : values.length = 1)
    cases hhelper : n.helper <;> rw [hhelper] at hfreed <;>
      simp only [inlineEdits, Option.bind_some, hfreed, Option.map_some]
  · obtain ⟨w₁, w₂, rfl⟩ : ∃ w₁ w₂, values = [w₁, w₂] := by
      rw [hvs] at hlength
      match values, hlength with
      | [w₁, w₂], _ => exact ⟨w₁, w₂, rfl⟩
    cases hhelper : n.helper with
    | whenTrue =>
      obtain ⟨condition', operand', x₁, x₂, hp', hop', hflipped⟩ :=
        flipped_fix h hn hvs u a b v hsrc
      rw [hp] at hp'
      simp only [List.cons.injEq, and_true] at hp'
      obtain ⟨rfl, rfl, rfl⟩ := hp'
      obtain rfl : operand = operand' := Option.some.inj (hop ▸ hop')
      simp only [inlineEdits, Option.bind_some, hflipped, Option.map_some]
    | whenFalse =>
      rw [hhelper] at hfreed
      simp only [inlineEdits, Option.bind_some, hfreed, Option.map_some]
  · rw [hvs] at hlength
    match values, hlength with
    | w₁ :: w₂ :: w₃ :: ws, _ => cases n.helper <;> rfl

/-- The fix for an inline conditional is the text of the call without its negation, in the text
that is around the call. -/
theorem inlineFinding?_fix {c : Call} {rest : List Char} (h : c.Stands rest) (u a b v : List Char)
    (src : String) (hsrc : src = String.ofList (u ++ (a ++ (c.chars ++ (b ++ v)))))
    (kind : NodeKind) :
    (inlineFinding? src (c.at (size u + size a)) ⟨size u, size u + size (a ++ (c.chars ++ b))⟩
        kind).bind Finding.fix =
      c.unnegated?.map fun c' =>
        ⟨⟨size u, size u + size (a ++ (c.chars ++ b))⟩, String.ofList (a ++ (c'.chars ++ b))⟩ := by
  cases hn : c.negated? with
  | none =>
    rw [inlineFinding?_of_none h hn, Call.unnegated?, hn]
    rfl
  | some n =>
    rw [Call.unnegated?_eq hn]
    exact inlineFinding?_of_negated h hn u a b v src hsrc kind

end Concrete

end TemplateLint
