import TemplateLint.Proofs.Fixing.Shape

namespace TemplateLint

open Text (size)
open NegatedCondition (Conditional negatedOperand?)

/-- The rule for negated conditions alone. -/
def Fixers.negations : Fixers := ⟨true, false⟩

namespace Tree

theorem Call.helperName?_shape (g : Span → Bool) (c : Call) :
    (c.shape g).helperName? = c.helperName? := by
  obtain ⟨callee, params, hash⟩ := c
  match callee with
  | .path p => rfl
  | .literal l => rfl
  | .subExpression ⟨call, span⟩ => rfl

theorem Call.ofCall?_shape (g : Span → Bool) (c : Call) :
    Conditional.ofCall? (c.shape g) = Conditional.ofCall? c := by
  unfold Conditional.ofCall?
  rw [Call.helperName?_shape]

theorem Expr.isSome_subExpression?_shape (g : Span → Bool) (e : Expr) :
    (e.shape g).subExpression?.isSome = e.subExpression?.isSome := by
  match e with
  | .path p => rfl
  | .literal l => rfl
  | .subExpression ⟨call, span⟩ => rfl

theorem negatedOperand?_shape (e : Expr) :
    negatedOperand? (e.shape nowhere) = (negatedOperand? e).map (Expr.shape nowhere) := by
  cases e with
  | path p => rfl
  | literal l => rfl
  | subExpression e =>
    obtain ⟨call, span⟩ := e
    have hname := Call.helperName?_shape nowhere call
    have hshape : (Expr.subExpression ⟨call, span⟩).shape nowhere =
        .subExpression ⟨call.shape nowhere, default⟩ := by
      rw [Expr.shape, Concrete.pick_nowhere]
    obtain ⟨callee, params, hash⟩ := call
    rw [hshape]
    have hsub : ∀ e : SubExpression, (Expr.subExpression e).subExpression? = some e := fun _ => rfl
    unfold negatedOperand?
    simp only [hsub, hname]
    cases params with
    | nil => simp [Call.shape, Expr.shapeAll]
    | cons x params =>
      cases params with
      | cons y params => simp [Call.shape, Expr.shapeAll]
      | nil =>
        cases hash with
        | cons pair hash =>
          obtain ⟨key, value, at'⟩ := pair
          simp [Call.shape, Expr.shapeAll, HashPair.shapeAll]
        | nil =>
          have hx := Expr.isSome_subExpression?_shape nowhere x
          simp only [Call.shape, Expr.shapeAll, HashPair.shapeAll]
          cases x.subExpression?.isSome <;> split <;> split <;> grind

theorem Call.negated?_shape (c : Call) :
    (c.shape nowhere).negated? =
      c.negated?.map fun p => (p.1, p.2.1.shape nowhere, Expr.shapeAll nowhere p.2.2) := by
  have hhelper := Call.ofCall?_shape nowhere c
  obtain ⟨callee, params, hash⟩ := c
  unfold Call.negated?
  rw [hhelper]
  cases Conditional.ofCall? ⟨callee, params, hash⟩ with
  | none => rfl
  | some helper =>
    cases params with
    | nil => rfl
    | cons condition values =>
      simp only [Call.shape, Expr.shapeAll, Option.bind_eq_bind, Option.bind_some,
        negatedOperand?_shape]
      cases negatedOperand? condition <;> rfl

end Tree

namespace Concrete

/-- The shape of what is written, wherever it stands. -/
def Expr.bare (e : Expr) : Tree.Expr := (e.at 0).shape nowhere

def Call.bare (c : Call) : Tree.Call := (c.at 0).shape nowhere

def Arg.bareParams (as : List Arg) : List Tree.Expr :=
  Tree.Expr.shapeAll nowhere (Arg.paramsAt 0 as)

def Arg.bareHash (as : List Arg) : List Tree.HashPair :=
  Tree.HashPair.shapeAll nowhere (Arg.hashAt 0 as)

theorem Expr.at_bare (e : Expr) (k : Nat) : (e.at k).shape nowhere = e.bare := e.shape_at k 0

theorem Call.at_bare (c : Call) (k : Nat) : (c.at k).shape nowhere = c.bare := c.shape_at k 0

theorem Call.bare_eq (lead : List Char) (callee : Expr) (args : List Arg) (trail : List Char) :
    Call.bare ⟨lead, callee, args, trail⟩ =
      ⟨callee.bare, Arg.bareParams args, Arg.bareHash args⟩ := by
  simp only [Call.bare, Call.at, Tree.Call.shape]
  rw [Expr.at_bare, Arg.shape_paramsAt args _ 0, Arg.shape_hashAt args _ 0]
  rfl

@[simp] theorem Arg.bareParams_value (lead : List Char) (value : Expr) (args : List Arg) :
    Arg.bareParams (⟨lead, none, value⟩ :: args) = value.bare :: Arg.bareParams args := by
  simp only [Arg.bareParams, Arg.paramsAt, Tree.Expr.shapeAll]
  rw [Expr.at_bare, Arg.shape_paramsAt args _ 0]

@[simp] theorem Arg.bareParams_named (lead key : List Char) (value : Expr) (args : List Arg) :
    Arg.bareParams (⟨lead, some key, value⟩ :: args) = Arg.bareParams args :=
  Arg.shape_paramsAt args _ 0

@[simp] theorem Arg.bareHash_value (lead : List Char) (value : Expr) (args : List Arg) :
    Arg.bareHash (⟨lead, none, value⟩ :: args) = Arg.bareHash args :=
  Arg.shape_hashAt args _ 0

@[simp] theorem Arg.bareHash_named (lead key : List Char) (value : Expr) (args : List Arg) :
    Arg.bareHash (⟨lead, some key, value⟩ :: args) =
      ⟨String.ofList key, value.bare, default⟩ :: Arg.bareHash args := by
  simp only [Arg.bareHash, Arg.hashAt, Tree.HashPair.shapeAll]
  rw [Expr.at_bare, Arg.shape_hashAt args _ 0]

theorem helperWord_bare (helper : Conditional) :
    (helperWord helper).bare = .path ⟨helper.helper, default⟩ := by
  rw [Expr.bare, helperWord_at]
  rfl

/-- The shape of a call has as many arguments as the call. -/
theorem Arg.length_bare (as : List Arg) :
    (Arg.bareParams as).length + (Arg.bareHash as).length = as.length := by
  induction as with
  | nil => rfl
  | cons a as ih =>
    obtain ⟨lead, key, value⟩ := a
    cases key with
    | none =>
      simp only [Arg.bareParams_value, Arg.bareHash_value, List.length_cons]
      omega
    | some key =>
      simp only [Arg.bareParams_named, Arg.bareHash_named, List.length_cons]
      omega

theorem Arg.AllStand.bareParams_true {as : List Arg} {rest : List Char}
    (h : Arg.AllStand true as rest) : Arg.bareParams as = [] := by
  rw [Arg.bareParams, h.paramsAt_true]
  rfl

/-- The positional arguments in the shape of a call are those at the front. -/
theorem Arg.AllStand.bareParams_eq {named : Bool} {as : List Arg} {rest : List Char}
    (h : Arg.AllStand named as rest) :
    Arg.bareParams as = (Arg.values as).map fun a => a.value.bare := by
  induction as generalizing named with
  | nil => rfl
  | cons a as ih =>
    obtain ⟨lead, key, value⟩ := a
    cases key with
    | none =>
      obtain ⟨-, -, -, has⟩ := h
      rw [Arg.bareParams_value, ih has]
      rfl
    | some key =>
      obtain ⟨-, -, -, has⟩ := h
      rw [Arg.bareParams_named, has.bareParams_true]
      rfl

theorem Arg.bareHash_named_eq (as : List Arg) :
    Arg.bareHash (Arg.named as) = Arg.bareHash as := by
  induction as with
  | nil => rfl
  | cons a as ih =>
    obtain ⟨lead, key, value⟩ := a
    cases key with
    | none =>
      rw [Arg.bareHash_value, ← ih]
      rfl
    | some key => rfl

/-- A standing call is negated exactly if its shape is. -/
theorem Call.Stands.negated?_bare {c : Call} {rest : List Char} (h : c.Stands rest) :
    c.bare.negated? =
      c.negated?.map fun n => (n.helper, n.operand.bare, Arg.bareParams n.rest) := by
  rw [Call.bare, Tree.Call.negated?_shape]
  cases hn : c.negated? with
  | none =>
    have hnone : (c.at 0).negated? = none := by
      unfold Tree.Call.negated?
      rw [ofCall?_eq]
      cases hh : helper? c.callee with
      | none => rfl
      | some helper =>
        cases hp : (c.at 0).params with
        | nil => rfl
        | cons condition values =>
          simp [negatedOperand?_of_negated?_none h hn hh 0 hp]
    rw [hnone]
    rfl
  | some n =>
    obtain ⟨condition, p, q, hcallee, -, -, -, hparams, hoperand⟩ := negated?_at hn 0
    obtain ⟨-, -, hh, -⟩ := eq_of_negated? hn
    have hsome : (c.at 0).negated? = some (n.helper,
        n.operand.at (0 + size (c.lead ++ n.helper.helper.toList ++ n.gap ++ p)),
        Arg.paramsAt (0 + size (c.lead ++ n.helper.helper.toList ++ n.gap ++ condition.chars))
          n.rest) := by
      unfold Tree.Call.negated?
      rw [ofCall?_eq, hh, hparams]
      simp only [Option.bind_eq_bind, Option.bind_some, hoperand]
    rw [hsome]
    simp only [Option.map_some, Expr.at_bare]
    rw [Arg.shape_paramsAt n.rest _ 0]
    rfl

theorem Arg.length_join (lead : List Char) (e : Expr) (args : List Arg) :
    (Arg.join lead e args).length ≤ args.length + 1 := by
  unfold Arg.join
  split <;> simp

theorem Arg.join_eq {lead : List Char} {e : Expr} {args : List Arg}
    (h : args.length + 1 ≤ (Arg.join lead e args).length) :
    Arg.join lead e args = ⟨lead, none, e⟩ :: args := by
  unfold Arg.join at h ⊢
  split at h
  · exact absurd h (by simp)
  · exact absurd h (by simp)
  · rfl

theorem Call.length_join (lead : List Char) (e : Expr) (args : List Arg) (trail : List Char) :
    (Call.join lead e args trail).args.length ≤ args.length := by
  unfold Call.join
  split <;> simp

theorem Call.join_eq {lead : List Char} {e : Expr} {args : List Arg} {trail : List Char}
    (h : args.length ≤ (Call.join lead e args trail).args.length) :
    Call.join lead e args trail = ⟨lead, e, args, trail⟩ := by
  unfold Call.join at h ⊢
  split at h
  · exact absurd h (by simp)
  · rfl

theorem Call.length_bare (c : Call) :
    c.bare.params.length + c.bare.hash.length = c.args.length := by
  obtain ⟨lead, callee, args, trail⟩ := c
  rw [Call.bare_eq]
  exact Arg.length_bare args

/-- A call has the shape of an argument list of a given length only if no words of it became one. -/
theorem Call.not_lt_of_bare {c c' : Call} {callee : Tree.Expr} {params : List Tree.Expr}
    {hash : List Tree.HashPair} (h : c'.bare = ⟨callee, params, hash⟩)
    (hlength : params.length + hash.length = c.args.length) :
    ¬ c'.args.length < c.args.length := by
  have hc := c'.length_bare
  rw [h] at hc
  have hc : params.length + hash.length = c'.args.length := hc
  omega

theorem length_of_negated? {c : Call} {n : Negated} (hn : c.negated? = some n) :
    c.args.length = n.rest.length + 1 := by
  obtain ⟨condition, hc, -, -⟩ := eq_of_negated? hn
  rw [hc]
  rfl

/-- The freed call has the shape that it is to have exactly if no words became one. -/
theorem Call.freed_bare {c : Call} {n : Negated} (hn : c.negated? = some n)
    (helper : Conditional) :
    (c.freed n (helperWord helper)).bare =
        ⟨.path ⟨helper.helper, default⟩, n.operand.bare :: Arg.bareParams n.rest,
          Arg.bareHash n.rest⟩ ↔
      ¬ (c.freed n (helperWord helper)).args.length < c.args.length := by
  have hlength := length_of_negated? hn
  constructor
  · intro h
    apply Call.not_lt_of_bare h
    have hrest := Arg.length_bare n.rest
    simp only [List.length_cons]
    omega
  · intro h
    unfold Call.freed at h ⊢
    have hle := Call.length_join c.lead (helperWord helper) (Arg.join n.gap n.operand n.rest) c.trail
    have hle' := Arg.length_join n.gap n.operand n.rest
    rw [Call.join_eq (by omega), Arg.join_eq (by omega), Call.bare_eq, helperWord_bare,
      Arg.bareParams_value, Arg.bareHash_value]

/-- The same for the call with its two values in each other's place. -/
theorem Call.flipped_bare {c : Call} {rest : List Char} (h : c.Stands rest) {n : Negated}
    (hn : c.negated? = some n) {v₁ v₂ : Arg} (hvs : Arg.values n.rest = [v₁, v₂]) :
    (c.flipped n v₁ v₂).bare =
        ⟨c.callee.bare, [n.operand.bare, v₂.value.bare, v₁.value.bare], Arg.bareHash n.rest⟩ ↔
      ¬ (c.flipped n v₁ v₂).args.length < c.args.length := by
  have hlength := length_of_negated? hn
  have hvalues := Arg.values_append_named n.rest
  have hrest : n.rest.length = (Arg.named n.rest).length + 2 := by
    rw [← congrArg List.length hvalues, hvs]
    simp
  obtain ⟨-, -, -, -, hargs⟩ := h.negated hn
  have hparams := hargs.bareParams_eq
  rw [hvs] at hparams
  have hbare := Arg.length_bare n.rest
  rw [hparams] at hbare
  constructor
  · intro he
    apply Call.not_lt_of_bare he
    simp only [List.map_cons, List.map_nil, List.length_cons, List.length_nil] at hbare ⊢
    omega
  · intro hlt
    have hnamed : Arg.bareParams (Arg.named n.rest) = [] := by
      have hnone := hargs.paramsAt_named 0
      rw [Arg.bareParams, hnone]
      rfl
    unfold Call.flipped at hlt ⊢
    have h₁ := Arg.length_join v₂.lead v₁.value (Arg.named n.rest)
    have h₂ := Arg.length_join v₁.lead v₂.value (Arg.join v₂.lead v₁.value (Arg.named n.rest))
    have h₃ := Arg.length_join n.gap n.operand
      (Arg.join v₁.lead v₂.value (Arg.join v₂.lead v₁.value (Arg.named n.rest)))
    have h₄ := Call.length_join c.lead c.callee (Arg.join n.gap n.operand
      (Arg.join v₁.lead v₂.value (Arg.join v₂.lead v₁.value (Arg.named n.rest)))) c.trail
    rw [Call.join_eq (by omega), Arg.join_eq (by omega), Arg.join_eq (by omega),
      Arg.join_eq (by omega), Call.bare_eq]
    simp only [Arg.bareParams_value, Arg.bareHash_value, hnamed, Arg.bareHash_named_eq]

/-- Whether a call loses an argument with its negation, as two words become one. -/
def Call.merges (c : Call) : Bool := c.unnegated?.any fun c' => c'.args.length < c.args.length

theorem Call.merges_iff {c c' : Call} (h : c.unnegated? = some c') :
    c.merges = false ↔ ¬ c'.args.length < c.args.length := by
  simp [Call.merges, h]

section

variable {c : Call} {rest : List Char} {n : Negated}

theorem Call.bare_of_negated? (hn : c.negated? = some n) :
    c.callee.bare = .path ⟨n.helper.helper, default⟩ ∧ ∃ condition,
      c.bare = ⟨c.callee.bare, condition :: Arg.bareParams n.rest, Arg.bareHash n.rest⟩ := by
  obtain ⟨condition, hc, hh, -⟩ := eq_of_negated? hn
  refine ⟨by rw [eq_of_helper? hh, helperWord_bare], condition.bare, ?_⟩
  rw [hc, Call.bare_eq, Arg.bareParams_value, Arg.bareHash_value]

/-- The counterpart of the shape of a negated call. -/
theorem Call.Stands.bare_unnegated? (h : c.Stands rest) (hn : c.negated? = some n) :
    c.bare.unnegated? = c.bare.without? n.helper n.operand.bare
      ((Arg.values n.rest).map fun a => a.value.bare) := by
  obtain ⟨-, -, -, -, hargs⟩ := h.negated hn
  rw [Tree.Call.unnegated?, h.negated?_bare, hn, Option.map_some, hargs.bareParams_eq]
  rfl

/-- Freed of its negation, a call has the shape with the other helper exactly if no words became
one. -/
theorem Call.Stands.freed_bare (h : c.Stands rest) (hn : c.negated? = some n) :
    (c.freed n (helperWord n.helper.flip)).bare =
        c.bare.renamed n.helper (n.operand.bare :: (Arg.values n.rest).map fun a => a.value.bare) ↔
      ¬ (c.freed n (helperWord n.helper.flip)).args.length < c.args.length := by
  obtain ⟨-, -, -, -, hargs⟩ := h.negated hn
  obtain ⟨hcallee, condition, hbare⟩ := Call.bare_of_negated? hn
  have hrenamed : ∀ params, c.bare.renamed n.helper params =
      ⟨.path ⟨n.helper.flip.helper, default⟩, params, Arg.bareHash n.rest⟩ := by
    intro params
    rw [Tree.Call.renamed, hbare, hcallee]
    rfl
  rw [hrenamed, ← hargs.bareParams_eq]
  exact Call.freed_bare hn n.helper.flip

end

/-- A call without its negation has the shape of the counterpart exactly if no words became one. -/
theorem Call.Stands.unnegated?_bare {c : Call} {rest : List Char} (h : c.Stands rest) :
    (c.unnegated? = none ∧ c.bare.unnegated? = none) ∨
      ∃ c' d, c.unnegated? = some c' ∧ c.bare.unnegated? = some d ∧
        (c'.bare = d ↔ c.merges = false) := by
  cases hn : c.negated? with
  | none =>
    refine Or.inl ⟨by simp [Call.unnegated?, hn], ?_⟩
    rw [Tree.Call.unnegated?, h.negated?_bare, hn]
    rfl
  | some n =>
    have hfreed := h.freed_bare hn
    have hmerges : ∀ c', c.without? n = some c' →
        (c.merges = false ↔ ¬ c'.args.length < c.args.length) := fun c' hc' =>
      Call.merges_iff ((Call.unnegated?_eq hn).trans hc')
    rw [Call.unnegated?_eq hn, h.bare_unnegated? hn]
    unfold Call.without? at hmerges ⊢
    unfold Tree.Call.without?
    rcases hvs : Arg.values n.rest with _ | ⟨v₁, _ | ⟨v₂, _ | ⟨v₃, vs⟩⟩⟩ <;>
      rw [hvs] at hmerges hfreed
    · cases n.helper <;> exact Or.inl ⟨rfl, rfl⟩
    · cases hhelper : n.helper <;> rw [hhelper] at hmerges hfreed <;>
        exact Or.inr ⟨_, _, rfl, rfl, hfreed.trans (hmerges _ rfl).symm⟩
    · cases hhelper : n.helper with
      | whenTrue =>
        rw [hhelper] at hmerges
        have hflipped : (c.flipped n v₁ v₂).bare = ⟨c.bare.callee,
            [n.operand.bare, v₂.value.bare, v₁.value.bare], c.bare.hash⟩ ↔
              ¬ (c.flipped n v₁ v₂).args.length < c.args.length := by
          obtain ⟨-, condition, hbare⟩ := Call.bare_of_negated? hn
          rw [hbare]
          exact Call.flipped_bare h hn hvs
        exact Or.inr ⟨_, _, rfl, rfl, hflipped.trans (hmerges _ rfl).symm⟩
      | whenFalse =>
        rw [hhelper] at hmerges hfreed
        exact Or.inr ⟨_, _, rfl, rfl, hfreed.trans (hmerges _ rfl).symm⟩
    · cases n.helper <;> exact Or.inl ⟨rfl, rfl⟩

variable (g : Span → Bool)

mutual

/-- Whether the selected negations of an expression at `k` leave all words apart when they are taken
away. -/
def Expr.apart (k : Nat) : Expr → Bool
  | .group call =>
    if g (.over k (Expr.group call).chars) && call.unnegated?.isSome then !call.merges
    else Call.apart (k + 1) call
  | _ => true

def Call.apart (k : Nat) : Call → Bool
  | ⟨lead, callee, args, _⟩ =>
    Expr.apart (k + size lead) callee && Arg.apartAll (k + size lead + size callee.chars) args

def Arg.apartAll (k : Nat) : List Arg → Bool
  | [] => true
  | ⟨lead, key, value⟩ :: args =>
    Expr.apart (k + size (lead ++ keyChars key)) value &&
      Arg.apartAll (k + size (lead ++ keyChars key) + size value.chars) args

end

variable {g}

theorem Expr.bare_group (call : Call) :
    (Expr.group call).bare = .subExpression ⟨call.bare, default⟩ := by
  rw [Expr.bare, Expr.at, Tree.Expr.shape, pick_nowhere, Call.at_bare]

/-- The shape of the edited call, where the call may be replaced as a whole. -/
theorem Call.Stands.pick_bare {c : Call} {rest : List Char} (h : c.Stands rest) (chosen : Bool)
    {edited : Call} {shape : Tree.Call} {apart : Bool} (he : edited.bare = shape ↔ apart = true) :
    (pick chosen c.unnegated? edited).bare = pick chosen c.bare.unnegated? shape ↔
      (if chosen && c.unnegated?.isSome then !c.merges else apart) = true := by
  rcases h.unnegated?_bare with ⟨hc, hd⟩ | ⟨c', d, hc, hd, hmerges⟩
  · rw [hc, hd]
    simpa [pick] using he
  · rw [hc, hd]
    cases chosen with
    | true => simpa [pick] using hmerges
    | false => simpa [pick] using he

mutual

/-- An expression whose negations are taken away has the shape with their counterparts exactly if no
two words became one. -/
theorem Expr.Stands.shape_edit : ∀ {e : Expr} {s : List Char}, e.Stands s → ∀ k : Nat,
    (e.edit .negations g k).bare = (e.at k).shape g ↔ e.apart g k = true
  | .word w, _, _, k => by
    simp only [Expr.edit, Expr.apart, iff_true]
    exact (shape_wordAt g k 0 w).symm
  | .quoted mark raw, _, _, k => by
    simp only [Expr.edit, Expr.apart, iff_true]
    rfl
  | .group call, _, h, k => by
    have hcall := Call.Stands.shape_edit (c := call) h (k + 1)
    have hspan : (⟨k, k + (Expr.group call).width⟩ : Span) = .over k (Expr.group call).chars := by
      rw [Expr.width_eq]
      rfl
    have hedit : (Expr.group call).edit .negations g k =
        .group (pick (g (.over k (Expr.group call).chars)) call.unnegated?
          (call.edit .negations g (k + 1))) := by
      rw [Expr.edit, apply_pick Expr.group]
      rfl
    rw [hedit, Expr.bare_group, Expr.at, Tree.Expr.shape, hspan, Call.at_bare, Expr.apart,
      ← Call.Stands.pick_bare h _ hcall]
    simp

theorem Call.Stands.shape_edit : ∀ {c : Call} {s : List Char}, c.Stands s → ∀ k : Nat,
    (c.edit .negations g k).bare = (c.at k).shape g ↔ c.apart g k = true
  | ⟨lead, callee, args, trail⟩, _, h, k => by
    obtain ⟨-, hcallee, hargs, -⟩ := h
    have h₁ := Expr.Stands.shape_edit hcallee (k + size lead)
    have h₂ := Arg.AllStand.shape_edit hargs (k + size lead + size callee.chars)
    rw [Call.edit, Call.bare_eq, Call.at, Tree.Call.shape, Call.apart, Bool.and_eq_true, ← h₁, ← h₂,
      Expr.width_eq]
    simp

theorem Arg.AllStand.shape_edit : ∀ {as : List Arg} {named : Bool} {s : List Char},
    Arg.AllStand named as s → ∀ k : Nat,
      (Arg.bareParams (Arg.editAll .negations g k as) =
          Tree.Expr.shapeAll g (Arg.paramsAt k as) ∧
        Arg.bareHash (Arg.editAll .negations g k as) =
          Tree.HashPair.shapeAll g (Arg.hashAt k as)) ↔ Arg.apartAll g k as = true
  | [], _, _, _, _ => by
    simp only [Arg.apartAll, iff_true]
    exact ⟨rfl, rfl⟩
  | ⟨lead, none, value⟩ :: args, _, _, h, k => by
    obtain ⟨-, -, hvalue, hargs⟩ := h
    have h₁ := Expr.Stands.shape_edit hvalue (k + size lead)
    have h₂ := Arg.AllStand.shape_edit hargs (k + size lead + size value.chars)
    simp only [Arg.editAll, Arg.paramsAt, Arg.hashAt, Arg.apartAll, Arg.bareParams_value,
      Arg.bareHash_value, Tree.Expr.shapeAll, keyChars, List.append_nil, Text.size_nil,
      Nat.add_zero, Expr.width_eq, Bool.and_eq_true, List.cons.injEq, h₁, ← h₂, and_assoc]
  | ⟨lead, some key, value⟩ :: args, _, _, h, k => by
    obtain ⟨-, -, hvalue, hargs⟩ := h
    have hone : size ['='] = 1 := rfl
    have hoffset : k + size lead + size key + 1 = k + size (lead ++ keyChars (some key)) := by
      simp only [keyChars, Text.size_append, hone]
      omega
    have h₁ := Expr.Stands.shape_edit hvalue (k + size (lead ++ keyChars (some key)))
    have h₂ := Arg.AllStand.shape_edit hargs
      (k + size (lead ++ keyChars (some key)) + size value.chars)
    have hnext : k + size lead + size (keyChars (some key)) + value.width =
        k + size (lead ++ keyChars (some key)) + size value.chars := by
      rw [Text.size_append, Expr.width_eq]
      omega
    simp only [Arg.editAll, Arg.paramsAt, Arg.hashAt, Arg.apartAll, Arg.bareParams_named,
      Arg.bareHash_named, Tree.HashPair.shapeAll, hoffset, hnext, Bool.and_eq_true,
      List.cons.injEq, Tree.HashPair.mk.injEq, true_and, and_true, ← h₁, ← h₂]
    exact and_left_comm

end

variable (g)

def Mustache.apart (k : Nat) (m : Mustache) : Bool :=
  if g (.over k m.chars) && m.call.unnegated?.isSome then !m.call.merges
  else m.call.apart g (k + size m.opening)

def Part.apartAll (k : Nat) : List Part → Bool
  | [] => true
  | .text cs :: ps => Part.apartAll (k + size cs) ps
  | .mustache m :: ps => m.apart g k && Part.apartAll (k + size m.chars) ps

def AttrValue.apart (k : Nat) : AttrValue → Bool
  | .quoted mark parts => Part.apartAll g (k + size [mark]) parts
  | .mustache m => m.apart g k
  | .bare _ => true

def Attribute.apart (k : Nat) (a : Attribute) : Bool :=
  match a.assigned with
  | none => true
  | some v => v.value.apart g (k + size a.name + size (v.before ++ ['='] ++ v.after))

def Item.apart (k : Nat) : Item → Bool
  | .attribute a => a.apart g k
  | .modifier m => m.call.apart g (k + size m.opening)
  | _ => true

def Spaced.apartAll (k : Nat) : List Spaced → Bool
  | [] => true
  | s :: ss => s.item.apart g (k + size s.lead) && Spaced.apartAll (k + size s.chars) ss

def OpeningTag.apart (k : Nat) (t : OpeningTag) : Bool :=
  Spaced.apartAll g (k + size (Token.tagOpen.chars ++ t.name)) t.items

variable {g}

theorem Mustache.Stands.shape_edit {m : Mustache} (h : m.Stands) (k j : Nat) :
    ((m.edit .negations g k).at j).shape nowhere = (m.at k).shape g ↔ m.apart g k = true := by
  have hcall := Call.Stands.shape_edit (g := g) h (k + size m.opening)
  have hedit : m.edit .negations g k = m.withCall (pick (g (.over k m.chars)) m.call.unnegated?
      (m.call.edit .negations g (k + size m.opening))) := by
    rw [Mustache.edit, apply_pick m.withCall]
    rfl
  rw [hedit, Mustache.apart, ← Call.Stands.pick_bare h _ hcall]
  simp only [Mustache.at, Mustache.withCall, Tree.Mustache.shape, pick_nowhere, Call.at_bare,
    Tree.Mustache.mk.injEq, and_true]

theorem Part.AllStand.shape_edit {mark : Char} {ps : List Part} (h : Part.AllStand mark ps)
    (k j : Nat) :
    (Part.atAll j (Part.editAll .negations g k ps)).map (Tree.ConcatPart.shape nowhere) =
        (Part.atAll k ps).map (Tree.ConcatPart.shape g) ↔ Part.apartAll g k ps = true := by
  induction ps generalizing k j with
  | nil => simp [Part.apartAll, Part.editAll, Part.atAll]
  | cons p ps ih =>
    cases p with
    | text cs =>
      have hps := ih h.2.2.2 (k + size cs) (j + size cs)
      rw [Part.apartAll, ← hps]
      simp [Part.editAll, Part.atAll, Tree.ConcatPart.shape, Tree.TextRun.shape]
    | mustache m =>
      have hm := h.1.shape_edit (g := g) k j
      have hps := ih h.2 (k + size m.chars) (j + size (m.edit .negations g k).chars)
      rw [Part.apartAll, Bool.and_eq_true, ← hm, ← hps]
      simp [Part.editAll, Part.atAll, Tree.ConcatPart.shape]

theorem Part.isMustache_edit (ps : List Part) (k : Nat) :
    (Part.editAll .negations g k ps).any Part.isMustache = ps.any Part.isMustache := by
  induction ps generalizing k with
  | nil => rfl
  | cons p ps ih =>
    cases p with
    | text cs => exact ih _
    | mustache m => rfl

theorem Part.edit_text {ps : List Part} (h : ps.any Part.isMustache = false) (k : Nat) :
    Part.editAll .negations g k ps = ps ∧ Part.apartAll g k ps = true := by
  induction ps generalizing k with
  | nil => exact ⟨rfl, rfl⟩
  | cons p ps ih =>
    cases p with
    | text cs =>
      obtain ⟨hedit, hapart⟩ := ih (by simpa [Part.isMustache] using h) (k + size cs)
      exact ⟨by rw [Part.editAll, hedit], hapart⟩
    | mustache m => simp [Part.isMustache] at h

theorem AttrValue.Stands.shape_edit {v : AttrValue} {rest : List Char} (h : v.Stands rest)
    (k j : Nat) :
    ((v.edit .negations g k).at j).shape nowhere = (v.at k).shape g ↔ v.apart g k = true := by
  cases v with
  | quoted mark parts =>
    have hparts := h.2.shape_edit (g := g) (k + size [mark]) (j + size [mark])
    have hany := Part.isMustache_edit (g := g) parts (k + size [mark])
    simp only [AttrValue.edit, AttrValue.at, AttrValue.apart, hany]
    cases hm : parts.any Part.isMustache with
    | true =>
      simp only [if_true, Tree.AttrValue.shape, Tree.AttrValue.concat.injEq, and_true, hparts]
    | false =>
      obtain ⟨hedit, hapart⟩ := Part.edit_text (g := g) hm (k + size [mark])
      simp only [Bool.false_eq_true, if_false, Tree.AttrValue.shape, Tree.TextRun.shape, hedit,
        hapart]
  | mustache m =>
    rw [AttrValue.apart, ← Mustache.Stands.shape_edit h k j]
    simp [AttrValue.edit, AttrValue.at, Tree.AttrValue.shape]
  | bare cs => simp [AttrValue.edit, AttrValue.at, AttrValue.apart, Tree.AttrValue.shape,
      Tree.TextRun.shape]

theorem Attribute.Stands.shape_edit {a : Attribute} {rest : List Char} (h : a.Stands rest)
    (k j : Nat) :
    ((a.editValue .negations g k).at j).shape nowhere = (a.at k).shape g ↔
      a.apart g k = true := by
  obtain ⟨name, assigned⟩ := a
  cases assigned with
  | none => simp [Attribute.editValue, Attribute.at, Attribute.apart, Tree.Attribute.shape,
      Tree.AttrValue.shape]
  | some v =>
    obtain ⟨-, -, -, -, hv⟩ := h
    have hone : size ['='] = 1 := rfl
    have hoffset : k + size name + size v.before + 1 + size v.after =
        k + size name + size (v.before ++ ['='] ++ v.after) := by
      simp only [Text.size_append, hone]
      omega
    have hvalue := hv.shape_edit (g := g)
      (k + size name + size (v.before ++ ['='] ++ v.after))
      (j + size name + size v.before + 1 + size v.after)
    simp only [Attribute.editValue, Attribute.at, Attribute.apart, Tree.Attribute.shape,
      Option.map_some, Assigned.edit, hoffset, Tree.Attribute.mk.injEq, true_and, and_true, hvalue]

/-- The shapes of the items of a tag whose negations are taken away. -/
theorem Spaced.AllStand.shape_edit {ss : List Spaced} {rest : List Char}
    (h : Spaced.AllStand ss rest) (t : OpeningTag) (k j : Nat) :
    ((attributesAt j (Spaced.editAll .negations g t k ss)).map (Tree.Attribute.shape nowhere) =
        (attributesAt k ss).map (Tree.Attribute.shape g) ∧
      (modifiersAt j (Spaced.editAll .negations g t k ss)).map
          (Tree.ElementModifier.shape nowhere) =
        (modifiersAt k ss).map (Tree.ElementModifier.shape g)) ↔
      Spaced.apartAll g k ss = true := by
  induction ss generalizing k j with
  | nil => simp [Spaced.editAll, attributesAt, modifiersAt, Spaced.offsets, Spaced.apartAll]
  | cons s ss ih =>
    obtain ⟨lead, item⟩ := s
    obtain ⟨-, hitem, hss⟩ := h
    have hss := ih hss (k + size (Spaced.mk lead item).chars)
      (j + size (Spaced.mk lead (item.edit .negations g t (k + size lead))).chars)
    rw [Spaced.apartAll, Bool.and_eq_true, ← hss, Spaced.editAll]
    simp only [attributesAt_cons, modifiersAt_cons, List.map_append]
    cases item with
    | «attribute» a =>
      have ha := Attribute.Stands.shape_edit (g := g) hitem (k + size lead) (j + size lead)
      have hedit : (Item.attribute a).edit .negations g t (k + size lead) =
          .attribute (a.editValue .negations g (k + size lead)) := rfl
      simp only [hedit, Item.apart, ← ha, List.map_cons, List.map_nil, List.cons_append,
        List.nil_append, List.cons.injEq, and_assoc]
    | modifier m =>
      have hcall := Call.Stands.shape_edit (g := g) hitem.1 (k + size lead + size m.opening)
      have hedit : (Item.modifier m).edit .negations g t (k + size lead) =
          .modifier (m.editInner .negations g (k + size lead)) := rfl
      have hopening : (m.editInner .negations g (k + size lead)).opening = m.opening := rfl
      have hinner : (m.editInner .negations g (k + size lead)).call =
          m.call.edit .negations g (k + size lead + size m.opening) := rfl
      simp only [hedit, Item.apart, ← hcall, List.map_cons, List.map_nil, List.cons_append,
        List.nil_append, List.cons.injEq, Mustache.at, hopening, hinner,
        Tree.ElementModifier.shape, Call.at_bare, Tree.ElementModifier.mk.injEq, and_true]
      exact and_left_comm
    | note n => simp [Item.edit, Item.apart]
    | params p => simp [Item.edit, Item.apart]

/-- An attribute stays one or becomes a modifier. -/
theorem Item.edit_attribute (f : Fixers) (t : OpeningTag) (a : Attribute) (k : Nat) :
    (∃ a', (Item.attribute a).edit f g t k = .attribute a') ∨
      ∃ m, (Item.attribute a).edit f g t k = .modifier m := by
  rw [Item.edit]
  cases f.change? t a with
  | none => exact .inl ⟨_, rfl⟩
  | some change =>
    cases change with
    | name new => exact .inl ⟨_, rfl⟩
    | whole text =>
      apply pick_induction (p := fun i : Item => (∃ a', i = .attribute a') ∨ ∃ m, i = .modifier m)
      · intro i hi
        obtain ⟨m, rfl, -⟩ := eq_of_modifier? hi
        exact .inr ⟨m, rfl⟩
      · exact .inl ⟨_, rfl⟩

theorem notesAt_edit (f : Fixers) (t : OpeningTag) (ss : List Spaced) (k j : Nat) :
    (notesAt j (Spaced.editAll f g t k ss)).map Tree.Comment.shape =
      (notesAt k ss).map Tree.Comment.shape := by
  induction ss generalizing k j with
  | nil => rfl
  | cons s ss ih =>
    obtain ⟨lead, item⟩ := s
    rw [Spaced.editAll, notesAt_cons, notesAt_cons, List.map_append, List.map_append, ih]
    cases item with
    | «attribute» a =>
      rcases Item.edit_attribute (g := g) f t a (k + size lead) with ⟨a', h⟩ | ⟨m, h⟩ <;>
        (dsimp only; rw [h])
    | _ => rfl

theorem boundBy_edit (f : Fixers) (t : OpeningTag) (ss : List Spaced) (names : List String)
    (k : Nat) : boundBy names (Spaced.editAll f g t k ss) = boundBy names ss := by
  induction ss generalizing names k with
  | nil => rfl
  | cons s ss ih =>
    obtain ⟨lead, item⟩ := s
    rw [Spaced.editAll, boundBy, List.foldl_cons, boundBy, List.foldl_cons]
    cases item with
    | «attribute» a =>
      rcases Item.edit_attribute (g := g) f t a (k + size lead) with ⟨a', h⟩ | ⟨m, h⟩ <;>
        (dsimp only; rw [h]; exact ih _ _)
    | _ => exact ih _ _

/-- The shape of an element whose negations are taken away: its attributes and modifiers change with
their calls, and nothing else does. -/
theorem OpeningTag.Stands.shape_edit {t : OpeningTag} (h : t.Stands) (k j : Nat)
    (children children' : List Tree.Statement) (close close' : Option Span) (span span' : Span)
    (hclose : (close'.map fun _ => (default : Span)) = close.map fun _ => default) :
    Tree.Element.shape nowhere { (t.edit .negations g k).at j with
        children := children', closeSpan := close', span := span' } =
      Tree.Element.shape g { t.at k with children, closeSpan := close, span } ↔
      t.apart g k = true ∧
        Tree.Statement.shapeAll nowhere children' = Tree.Statement.shapeAll g children := by
  obtain ⟨h₁, h₂, h₃⟩ := t.at_items k
  obtain ⟨h₁', h₂', h₃'⟩ := (t.edit .negations g k).at_items j
  have hitems := h.2.2.2.1.shape_edit (g := g) t (k + size (Token.tagOpen.chars ++ t.name))
    (j + size (Token.tagOpen.chars ++ t.name))
  have hnotes := notesAt_edit (g := g) .negations t t.items (k + size (Token.tagOpen.chars ++ t.name))
    (j + size (Token.tagOpen.chars ++ t.name))
  have hbound := boundBy_edit (g := g) .negations t t.items [] (k + size (Token.tagOpen.chars ++ t.name))
  have hname : (t.edit .negations g k).name = t.name := rfl
  have hself : (t.edit .negations g k).selfClosing = t.selfClosing := rfl
  have hedit : (t.edit .negations g k).items = Spaced.editAll .negations g t
      (k + size (Token.tagOpen.chars ++ t.name)) t.items := rfl
  rw [OpeningTag.shape_eq, OpeningTag.shape_eq, h₁, h₂, h₃, h₁', h₂', h₃', hname, hself, hedit,
    hnotes, hbound, hclose, OpeningTag.apart, ← hitems]
  simp only [Tree.Element.mk.injEq, true_and, and_true, and_assoc]

def Statement.bare (s : Statement) : Tree.Statement := (s.at 0).shape nowhere

def Statement.bareAll (ss : List Statement) : List Tree.Statement :=
  Tree.Statement.shapeAll nowhere (Statement.atAll 0 ss)

def Section.bareAll (ss : List Section) : Tree.ElsePart := (Section.atAll 0 ss).shape nowhere

theorem Statement.at_bare (s : Statement) (k : Nat) : (s.at k).shape nowhere = s.bare :=
  s.shape_at k 0

theorem Statement.atAll_bare (ss : List Statement) (k : Nat) :
    Tree.Statement.shapeAll nowhere (Statement.atAll k ss) = Statement.bareAll ss :=
  Statement.shape_atAll ss k 0

theorem Section.atAll_bare (ss : List Section) (k : Nat) :
    (Section.atAll k ss).shape nowhere = Section.bareAll ss := Section.shape_at ss k 0

theorem Statement.bareAll_cons (s : Statement) (ss : List Statement) :
    Statement.bareAll (s :: ss) = s.bare :: Statement.bareAll ss := by
  rw [Statement.bareAll, Statement.atAll, Tree.Statement.shapeAll, Statement.at_bare,
    Statement.atAll_bare]

/-- The shape of a block by its parts. -/
def bareBlock (opening : BlockTag) (program : List Statement) (sections : List Section) :
    Tree.Block :=
  ⟨opening.call.bare, opening.ending.bound, default, ⟨Statement.bareAll program, default⟩,
    Section.bareAll sections, some ⟨default, default⟩, default⟩

theorem Statement.bare_block (opening : BlockTag) (program : List Statement)
    (sections : List Section) (closing : CloseTag) :
    (Statement.block opening program sections closing).bare =
      .block (bareBlock opening program sections) := by
  simp only [Statement.bare, Statement.at, Tree.Statement.shape, Tree.Block.shape, pick_nowhere,
    Tree.Body.shape, Call.at_bare, Statement.atAll_bare, Section.atAll_bare]
  rfl

theorem Section.bareAll_plain (tilde : Bool) (lead trail : List Char) (after : Bool)
    (body : List Statement) (more : List Section) :
    Section.bareAll (⟨⟨tilde, lead, .plain trail after⟩, body⟩ :: more) =
      .final default ⟨Statement.bareAll body, default⟩ := by
  simp only [Section.bareAll, Section.atAll, Tree.ElsePart.shape, Tree.Body.shape,
    Statement.atAll_bare]

theorem Section.bareAll_chained (tilde : Bool) (lead : List Char) (call : Call) (ending : TagEnd)
    (body : List Statement) (more : List Section) :
    Section.bareAll (⟨⟨tilde, lead, .chained call ending⟩, body⟩ :: more) =
      .chained ⟨call.bare, ending.bound, default, ⟨Statement.bareAll body, default⟩,
        Section.bareAll more, none, default⟩ := by
  rw [← Section.atAll_bare _ 0]
  simp only [Section.atAll, Tree.ElsePart.shape, Tree.Block.shape, Tree.Body.shape, pick_nowhere,
    Call.at_bare, Statement.atAll_bare, Section.atAll_bare]
  rfl

/-- Whether the opening tag of a block loses an argument with its negation, as two words become
one. -/
def Statement.merges : Statement → Bool
  | .block opening program sections closing =>
    match (Statement.block opening program sections closing).unnegated? with
    | some (.block opening' _ _ _) => opening'.call.args.length < opening.call.args.length
    | _ => false
  | _ => false

/-- What becomes of a block whose only positional argument is negated, and of its shape: the helper
and the bodies are the same in both. -/
theorem BlockTag.Stands.counterpart {opening : BlockTag} (h : opening.Stands) {n : Negated}
    (hn : opening.negated? = some n) (program : List Statement) (sections : List Section)
    (closing : CloseTag) :
    ((Statement.block opening program sections closing).unnegated? = none ∧
        (bareBlock opening program sections).unnegated? = none) ∨
      ∃ helper program' sections' closing',
        (Statement.block opening program sections closing).unnegated? =
          some (.block (opening.withCall (opening.call.freed n (helperWord helper))) program'
            sections' closing') ∧
        (bareBlock opening program sections).unnegated? =
          some ⟨⟨.path ⟨helper.helper, default⟩, [n.operand.bare], Arg.bareHash n.rest⟩,
            opening.ending.bound, default, ⟨Statement.bareAll program', default⟩,
            Section.bareAll sections', some ⟨default, default⟩, default⟩ := by
  obtain ⟨hcall, -⟩ := h
  obtain ⟨hcn, hvs⟩ := eq_of_blockNegated? hn
  obtain ⟨-, -, hh, -⟩ := eq_of_negated? hcn
  obtain ⟨-, -, -, -, hargs⟩ := hcall.negated hcn
  have hcallee := eq_of_helper? hh
  have hparams : Arg.bareParams n.rest = [] := by
    rw [hargs.bareParams_eq, hvs]
    rfl
  obtain ⟨hpath, condition, hbare⟩ := Call.bare_of_negated? hcn
  rw [hpath, hparams] at hbare
  have hnegated : opening.call.bare.negated? = some (n.helper, n.operand.bare, []) := by
    rw [hcall.negated?_bare, hcn, Option.map_some, hparams]
  have hshape : (bareBlock opening program sections).unnegated? =
      (bareBlock opening program sections).without? n.helper n.operand.bare := by
    unfold Tree.Block.unnegated? bareBlock
    simp only [Option.bind_some, hnegated]
    rfl
  rw [Statement.unnegated?_eq hn, hshape]
  unfold BlockTag.without? Tree.Block.without?
  cases hhelper : n.helper with
  | whenFalse =>
    refine Or.inr ⟨.whenTrue, program, sections, _, rfl, ?_⟩
    rw [bareBlock, hbare, hhelper]
    rfl
  | whenTrue =>
    have hinverse : (bareBlock opening program sections).inverse = Section.bareAll sections := rfl
    rw [hinverse]
    cases sections with
    | nil =>
      refine Or.inr ⟨.whenFalse, program, [], _, rfl, ?_⟩
      rw [bareBlock, hbare, hhelper]
      rfl
    | cons first more =>
      obtain ⟨⟨tilde, lead, tail⟩, body⟩ := first
      cases tail with
      | chained call ending =>
        refine Or.inl ⟨rfl, ?_⟩
        rw [Section.bareAll_chained]
      | plain trail after =>
        refine Or.inr ⟨.whenTrue, body, ⟨⟨tilde, lead, .plain trail after⟩, program⟩ :: more,
          closing, ?_, ?_⟩
        · rw [hcallee, hhelper]
        · rw [Section.bareAll_plain, Section.bareAll_plain, bareBlock, hbare, hhelper]

/-- A block without its negation has the shape of the counterpart exactly if no words became one. -/
theorem BlockTag.Stands.unnegated?_bare {opening : BlockTag} (h : opening.Stands)
    (program : List Statement) (sections : List Section) (closing : CloseTag) :
    ((Statement.block opening program sections closing).unnegated? = none ∧
        (bareBlock opening program sections).unnegated? = none) ∨
      ∃ s' d, (Statement.block opening program sections closing).unnegated? = some s' ∧
        (bareBlock opening program sections).unnegated? = some d ∧
        (s'.bare = .block d ↔
          (Statement.block opening program sections closing).merges = false) := by
  cases hn : opening.negated? with
  | none =>
    refine Or.inl ⟨by simp [Statement.unnegated?, hn], ?_⟩
    obtain ⟨hcall, -⟩ := h
    have hnegated := hcall.negated?_bare
    unfold Tree.Block.unnegated? bareBlock
    simp only [Option.bind_some, hnegated]
    cases hcn : opening.call.negated? with
    | none => rfl
    | some n =>
      obtain ⟨-, -, -, -, hargs⟩ := hcall.negated hcn
      have hparams := hargs.bareParams_eq
      have hvs : (Arg.values n.rest).isEmpty = false := by
        simpa [BlockTag.negated?, hcn] using hn
      have hne : (Arg.bareParams n.rest).isEmpty = false := by
        rw [hparams]
        simpa using hvs
      simp only [Option.map_some, Option.bind_some, hne, Bool.false_eq_true, if_false]
  | some n =>
    obtain ⟨hcn, hvs⟩ := eq_of_blockNegated? hn
    have hcounterpart := h.counterpart hn program sections closing
    obtain ⟨hcall, -⟩ := h
    obtain ⟨-, -, -, -, hargs⟩ := hcall.negated hcn
    rcases hcounterpart with hnone | ⟨helper, program', sections', closing', hs', hd⟩
    · exact Or.inl hnone
    · refine Or.inr ⟨_, _, hs', hd, ?_⟩
      have hfreed := Call.freed_bare hcn helper
      have hparams : Arg.bareParams n.rest = [] := by
        rw [hargs.bareParams_eq, hvs]
        rfl
      rw [hparams] at hfreed
      have hmerges : (Statement.block opening program sections closing).merges = false ↔
          ¬ (opening.call.freed n (helperWord helper)).args.length < opening.call.args.length := by
        simp [Statement.merges, hs', BlockTag.withCall]
      rw [hmerges, ← hfreed, Statement.bare_block]
      simp only [bareBlock, BlockTag.withCall, Tree.Statement.block.injEq, Tree.Block.mk.injEq,
        and_true]

variable (g)

def ElseTag.apart (k : Nat) (t : ElseTag) : Bool :=
  match t.tail with
  | .plain _ _ => true
  | .chained call _ => call.apart g (k + size t.front)

mutual

/-- Whether the selected negations of a statement at `k` leave all words apart when they are taken
away. -/
def Statement.apart (k : Nat) : Statement → Bool
  | .mustache m => m.apart g k
  | .block opening program sections closing =>
    if g (.over k (Statement.block opening program sections closing).chars) &&
        (Statement.block opening program sections closing).unnegated?.isSome then
      !(Statement.block opening program sections closing).merges
    else
      opening.call.apart g (k + size opening.front) &&
        (Statement.apartAll (k + size opening.chars) program &&
          Section.apartAll (k + size opening.chars + size (Statement.charsAll program)) sections)
  | .whole opening => opening.apart g k
  | .element opening children _ =>
    opening.apart g k && Statement.apartAll (k + size opening.chars) children
  | _ => true

def Statement.apartAll (k : Nat) : List Statement → Bool
  | [] => true
  | s :: ss => Statement.apart k s && Statement.apartAll (k + size s.chars) ss

def Section.apartAll (k : Nat) : List Section → Bool
  | [] => true
  | ⟨tag, body⟩ :: ss =>
    tag.apart g k && (Statement.apartAll (k + size tag.chars) body &&
      Section.apartAll (k + size tag.chars + size (Statement.charsAll body)) ss)

end

variable {g}

/-- The shape of the edited block, where the block may be replaced as a whole. -/
theorem BlockTag.Stands.pick_bare {opening : BlockTag} (h : opening.Stands)
    (program : List Statement) (sections : List Section) (closing : CloseTag) (chosen : Bool)
    {edited : Statement} {shape : Tree.Block} {apart : Bool}
    (he : edited.bare = .block shape ↔ apart = true) :
    (pick chosen (Statement.block opening program sections closing).unnegated? edited).bare =
        .block (pick chosen (bareBlock opening program sections).unnegated? shape) ↔
      (if chosen && (Statement.block opening program sections closing).unnegated?.isSome then
        !(Statement.block opening program sections closing).merges else apart) = true := by
  rcases h.unnegated?_bare program sections closing with ⟨hs, hd⟩ | ⟨s', d, hs, hd, hmerges⟩
  · rw [hs, hd]
    simpa [pick] using he
  · rw [hs, hd]
    cases chosen with
    | true => simpa [pick] using hmerges
    | false => simpa [pick] using he

mutual

/-- A statement whose negations are taken away has the shape with their counterparts exactly if no
two words became one. -/
theorem Statement.Stands.shape_edit : ∀ {s : Statement} {rest : List Char}, s.Stands rest →
    ∀ k : Nat, (s.edit .negations g k).bare = (s.at k).shape g ↔ s.apart g k = true
  | .text cs, _, _, k => by
    simp only [Statement.edit, Statement.apart, iff_true]
    rfl
  | .comment value, _, _, k => by
    simp only [Statement.edit, Statement.apart, iff_true]
    rfl
  | .note n, _, _, k => by
    simp only [Statement.edit, Statement.apart, iff_true]
    rfl
  | .mustache m, _, h, k => by
    rw [Statement.apart, ← h.1.shape_edit k 0]
    simp only [Statement.edit, Statement.bare, Statement.at, Tree.Statement.shape,
      Tree.Statement.mustache.injEq]
  | .block opening program sections closing, _, h, k => by
    obtain ⟨hopening, hprogram, hsections, -⟩ := h
    have hcall := Call.Stands.shape_edit (g := g) hopening.1 (k + size opening.front)
    have h₂ := Statement.AllStand.shape_edit hprogram (k + size opening.chars)
    have h₃ := Section.AllStand.shape_edit hsections
      (k + size opening.chars + size (Statement.charsAll program))
    have hspan : (⟨k, k + size opening.chars + Statement.widthAll program +
        Section.widthAll sections + size closing.chars⟩ : Span) =
          .over k (Statement.block opening program sections closing).chars := by
      simp [Span.over, Statement.chars, Statement.widthAll_eq, Section.widthAll_eq, Nat.add_assoc]
    have hkept : (Statement.block (opening.edit .negations g k)
        (Statement.editAll .negations g (k + size opening.chars) program)
        (Section.editAll .negations g (k + size opening.chars + size (Statement.charsAll program))
          sections) closing).bare =
        .block ⟨(opening.call.at (k + opening.callOffset)).shape g, opening.ending.bound, default,
          ⟨Tree.Statement.shapeAll g (Statement.atAll (k + size opening.chars) program), default⟩,
          (Section.atAll (k + size opening.chars + Statement.widthAll program) sections).shape g,
          some ⟨default, default⟩, default⟩ ↔
        (opening.call.apart g (k + size opening.front) &&
          (Statement.apartAll g (k + size opening.chars) program &&
            Section.apartAll g (k + size opening.chars + size (Statement.charsAll program))
              sections)) = true := by
      rw [Statement.bare_block, Bool.and_eq_true, Bool.and_eq_true, ← hcall, ← h₂, ← h₃,
        Statement.widthAll_eq]
      simp only [bareBlock, BlockTag.edit, BlockTag.withCall, Tree.Statement.block.injEq,
        Tree.Block.mk.injEq, Tree.Body.mk.injEq, true_and, and_true]
      rfl
    have hpick := hopening.pick_bare program sections closing
      (g (.over k (Statement.block opening program sections closing).chars)) hkept
    rw [Statement.apart, ← hpick, Statement.at, Tree.Statement.shape, Tree.Block.shape, hspan,
      Call.at_bare]
    simp only [Tree.Body.shape, Statement.atAll_bare, Section.atAll_bare]
    rfl
  | .whole opening, _, h, k => by
    have hopening := h.1.shape_edit (g := g) k 0 [] [] none none (.over k opening.chars)
      (.over 0 (opening.edit .negations g k).chars) rfl
    simp only [Statement.edit, Statement.bare, Statement.at, Tree.Statement.shape,
      Tree.Statement.element.injEq, Statement.apart]
    exact hopening.trans (and_iff_left rfl)
  | .element opening children closing, _, h, k => by
    obtain ⟨hopening, -, hchildren, -⟩ := h
    have h₂ := Statement.AllStand.shape_edit hchildren (k + size opening.chars)
    rw [Statement.apart, Bool.and_eq_true, ← h₂, Statement.bare]
    simp only [Statement.edit, Statement.at, Tree.Statement.shape, Tree.Statement.element.injEq]
    rw [← Statement.atAll_bare _ (0 + size (opening.edit .negations g k).chars)]
    exact hopening.shape_edit k 0 _ _ (some _) (some _) _ _ rfl

theorem Statement.AllStand.shape_edit : ∀ {ss : List Statement} {rest : List Char},
    Statement.AllStand ss rest → ∀ k : Nat,
      Statement.bareAll (Statement.editAll .negations g k ss) =
        Tree.Statement.shapeAll g (Statement.atAll k ss) ↔ Statement.apartAll g k ss = true
  | [], _, _, _ => by
    simp only [Statement.apartAll, iff_true]
    rfl
  | s :: ss, _, h, k => by
    have h₁ := Statement.Stands.shape_edit h.1 k
    have h₂ := Statement.AllStand.shape_edit h.2 (k + size s.chars)
    rw [Statement.apartAll, Bool.and_eq_true, ← h₁, ← h₂, Statement.editAll, Statement.bareAll_cons,
      Statement.atAll, Tree.Statement.shapeAll, Statement.width_eq]
    simp only [List.cons.injEq]

theorem Section.AllStand.shape_edit : ∀ {ss : List Section} {rest : List Char},
    Section.AllStand ss rest → ∀ k : Nat,
      Section.bareAll (Section.editAll .negations g k ss) = (Section.atAll k ss).shape g ↔
        Section.apartAll g k ss = true
  | [], _, _, _ => by
    simp only [Section.apartAll, iff_true]
    rfl
  | ⟨⟨tilde, lead, .plain trail after⟩, body⟩ :: ss, _, h, k => by
    obtain ⟨-, hbody, hlast, -⟩ := h
    obtain rfl := hlast _ _ rfl
    have h₁ := Statement.AllStand.shape_edit hbody
      (k + size (ElseTag.mk tilde lead (.plain trail after)).chars)
    have hedit : ∀ body', Section.bareAll [⟨(ElseTag.mk tilde lead (.plain trail after)).edit
        .negations g k, body'⟩] = .final default ⟨Statement.bareAll body', default⟩ :=
      fun body' => Section.bareAll_plain tilde lead trail after body' []
    simp only [Section.editAll, hedit, Section.atAll, Tree.ElsePart.shape, Tree.Body.shape,
      Section.apartAll, ElseTag.apart, Bool.true_and, Bool.and_true, ← h₁,
      Tree.ElsePart.final.injEq, Tree.Body.mk.injEq, true_and, and_true]
  | ⟨⟨tilde, lead, .chained call ending⟩, body⟩ :: ss, _, h, k => by
    obtain ⟨⟨-, -, hcall, -⟩, hbody, -, hss⟩ := h
    let tag : ElseTag := ⟨tilde, lead, .chained call ending⟩
    have h₁ := Call.Stands.shape_edit (g := g) hcall (k + size tag.front)
    have h₂ := Statement.AllStand.shape_edit hbody (k + size tag.chars)
    have h₃ := Section.AllStand.shape_edit hss
      (k + size tag.chars + size (Statement.charsAll body))
    rw [Section.apartAll, Bool.and_eq_true, Bool.and_eq_true, ElseTag.apart, ← h₁, ← h₂, ← h₃,
      Section.editAll, ElseTag.edit, Section.bareAll_chained]
    simp only [Section.atAll, Tree.ElsePart.shape, Tree.Block.shape, Tree.Body.shape,
      Statement.widthAll_eq, Tree.ElsePart.chained.injEq]
    change Tree.Block.mk _ _ _ _ _ _ _ = Tree.Block.mk ((call.at (k + tag.tailOffset)).shape g)
      ending.bound default
      ⟨Tree.Statement.shapeAll g (Statement.atAll (k + size tag.chars) body), default⟩
      ((Section.atAll (k + size tag.chars + size (Statement.charsAll body)) ss).shape g) none
      default ↔ _
    simp only [Tree.Block.mk.injEq, Tree.Body.mk.injEq, true_and, and_true]
    rfl

end

end Concrete

end TemplateLint
