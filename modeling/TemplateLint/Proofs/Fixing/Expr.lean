import TemplateLint.Proofs.Edit.Building
import TemplateLint.Proofs.Negation.Inline
import TemplateLint.Proofs.Reading.Statement
import TemplateLint.Rule.Catalogue

namespace TemplateLint

open Text (size opens)

/-- `fixed`, where there is one and it is chosen, else `kept`. -/
def pick {α : Type} (chosen : Bool) (fixed : Option α) (kept : α) : α :=
  match fixed with
  | some a => if chosen then a else kept
  | none => kept

theorem apply_pick {α β : Type} (g : α → β) (chosen : Bool) (fixed : Option α) (kept : α) :
    g (pick chosen fixed kept) = pick chosen (fixed.map g) (g kept) := by
  cases fixed with
  | none => rfl
  | some a => cases chosen <;> rfl

theorem pick_eq {α : Type} (chosen : Bool) (fixed : Option α) (kept : α) :
    pick chosen fixed kept = if chosen && fixed.isSome then fixed.getD kept else kept := by
  cases fixed with
  | none => simp [pick]
  | some a => cases chosen <;> rfl

/-- What holds of both candidates holds of the one that is picked. -/
theorem pick_induction {α : Type} {p : α → Prop} {chosen : Bool} {fixed : Option α} {kept : α}
    (hf : ∀ a, fixed = some a → p a) (hk : p kept) : p (pick chosen fixed kept) := by
  cases fixed with
  | none => exact hk
  | some a =>
    cases chosen with
    | true => exact hf a rfl
    | false => exact hk

namespace Draft

/-- A draft that is a place if there is a replacement for it. -/
def placed (inner : Draft) : Option (List Char) → Draft
  | some replacement => .place inner replacement
  | none => inner

@[simp] theorem chars_placed (d : Draft) (r : Option (List Char)) :
    (d.placed r).chars = d.chars := by
  cases r <;> rfl

theorem edited_placed (d : Draft) (r : Option (List Char)) (g : Span → Bool) (k : Nat) :
    (d.placed r).edited g k = pick (g ⟨k, k + size d.chars⟩) r (d.edited g k) := by
  cases r <;> rfl

theorem fixes_placed (d : Draft) (r : Option (List Char)) (k : Nat) :
    (d.placed r).fixes k =
      (r.map fun cs => (⟨.over k d.chars, String.ofList cs⟩ : Fix)).toList ++ d.fixes k := by
  cases r <;> rfl

theorem sound_placed {d : Draft} {r : Option (List Char)} (hd : d.Sound)
    (ho : d.opensPlain = true) (hr : ∀ cs, r = some cs → Differ d.chars cs) :
    (d.placed r).Sound := by
  cases r with
  | none => exact hd
  | some cs => exact ⟨hd, ho, hr cs rfl⟩

end Draft

/-- Which of the rules that have fixes are on: the one for negated conditions and the one for the
arguments of components. -/
structure Fixers where
  conditions : Bool
  arguments : Bool

namespace Fixers

/-- The fixes at one node. -/
def fixesAt (f : Fixers) (source : String) (node : Tree.Node) : List Fix :=
  (if f.conditions then (NegatedCondition.rule.visit source node).filterMap Finding.fix else []) ++
    if f.arguments then (ComponentArguments.rule.visit source node).filterMap Finding.fix else []

def fixesIn (f : Fixers) (source : String) (nodes : List Tree.Node) : List Fix :=
  nodes.flatMap (f.fixesAt source)

@[simp] theorem fixesIn_nil (f : Fixers) (source : String) : f.fixesIn source [] = [] := rfl

@[simp] theorem fixesIn_cons (f : Fixers) (source : String) (n : Tree.Node)
    (ns : List Tree.Node) : f.fixesIn source (n :: ns) = f.fixesAt source n ++ f.fixesIn source ns :=
  rfl

@[simp] theorem fixesIn_append (f : Fixers) (source : String) (ns ms : List Tree.Node) :
    f.fixesIn source (ns ++ ms) = f.fixesIn source ns ++ f.fixesIn source ms :=
  List.flatMap_append

@[simp] theorem fixesAt_path (f : Fixers) (source : String) (p : Tree.Path) :
    f.fixesAt source (.path p) = [] := by
  simp [fixesAt, Rule.visit, NegatedCondition.rule, ComponentArguments.rule, Tree.Node.kind]

@[simp] theorem fixesAt_literal (f : Fixers) (source : String) (l : Tree.Literal) :
    f.fixesAt source (.literal l) = [] := by
  simp [fixesAt, Rule.visit, NegatedCondition.rule, ComponentArguments.rule, Tree.Node.kind]

theorem fixesAt_subExpression (f : Fixers) (source : String) (e : Tree.SubExpression) :
    f.fixesAt source (.subExpression e) = if f.conditions then
      ((NegatedCondition.inlineFinding? source e.call e.span .subExpression).bind
        Finding.fix).toList else [] := by
  cases hc : f.conditions with
  | false => simp [fixesAt, hc, Rule.visit, ComponentArguments.rule, Tree.Node.kind]
  | true =>
    simp only [fixesAt, hc, Rule.visit, ComponentArguments.rule, NegatedCondition.rule,
      Tree.Node.kind, NegatedCondition.findings]
    cases NegatedCondition.inlineFinding? source e.call e.span .subExpression with
    | none => simp
    | some finding => cases hf : finding.fix <;> simp [hf]

/-- A call without its negation, when the rule for that is on. -/
def unnegated? (f : Fixers) (c : Concrete.Call) : Option Concrete.Call :=
  if f.conditions then c.unnegated? else none

theorem eq_of_unnegated? {f : Fixers} {c c' : Concrete.Call} (h : f.unnegated? c = some c') :
    f.conditions = true ∧ c.unnegated? = some c' := by
  unfold unnegated? at h
  split at h
  · next hc => exact ⟨hc, h⟩
  · cases h

end Fixers

namespace Concrete

variable (f : Fixers) (g : Span → Bool)

mutual

/-- The text of an expression with its places for fixes. -/
def Expr.draft : Expr → Draft
  | .word w => .text w
  | .quoted mark raw => .text (mark :: (raw ++ [mark]))
  | .group call =>
    (Draft.append (.text ['(']) (.append (Call.draft call) (.text [')']))).placed
      ((f.unnegated? call).map fun c => (Expr.group c).chars)

def Call.draft : Call → Draft
  | ⟨lead, callee, args, trail⟩ =>
    .append (.text lead) (.append (Expr.draft callee) (.append (Arg.draftAll args) (.text trail)))

def Arg.draftAll : List Arg → Draft
  | [] => .text []
  | ⟨lead, key, value⟩ :: args =>
    .append (.text (lead ++ keyChars key)) (.append (Expr.draft value) (Arg.draftAll args))

end

mutual

/-- What an expression at `k` becomes when the selected fixes are applied to it. -/
def Expr.edit (k : Nat) : Expr → Expr
  | .word w => .word w
  | .quoted mark raw => .quoted mark raw
  | .group call =>
    pick (g (.over k (Expr.group call).chars)) ((f.unnegated? call).map .group)
      (.group (Call.edit (k + 1) call))

def Call.edit (k : Nat) : Call → Call
  | ⟨lead, callee, args, trail⟩ =>
    ⟨lead, Expr.edit (k + size lead) callee,
      Arg.editAll (k + size lead + size callee.chars) args, trail⟩

def Arg.editAll (k : Nat) : List Arg → List Arg
  | [] => []
  | ⟨lead, key, value⟩ :: args =>
    ⟨lead, key, Expr.edit (k + size (lead ++ keyChars key)) value⟩ ::
      Arg.editAll (k + size (lead ++ keyChars key) + size value.chars) args

end

mutual

@[simp] theorem Expr.chars_draft : ∀ e : Expr, (e.draft f).chars = e.chars
  | .word _ => rfl
  | .quoted _ _ => rfl
  | .group call => by
    simp [Expr.draft, Draft.chars, Call.chars_draft call, Expr.chars]

@[simp] theorem Call.chars_draft : ∀ c : Call, (c.draft f).chars = c.chars
  | ⟨lead, callee, args, trail⟩ => by
    simp [Call.draft, Draft.chars, Expr.chars_draft callee, Arg.chars_draftAll args, Call.chars]

@[simp] theorem Arg.chars_draftAll : ∀ as : List Arg, (Arg.draftAll f as).chars = Arg.charsAll as
  | [] => rfl
  | ⟨lead, key, value⟩ :: args => by
    simp [Arg.draftAll, Draft.chars, Expr.chars_draft value, Arg.chars_draftAll args,
      Arg.charsAll, Arg.chars]

end

mutual

/-- The text of what an expression becomes is its draft with the selected places replaced. -/
theorem Expr.chars_edit : ∀ (e : Expr) (k : Nat),
    (e.edit f g k).chars = (e.draft f).edited g k
  | .word _, _ => rfl
  | .quoted _ _, _ => rfl
  | .group call, k => by
    have hone : size ['('] = 1 := rfl
    rw [Expr.edit, Expr.draft, Draft.edited_placed, apply_pick Expr.chars]
    simp [Draft.chars, Draft.edited, Call.chars_edit call, Expr.chars, Span.over, hone,
      Function.comp_def]

theorem Call.chars_edit : ∀ (c : Call) (k : Nat),
    (c.edit f g k).chars = (c.draft f).edited g k
  | ⟨lead, callee, args, trail⟩, k => by
    simp [Call.edit, Call.chars, Call.draft, Draft.edited, Draft.chars, Expr.chars_edit callee,
      Arg.chars_editAll args]

theorem Arg.chars_editAll : ∀ (as : List Arg) (k : Nat),
    Arg.charsAll (Arg.editAll f g k as) = (Arg.draftAll f as).edited g k
  | [], _ => rfl
  | ⟨lead, key, value⟩ :: args, k => by
    simp [Arg.editAll, Arg.charsAll, Arg.chars, Arg.draftAll, Draft.edited, Draft.chars,
      Expr.chars_edit value, Arg.chars_editAll args, Nat.add_assoc]

end

theorem differ_word {a b : Char} (h : a ≠ b) (p s t : List Char) :
    Draft.Differ (p ++ a :: s) (p ++ b :: t) := ⟨p, a, b, s, t, rfl, rfl, h⟩

/-- A call differs from one with the other helper right where the helper stands. -/
theorem differ_flip {c : Call} {n : Negated} (hn : c.negated? = some n) :
    Draft.Differ c.chars (c.freed n (helperWord n.helper.flip)).chars := by
  obtain ⟨condition, p, q, -, hc, -⟩ := negated?_at hn 0
  rw [hc, Call.freed, Call.chars_join]
  cases n.helper with
  | whenTrue => exact differ_word (a := 'i') (b := 'u') (by decide) _ _ _
  | whenFalse => exact differ_word (a := 'u') (b := 'i') (by decide) _ _ _

/-- It differs from one with the same helper where the condition loses its parentheses. -/
theorem differ_condition {c : Call} {rest : List Char} (h : c.Stands rest) {n : Negated}
    (hn : c.negated? = some n) (s : List Char) :
    Draft.Differ c.chars
      (c.lead ++ (n.helper.helper.toList ++ (n.gap ++ (n.operand.chars ++ s)))) := by
  obtain ⟨condition, hc, hhelper, ho⟩ := eq_of_negated? hn
  obtain ⟨-, -, -, hoperand, -⟩ := h.negated hn
  obtain ⟨lead, gap, trail, rfl, hgroup⟩ := eq_of_operand? ho
  have hopens := hoperand.opens s
  have hchars : c.chars = (c.lead ++ (n.helper.helper.toList ++ n.gap)) ++ '(' ::
      ((Call.mk lead (.word ['n', 'o', 't']) [⟨gap, none, n.operand⟩] trail).chars ++
        (')' :: (Arg.charsAll n.rest ++ c.trail))) := by
    rw [congrArg Call.chars hc, eq_of_helper? hhelper]
    simp [Call.chars, Arg.charsAll, Arg.chars, keyChars, helperWord, Expr.chars]
  have hfirst : ∃ d t, n.operand.chars ++ s = d :: t ∧ '(' ≠ d := by
    cases he : n.operand with
    | word w =>
      rw [he] at hoperand
      obtain ⟨⟨hne, hw⟩, -⟩ := hoperand
      cases w with
      | nil => exact absurd rfl hne
      | cons d w =>
        exact ⟨d, w ++ s, rfl, (ne_of_isWordChar (hw d (by simp)) (by decide)).symm⟩
    | quoted mark raw =>
      rw [he] at hoperand
      obtain ⟨hm, -⟩ := hoperand
      refine ⟨mark, _, rfl, ?_⟩
      rcases hm with rfl | rfl <;> decide
    | group call =>
      rw [he] at hgroup
      cases hgroup
  obtain ⟨d, t, hd, hne⟩ := hfirst
  rw [hchars, hd]
  simpa using differ_word hne (c.lead ++ (n.helper.helper.toList ++ n.gap)) _ t

theorem Call.Stands.differ {c c' : Call} {rest : List Char} (h : c.Stands rest)
    (hc : c.unnegated? = some c') : Draft.Differ c.chars c'.chars := by
  obtain ⟨n, hn, ⟨v₁, v₂, -, -, rfl⟩ | ⟨v, vs, -, -, rfl⟩⟩ := eq_of_unnegated? hc
  · obtain ⟨-, -, hhelper, -⟩ := eq_of_negated? hn
    have hcallee : c.callee.chars = n.helper.helper.toList := by
      rw [eq_of_helper? hhelper]
      rfl
    rw [Call.flipped, Call.chars_join, Arg.charsAll_join, hcallee]
    have hd := differ_condition h hn (Arg.charsAll (Arg.join v₁.lead v₂.value
      (Arg.join v₂.lead v₁.value (Arg.named n.rest))) ++ c.trail)
    simpa using hd
  · exact differ_flip hn

mutual

theorem Expr.Stands.sound : ∀ {e : Expr} {s : List Char}, e.Stands s → (e.draft f).Sound
  | .word _, _, _ => trivial
  | .quoted _ _, _, _ => trivial
  | .group call, _, h => by
    rw [Expr.Stands] at h
    have hinner : (Draft.append (.text ['(']) (.append (call.draft f) (.text [')']))).Sound :=
      ⟨trivial, Call.Stands.sound h, trivial⟩
    apply Draft.sound_placed hinner rfl
    intro cs hcs
    obtain ⟨c', hc', rfl⟩ := Option.map_eq_some_iff.1 hcs
    obtain ⟨-, hc'⟩ := Fixers.eq_of_unnegated? hc'
    have hd := ((Call.Stands.differ h hc').append [')'] [')']).append_left ['(']
    simpa [Draft.chars, Expr.chars] using hd

theorem Call.Stands.sound : ∀ {c : Call} {s : List Char}, c.Stands s → (c.draft f).Sound
  | ⟨_, _, _, _⟩, _, h => by
    obtain ⟨-, hcallee, hargs, -⟩ := h
    exact ⟨trivial, Expr.Stands.sound hcallee, Arg.AllStand.sound hargs, trivial⟩

theorem Arg.AllStand.sound : ∀ {as : List Arg} {named : Bool} {s : List Char},
    Arg.AllStand named as s → (Arg.draftAll f as).Sound
  | [], _, _, _ => trivial
  | ⟨_, none, _⟩ :: _, _, _, h => by
    obtain ⟨-, -, hv, hargs⟩ := h
    exact ⟨trivial, Expr.Stands.sound hv, Arg.AllStand.sound hargs⟩
  | ⟨_, some _, _⟩ :: _, _, _, h => by
    obtain ⟨-, -, hv, hargs⟩ := h
    exact ⟨trivial, Expr.Stands.sound hv, Arg.AllStand.sound hargs⟩

end

theorem fixesIn_wordAt (src : String) (k : Nat) (w : List Char) :
    f.fixesIn src (wordAt k w).nodes = [] := by
  rcases wordAt_eq k w with ⟨value, hw⟩ | hw <;> rw [hw] <;> simp [Tree.Expr.nodes]

mutual

/-- The fixes that are found in the tree of an expression are those of its draft. -/
theorem Expr.Stands.fixes_perm : ∀ {e : Expr} {s : List Char}, e.Stands s →
    ∀ (u v : List Char) (src : String), src = String.ofList (u ++ (e.chars ++ v)) →
      ∀ {k : Nat}, k = size u → (f.fixesIn src (e.at k).nodes).Perm ((e.draft f).fixes k)
  | .word w, _, _, _, _, src, _, k, _ => by
    rw [Expr.at, fixesIn_wordAt]
    exact .nil
  | .quoted _ _, _, _, _, _, _, _, _, _ => by
    simp [Expr.at, Tree.Expr.nodes, Expr.draft, Draft.fixes]
  | .group call, _, h, u, v, src, hsrc, k, hk => by
    rw [Expr.Stands] at h
    have hinner := Call.Stands.fixes_perm h (u ++ ['(']) ([')'] ++ v) src
      (by rw [hsrc]; simp [Expr.chars]) (k := k + 1) (by rw [hk, Text.size_append]; rfl)
    have hfix := inlineFinding?_fix h u ['('] [')'] v src
      (by rw [hsrc]; simp [Expr.chars]) .subExpression
    have hone : size ['('] = 1 := rfl
    have hwidth : (Expr.group call).width = size (['('] ++ (call.chars ++ [')'])) := by
      rw [Expr.width_eq]
      rfl
    have hplace : f.fixesAt src (.subExpression ⟨call.at (k + 1), ⟨k, k + (Expr.group call).width⟩⟩) =
        (((f.unnegated? call).map fun c => (Expr.group c).chars).map fun cs =>
          (⟨.over k (Expr.group call).chars, String.ofList cs⟩ : Fix)).toList := by
      subst hk
      rw [hone] at hfix
      rw [Fixers.fixesAt_subExpression]
      simp only [hwidth, hfix, Fixers.unnegated?]
      cases f.conditions with
      | false => rfl
      | true => simp [Span.over, Expr.chars, Function.comp_def]
    rw [Expr.at, Tree.Expr.nodes, Fixers.fixesIn_cons, hplace, Expr.draft, Draft.fixes_placed]
    simp only [Draft.fixes, Draft.chars, Call.chars_draft, List.append_nil, List.nil_append, hone]
    exact hinner.append_left _

theorem Call.Stands.fixes_perm : ∀ {c : Call} {s : List Char}, c.Stands s →
    ∀ (u v : List Char) (src : String), src = String.ofList (u ++ (c.chars ++ v)) →
      ∀ {k : Nat}, k = size u → (f.fixesIn src (c.at k).nodes).Perm ((c.draft f).fixes k)
  | ⟨lead, callee, args, trail⟩, _, h, u, v, src, hsrc, k, hk => by
    obtain ⟨-, hcallee, hargs, -⟩ := h
    have h₁ := Expr.Stands.fixes_perm hcallee (u ++ lead) (Arg.charsAll args ++ (trail ++ v))
      src (by rw [hsrc]; simp [Call.chars]) (k := k + size lead)
      (by rw [hk, Text.size_append])
    have h₂ := Arg.AllStand.fixes_perm hargs (u ++ lead ++ callee.chars) (trail ++ v)
      src (by rw [hsrc]; simp [Call.chars]) (k := k + size lead + size callee.chars)
      (by rw [hk, Text.size_append, Text.size_append])
    simp only [Call.at, Tree.Call.nodes, Fixers.fixesIn_append, List.append_assoc, Call.draft,
      Draft.fixes, Draft.chars, List.nil_append, List.append_nil, Expr.width_eq, Expr.chars_draft]
    exact h₁.append h₂

/-- The tree has the named arguments of a call behind the positional ones, so the order of the fixes
need not be that of the draft. -/
theorem Arg.AllStand.fixes_perm : ∀ {as : List Arg} {named : Bool} {s : List Char},
    Arg.AllStand named as s → ∀ (u v : List Char) (src : String),
      src = String.ofList (u ++ (Arg.charsAll as ++ v)) → ∀ {k : Nat}, k = size u →
        (f.fixesIn src (Tree.Expr.nodesAll (Arg.paramsAt k as)) ++
          f.fixesIn src (Tree.HashPair.nodesAll (Arg.hashAt k as))).Perm
            ((Arg.draftAll f as).fixes k)
  | [], _, _, _, _, _, _, _, _, _ => .nil
  | ⟨lead, none, value⟩ :: args, _, _, h, u, v, src, hsrc, k, hk => by
    obtain ⟨-, -, hv, hargs⟩ := h
    have h₁ := Expr.Stands.fixes_perm hv (u ++ lead) (Arg.charsAll args ++ v) src
      (by rw [hsrc]; simp [Arg.charsAll, Arg.chars, keyChars]) (k := k + size lead)
      (by rw [hk, Text.size_append])
    have h₂ := Arg.AllStand.fixes_perm hargs (u ++ lead ++ value.chars) v src
      (by rw [hsrc]; simp [Arg.charsAll, Arg.chars, keyChars])
      (k := k + size lead + size value.chars) (by rw [hk, Text.size_append, Text.size_append])
    simp only [Arg.paramsAt, Arg.hashAt, Tree.Expr.nodesAll, Arg.draftAll, Draft.fixes, Draft.chars,
      keyChars, Expr.width_eq, Expr.chars_draft, Text.size_nil, Nat.add_zero, List.append_nil,
      List.nil_append, Fixers.fixesIn_append, List.append_assoc]
    exact h₁.append h₂
  | ⟨lead, some key, value⟩ :: args, _, _, h, u, v, src, hsrc, k, hk => by
    obtain ⟨-, -, hv, hargs⟩ := h
    have hkey : k + size (lead ++ keyChars (some key)) = k + size lead + size key + 1 := by
      rw [Text.size_append, keyChars, Text.size_append, ← Nat.add_assoc, ← Nat.add_assoc]
      rfl
    have hwidth : k + size lead + size (keyChars (some key)) + value.width =
        k + size lead + size key + 1 + size value.chars := by
      rw [← hkey, Expr.width_eq, Text.size_append, Nat.add_assoc k]
    have h₁ := Expr.Stands.fixes_perm hv (u ++ (lead ++ keyChars (some key)))
      (Arg.charsAll args ++ v) src (by rw [hsrc]; simp [Arg.charsAll, Arg.chars])
      (k := k + size lead + size key + 1) (by rw [← hkey, hk, ← Text.size_append])
    have h₂ := Arg.AllStand.fixes_perm hargs (u ++ (lead ++ keyChars (some key)) ++ value.chars) v
      src (by rw [hsrc]; simp [Arg.charsAll, Arg.chars])
      (k := k + size lead + size key + 1 + size value.chars)
      (by rw [← hkey, hk, ← Text.size_append, ← Text.size_append])
    simp only [Arg.paramsAt, Arg.hashAt, Tree.HashPair.nodesAll, Arg.draftAll, Draft.fixes,
      Draft.chars, Fixers.fixesIn_append, List.nil_append, Expr.chars_draft, hwidth, hkey]
    exact (List.perm_append_comm_assoc _ _ _).trans (h₁.append h₂)

end

theorem Expr.head_edit (e : Expr) (k : Nat) (s : List Char) :
    ((e.edit f g k).chars ++ s).head? = (e.chars ++ s).head? := by
  cases e with
  | word w => rfl
  | quoted mark raw => rfl
  | group call =>
    rw [Expr.edit]
    apply pick_induction
      (p := fun e : Expr => (e.chars ++ s).head? = ((Expr.group call).chars ++ s).head?)
    · intro a ha
      obtain ⟨c, -, rfl⟩ := Option.map_eq_some_iff.1 ha
      rfl
    · rfl

theorem head_append_congr {s t : List Char} (h : s.head? = t.head?) (u : List Char) :
    (u ++ s).head? = (u ++ t).head? := by
  cases u with
  | nil => exact h
  | cons c u => rfl

theorem Arg.head_editAll (as : List Arg) (k : Nat) (s : List Char) :
    (Arg.charsAll (Arg.editAll f g k as) ++ s).head? = (Arg.charsAll as ++ s).head? := by
  induction as generalizing k with
  | nil => rfl
  | cons a as ih =>
    obtain ⟨lead, key, value⟩ := a
    simp only [Arg.editAll, Arg.charsAll, Arg.chars, List.append_assoc]
    apply head_append_congr
    apply head_append_congr
    rw [Expr.head_edit]
    exact head_append_congr (ih _) value.chars

mutual

/-- An expression with fixes applied stands where it stood before. -/
theorem Expr.Stands.edit : ∀ {e : Expr} {s : List Char}, e.Stands s →
    ∀ k : Nat, (e.edit f g k).Stands s
  | .word _, _, h, _ => h
  | .quoted _ _, _, h, _ => h
  | .group call, s, h, k => by
    rw [Expr.Stands] at h
    rw [Expr.edit]
    apply pick_induction (p := fun e : Expr => e.Stands s)
    · intro a ha
      obtain ⟨c, hc, rfl⟩ := Option.map_eq_some_iff.1 ha
      obtain ⟨-, hc⟩ := Fixers.eq_of_unnegated? hc
      exact Call.Stands.unnegated h rfl hc
    · exact Call.Stands.edit h (k + 1)

theorem Call.Stands.edit : ∀ {c : Call} {s : List Char}, c.Stands s →
    ∀ k : Nat, (c.edit f g k).Stands s
  | ⟨lead, callee, args, trail⟩, s, h, k => by
    obtain ⟨hlead, hcallee, hargs, htrail⟩ := h
    have hhead := Arg.head_editAll f g args (k + size lead + size callee.chars) (trail ++ s)
    have hopens := opens_of_head (p := isWordChar) hhead []
    have hc := Expr.Stands.edit hcallee (k + size lead)
    exact ⟨hlead, (Expr.stands_congr _ hopens).2 hc, Arg.AllStand.edit hargs _, htrail⟩

theorem Arg.AllStand.edit : ∀ {as : List Arg} {named : Bool} {s : List Char},
    Arg.AllStand named as s → ∀ k : Nat, Arg.AllStand named (Arg.editAll f g k as) s
  | [], _, _, _, _ => trivial
  | ⟨lead, none, value⟩ :: args, named, s, h, k => by
    obtain ⟨hlead, hnamed, hv, hargs⟩ := h
    have hhead := Arg.head_editAll f g args (k + size (lead ++ keyChars none) + size value.chars) s
    have hopens := opens_of_head (p := isWordChar) hhead []
    have hv := Expr.Stands.edit hv (k + size (lead ++ keyChars none))
    exact ⟨hlead, hnamed, (Expr.stands_congr _ hopens).2 hv, Arg.AllStand.edit hargs _⟩
  | ⟨lead, some key, value⟩ :: args, named, s, h, k => by
    obtain ⟨hlead, hkey, hv, hargs⟩ := h
    have hhead := Arg.head_editAll f g args
      (k + size (lead ++ keyChars (some key)) + size value.chars) s
    have hopens := opens_of_head (p := isWordChar) hhead []
    have hv := Expr.Stands.edit hv (k + size (lead ++ keyChars (some key)))
    exact ⟨hlead, hkey, (Expr.stands_congr _ hopens).2 hv, Arg.AllStand.edit hargs _⟩

end

end Concrete

end TemplateLint
