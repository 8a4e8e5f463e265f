import Mathlib.Data.List.Pairwise
import TemplateLint.Tree.Node

namespace TemplateLint

namespace Span

/-- The first range lies in the second. -/
def Inside (s t : Span) : Prop := t.start ≤ s.start ∧ s.stop ≤ t.stop

/-- No byte is in both ranges. -/
def Apart (s t : Span) : Prop := s.stop ≤ t.start ∨ t.stop ≤ s.start

theorem Inside.refl (s : Span) : s.Inside s := ⟨Nat.le_refl _, Nat.le_refl _⟩

theorem Inside.trans {s t u : Span} (hst : s.Inside t) (htu : t.Inside u) : s.Inside u :=
  ⟨Nat.le_trans htu.1 hst.1, Nat.le_trans hst.2 htu.2⟩

theorem Apart.symm {s t : Span} (h : s.Apart t) : t.Apart s := Or.symm h

theorem Apart.inside {s t s' t' : Span} (h : s.Apart t) (hs : s'.Inside s) (ht : t'.Inside t) :
    s'.Apart t' := by
  unfold Apart Inside at *
  omega

end Span

namespace Tree

def Expr.node : Expr → Node
  | .path p => .path p
  | .literal l => .literal l
  | .subExpression e => .subExpression e

def ConcatPart.node : ConcatPart → Node
  | .text t => .text t
  | .mustache m => .mustache m

def Statement.node : Statement → Node
  | .text t => .text t
  | .comment c => .comment c
  | .mustacheComment c => .mustacheComment c
  | .mustache m => .mustache m
  | .block b => .block b
  | .element e => .element e

theorem Expr.node_span (e : Expr) : e.node.span = e.span := by
  cases e <;> rfl

theorem Statement.node_span (s : Statement) : s.node.span = s.span := by
  cases s <;> rfl

inductive Piece where
  | node (n : Node)
  | pair (p : HashPair)
  | concat (parts : List ConcatPart) (span : Span)

def Piece.span : Piece → Span
  | .node n => n.span
  | .pair p => p.span
  | .concat _ span => span

/-- The callee, the positional and then the named arguments. -/
def Call.parts (c : Call) : List Piece :=
  .node c.callee.node :: (c.params.map (fun e => .node e.node) ++ c.hash.map .pair)

def AttrValue.parts : AttrValue → List Piece
  | .valueless => []
  | .text t => [.node (.text t)]
  | .mustache m => [.node (.mustache m)]
  | .concat parts span => [.concat parts span]

def Statement.parts (ss : List Statement) : List Piece := ss.map fun s => .node s.node

/-- A segment of a chain is part of the block or segment before it. -/
def ElsePart.parts : ElsePart → List Piece
  | .absent => []
  | .final _ body => Statement.parts body.statements
  | .chained segment => [.node (.block segment)]

def Node.parts : Node → List Piece
  | .template t => Statement.parts t.body
  | .mustache m => m.call.parts
  | .block b => b.call.parts ++ (Statement.parts b.program.statements ++ b.inverse.parts)
  | .subExpression e => e.call.parts
  | .element e =>
    e.attributes.map (fun a => .node (.attribute a)) ++
      e.modifiers.map (fun m => .node (.elementModifier m)) ++
      e.comments.map (fun c => .node (.mustacheComment c)) ++ Statement.parts e.children
  | .attribute a => a.value.parts
  | .elementModifier m => m.call.parts
  | .text _ | .comment _ | .mustacheComment _ | .path _ | .literal _ => []

/-- The items of an opening tag, kind by kind. -/
def Element.openingParts (e : Element) : List Piece :=
  e.attributes.map (fun a => .node (.attribute a)) ++
    e.modifiers.map (fun m => .node (.elementModifier m)) ++
    e.comments.map fun c => .node (.mustacheComment c)

/-- The pieces directly inside a piece. -/
def Piece.parts : Piece → List Piece
  | .node n => n.parts
  | .pair p => [.node p.value.node]
  | .concat parts _ => parts.map fun p => .node p.node

/-- The ranges of two pieces have no byte in common. -/
def Piece.Apart (p q : Piece) : Prop := p.span.Apart q.span

/-- A piece ends where another starts, or before. -/
def Piece.Before (p q : Piece) : Prop := p.span.stop ≤ q.span.start

instance : Std.Symm Piece.Apart := ⟨fun _ _ => Span.Apart.symm⟩

theorem Piece.Before.apart {p q : Piece} (h : p.Before q) : p.Apart q := .inl h

/-- The call of a node that is one. -/
def Node.call? : Node → Option Call
  | .mustache m => some m.call
  | .block b => some b.call
  | .subExpression e => some e.call
  | .elementModifier m => some m.call
  | _ => none

/-- A piece holds itself and what its parts hold. -/
inductive Piece.Holds : Piece → Piece → Prop
  | refl (p : Piece) : Holds p p
  | part {p q r : Piece} (hq : q ∈ p.parts) (hr : Holds q r) : Holds p r

/-- The pieces of a template, itself among them. -/
def Template.Holds (t : Template) (p : Piece) : Prop := (Piece.node (.template t)).Holds p

namespace Piece

theorem Holds.trans {p q r : Piece} (hpq : p.Holds q) (hqr : q.Holds r) : p.Holds r := by
  induction hpq with
  | refl => exact hqr
  | part hq _ ih => exact .part hq (ih hqr)

/-- The ranges of the parts lie in the range of the piece, each apart from the others. -/
def Nested (p : Piece) : Prop :=
  (∀ q ∈ p.parts, q.span.Inside p.span) ∧ p.parts.Pairwise Piece.Apart

theorem Holds.inside {p q : Piece} (h : p.Holds q) (hp : ∀ r, p.Holds r → r.Nested) :
    q.span.Inside p.span := by
  induction h with
  | refl p => exact .refl _
  | @part p q r hq _ ih =>
    have hin := (hp p (.refl p)).1 q hq
    exact (ih fun s hs => hp s (.part hq hs)).trans hin

/-- Where the parts of every piece are nested, any two pieces are: one lies in the other, or they are
apart. -/
theorem Holds.nested_or_apart {p q r : Piece} (hp : ∀ s, p.Holds s → s.Nested) (hq : p.Holds q)
    (hr : p.Holds r) :
    q.span.Inside r.span ∨ r.span.Inside q.span ∨ q.Apart r := by
  induction hq with
  | refl p => exact .inr (.inl (hr.inside hp))
  | @part p c q hc hq ih =>
    have hbelow : ∀ s, c.Holds s → s.Nested := fun s hs => hp s (.part hc hs)
    cases hr with
    | refl => exact .inl ((Holds.part hc hq).inside hp)
    | @part _ d _ hd hr =>
      by_cases hcd : c = d
      · subst hcd
        exact ih hbelow hr
      · have hapart : c.Apart d := (hp p (.refl p)).2.forall hc hd hcd
        have hd' : ∀ s, d.Holds s → s.Nested := fun s hs => hp s (.part hd hs)
        exact .inr (.inr (Span.Apart.inside hapart (hq.inside hbelow) (hr.inside hd')))

end Piece

end Tree

end TemplateLint
