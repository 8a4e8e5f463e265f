import TemplateLint.Proofs.Fixing.Statement
import TemplateLint.Proofs.Negation.Counterpart

namespace TemplateLint

open Text (size)

/-- The choice of no range. -/
def nowhere (_ : Span) : Bool := false

namespace Tree

variable (g : Span → Bool)

mutual

/-- An expression without ranges, selected calls without their negation. -/
def Expr.shape (g : Span → Bool) : Expr → Expr
  | .path ⟨text, _⟩ => .path ⟨text, default⟩
  | .literal ⟨value, _⟩ => .literal ⟨value, default⟩
  | .subExpression ⟨call, span⟩ =>
    .subExpression ⟨pick (g span) (Call.shape nowhere call).unnegated? (Call.shape g call), default⟩

def Call.shape (g : Span → Bool) : Call → Call
  | ⟨callee, params, hash⟩ =>
    ⟨Expr.shape g callee, Expr.shapeAll g params, HashPair.shapeAll g hash⟩

def Expr.shapeAll (g : Span → Bool) : List Expr → List Expr
  | [] => []
  | e :: es => Expr.shape g e :: Expr.shapeAll g es

def HashPair.shapeAll (g : Span → Bool) : List HashPair → List HashPair
  | [] => []
  | ⟨key, value, _⟩ :: ps => ⟨key, Expr.shape g value, default⟩ :: HashPair.shapeAll g ps

end

def TextRun.shape (t : TextRun) : TextRun := ⟨t.chars, default⟩

def Comment.shape (c : Comment) : Comment := ⟨c.value, default⟩

def CloseTag.shape (_ : CloseTag) : CloseTag := ⟨default, default⟩

def Mustache.shape (m : Mustache) : Mustache :=
  ⟨pick (g m.span) (m.call.shape nowhere).unnegated? (m.call.shape g), m.trusting, default⟩

def ElementModifier.shape (m : ElementModifier) : ElementModifier := ⟨m.call.shape g, default⟩

def ConcatPart.shape : ConcatPart → ConcatPart
  | .text t => .text t.shape
  | .mustache m => .mustache (m.shape g)

def AttrValue.shape : AttrValue → AttrValue
  | .valueless => .valueless
  | .text t => .text t.shape
  | .mustache m => .mustache (m.shape g)
  | .concat parts _ => .concat (parts.map (ConcatPart.shape g)) default

def Attribute.shape (a : Attribute) : Attribute := ⟨a.name, default, a.value.shape g, default⟩

mutual

def Statement.shape (g : Span → Bool) : Statement → Statement
  | .text t => .text t.shape
  | .comment c => .comment c.shape
  | .mustacheComment c => .mustacheComment c.shape
  | .mustache m => .mustache (m.shape g)
  | .block b => .block (Block.shape g b)
  | .element e => .element (Element.shape g e)

def Block.shape (g : Span → Bool) : Block → Block
  | ⟨call, blockParams, _, program, inverse, close, span⟩ =>
    pick (g span)
      (Block.mk (call.shape nowhere) blockParams default (Body.shape nowhere program)
        (ElsePart.shape nowhere inverse) (close.map CloseTag.shape) default).unnegated?
      ⟨call.shape g, blockParams, default, Body.shape g program, ElsePart.shape g inverse,
        close.map CloseTag.shape, default⟩

def Body.shape (g : Span → Bool) : Body → Body
  | ⟨statements, _⟩ => ⟨Statement.shapeAll g statements, default⟩

def ElsePart.shape (g : Span → Bool) : ElsePart → ElsePart
  | .absent => .absent
  | .final _ body => .final default (Body.shape g body)
  | .chained segment => .chained (Block.shape g segment)

def Element.shape (g : Span → Bool) : Element → Element
  | ⟨tag, _, attributes, modifiers, comments, blockParams, children, selfClosing, _, closeSpan, _⟩ =>
    ⟨tag, default, attributes.map (Attribute.shape g), modifiers.map (ElementModifier.shape g),
      comments.map Comment.shape, blockParams, Statement.shapeAll g children, selfClosing, default,
      closeSpan.map fun _ => default, default⟩

def Statement.shapeAll (g : Span → Bool) : List Statement → List Statement
  | [] => []
  | s :: ss => Statement.shape g s :: Statement.shapeAll g ss

end

/-- The shape of a template: its tree without ranges, where every selected call and block with a
negated condition is replaced by its counterpart. -/
def Template.shape (t : Template) : Template := ⟨Statement.shapeAll g t.body, default⟩

end Tree

namespace Concrete

theorem pick_nowhere {α : Type} (s : Span) (fixed : Option α) (kept : α) :
    pick (nowhere s) fixed kept = kept := by
  cases fixed <;> rfl

theorem shape_wordAt (g : Span → Bool) (k j : Nat) (w : List Char) :
    (wordAt k w).shape g = (wordAt j w).shape nowhere := by
  unfold wordAt
  simp only [apply_ite (Tree.Expr.shape g), apply_ite (Tree.Expr.shape nowhere)]
  rfl

mutual

/-- The shape of an expression is the same wherever it stands. -/
theorem Expr.shape_at : ∀ (e : Expr) (k j : Nat),
    (e.at k).shape nowhere = (e.at j).shape nowhere
  | .word w, k, j => shape_wordAt nowhere k j w
  | .quoted _ _, _, _ => rfl
  | .group call, k, j => by
    simp only [Expr.at, Tree.Expr.shape, pick_nowhere, Call.shape_at call (k + 1) (j + 1)]

theorem Call.shape_at : ∀ (c : Call) (k j : Nat),
    (c.at k).shape nowhere = (c.at j).shape nowhere
  | ⟨lead, callee, args, _⟩, k, j => by
    simp only [Call.at, Tree.Call.shape]
    rw [Expr.shape_at callee (k + size lead) (j + size lead),
      Arg.shape_paramsAt args (k + size lead + callee.width) (j + size lead + callee.width),
      Arg.shape_hashAt args (k + size lead + callee.width) (j + size lead + callee.width)]

theorem Arg.shape_paramsAt : ∀ (as : List Arg) (k j : Nat),
    Tree.Expr.shapeAll nowhere (Arg.paramsAt k as) = Tree.Expr.shapeAll nowhere (Arg.paramsAt j as)
  | [], _, _ => rfl
  | ⟨lead, key, value⟩ :: args, k, j => by
    have hargs := Arg.shape_paramsAt args (k + size lead + size (keyChars key) + value.width)
      (j + size lead + size (keyChars key) + value.width)
    cases key with
    | none =>
      simp only [Arg.paramsAt, Tree.Expr.shapeAll, hargs]
      rw [Expr.shape_at value (k + size lead) (j + size lead)]
    | some key => exact hargs

theorem Arg.shape_hashAt : ∀ (as : List Arg) (k j : Nat),
    Tree.HashPair.shapeAll nowhere (Arg.hashAt k as) =
      Tree.HashPair.shapeAll nowhere (Arg.hashAt j as)
  | [], _, _ => rfl
  | ⟨lead, key, value⟩ :: args, k, j => by
    have hargs := Arg.shape_hashAt args (k + size lead + size (keyChars key) + value.width)
      (j + size lead + size (keyChars key) + value.width)
    cases key with
    | none => exact hargs
    | some key =>
      simp only [Arg.hashAt, Tree.HashPair.shapeAll, hargs]
      rw [Expr.shape_at value (k + size lead + size key + 1) (j + size lead + size key + 1)]

end

theorem Mustache.shape_at (m : Mustache) (k j : Nat) :
    (m.at k).shape nowhere = (m.at j).shape nowhere := by
  simp only [Mustache.at, Tree.Mustache.shape, pick_nowhere]
  rw [Call.shape_at m.call (k + size m.opening) (j + size m.opening)]

theorem Part.shape_at (ps : List Part) (k j : Nat) :
    (Part.atAll k ps).map (Tree.ConcatPart.shape nowhere) =
      (Part.atAll j ps).map (Tree.ConcatPart.shape nowhere) := by
  induction ps generalizing k j with
  | nil => rfl
  | cons p ps ih =>
    cases p with
    | text cs =>
      simp only [Part.atAll, List.map_cons, ih (k + size cs) (j + size cs)]
      rfl
    | mustache m =>
      simp only [Part.atAll, List.map_cons, ih (k + size m.chars) (j + size m.chars),
        Tree.ConcatPart.shape, m.shape_at k j]

theorem AttrValue.shape_at (v : AttrValue) (k j : Nat) :
    (v.at k).shape nowhere = (v.at j).shape nowhere := by
  cases v with
  | quoted mark parts =>
    have hparts := Part.shape_at parts (k + size [mark]) (j + size [mark])
    simp only [AttrValue.at]
    split
    · simp only [Tree.AttrValue.shape, hparts]
    · rfl
  | mustache m => simp only [AttrValue.at, Tree.AttrValue.shape, m.shape_at k j]
  | bare cs => rfl

theorem Attribute.shape_at (a : Attribute) (k j : Nat) :
    (a.at k).shape nowhere = (a.at j).shape nowhere := by
  obtain ⟨name, assigned⟩ := a
  cases assigned with
  | none => rfl
  | some v =>
    simp only [Attribute.at, Tree.Attribute.shape]
    rw [v.value.shape_at _ (j + size name + size v.before + 1 + size v.after)]

theorem Spaced.shape_at (ss : List Spaced) (k j : Nat) :
    (attributesAt k ss).map (Tree.Attribute.shape nowhere) =
        (attributesAt j ss).map (Tree.Attribute.shape nowhere) ∧
      (modifiersAt k ss).map (Tree.ElementModifier.shape nowhere) =
        (modifiersAt j ss).map (Tree.ElementModifier.shape nowhere) ∧
      (notesAt k ss).map Tree.Comment.shape = (notesAt j ss).map Tree.Comment.shape := by
  induction ss generalizing k j with
  | nil => exact ⟨rfl, rfl, rfl⟩
  | cons s ss ih =>
    obtain ⟨lead, item⟩ := s
    obtain ⟨hattributes, hmodifiers, hnotes⟩ :=
      ih (k + size (Spaced.mk lead item).chars) (j + size (Spaced.mk lead item).chars)
    simp only [attributesAt_cons, modifiersAt_cons, notesAt_cons, List.map_append, hattributes,
      hmodifiers, hnotes]
    match item with
    | .attribute a =>
      have ha := a.shape_at (k + size lead) (j + size lead)
      exact ⟨by simp [ha], rfl, rfl⟩
    | .modifier m =>
      have hm := Call.shape_at m.call (k + size lead + size m.opening)
        (j + size lead + size m.opening)
      exact ⟨rfl, by simp [Mustache.at, Tree.ElementModifier.shape, hm], rfl⟩
    | .note n => exact ⟨rfl, rfl, rfl⟩
    | .params p => exact ⟨rfl, rfl, rfl⟩

/-- The shape of an element by its opening tag and its children. -/
theorem OpeningTag.shape_eq (g : Span → Bool) (t : OpeningTag) (k : Nat)
    (children : List Tree.Statement) (closeSpan : Option Span) (span : Span) :
    Tree.Element.shape g { t.at k with children, closeSpan, span } =
      { tag := String.ofList t.name
        tagSpan := default
        attributes := (t.at k).attributes.map (Tree.Attribute.shape g)
        modifiers := (t.at k).modifiers.map (Tree.ElementModifier.shape g)
        comments := (t.at k).comments.map Tree.Comment.shape
        blockParams := boundBy [] t.items
        children := Tree.Statement.shapeAll g children
        selfClosing := t.selfClosing
        openSpan := default
        closeSpan := closeSpan.map fun _ => default
        span := default } := by
  rw [Tree.Element.shape, ← t.at_blockParams k]
  rfl

theorem OpeningTag.shape_at (t : OpeningTag) (k j : Nat) :
    (t.at k).attributes.map (Tree.Attribute.shape nowhere) =
        (t.at j).attributes.map (Tree.Attribute.shape nowhere) ∧
      (t.at k).modifiers.map (Tree.ElementModifier.shape nowhere) =
        (t.at j).modifiers.map (Tree.ElementModifier.shape nowhere) ∧
      (t.at k).comments.map Tree.Comment.shape = (t.at j).comments.map Tree.Comment.shape := by
  obtain ⟨hk₁, hk₂, hk₃⟩ := t.at_items k
  obtain ⟨hj₁, hj₂, hj₃⟩ := t.at_items j
  rw [hk₁, hk₂, hk₃, hj₁, hj₂, hj₃]
  exact Spaced.shape_at _ _ _

mutual

/-- The shape of a statement is the same wherever it stands. -/
theorem Statement.shape_at : ∀ (s : Statement) (k j : Nat),
    (s.at k).shape nowhere = (s.at j).shape nowhere
  | .text _, _, _ => rfl
  | .comment _, _, _ => rfl
  | .note _, _, _ => rfl
  | .mustache m, k, j => by
    simp only [Statement.at, Tree.Statement.shape, m.shape_at k j]
  | .block opening program sections closing, k, j => by
    have hcall := Call.shape_at opening.call (k + opening.callOffset) (j + opening.callOffset)
    have hprogram := Statement.shape_atAll program (k + size opening.chars) (j + size opening.chars)
    have hsections := Section.shape_at sections
      (k + size opening.chars + Statement.widthAll program)
      (j + size opening.chars + Statement.widthAll program)
    simp only [Statement.at, Tree.Statement.shape, Tree.Block.shape, Tree.Body.shape, pick_nowhere,
      hcall, hprogram, hsections]
    rfl
  | .whole opening, k, j => by
    obtain ⟨h₁, h₂, h₃⟩ := opening.shape_at k j
    have hshape := fun k => opening.shape_eq nowhere k [] none (.over k opening.chars)
    simp only [Statement.at, Tree.Statement.shape]
    refine congrArg Tree.Statement.element ((hshape k).trans ((hshape j).trans ?_).symm)
    rw [h₁, h₂, h₃]
  | .element opening children closing, k, j => by
    obtain ⟨h₁, h₂, h₃⟩ := opening.shape_at k j
    have hchildren := Statement.shape_atAll children (k + size opening.chars)
      (j + size opening.chars)
    simp only [Statement.at, Tree.Statement.shape]
    rw [opening.shape_eq, opening.shape_eq, h₁, h₂, h₃, hchildren]
    rfl

theorem Statement.shape_atAll : ∀ (ss : List Statement) (k j : Nat),
    Tree.Statement.shapeAll nowhere (Statement.atAll k ss) =
      Tree.Statement.shapeAll nowhere (Statement.atAll j ss)
  | [], _, _ => rfl
  | s :: ss, k, j => by
    simp only [Statement.atAll, Tree.Statement.shapeAll]
    rw [Statement.shape_at s k j, Statement.shape_atAll ss (k + s.width) (j + s.width)]

theorem Section.shape_at : ∀ (ss : List Section) (k j : Nat),
    (Section.atAll k ss).shape nowhere = (Section.atAll j ss).shape nowhere
  | [], _, _ => rfl
  | ⟨⟨tilde, lead, .plain trail after⟩, body⟩ :: ss, k, j => by
    let tag : ElseTag := ⟨tilde, lead, .plain trail after⟩
    have hbody := Statement.shape_atAll body (k + size tag.chars) (j + size tag.chars)
    simp only [Section.atAll, Tree.ElsePart.shape, Tree.Body.shape]
    rw [hbody]
  | ⟨⟨tilde, lead, .chained call ending⟩, body⟩ :: ss, k, j => by
    let tag : ElseTag := ⟨tilde, lead, .chained call ending⟩
    have hcall := Call.shape_at call (k + tag.tailOffset) (j + tag.tailOffset)
    have hbody := Statement.shape_atAll body (k + size tag.chars) (j + size tag.chars)
    have hsections := Section.shape_at ss (k + size tag.chars + Statement.widthAll body)
      (j + size tag.chars + Statement.widthAll body)
    simp only [Section.atAll, Tree.ElsePart.shape, Tree.Block.shape, Tree.Body.shape, pick_nowhere]
    rw [hcall, hbody, hsections]

end

end Concrete

end TemplateLint
