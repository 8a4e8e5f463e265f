import TemplateLint.Flagged.Cursor

namespace TemplateLint

open Flagged (Inverse)
open Cursor (Context)

namespace Tree

mutual

def Statement.flagged : Statement → Flagged.Statement
  | .text t => .text t
  | .comment c => .comment c
  | .mustacheComment c => .mustacheComment c
  | .mustache m => .mustache m
  | .block b => .block b.flagged
  | .element e => .element e.flagged

/-- A segment is a block that has no closing tag. -/
def Block.flagged : Block → Flagged.Block
  | ⟨call, blockParams, openSpan, program, inverse, close, span⟩ =>
    ⟨call, blockParams, openSpan, program.flagged, inverse.flagged, close, close.isNone, span⟩

def Body.flagged : Body → Flagged.Body
  | ⟨statements, span⟩ => ⟨Statement.flaggedAll statements, span⟩

def ElsePart.flagged : ElsePart → Option Inverse
  | .absent => none
  | .final elseSpan body => some ⟨elseSpan, body.flagged, false⟩
  | .chained segment =>
    some ⟨segment.openSpan, ⟨[.block segment.flagged], segment.span⟩, true⟩

def Element.flagged : Element → Flagged.Element
  | ⟨tag, tagSpan, attributes, modifiers, comments, params, children, single, opening, closing,
      span⟩ =>
    ⟨tag, tagSpan, attributes, modifiers, comments, params, Statement.flaggedAll children, single,
      opening, closing, span⟩

def Statement.flaggedAll : List Statement → List Flagged.Statement
  | [] => []
  | s :: ss => s.flagged :: Statement.flaggedAll ss

end

def Template.flagged (t : Template) : Flagged.Template := ⟨Statement.flaggedAll t.body, t.span⟩

theorem Statement.flaggedAll_eq (ss : List Statement) :
    Statement.flaggedAll ss = ss.map Statement.flagged := by
  induction ss with
  | nil => rfl
  | cons s ss ih => rw [Statement.flaggedAll, ih, List.map_cons]

theorem Statement.flaggedAll_append (ss : List Statement) (s : Statement) :
    Statement.flaggedAll (ss ++ [s]) = Statement.flaggedAll ss ++ [s.flagged] := by
  simp [flaggedAll_eq]

end Tree

namespace Cursor

variable {α β : Type}

@[simp] theorem map_throw (f : α → β) (e : Stop) :
    f <$> (throw e : Cursor α) = throw e := rfl

@[simp] theorem map_fail (f : α → β) (cause : Concrete.ParseError) (n : Nat) :
    f <$> (fail cause n : Cursor α) = fail cause n := by
  simp [fail]

theorem runAt_map (f : α → β) (m : Cursor α) (source : List Char) (n : Nat) :
    runAt source n (f <$> m) = (runAt source n m).map fun p => (f p.1, p.2) := by
  change StateT.map f (m source) n = _
  rw [StateT.map, runAt]
  cases m source n <;> rfl

theorem map_ite (f : α → β) (p : Prop) [Decidable p] (m m' : Cursor α) :
    f <$> (if p then m else m') = if p then f <$> m else f <$> m' := by
  split <;> rfl

end Cursor

namespace Flagged

open TemplateLint.Tree (Statement.flaggedAll)

variable {content : Cursor (List Tree.Statement)}

theorem body_map : body (Statement.flaggedAll <$> content) =
    Tree.Body.flagged <$> Cursor.body content := by
  simp only [body, Cursor.body, map_bind, bind_map_left, map_pure, Tree.Body.flagged]

/-- The `else` part with its flags, beside the closing tag of the block. -/
def elseOf (p : Tree.ElsePart × Tree.CloseTag) : Option Inverse × Tree.CloseTag :=
  (p.1.flagged, p.2)

def restOf (p : Tree.Body × Tree.ElsePart × Tree.CloseTag) : Body × Option Inverse × Tree.CloseTag :=
  (p.1.flagged, elseOf p.2)

theorem finalElse_map (name : List Char) (opener start : Nat) :
    finalElse (Statement.flaggedAll <$> content) name opener start =
      elseOf <$> Cursor.finalElse content name opener start := by
  simp only [finalElse, Cursor.finalElse, body_map, map_bind, bind_map_left, map_pure]
  rfl

theorem chainedElse_map (rest : Cursor (Tree.Body × Tree.ElsePart × Tree.CloseTag)) (start : Nat) :
    chainedElse (restOf <$> rest) start = elseOf <$> Cursor.chainedElse rest start := by
  simp only [chainedElse, Cursor.chainedElse, map_bind, bind_map_left, map_pure]
  rfl

theorem elseRest_map (rest : Cursor (Tree.Body × Tree.ElsePart × Tree.CloseTag)) (name : List Char)
    (opener : Nat) :
    elseRest (Statement.flaggedAll <$> content) (restOf <$> rest) name opener =
      elseOf <$> Cursor.elseRest content rest name opener := by
  simp only [elseRest, Cursor.elseRest, finalElse_map, chainedElse_map, map_bind, Cursor.map_ite]

theorem blockRestWith_map (name : List Char) (opener k : Nat) :
    blockRestWith (Statement.flaggedAll <$> content) name opener k =
      restOf <$> Cursor.blockRestWith content name opener k := by
  induction k with
  | zero => rfl
  | succ k ih =>
    simp only [blockRestWith, Cursor.blockRestWith, ih, elseRest_map, body_map, map_bind,
      bind_map_left, map_pure, Cursor.map_ite, Cursor.map_fail]
    rfl

theorem block_map : block (Statement.flaggedAll <$> content) =
    Tree.Block.flagged <$> Cursor.block content := by
  simp only [block, Cursor.block, blockRestWith_map, map_bind, bind_map_left]
  refine bind_congr fun start => bind_congr fun _ => bind_congr fun _ => bind_congr fun _ =>
    bind_congr fun _ => bind_congr fun callee => ?_
  cases callee.path? with
  | none => exact (Cursor.map_fail _ _ _).symm
  | some path =>
    simp only [map_bind, map_pure]
    rfl

theorem element_map : element (Statement.flaggedAll <$> content) =
    Tree.Element.flagged <$> Cursor.element content := by
  simp only [element, Cursor.element, Cursor.openingTag, bind_assoc, pure_bind, map_bind, bind_map_left, map_pure, Cursor.map_ite]
  rfl

theorem contentWithin_map (k : Nat) (context : Context) (found : List Tree.Statement) :
    contentWithin k context (Statement.flaggedAll found) =
      Statement.flaggedAll <$> Cursor.contentWithin k context found := by
  induction k generalizing context found with
  | zero => rfl
  | succ k ih =>
    have hnil : ∀ context, contentWithin k context [] =
        Statement.flaggedAll <$> Cursor.contentWithin k context [] := fun context => ih context []
    have hmore : ∀ s : Tree.Statement,
        contentWithin k context (Statement.flaggedAll found ++ [s.flagged]) =
          Statement.flaggedAll <$> Cursor.contentWithin k context (found ++ [s]) := fun s => by
      rw [← ih, Tree.Statement.flaggedAll_append]
    simp only [contentWithin, Cursor.contentWithin, map_bind, Cursor.map_ite, map_pure,
      Cursor.map_fail, hnil, block_map, element_map, bind_map_left, ← hmore, Tree.Statement.flagged]
    refine bind_congr fun ended => congrArg _ (bind_congr fun braces => ?_)
    refine ite_congr rfl (fun _ => bind_congr fun ahead => ?_) fun _ => rfl
    cases ahead <;>
      simp only [map_bind, Cursor.map_ite, map_pure, Cursor.map_fail, ← hmore, Tree.Statement.flagged]

theorem template_map : template = Tree.Template.flagged <$> Cursor.template := by
  have hcontent (k : Nat) := contentWithin_map k .top []
  simp only [Statement.flaggedAll] at hcontent
  simp only [template, Cursor.template, hcontent, map_bind, bind_map_left, map_pure]
  rfl

/-- The flags change nothing else about what is read. -/
theorem parse_map (source : String) :
    parse source = (Cursor.parse source).map Tree.Template.flagged := by
  rw [parse, template_map, Cursor.parse, Cursor.runAt_map]
  cases Cursor.runAt source.toList 0 Cursor.template <;> rfl

end Flagged

end TemplateLint
