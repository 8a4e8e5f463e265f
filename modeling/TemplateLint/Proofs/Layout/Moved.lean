import TemplateLint.Proofs.Layout.Range

namespace TemplateLint

open Text (size)

namespace Span

/-- The range `n` bytes further on. -/
def forward (n : Nat) (s : Span) : Span := ⟨n + s.start, n + s.stop⟩

/-- The range `n` bytes before. -/
def back (n : Nat) (s : Span) : Span := ⟨s.start - n, s.stop - n⟩

/-- Ranges from `k` on are moved to where `j` is in place of `k`. -/
def Moves (f : Span → Span) (k j : Nat) : Prop := ∀ a b, f ⟨k + a, k + b⟩ = ⟨j + a, j + b⟩

theorem moves_forward (n k : Nat) : Moves (forward n) k (n + k) := by
  intro a b
  simp only [forward, Nat.add_assoc]

theorem moves_back (n k : Nat) : Moves (back n) (n + k) k := by
  intro a b
  simp only [back, Span.mk.injEq]
  omega

variable {f : Span → Span} {k j : Nat}

theorem Moves.add (h : Moves f k j) (n : Nat) : Moves f (k + n) (j + n) := by
  intro a b
  have hn := h (n + a) (n + b)
  simpa only [Nat.add_assoc] using hn

theorem Moves.range (h : Moves f k j) (n : Nat) : f ⟨k, k + n⟩ = ⟨j, j + n⟩ := h 0 n

theorem Moves.over (h : Moves f k j) (cs : List Char) : f (.over k cs) = .over j cs :=
  h.range (size cs)

end Span

namespace Tree

variable (f : Span → Span)

mutual

/-- The expression with `f` applied to every range in it. -/
def Expr.respan (f : Span → Span) : Expr → Expr
  | .path ⟨text, span⟩ => .path ⟨text, f span⟩
  | .literal ⟨value, span⟩ => .literal ⟨value, f span⟩
  | .subExpression ⟨call, span⟩ => .subExpression ⟨Call.respan f call, f span⟩

def Call.respan (f : Span → Span) : Call → Call
  | ⟨callee, params, hash⟩ =>
    ⟨Expr.respan f callee, Expr.respanAll f params, HashPair.respanAll f hash⟩

def Expr.respanAll (f : Span → Span) : List Expr → List Expr
  | [] => []
  | e :: es => Expr.respan f e :: Expr.respanAll f es

def HashPair.respanAll (f : Span → Span) : List HashPair → List HashPair
  | [] => []
  | ⟨key, value, span⟩ :: ps => ⟨key, Expr.respan f value, f span⟩ :: HashPair.respanAll f ps

end

def TextRun.respan (t : TextRun) : TextRun := ⟨t.chars, f t.span⟩

def Comment.respan (c : Comment) : Comment := ⟨c.value, f c.span⟩

def CloseTag.respan (c : CloseTag) : CloseTag := ⟨f c.span, f c.pathSpan⟩

def Mustache.respan (m : Mustache) : Mustache := ⟨m.call.respan f, m.trusting, f m.span⟩

def ElementModifier.respan (m : ElementModifier) : ElementModifier := ⟨m.call.respan f, f m.span⟩

def ConcatPart.respan : ConcatPart → ConcatPart
  | .text t => .text (t.respan f)
  | .mustache m => .mustache (m.respan f)

def AttrValue.respan : AttrValue → AttrValue
  | .valueless => .valueless
  | .text t => .text (t.respan f)
  | .mustache m => .mustache (m.respan f)
  | .concat parts span => .concat (parts.map (ConcatPart.respan f)) (f span)

def Attribute.respan (a : Attribute) : Attribute :=
  ⟨a.name, f a.nameSpan, a.value.respan f, f a.span⟩

mutual

/-- The statement with `f` applied to every range in it. -/
def Statement.respan (f : Span → Span) : Statement → Statement
  | .text t => .text (t.respan f)
  | .comment c => .comment (c.respan f)
  | .mustacheComment c => .mustacheComment (c.respan f)
  | .mustache m => .mustache (m.respan f)
  | .block b => .block (Block.respan f b)
  | .element e => .element (Element.respan f e)

def Block.respan (f : Span → Span) : Block → Block
  | ⟨call, blockParams, openSpan, program, inverse, close, span⟩ =>
    ⟨call.respan f, blockParams, f openSpan, Body.respan f program, ElsePart.respan f inverse,
      close.map (CloseTag.respan f), f span⟩

def Body.respan (f : Span → Span) : Body → Body
  | ⟨statements, span⟩ => ⟨Statement.respanAll f statements, f span⟩

def ElsePart.respan (f : Span → Span) : ElsePart → ElsePart
  | .absent => .absent
  | .final elseSpan body => .final (f elseSpan) (Body.respan f body)
  | .chained segment => .chained (Block.respan f segment)

def Element.respan (f : Span → Span) : Element → Element
  | ⟨tag, tagSpan, attributes, modifiers, comments, blockParams, children, selfClosing, openSpan,
      closeSpan, span⟩ =>
    ⟨tag, f tagSpan, attributes.map (Attribute.respan f), modifiers.map (ElementModifier.respan f),
      comments.map (Comment.respan f), blockParams, Statement.respanAll f children, selfClosing,
      f openSpan, closeSpan.map f, f span⟩

def Statement.respanAll (f : Span → Span) : List Statement → List Statement
  | [] => []
  | s :: ss => Statement.respan f s :: Statement.respanAll f ss

end

end Tree

namespace Concrete

open TemplateLint.Span (Moves)

variable {f : Span → Span} {k j : Nat}

theorem wordAt_moved (h : Moves f k j) (w : List Char) :
    (wordAt k w).respan f = wordAt j w := by
  unfold wordAt
  simp only [apply_ite (Tree.Expr.respan f), Tree.Expr.respan, h.over]

mutual

theorem Expr.at_moved : ∀ (e : Expr) {k j : Nat}, Moves f k j → (e.at k).respan f = e.at j
  | .word w, _, _, h => wordAt_moved h w
  | .quoted mark raw, _, _, h => by
    simp only [Expr.at, Tree.Expr.respan, h.range]
  | .group call, _, _, h => by
    simp only [Expr.at, Tree.Expr.respan, h.range, Call.at_moved call (h.add 1)]

theorem Call.at_moved : ∀ (c : Call) {k j : Nat}, Moves f k j → (c.at k).respan f = c.at j
  | ⟨lead, callee, args, _⟩, _, _, h => by
    have hlead := h.add (size lead)
    have hargs := hlead.add callee.width
    simp only [Call.at, Tree.Call.respan, Expr.at_moved callee hlead,
      Arg.paramsAt_moved args hargs, Arg.hashAt_moved args hargs]

theorem Arg.paramsAt_moved : ∀ (as : List Arg) {k j : Nat}, Moves f k j →
    Tree.Expr.respanAll f (Arg.paramsAt k as) = Arg.paramsAt j as
  | [], _, _, _ => rfl
  | ⟨lead, key, value⟩ :: args, _, _, h => by
    have hlead := h.add (size lead)
    have hargs := Arg.paramsAt_moved args ((hlead.add (size (keyChars key))).add value.width)
    cases key with
    | none => simp only [Arg.paramsAt, Tree.Expr.respanAll, hargs, Expr.at_moved value hlead]
    | some key => exact hargs

theorem Arg.hashAt_moved : ∀ (as : List Arg) {k j : Nat}, Moves f k j →
    Tree.HashPair.respanAll f (Arg.hashAt k as) = Arg.hashAt j as
  | [], _, _, _ => rfl
  | ⟨lead, key, value⟩ :: args, _, _, h => by
    have hlead := h.add (size lead)
    have hargs := Arg.hashAt_moved args ((hlead.add (size (keyChars key))).add value.width)
    cases key with
    | none => exact hargs
    | some key =>
      have hvalue := Expr.at_moved value ((hlead.add (size key)).add 1)
      have hrange := hlead.range (size (keyChars (some key)) + value.width)
      simp only [← Nat.add_assoc] at hrange
      simp only [Arg.hashAt, Tree.HashPair.respanAll, hargs, hvalue, hrange]

end

theorem Mustache.at_moved (m : Mustache) (h : Moves f k j) : (m.at k).respan f = m.at j := by
  simp only [Mustache.at, Tree.Mustache.respan, h.over, Call.at_moved m.call (h.add _)]

theorem Note.at_moved (n : Note) (h : Moves f k j) : (n.at k).respan f = n.at j := by
  simp only [Note.at, Tree.Comment.respan, h.over]

theorem Part.atAll_moved (ps : List Part) (h : Moves f k j) :
    (Part.atAll k ps).map (Tree.ConcatPart.respan f) = Part.atAll j ps := by
  induction ps generalizing k j with
  | nil => rfl
  | cons p ps ih =>
    cases p with
    | text cs =>
      simp only [Part.atAll, List.map_cons, Tree.ConcatPart.respan, Tree.TextRun.respan, h.over,
        ih (h.add (size cs))]
    | mustache m =>
      simp only [Part.atAll, List.map_cons, Tree.ConcatPart.respan, m.at_moved h,
        ih (h.add (size m.chars))]

theorem AttrValue.at_moved (v : AttrValue) (h : Moves f k j) : (v.at k).respan f = v.at j := by
  cases v with
  | quoted mark parts =>
    have hparts := Part.atAll_moved parts (h.add (size [mark]))
    simp only [AttrValue.at]
    split
    · simp only [Tree.AttrValue.respan, hparts, h.over]
    · simp only [Tree.AttrValue.respan, Tree.TextRun.respan, h.over]
  | mustache m => simp only [AttrValue.at, Tree.AttrValue.respan, m.at_moved h]
  | bare cs => simp only [AttrValue.at, Tree.AttrValue.respan, Tree.TextRun.respan, h.over]

theorem Attribute.at_moved (a : Attribute) (h : Moves f k j) : (a.at k).respan f = a.at j := by
  obtain ⟨name, assigned⟩ := a
  cases assigned with
  | none => simp only [Attribute.at, Tree.Attribute.respan, Tree.AttrValue.respan, h.over]
  | some v =>
    have hvalue := v.value.at_moved ((((h.add (size name)).add (size v.before)).add 1).add
      (size v.after))
    simp only [Attribute.at, Tree.Attribute.respan, h.over, hvalue]

theorem Spaced.at_moved (ss : List Spaced) (h : Moves f k j) :
    (attributesAt k ss).map (Tree.Attribute.respan f) = attributesAt j ss ∧
      (modifiersAt k ss).map (Tree.ElementModifier.respan f) = modifiersAt j ss ∧
      (notesAt k ss).map (Tree.Comment.respan f) = notesAt j ss := by
  induction ss generalizing k j with
  | nil => exact ⟨rfl, rfl, rfl⟩
  | cons s ss ih =>
    obtain ⟨lead, item⟩ := s
    have hitem := h.add (size lead)
    obtain ⟨hattributes, hmodifiers, hnotes⟩ := ih (h.add (size (Spaced.mk lead item).chars))
    simp only [attributesAt_cons, modifiersAt_cons, notesAt_cons, List.map_append, hattributes,
      hmodifiers, hnotes]
    cases item with
    | «attribute» a => exact ⟨by simp [a.at_moved hitem], rfl, rfl⟩
    | modifier m =>
      have hm := m.at_moved hitem
      refine ⟨rfl, ?_, rfl⟩
      simp only [Tree.Mustache.respan] at hm
      simp only [List.map_cons, List.map_nil, Tree.ElementModifier.respan, ← hm]
    | note n => exact ⟨rfl, rfl, by simp [n.at_moved hitem]⟩
    | params p => exact ⟨rfl, rfl, rfl⟩

/-- An element moved with its opening tag, given what is made of the rest of it. -/
theorem OpeningTag.at_moved (t : OpeningTag) (h : Moves f k j) (children : List Tree.Statement)
    (closeSpan : Option Span) (span : Span) :
    Tree.Element.respan f { t.at k with children, closeSpan, span } =
      { t.at j with
        children := Tree.Statement.respanAll f children
        closeSpan := closeSpan.map f
        span := f span } := by
  obtain ⟨hk₁, hk₂, hk₃⟩ := t.at_items k
  obtain ⟨hj₁, hj₂, hj₃⟩ := t.at_items j
  obtain ⟨h₁, h₂, h₃⟩ := Spaced.at_moved t.items (h.add (size (Token.tagOpen.chars ++ t.name)))
  have htag := (h.add 1).over t.name
  have hbound : (t.at k).blockParams = (t.at j).blockParams := by
    rw [t.at_blockParams, t.at_blockParams]
  rw [Tree.Element.respan, hk₁, hk₂, hk₃, h₁, h₂, h₃, ← hj₁, ← hj₂, ← hj₃, hbound]
  simp only [OpeningTag.at, h.over, htag]

mutual

/-- A statement at another place has the same tree but for its ranges, which are moved. -/
theorem Statement.at_moved : ∀ (s : Statement) {k j : Nat}, Moves f k j →
    (s.at k).respan f = s.at j
  | .text cs, _, _, h => by
    simp only [Statement.at, Tree.Statement.respan, Tree.TextRun.respan, h.over]
  | .comment value, _, _, h => by
    simp only [Statement.at, Tree.Statement.respan, Tree.Comment.respan, h.over]
  | .note n, _, _, h => by
    simp only [Statement.at, Tree.Statement.respan, n.at_moved h]
  | .mustache m, _, _, h => by
    simp only [Statement.at, Tree.Statement.respan, m.at_moved h]
  | .block opening program sections closing, _, _, h => by
    have hprogram := h.add (size opening.chars)
    have hsections := hprogram.add (Statement.widthAll program)
    have hclosing := hsections.add (Section.widthAll sections)
    have hspan := h.range (size opening.chars + Statement.widthAll program +
      Section.widthAll sections + size closing.chars)
    simp only [← Nat.add_assoc] at hspan
    have hname := (hclosing.add closing.nameOffset).over closing.name
    simp only [Statement.at, Tree.Statement.respan, Tree.Block.respan, Tree.Body.respan,
      Tree.CloseTag.respan, CloseTag.at, Option.map_some, Call.at_moved opening.call (h.add _),
      h.over, hprogram.range, Statement.atAll_moved program hprogram,
      Section.atAll_moved sections hsections, hclosing.over, hname, hspan]
  | .whole opening, k, _, h => by
    have htag := opening.at_moved h [] none (.over k opening.chars)
    rw [h.over] at htag
    simp only [Statement.at, Tree.Statement.respan]
    exact congrArg Tree.Statement.element htag
  | .element opening children closing, _, _, h => by
    have hchildren := h.add (size opening.chars)
    have hclosing := hchildren.add (Statement.widthAll children)
    have hspan := h.range (size opening.chars + Statement.widthAll children +
      size (Token.closingTagOpen.chars ++ closing ++ ['>']))
    simp only [← Nat.add_assoc] at hspan
    simp only [Statement.at, Tree.Statement.respan]
    rw [opening.at_moved h, Statement.atAll_moved children hchildren, Option.map_some,
      hclosing.range, hspan]

theorem Statement.atAll_moved : ∀ (ss : List Statement) {k j : Nat}, Moves f k j →
    Tree.Statement.respanAll f (Statement.atAll k ss) = Statement.atAll j ss
  | [], _, _, _ => rfl
  | s :: ss, _, _, h => by
    simp only [Statement.atAll, Tree.Statement.respanAll, Statement.at_moved s h,
      Statement.atAll_moved ss (h.add s.width)]

theorem Section.atAll_moved : ∀ (ss : List Section) {k j : Nat}, Moves f k j →
    (Section.atAll k ss).respan f = Section.atAll j ss
  | [], _, _, _ => rfl
  | ⟨⟨tilde, lead, .plain trail after⟩, body⟩ :: ss, _, _, h => by
    have hbody := h.add (size (ElseTag.mk tilde lead (.plain trail after)).chars)
    simp only [Section.atAll, Tree.ElsePart.respan, Tree.Body.respan, h.over, hbody.range,
      Statement.atAll_moved body hbody]
  | ⟨⟨tilde, lead, .chained call ending⟩, body⟩ :: ss, _, _, h => by
    have hbody := h.add (size (ElseTag.mk tilde lead (.chained call ending)).chars)
    have hmore := hbody.add (Statement.widthAll body)
    have hspan := h.range (size (ElseTag.mk tilde lead (.chained call ending)).chars +
      Statement.widthAll body + Section.widthAll ss)
    simp only [← Nat.add_assoc] at hspan
    simp only [Section.atAll, Tree.ElsePart.respan, Tree.Block.respan, Tree.Body.respan,
      Option.map_none, Call.at_moved call (h.add _), h.over, hbody.range,
      Statement.atAll_moved body hbody, Section.atAll_moved ss hmore, hspan]

end

end Concrete

end TemplateLint
