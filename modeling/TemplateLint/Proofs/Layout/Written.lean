import TemplateLint.Proofs.Layout.Piece
import TemplateLint.Proofs.Layout.Range
import TemplateLint.Proofs.Reading.Source

namespace TemplateLint

open Text (size)

namespace Tree

/-- The text at `k` is read as the piece. What a text or a comment says is left open. -/
inductive Piece.WrittenAt : Nat → List Char → Piece → Prop
  | text (k : Nat) (cs : List Char) (s : String) : WrittenAt k cs (.node (.text ⟨s, .over k cs⟩))
  | note (k : Nat) (n : Concrete.Note) : WrittenAt k n.chars (.node (.mustacheComment (n.at k)))
  | expr (k : Nat) {e : Concrete.Expr} {rest : List Char} (h : e.Stands rest) :
      WrittenAt k e.chars (.node (e.at k).node)
  | pair (k : Nat) (key : List Char) {value : Concrete.Expr} {rest : List Char}
      (h : value.Stands rest) :
      WrittenAt k (Concrete.keyChars (some key) ++ value.chars)
        (.pair ⟨String.ofList key, value.at (k + size key + 1),
          ⟨k, k + size (Concrete.keyChars (some key)) + value.width⟩⟩)
  | mustache (k : Nat) {m : Concrete.Mustache} (h : m.Stands) :
      WrittenAt k m.chars (.node (.mustache (m.at k)))
  | modifier (k : Nat) {m : Concrete.Mustache} (h : m.Stands) :
      WrittenAt k m.chars (.node (.elementModifier ⟨(m.at k).call, (m.at k).span⟩))
  | concat (k : Nat) {mark : Char} {parts : List Concrete.Part} (hmark : Concrete.IsQuote mark)
      (h : Concrete.Part.AllStand mark parts) :
      WrittenAt k (Concrete.AttrValue.quoted mark parts).chars
        (.concat (Concrete.Part.atAll (k + size [mark]) parts)
          (.over k (Concrete.AttrValue.quoted mark parts).chars))
  | attribute (k : Nat) {a : Concrete.Attribute} {rest : List Char} (h : a.Stands rest) :
      WrittenAt k a.chars (.node (.attribute (a.at k)))
  | statement (k : Nat) {s : Concrete.Statement} {rest : List Char} (h : s.Stands rest) :
      WrittenAt k s.chars (.node (s.at k).node)
  | segment (k : Nat) {sections : List Concrete.Section} {b : Block} {rest : List Char}
      (h : Concrete.Section.AllStand sections rest)
      (hb : Concrete.Section.atAll k sections = .chained b) :
      WrittenAt k (Concrete.Section.charsAll sections) (.node (.block b))
  | template {ss : List Concrete.Statement} (h : Concrete.Statement.AllStand ss []) :
      WrittenAt 0 (Concrete.Statement.charsAll ss) (.node (.template (.ofConcrete ss)))

end Tree

namespace Concrete

open TemplateLint.Tree (Piece)

theorem Statement.at_span (k : Nat) (s : Statement) : (s.at k).span = .over k s.chars := by
  cases s with
  | block opening program sections closing =>
    rw [Statement.at_block]
    exact blockAt_span k opening program sections closing
  | element opening children closing =>
    simp only [Statement.at, Tree.Statement.span, Span.over, Statement.chars, Text.size_append,
      Statement.widthAll_eq, Nat.add_assoc]
  | _ => rfl

theorem Section.span_of_atAll {k : Nat} {sections : List Section} {b : Tree.Block}
    (h : Section.atAll k sections = .chained b) :
    b.span = .over k (Section.charsAll sections) := by
  obtain ⟨tilde, lead, call, ending, body, more, rfl, rfl⟩ := Section.eq_of_chained h
  simp only [segmentAt, Span.over, Section.charsAll, Section.chars, Text.size_append,
    Statement.widthAll_eq, Section.widthAll_eq, Nat.add_assoc]

end Concrete

namespace Tree

theorem Piece.WrittenAt.span_eq {k : Nat} {cs : List Char} {p : Piece} (h : p.WrittenAt k cs) :
    p.span = .over k cs := by
  cases h with
  | text k cs s => rfl
  | note k n => rfl
  | expr k h => exact (Expr.node_span _).trans (Concrete.Expr.at_span k _)
  | pair k key h =>
    simp only [Piece.span, Span.over, Text.size_append, Concrete.Expr.width_eq, Nat.add_assoc]
  | mustache k h => rfl
  | modifier k h => rfl
  | concat k hmark h => rfl
  | «attribute» k h => rfl
  | statement k h => exact (Statement.node_span _).trans (Concrete.Statement.at_span k _)
  | segment k h hb => exact Concrete.Section.span_of_atAll hb
  | template h =>
    simp only [Piece.span, Node.span, Template.ofConcrete, Span.over, Concrete.Statement.widthAll_eq,
      Nat.zero_add]

/-- A piece that can be written as nothing: a text as the value of an attribute, or the template. -/
def Piece.canBeEmpty : Piece → Bool
  | .node (.text _) | .node (.template _) => true
  | _ => false

theorem Piece.WrittenAt.chars_ne_nil {k : Nat} {cs : List Char} {p : Piece} (h : p.WrittenAt k cs)
    (hp : p.canBeEmpty = false) : cs ≠ [] := by
  cases h with
  | text k cs s => cases hp
  | note k n => exact List.cons_ne_nil _ _
  | expr k h => exact h.ne_nil
  | pair k key h => exact List.append_ne_nil_of_right_ne_nil _ h.ne_nil
  | @mustache k m h =>
    rw [Concrete.Mustache.chars_eq, Concrete.Mustache.opening]
    cases m.trusting <;> exact List.cons_ne_nil _ _
  | @modifier k m h =>
    rw [Concrete.Mustache.chars_eq, Concrete.Mustache.opening]
    cases m.trusting <;> exact List.cons_ne_nil _ _
  | concat k hmark h => exact List.cons_ne_nil _ _
  | «attribute» k h => exact h.ne_nil
  | statement k h => exact h.ne_nil
  | segment k h hb =>
    obtain ⟨tilde, lead, call, ending, body, more, rfl, rfl⟩ := Concrete.Section.eq_of_chained hb
    rw [Concrete.Section.charsAll]
    exact List.append_ne_nil_of_left_ne_nil (List.cons_ne_nil _ _) _
  | template h => cases hp

/-- Pieces that are written one after the other in a text at `k`. -/
structure Row (k : Nat) (cs : List Char) (ps : List Piece) : Prop where
  written : ∀ p ∈ ps, ∃ u x v, cs = u ++ (x ++ v) ∧ p.WrittenAt (k + size u) x
  ordered : ps.Pairwise Piece.Before

namespace Row

variable {k : Nat} {x y : List Char} {p : Piece} {ps qs : List Piece}

theorem nil (k : Nat) (cs : List Char) : Row k cs [] := ⟨by simp, .nil⟩

theorem single (h : p.WrittenAt k x) : Row k x [p] := by
  refine ⟨?_, List.pairwise_singleton _ _⟩
  intro q hq
  obtain rfl := List.mem_singleton.1 hq
  exact ⟨[], x, [], by simp, h⟩

theorem inside (h : Row k x ps) (hp : p ∈ ps) : p.span.Inside (.over k x) := by
  obtain ⟨u, y, v, rfl, hw⟩ := h.written p hp
  rw [hw.span_eq]
  simp only [Span.Inside, Span.over, Text.size_append]
  omega

theorem append (hp : Row k x ps) (hq : Row (k + size x) y qs) : Row k (x ++ y) (ps ++ qs) := by
  constructor
  · intro r hr
    rcases List.mem_append.1 hr with hr | hr
    · obtain ⟨u, z, v, rfl, hw⟩ := hp.written r hr
      exact ⟨u, z, v ++ y, by simp, hw⟩
    · obtain ⟨u, z, v, rfl, hw⟩ := hq.written r hr
      refine ⟨x ++ u, z, v, by simp, ?_⟩
      rw [Text.size_append, ← Nat.add_assoc]
      exact hw
  · refine List.pairwise_append.2 ⟨hp.ordered, hq.ordered, ?_⟩
    intro r hr s hs
    exact Nat.le_trans (hp.inside hr).2 (hq.inside hs).1

theorem cons (h : p.WrittenAt k x) (hps : Row (k + size x) y ps) : Row k (x ++ y) (p :: ps) :=
  (single h).append hps

/-- Text before and after the pieces does not matter. -/
theorem after (u : List Char) (h : Row (k + size u) x ps) : Row k (u ++ x) ps := (nil k u).append h

theorem before (v : List Char) (h : Row k x ps) : Row k (x ++ v) ps := by
  have hv := h.append (nil (k + size x) v)
  rwa [List.append_nil] at hv

end Row

end Tree

namespace Concrete

open TemplateLint.Tree (Piece Row)

/-- Arguments lie in a row in the order of the tree, as no positional one comes after a named one.
-/
theorem Arg.AllStand.row {named : Bool} {args : List Arg} {rest : List Char}
    (h : Arg.AllStand named args rest) (k : Nat) :
    Row k (Arg.charsAll args) ((Arg.paramsAt k args).map (fun e => .node e.node) ++
      (Arg.hashAt k args).map .pair) := by
  induction args generalizing named k with
  | nil => exact .nil k []
  | cons a args ih =>
    obtain ⟨lead, key, value⟩ := a
    cases key with
    | none =>
      obtain ⟨-, -, hvalue, hargs⟩ := h
      have hnext : k + size lead + size (keyChars none) + value.width =
          k + size lead + size value.chars := by
        rw [Expr.width_eq]
        rfl
      have hchars : Arg.charsAll (⟨lead, none, value⟩ :: args) =
          lead ++ (value.chars ++ Arg.charsAll args) := by
        simp only [Arg.charsAll, Arg.chars, keyChars, List.append_nil, List.append_assoc]
      have hrow := ih hargs (k + size lead + size value.chars)
      rw [hchars]
      simp only [Arg.paramsAt, Arg.hashAt]
      rw [hnext]
      exact .after lead (.cons (.expr _ hvalue) hrow)
    | some key =>
      obtain ⟨-, -, hvalue, hargs⟩ := h
      have hnext : k + size lead + size (keyChars (some key)) + value.width =
          k + size lead + size (keyChars (some key) ++ value.chars) := by
        rw [Expr.width_eq, Text.size_append, Nat.add_assoc]
      have hrow := ih hargs (k + size lead + size (keyChars (some key)) + value.width)
      rw [hargs.paramsAt_true] at hrow
      have hchars : Arg.charsAll (⟨lead, some key, value⟩ :: args) =
          lead ++ ((keyChars (some key) ++ value.chars) ++ Arg.charsAll args) := by
        simp only [Arg.charsAll, Arg.chars, List.append_assoc]
      rw [hchars]
      simp only [Arg.paramsAt, Arg.hashAt, hargs.paramsAt_true, List.map_cons]
      have hpair := Piece.WrittenAt.pair (k + size lead) key hvalue
      exact .after lead (.cons hpair (hnext ▸ hrow))

theorem Call.Stands.row {c : Call} {rest : List Char} (h : c.Stands rest) (k : Nat) :
    Row k c.chars (c.at k).parts := by
  obtain ⟨lead, callee, args, trail⟩ := c
  obtain ⟨-, hcallee, hargs, -⟩ := h
  have hchars : Call.chars ⟨lead, callee, args, trail⟩ =
      lead ++ (callee.chars ++ (Arg.charsAll args ++ trail)) := by
    simp only [Call.chars, List.append_assoc]
  have hrow := hargs.row (k + size lead + size callee.chars)
  rw [hchars]
  simp only [Call.at, Expr.width_eq]
  exact .after lead (.cons (.expr _ hcallee) (hrow.before trail))

theorem Expr.Stands.row {e : Expr} {rest : List Char} (h : e.Stands rest) (k : Nat) :
    Row k e.chars (e.at k).node.parts := by
  cases e with
  | word w =>
    have hparts : (wordAt k w).node.parts = [] := by
      rcases wordAt_eq k w with ⟨value, hw⟩ | hw <;> rw [hw] <;> rfl
    rw [Expr.at, hparts]
    exact .nil k w
  | quoted mark raw => exact .nil k _
  | group call =>
    have hrow := Call.Stands.row h (k + 1)
    rw [Expr.at]
    exact .after ['('] (hrow.before [')'])

theorem Mustache.Stands.row {m : Mustache} (h : m.Stands) (k : Nat) :
    Row k m.chars (m.at k).call.parts := by
  have hrow := Call.Stands.row h (k + size m.opening)
  rw [Mustache.chars_eq]
  exact .after m.opening (hrow.before m.closing)

theorem Part.AllStand.row {mark : Char} {ps : List Part} (h : Part.AllStand mark ps) (k : Nat) :
    Row k (ps.flatMap Part.chars) ((Part.atAll k ps).map fun p => .node p.node) := by
  induction ps generalizing k with
  | nil => exact .nil k []
  | cons p ps ih =>
    cases p with
    | text cs => exact .cons (.text k cs _) (ih h.2.2.2 _)
    | mustache m => exact .cons (.mustache k h.1) (ih h.2 _)

theorem AttrValue.Stands.row {v : AttrValue} {rest : List Char} (h : v.Stands rest) (k : Nat) :
    Row k v.chars (v.at k).parts := by
  cases v with
  | quoted mark parts =>
    rw [AttrValue.at]
    split
    · exact .single (.concat k h.1 h.2)
    · exact .single (.text k _ _)
  | mustache m => exact .single (.mustache k h)
  | bare cs => exact .single (.text k cs _)

theorem Attribute.Stands.row {a : Attribute} {rest : List Char} (h : a.Stands rest) (k : Nat) :
    Row k a.chars (a.at k).value.parts := by
  obtain ⟨name, assigned⟩ := a
  cases assigned with
  | none => exact .nil k _
  | some v =>
    obtain ⟨-, -, -, -, hvalue⟩ := h
    have hchars : Attribute.chars ⟨name, some v⟩ =
        (name ++ (v.before ++ (['='] ++ v.after))) ++ v.value.chars := by
      simp [Attribute.chars, Assigned.chars]
    have hoffset : k + size name + size v.before + 1 + size v.after =
        k + size (name ++ (v.before ++ (['='] ++ v.after))) := by
      simp only [Text.size_append, Nat.add_assoc]
      rfl
    have hrow := hvalue.row (k + size (name ++ (v.before ++ (['='] ++ v.after))))
    rw [hchars]
    simp only [Attribute.at, hoffset]
    exact .after _ hrow

/-- The pieces of items in the order in which the items are written. -/
def Item.pieces (k : Nat) : Item → List Piece
  | .attribute a => [.node (.attribute (a.at k))]
  | .modifier m => [.node (.elementModifier ⟨(m.at k).call, (m.at k).span⟩)]
  | .note n => [.node (.mustacheComment (n.at k))]
  | .params _ => []

def Spaced.pieces (k : Nat) : List Spaced → List Piece
  | [] => []
  | s :: ss => s.item.pieces (k + size s.lead) ++ Spaced.pieces (k + size s.chars) ss

theorem Spaced.AllStand.row {ss : List Spaced} {rest : List Char} (h : Spaced.AllStand ss rest)
    (k : Nat) : Row k (ss.flatMap Spaced.chars) (Spaced.pieces k ss) := by
  induction ss generalizing k with
  | nil => exact .nil k []
  | cons s ss ih =>
    obtain ⟨lead, item⟩ := s
    obtain ⟨-, hitem, hss⟩ := h
    have hrow : Row (k + size lead) item.chars (item.pieces (k + size lead)) := by
      cases item with
      | «attribute» a => exact .single (.attribute _ hitem)
      | modifier m => exact .single (.modifier _ hitem.1)
      | note n => exact .single (.note _ n)
      | params p => exact .nil _ _
    exact (hrow.after lead).append (ih hss _)

theorem Spaced.pieces_perm (k : Nat) (ss : List Spaced) :
    ((attributesAt k ss).map (fun a => Piece.node (.attribute a)) ++
      (modifiersAt k ss).map (fun m => Piece.node (.elementModifier m)) ++
      (notesAt k ss).map (fun c => Piece.node (.mustacheComment c))).Perm (Spaced.pieces k ss) := by
  induction ss generalizing k with
  | nil => exact .nil
  | cons s ss ih =>
    obtain ⟨lead, item⟩ := s
    have hss := ih (k + size (Spaced.mk lead item).chars)
    simp only [attributesAt_cons, modifiersAt_cons, notesAt_cons, Spaced.pieces]
    cases item with
    | «attribute» a => exact hss.cons _
    | modifier m =>
      refine .trans ?_ (hss.cons _)
      simp only [List.map_cons, List.nil_append, List.append_assoc, List.cons_append]
      exact List.perm_middle
    | note n =>
      refine .trans ?_ (hss.cons _)
      simp only [List.map_cons, List.nil_append, List.append_assoc, List.cons_append]
      rw [← List.append_assoc, ← List.append_assoc]
      exact List.perm_middle
    | params p => exact hss

theorem Statement.AllStand.row {ss : List Statement} {rest : List Char}
    (h : Statement.AllStand ss rest) (k : Nat) :
    Row k (Statement.charsAll ss) (Tree.Statement.parts (Statement.atAll k ss)) := by
  induction ss generalizing k with
  | nil => exact .nil k []
  | cons s ss ih =>
    obtain ⟨hs, hss⟩ := h
    have hrow := ih hss (k + size s.chars)
    rw [Statement.atAll, Statement.width_eq]
    exact .cons (.statement k hs) hrow

theorem Section.AllStand.row {sections : List Section} {rest : List Char}
    (h : Section.AllStand sections rest) (k : Nat) :
    Row k (Section.charsAll sections) (Section.atAll k sections).parts := by
  cases sections with
  | nil => exact .nil k []
  | cons s more =>
    obtain ⟨⟨tilde, lead, tail⟩, body⟩ := s
    cases tail with
    | plain trail after =>
      have hrow := h.2.1.row (k + size (ElseTag.mk tilde lead (.plain trail after)).chars)
      rw [Section.charsAll, Section.chars]
      simp only [Section.atAll]
      exact (hrow.after _).before _
    | chained call ending =>
      rw [Section.atAll]
      exact .single (.segment k h (by rw [Section.atAll]))

/-- The call of a block stands before the program, and that before the sections. -/
theorem blockAt_row {opening : BlockTag} {program : List Statement} {sections : List Section}
    {closing : CloseTag} {rest : List Char}
    (h : (Statement.block opening program sections closing).Stands rest) (k : Nat) :
    Row k (Statement.block opening program sections closing).chars
      (Tree.Node.block (blockAt k opening program sections closing)).parts := by
  obtain ⟨hopening, hprogram, hsections, -⟩ := h
  have hoffset : opening.callOffset = size opening.front := rfl
  have hcall := Call.Stands.row hopening.1 (k + size opening.front)
  have hbody := hprogram.row (k + size opening.chars)
  have helse := hsections.row (k + size opening.chars + size (Statement.charsAll program))
  have htag : Row k opening.chars (opening.call.at (k + opening.callOffset)).parts := by
    rw [BlockTag.chars_eq, hoffset]
    exact .after _ (hcall.before _)
  have hchars : (Statement.block opening program sections closing).chars =
      opening.chars ++ ((Statement.charsAll program ++ Section.charsAll sections) ++
        closing.chars) := by
    simp only [Statement.chars, List.append_assoc]
  rw [hchars]
  simp only [Tree.Node.parts, blockAt, Statement.widthAll_eq]
  exact htag.append ((hbody.append helse).before _)

theorem Section.AllStand.segment_row {k : Nat} {sections : List Section} {rest : List Char}
    {b : Tree.Block} (h : Section.AllStand sections rest)
    (hb : Section.atAll k sections = .chained b) :
    Row k (Section.charsAll sections) (Tree.Node.block b).parts := by
  obtain ⟨tilde, lead, call, ending, body, more, rfl, rfl⟩ := Section.eq_of_chained hb
  obtain ⟨⟨-, -, hcall, -⟩, hbody, -, hmore⟩ := h
  have hcall := hcall.row (k + (ElseTag.mk tilde lead (.chained call ending)).tailOffset)
  have hbody := hbody.row (k + size (ElseTag.mk tilde lead (.chained call ending)).chars)
  have hmore := hmore.row (k + size (ElseTag.mk tilde lead (.chained call ending)).chars +
    size (Statement.charsAll body))
  have htag : Row k (ElseTag.mk tilde lead (.chained call ending)).chars
      (call.at (k + (ElseTag.mk tilde lead (.chained call ending)).tailOffset)).parts :=
    .after _ (hcall.before ending.chars)
  simp only [Tree.Node.parts, segmentAt, Statement.widthAll_eq, Section.charsAll, Section.chars]
  rw [List.append_assoc]
  exact htag.append (hbody.append hmore)

/-- The items of an opening tag as pieces in the order in which they are written. -/
def OpeningTag.pieces (k : Nat) (t : OpeningTag) : List Piece :=
  Spaced.pieces (k + size (Token.tagOpen.chars ++ t.name)) t.items

theorem OpeningTag.Stands.row {t : OpeningTag} (h : t.Stands) (k : Nat) :
    Row k t.chars (t.pieces k) := by
  have hitems := h.2.2.2.1.row (k + size (Token.tagOpen.chars ++ t.name))
  have hchars : t.chars = (Token.tagOpen.chars ++ t.name) ++
      (t.items.flatMap Spaced.chars ++ (t.trail ++ tagClosing t.selfClosing)) := by
    simp [OpeningTag.chars, tagClosing]
  rw [hchars]
  exact .after _ (hitems.before _)

/-- The element has its items by kind, not in the order in which they are written. -/
theorem OpeningTag.pieces_perm (t : OpeningTag) (k : Nat) :
    (t.at k).openingParts.Perm (t.pieces k) := by
  obtain ⟨hattributes, hmodifiers, hnotes⟩ := t.at_items k
  rw [Tree.Element.openingParts, hattributes, hmodifiers, hnotes]
  exact Spaced.pieces_perm _ t.items

/-- The parts of a statement that is no element stand in it as they are listed. -/
theorem Statement.Stands.row_parts {s : Statement} {rest : List Char} (h : s.Stands rest) (k : Nat)
    (hs : ∀ e, s.at k ≠ .element e) : Row k s.chars (s.at k).node.parts := by
  cases s with
  | text cs => exact .nil k _
  | comment value => exact .nil k _
  | note n => exact .nil k _
  | mustache m => exact h.1.row k
  | block opening program sections closing =>
    rw [Statement.at_block]
    exact blockAt_row h k
  | whole opening => exact absurd rfl (hs _)
  | element opening children closing => exact absurd rfl (hs _)

end Concrete

namespace Tree

/-- An element starts with its opening tag, and its children stand behind that. -/
theorem Piece.WrittenAt.element_eq {k : Nat} {cs : List Char} {e : Element}
    (h : (Piece.node (.element e)).WrittenAt k cs) :
    ∃ (opening : Concrete.OpeningTag) (ss : List Concrete.Statement) (rest y : List Char),
      opening.Stands ∧ Concrete.Statement.AllStand ss rest ∧
      cs = opening.chars ++ (Concrete.Statement.charsAll ss ++ y) ∧
      e = { opening.at k with
        children := Concrete.Statement.atAll (k + size opening.chars) ss
        closeSpan := e.closeSpan
        span := e.span } := by
  generalize hp : Piece.node (.element e) = p at h
  cases h with
  | @statement _ s rest h =>
    cases s with
    | whole opening =>
      cases hp
      exact ⟨opening, [], [], [], h.1, trivial, (List.append_nil _).symm, rfl⟩
    | element opening children closing =>
      cases hp
      refine ⟨opening, children, _, Concrete.Token.closingTagOpen.chars ++ (closing ++ ['>']),
        h.1, h.2.2.1, ?_, rfl⟩
      simp only [Concrete.Statement.chars, List.append_assoc]
    | block opening program sections closing =>
      rw [Concrete.Statement.at_block] at hp
      cases hp
    | _ => cases hp
  | @expr _ e' rest h =>
    generalize e'.at k = e'' at hp
    cases e'' <;> cases hp
  | _ => cases hp

theorem Piece.WrittenAt.attribute_eq {k : Nat} {cs : List Char} {a : Attribute}
    (h : (Piece.node (.attribute a)).WrittenAt k cs) :
    ∃ (a' : Concrete.Attribute) (rest : List Char), a = a'.at k ∧ cs = a'.chars ∧ a'.Stands rest := by
  generalize hp : Piece.node (.attribute a) = p at h
  cases h with
  | @«attribute» _ a' rest h =>
    cases hp
    exact ⟨a', rest, rfl, rfl, h⟩
  | @statement _ s rest h =>
    generalize s.at k = s' at hp
    cases s' <;> cases hp
  | @expr _ e rest h =>
    generalize e.at k = e' at hp
    cases e' <;> cases hp
  | _ => cases hp

/-- The parts of a piece that is no element stand in its text as they are listed. -/
theorem Piece.WrittenAt.row_parts {k : Nat} {cs : List Char} {p : Piece} (h : p.WrittenAt k cs)
    (hp : ∀ e, p ≠ .node (.element e)) : Row k cs p.parts := by
  cases h with
  | text k cs s => exact .nil k _
  | note k n => exact .nil k _
  | expr k h => exact h.row k
  | @pair _ key value rest h =>
    have hoffset : k + size key + 1 = k + size (Concrete.keyChars (some key)) := by
      rw [Concrete.keyChars, Text.size_append, Nat.add_assoc]
      rfl
    refine .after _ (.single ?_)
    rw [hoffset]
    exact .expr _ h
  | mustache k h => exact h.row k
  | modifier k h => exact h.row k
  | @concat _ mark parts hmark h =>
    exact .after [mark] ((h.row (k + size [mark])).before [mark])
  | «attribute» k h => exact h.row k
  | statement k h => exact h.row_parts k fun e he => hp e (by rw [he]; rfl)
  | segment k h hb => exact h.segment_row hb
  | template h => exact h.row 0

/-- The parts of a piece are written in its text, in some order. -/
theorem Piece.WrittenAt.row {k : Nat} {cs : List Char} {p : Piece} (h : p.WrittenAt k cs) :
    ∃ ps, p.parts.Perm ps ∧ Row k cs ps := by
  by_cases hp : ∃ e, p = .node (.element e)
  · obtain ⟨e, rfl⟩ := hp
    obtain ⟨opening, ss, rest, y, hopening, hss, rfl, he⟩ := h.element_eq
    refine ⟨_, ?_, (hopening.row k).append ((hss.row _).before y)⟩
    rw [he]
    exact (opening.pieces_perm k).append_right _
  · exact ⟨_, .refl _, h.row_parts (not_exists.1 hp)⟩

theorem Piece.WrittenAt.part_written {k : Nat} {cs : List Char} {p q : Piece}
    (h : p.WrittenAt k cs) (hq : q ∈ p.parts) : ∃ j x, q.WrittenAt j x := by
  obtain ⟨ps, hperm, hrow⟩ := h.row
  obtain ⟨u, x, v, -, hx⟩ := hrow.written q (hperm.mem_iff.1 hq)
  exact ⟨_, x, hx⟩

theorem Piece.WrittenAt.nested {k : Nat} {cs : List Char} {p : Piece} (h : p.WrittenAt k cs) :
    p.Nested := by
  obtain ⟨ps, hperm, hrow⟩ := h.row
  constructor
  · intro q hq
    rw [h.span_eq]
    exact hrow.inside (hperm.mem_iff.1 hq)
  · exact hperm.pairwise_iff (fun hpq => Span.Apart.symm hpq) |>.2
      (hrow.ordered.imp Piece.Before.apart)

/-- What a piece holds is written in the text of the piece. -/
theorem Piece.Holds.written {p q : Piece} (hpq : p.Holds q) {k : Nat} {cs : List Char}
    (h : p.WrittenAt k cs) : ∃ u x v, cs = u ++ (x ++ v) ∧ q.WrittenAt (k + size u) x := by
  induction hpq generalizing k cs with
  | refl p => exact ⟨[], cs, [], by simp, h⟩
  | @part p q r hq _ ih =>
    obtain ⟨ps, hperm, hrow⟩ := h.row
    obtain ⟨u, x, v, rfl, hx⟩ := hrow.written q (hperm.mem_iff.1 hq)
    obtain ⟨a, y, b, rfl, hy⟩ := ih hx
    refine ⟨u ++ a, y, b ++ v, by simp, ?_⟩
    rw [Text.size_append, ← Nat.add_assoc]
    exact hy

/-- Every piece of the tree of a source is written in the source. -/
theorem Template.written {source : String} {t : Template} (ht : Template.parse source = .ok t)
    {p : Piece} (hp : t.Holds p) :
    ∃ u x v, source.toList = u ++ (x ++ v) ∧ p.WrittenAt (size u) x := by
  obtain ⟨ss, hstand, rfl, rfl⟩ := Template.parse_eq_ok.1 ht
  rw [String.toList_ofList]
  obtain ⟨u, x, v, hsource, hx⟩ := Piece.Holds.written hp (.template hstand)
  rw [Nat.zero_add] at hx
  exact ⟨u, x, v, hsource, hx⟩

end Tree

end TemplateLint
