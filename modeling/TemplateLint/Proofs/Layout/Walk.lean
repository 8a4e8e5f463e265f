import Mathlib.Data.List.Nodup
import TemplateLint.Proofs.Layout.Elements
import TemplateLint.Proofs.Layout.Nesting

namespace TemplateLint

open Text (size)

namespace Tree

theorem Piece.WrittenAt.span_lt {k : Nat} {cs : List Char} {p : Piece} (h : p.WrittenAt k cs)
    (hp : p.canBeEmpty = false) : p.span.start < p.span.stop := by
  rw [h.span_eq]
  exact Nat.lt_add_of_pos_right (Text.size_pos_of_ne_nil (h.chars_ne_nil hp))

theorem Piece.canBeEmpty_of_isArgument {p : Piece} (hp : p.isArgument = true) :
    p.canBeEmpty = false := by
  cases p with
  | node n => cases n <;> first | rfl | cases hp
  | pair p => rfl
  | concat parts span => rfl

end Tree

namespace Concrete

open TemplateLint.Tree (Piece)

theorem Statement.AllStand.part_lt {ss : List Statement} {rest : List Char}
    (h : Statement.AllStand ss rest) {k : Nat} {q : Piece}
    (hq : q ∈ Tree.Statement.parts (Statement.atAll k ss)) : q.span.start < q.span.stop := by
  induction ss generalizing k with
  | nil => cases hq
  | cons s ss ih =>
    obtain ⟨hs, hss⟩ := h
    rcases List.mem_cons.1 hq with rfl | hq
    · rw [Piece.span, Tree.Statement.node_span, Statement.at_span]
      exact Nat.lt_add_of_pos_right (Text.size_pos_of_ne_nil hs.ne_nil)
    · exact ih hss hq

theorem Section.AllStand.part_lt {sections : List Section} {rest : List Char}
    (h : Section.AllStand sections rest) {k : Nat} {q : Piece}
    (hq : q ∈ (Section.atAll k sections).parts) : q.span.start < q.span.stop := by
  cases sections with
  | nil => cases hq
  | cons s more =>
    obtain ⟨⟨tilde, lead, tail⟩, body⟩ := s
    cases tail with
    | plain trail after =>
      rw [Section.atAll] at hq
      exact h.2.1.part_lt hq
    | chained call ending =>
      rw [Section.atAll] at hq
      obtain rfl := List.mem_singleton.1 hq
      exact (Piece.WrittenAt.segment k h (by rw [Section.atAll])).span_lt rfl

theorem Part.AllStand.part_lt {mark : Char} {ps : List Part} (h : Part.AllStand mark ps) {k : Nat}
    {p : Tree.ConcatPart} (hp : p ∈ Part.atAll k ps) :
    (Piece.node p.node).span.start < (Piece.node p.node).span.stop := by
  induction ps generalizing k with
  | nil => cases hp
  | cons part ps ih =>
    cases part with
    | text cs =>
      obtain ⟨hne, -, -, hps⟩ := h
      rcases List.mem_cons.1 hp with rfl | hp
      · exact Nat.lt_add_of_pos_right (Text.size_pos_of_ne_nil hne)
      · exact ih hps hp
    | mustache m =>
      rcases List.mem_cons.1 hp with rfl | hp
      · exact (Piece.WrittenAt.mustache k h.1).span_lt rfl
      · exact ih h.2 hp

/-- The name of an attribute stands before its value. -/
theorem Attribute.Stands.value_after {a : Attribute} {rest : List Char} (h : a.Stands rest)
    {k : Nat} {q : Piece} (hq : q ∈ (a.at k).value.parts) : k < q.span.start := by
  obtain ⟨name, assigned⟩ := a
  cases assigned with
  | none => cases hq
  | some v =>
    obtain ⟨hname, -, -, -, hvalue⟩ := h
    have hstart := ((hvalue.row _).inside hq).1
    have hpos := Text.size_pos_of_ne_nil hname
    simp only [Span.over] at hstart
    omega

end Concrete

namespace Tree

theorem Element.canBeEmpty_of_mem_openingParts {e : Element} {q : Piece}
    (hq : q ∈ e.openingParts) : q.canBeEmpty = false := by
  simp only [openingParts, List.mem_append, List.mem_map] at hq
  rcases hq with (⟨a, -, rfl⟩ | ⟨m, -, rfl⟩) | ⟨c, -, rfl⟩ <;> rfl

/-- Only the value of an attribute can be empty. -/
theorem Piece.WrittenAt.part_lt {k : Nat} {cs : List Char} {p q : Piece} (h : p.WrittenAt k cs)
    (hp : ∀ a, p ≠ .node (.attribute a)) (hq : q ∈ p.parts) : q.span.start < q.span.stop := by
  obtain ⟨j, x, hx⟩ := h.part_written hq
  by_cases hargument : q.isArgument = true
  · exact hx.span_lt (Piece.canBeEmpty_of_isArgument hargument)
  by_cases he : ∃ e, p = .node (.element e)
  · obtain ⟨e, rfl⟩ := he
    obtain ⟨opening, ss, rest, y, -, hss, -, he⟩ := h.element_eq
    rcases List.mem_append.1 hq with hq | hq
    · exact hx.span_lt (Element.canBeEmpty_of_mem_openingParts hq)
    · rw [he] at hq
      exact hss.part_lt hq
  cases h with
  | text k cs s => cases hq
  | note k n => cases hq
  | @expr _ e rest h =>
    exact absurd (Piece.Holds.isArgument (.part hq (.refl q)) (e.at k).isArgument_node) hargument
  | pair k key h => exact absurd (Piece.Holds.isArgument (.part hq (.refl q)) rfl) hargument
  | mustache k h => exact absurd (Call.isArgument_of_mem_parts hq) hargument
  | modifier k h => exact absurd (Call.isArgument_of_mem_parts hq) hargument
  | concat k hmark h =>
    obtain ⟨part, hpart, rfl⟩ := List.mem_map.1 hq
    exact h.part_lt hpart
  | «attribute» k h => exact absurd rfl (hp _)
  | @statement _ s rest h =>
    cases s with
    | mustache m => exact absurd (Call.isArgument_of_mem_parts hq) hargument
    | block opening program sections closing =>
      rw [Concrete.Statement.at_block] at hq
      obtain ⟨-, hprogram, hsections, -⟩ := h
      rcases List.mem_append.1 hq with hq | hq
      · exact absurd (Call.isArgument_of_mem_parts hq) hargument
      · rcases List.mem_append.1 hq with hq | hq
        · exact hprogram.part_lt hq
        · exact hsections.part_lt hq
    | whole opening => exact absurd ⟨_, rfl⟩ he
    | element opening children closing => exact absurd ⟨_, rfl⟩ he
    | _ => cases hq
  | segment k h hb =>
    obtain ⟨tilde, lead, call, ending, body, more, rfl, rfl⟩ := Concrete.Section.eq_of_chained hb
    obtain ⟨-, hbody, -, hmore⟩ := h
    rcases List.mem_append.1 hq with hq | hq
    · exact absurd (Call.isArgument_of_mem_parts hq) hargument
    · rcases List.mem_append.1 hq with hq | hq
      · exact hbody.part_lt hq
      · exact hmore.part_lt hq
  | template h => exact h.part_lt hq

theorem Piece.Holds.bounds {p q : Piece} (hpq : p.Holds q) {k : Nat} {cs : List Char}
    (h : p.WrittenAt k cs) :
    p.span.start ≤ q.span.start ∧ q.span.start ≤ q.span.stop ∧ q.span.stop ≤ p.span.stop := by
  have hin := hpq.inside_written h
  obtain ⟨u, x, v, -, hx⟩ := hpq.written h
  refine ⟨hin.1, ?_, hin.2⟩
  rw [hx.span_eq]
  exact Nat.le_add_right _ _

/-- In a piece that takes room nothing ends where the piece starts. -/
theorem Piece.Holds.stop_after {p q : Piece} (hpq : p.Holds q) {k : Nat} {cs : List Char}
    (h : p.WrittenAt k cs) (hp : p.span.start < p.span.stop) : p.span.start < q.span.stop := by
  induction hpq generalizing k cs with
  | refl p => exact hp
  | @part p q r hq hr ih =>
    obtain ⟨j, x, hx⟩ := h.part_written hq
    by_cases ha : ∃ a, p = .node (.attribute a)
    · -- the value can be empty, but then the name stands before it
      obtain ⟨a, rfl⟩ := ha
      obtain ⟨a, rest, rfl, rfl, ha⟩ := h.attribute_eq
      have hname : k < q.span.start := ha.value_after hq
      have hstop : k < r.span.stop := by
        have hbounds := hr.bounds hx
        omega
      exact hstop
    · have hstop := ih hx (h.part_lt (not_exists.1 ha) hq)
      exact Nat.lt_of_le_of_lt (h.nested.1 q hq).1 hstop

/-- No node is in two parts of a piece. -/
theorem Piece.WrittenAt.parts_disjoint {k : Nat} {cs : List Char} {p : Piece}
    (h : p.WrittenAt k cs) :
    p.parts.Pairwise fun q r => List.Disjoint q.nodes r.nodes := by
  by_cases ha : ∃ a, p = .node (.attribute a)
  · obtain ⟨a, rfl⟩ := ha
    simp only [parts, Node.parts]
    cases a.value <;> simp [AttrValue.parts]
  · have hbounds : ∀ q ∈ p.parts, ∀ n ∈ q.nodes,
        q.span.start < n.span.stop ∧ n.span.stop ≤ q.span.stop := by
      intro q hq n hn
      obtain ⟨j, x, hx⟩ := h.part_written hq
      have hheld := Piece.holds_of_mem_nodes hn
      exact ⟨hheld.stop_after hx (h.part_lt (not_exists.1 ha) hq), (hheld.bounds hx).2.2⟩
    refine h.nested.2.imp_of_mem fun {q r} hq hr hapart n hnq hnr => ?_
    have hinq := hbounds q hq n hnq
    have hinr := hbounds r hr n hnr
    rcases hapart with hapart | hapart <;> omega

theorem Piece.WrittenAt.nodes_nodup {k : Nat} {cs : List Char} {p : Piece}
    (h : p.WrittenAt k cs) : p.nodes.Nodup := by
  induction p using Piece.induction generalizing k cs with
  | step p ih =>
    have hparts : (p.parts.flatMap Piece.nodes).Nodup := by
      refine List.nodup_flatMap.2 ⟨fun q hq => ?_, h.parts_disjoint⟩
      obtain ⟨j, x, hx⟩ := h.part_written hq
      exact ih q hq hx
    rcases p.nodes_cases with ⟨n, rfl, hnodes⟩ | hnodes
    · rw [hnodes]
      refine List.nodup_cons.2 ⟨fun hn => ?_, hparts⟩
      -- a node is longer than its parts, so it is in none of them
      obtain ⟨q, hq, hn⟩ := List.mem_flatMap.1 hn
      have hlength := ((Piece.holds_of_mem_nodes hn).infix_nodes.trans
        (Piece.infix_nodes_parts hq)).length_le
      rw [hnodes, List.length_cons] at hlength
      exact Nat.not_succ_le_self _ hlength
    · rw [hnodes]
      exact hparts

/-- Of the items of an opening tag, attributes are seen before modifiers and comments, and modifiers
before comments. -/
inductive Element.Earlier (e : Element) : Node → Node → Prop
  | modifier {a : Attribute} {m : ElementModifier} (ha : a ∈ e.attributes) (hm : m ∈ e.modifiers) :
      Earlier e (.attribute a) (.elementModifier m)
  | comment {a : Attribute} {c : Comment} (ha : a ∈ e.attributes) (hc : c ∈ e.comments) :
      Earlier e (.attribute a) (.mustacheComment c)
  | modifierComment {m : ElementModifier} {c : Comment} (hm : m ∈ e.modifiers)
      (hc : c ∈ e.comments) : Earlier e (.elementModifier m) (.mustacheComment c)

/-- Items of an opening tag that are seen in the other order than they are written. -/
structure Element.Swapped (e : Element) (m n : Node) : Prop where
  earlier : e.Earlier m n
  before : n.span.stop ≤ m.span.start
  inside : m.span.Inside e.openSpan ∧ n.span.Inside e.openSpan

/-- A part of an element stands before one that is seen later, or the two are swapped. -/
def Element.InOrder (e : Element) (q r : Piece) : Prop :=
  q.Before r ∨ ∃ m n, q = .node m ∧ r = .node n ∧ e.Swapped m n

theorem Element.Earlier.inOrder {e : Element} {m n : Node} (h : e.Earlier m n)
    (hapart : (Piece.node m).Apart (.node n)) (hm : m.span.Inside e.openSpan)
    (hn : n.span.Inside e.openSpan) : e.InOrder (.node m) (.node n) := by
  rcases hapart with hbefore | hafter
  · exact .inl hbefore
  · exact .inr ⟨m, n, rfl, rfl, h, hafter, hm, hn⟩

/-- Where the items of one kind are in order, all are, or swapped. -/
theorem Element.openingParts_inOrder {e : Element} (hapart : e.openingParts.Pairwise Piece.Apart)
    (hinside : ∀ q ∈ e.openingParts, q.span.Inside e.openSpan)
    (hattributes : (e.attributes.map fun a => Piece.node (.attribute a)).Pairwise Piece.Before)
    (hmodifiers : (e.modifiers.map fun m => Piece.node (.elementModifier m)).Pairwise Piece.Before)
    (hcomments : (e.comments.map fun c => Piece.node (.mustacheComment c)).Pairwise Piece.Before) :
    e.openingParts.Pairwise e.InOrder := by
  obtain ⟨hfirst, -, hlast⟩ := List.pairwise_append.1 hapart
  obtain ⟨-, -, hfirst⟩ := List.pairwise_append.1 hfirst
  have hinside : ∀ n, .node n ∈ e.openingParts → n.span.Inside e.openSpan := fun n hn =>
    hinside _ hn
  simp only [openingParts, List.mem_append] at hinside
  refine List.pairwise_append.2 ⟨List.pairwise_append.2 ⟨hattributes.imp .inl, hmodifiers.imp .inl,
    fun q hq r hr => ?_⟩, hcomments.imp .inl, fun q hq r hr => ?_⟩
  · have hqr := hfirst q hq r hr
    obtain ⟨a, ha, rfl⟩ := List.mem_map.1 hq
    obtain ⟨m, hm, rfl⟩ := List.mem_map.1 hr
    exact (Element.Earlier.modifier ha hm).inOrder hqr (hinside _ (.inl (.inl hq)))
      (hinside _ (.inl (.inr hr)))
  · have hqr := hlast q hq r hr
    obtain ⟨c, hc, rfl⟩ := List.mem_map.1 hr
    rcases List.mem_append.1 hq with hq | hq
    · obtain ⟨a, ha, rfl⟩ := List.mem_map.1 hq
      exact (Element.Earlier.comment ha hc).inOrder hqr (hinside _ (.inl (.inl hq)))
        (hinside _ (.inr hr))
    · obtain ⟨m, hm, rfl⟩ := List.mem_map.1 hq
      exact (Element.Earlier.modifierComment hm hc).inOrder hqr (hinside _ (.inl (.inr hq)))
        (hinside _ (.inr hr))

end Tree

namespace Concrete

open TemplateLint.Tree (Piece)

/-- Items of one kind keep the order in which they are written. -/
theorem Spaced.pieces_sublist (k : Nat) (ss : List Spaced) :
    ((attributesAt k ss).map fun a => Piece.node (.attribute a)).Sublist (Spaced.pieces k ss) ∧
      ((modifiersAt k ss).map fun m => Piece.node (.elementModifier m)).Sublist
        (Spaced.pieces k ss) ∧
      ((notesAt k ss).map fun c => Piece.node (.mustacheComment c)).Sublist
        (Spaced.pieces k ss) := by
  induction ss generalizing k with
  | nil => exact ⟨.slnil, .slnil, .slnil⟩
  | cons s ss ih =>
    obtain ⟨lead, item⟩ := s
    obtain ⟨hattributes, hmodifiers, hnotes⟩ := ih (k + size (Spaced.mk lead item).chars)
    simp only [attributesAt_cons, modifiersAt_cons, notesAt_cons, Spaced.pieces]
    cases item with
    | «attribute» a => exact ⟨hattributes.cons_cons _, hmodifiers.cons _, hnotes.cons _⟩
    | modifier m => exact ⟨hattributes.cons _, hmodifiers.cons_cons _, hnotes.cons _⟩
    | note n => exact ⟨hattributes.cons _, hmodifiers.cons _, hnotes.cons_cons _⟩
    | params p => exact ⟨hattributes, hmodifiers, hnotes⟩

theorem OpeningTag.Stands.inOrder {t : OpeningTag} (h : t.Stands) {k : Nat} {e : Tree.Element}
    (he : e = { t.at k with children := e.children, closeSpan := e.closeSpan, span := e.span }) :
    e.openingParts.Pairwise e.InOrder := by
  rw [he]
  have hrow := h.row k
  have hperm := t.pieces_perm k
  obtain ⟨hattributes, hmodifiers, hnotes⟩ :=
    Spaced.pieces_sublist (k + size (Token.tagOpen.chars ++ t.name)) t.items
  obtain ⟨heqa, heqm, heqn⟩ := t.at_items k
  rw [← heqa] at hattributes
  rw [← heqm] at hmodifiers
  rw [← heqn] at hnotes
  refine Tree.Element.openingParts_inOrder ?_ ?_ (hrow.ordered.sublist hattributes)
    (hrow.ordered.sublist hmodifiers) (hrow.ordered.sublist hnotes)
  · exact (hperm.pairwise_iff fun hqr => Span.Apart.symm hqr).2
      (hrow.ordered.imp Piece.Before.apart)
  · exact fun q hq => hrow.inside (hperm.mem_iff.1 hq)

end Concrete

namespace Tree

/-- The parts of a piece that is no element stand as they are seen, those of an element but for swapped
items. -/
theorem Piece.WrittenAt.parts_inOrder {k : Nat} {cs : List Char} {p : Piece}
    (h : p.WrittenAt k cs) :
    p.parts.Pairwise fun q r => q.Before r ∨
      ∃ e m n, p = .node (.element e) ∧ q = .node m ∧ r = .node n ∧ e.Swapped m n := by
  by_cases hp : ∃ e, p = .node (.element e)
  · obtain ⟨e, rfl⟩ := hp
    suffices hparts : (Piece.node (.element e)).parts.Pairwise e.InOrder from
      hparts.imp fun hqr => hqr.imp_right fun ⟨m, n, hq, hr, hswapped⟩ =>
        ⟨e, m, n, rfl, hq, hr, hswapped⟩
    obtain ⟨opening, ss, rest, y, hopening, hss, rfl, he⟩ := h.element_eq
    have hchildren := hss.row (k + size opening.chars)
    have hitems : e.openingParts.Pairwise e.InOrder := hopening.inOrder (by rw [he])
    rw [he] at hitems ⊢
    refine List.pairwise_append.2 ⟨hitems, hchildren.ordered.imp .inl, fun q hq r hr => .inl ?_⟩
    have hq := (hopening.row k).inside ((opening.pieces_perm k).mem_iff.1 hq)
    exact Nat.le_trans hq.2 (hchildren.inside hr).1
  · exact (h.row_parts (not_exists.1 hp)).ordered.imp .inl

/-- A node in an item of the opening tag is seen before one in another item, which is written first. -/
structure Element.Crosses (e : Element) (a b : Node) : Prop where
  items : ∃ m n, e.Earlier m n ∧ n.span.stop ≤ m.span.start ∧ a ∈ m.nodes ∧ b ∈ n.nodes
  inside : a.span.Inside e.openSpan ∧ b.span.Inside e.openSpan

/-- A node is in a part of another. -/
def Node.Below (b a : Node) : Prop := ∃ q ∈ a.parts, q.Holds (.node b)

theorem Node.mem_flatMap_parts {a b : Node} : b ∈ a.parts.flatMap Piece.nodes ↔ b.Below a := by
  rw [List.mem_flatMap]
  exact ⟨fun ⟨q, hq, hb⟩ => ⟨q, hq, Piece.holds_of_mem_nodes hb⟩,
    fun ⟨q, hq, hb⟩ => ⟨q, hq, hb.mem_nodes⟩⟩

theorem Element.Earlier.mem_openingParts {e : Element} {m n : Node} (h : e.Earlier m n) :
    .node m ∈ e.openingParts ∧ .node n ∈ e.openingParts := by
  simp only [openingParts, List.mem_append, List.mem_map]
  cases h with
  | modifier ha hm => exact ⟨.inl (.inl ⟨_, ha, rfl⟩), .inl (.inr ⟨_, hm, rfl⟩)⟩
  | comment ha hc => exact ⟨.inl (.inl ⟨_, ha, rfl⟩), .inr ⟨_, hc, rfl⟩⟩
  | modifierComment hm hc => exact ⟨.inl (.inr ⟨_, hm, rfl⟩), .inr ⟨_, hc, rfl⟩⟩

/-- No text is in a modifier or a comment. -/
theorem Element.Earlier.canBeEmpty_later {e : Element} {m n b : Node} (h : e.Earlier m n)
    (hb : b ∈ n.nodes) : (Piece.node b).canBeEmpty = false := by
  cases h with
  | modifier ha hm =>
    rcases List.mem_cons.1 hb with rfl | hb
    · rfl
    · exact Piece.canBeEmpty_of_isArgument (Call.isArgument_of_mem_nodes hb)
  | comment ha hc =>
    obtain rfl := List.mem_singleton.1 hb
    rfl
  | modifierComment hm hc =>
    obtain rfl := List.mem_singleton.1 hb
    rfl

theorem Element.Crosses.start_lt {e : Element} {a b : Node} (hab : e.Crosses a b) {k : Nat}
    {cs : List Char} (h : (Piece.node (.element e)).WrittenAt k cs) :
    b.span.start < a.span.start := by
  obtain ⟨⟨m, n, hearlier, hbefore, ha, hb⟩, -⟩ := hab
  obtain ⟨hm, hn⟩ := hearlier.mem_openingParts
  obtain ⟨i, x, hx⟩ := h.part_written (List.mem_append_left _ hm)
  obtain ⟨j, y, hy⟩ := h.part_written (List.mem_append_left _ hn)
  have hheld := Piece.holds_of_mem_nodes (p := .node n) hb
  obtain ⟨u, z, v, -, hz⟩ := hheld.written hy
  have hlt : b.span.start < b.span.stop := hz.span_lt (hearlier.canBeEmpty_later hb)
  have hstop : b.span.stop ≤ n.span.stop := (hheld.bounds hy).2.2
  have hstart : m.span.start ≤ a.span.start :=
    ((Piece.holds_of_mem_nodes (p := .node m) ha).bounds hx).1
  omega

/-- A node that is seen before one with an earlier start crosses it. -/
theorem Piece.WrittenAt.nodes_inOrder {k : Nat} {cs : List Char} {p : Piece}
    (h : p.WrittenAt k cs) :
    p.nodes.Pairwise fun a b => b.span.start < a.span.start →
      ∃ e, p.Holds (.node (.element e)) ∧ e.Crosses a b := by
  induction p using Piece.induction generalizing k cs with
  | step p ih =>
    have hbounds : ∀ q ∈ p.parts, ∀ n ∈ q.nodes,
        q.span.start ≤ n.span.start ∧ n.span.start ≤ n.span.stop ∧ n.span.stop ≤ q.span.stop := by
      intro q hq n hn
      obtain ⟨j, x, hx⟩ := h.part_written hq
      exact (Piece.holds_of_mem_nodes hn).bounds hx
    have hparts : (p.parts.flatMap Piece.nodes).Pairwise fun a b =>
        b.span.start < a.span.start → ∃ e, p.Holds (.node (.element e)) ∧ e.Crosses a b := by
      refine List.pairwise_flatMap.2 ⟨fun q hq => ?_,
        h.parts_inOrder.imp_of_mem fun {q r} hq hr hqr a ha b hb hlt => ?_⟩
      · obtain ⟨j, x, hx⟩ := h.part_written hq
        refine (ih q hq hx).imp fun hab hlt => ?_
        obtain ⟨e, he, hcrosses⟩ := hab hlt
        exact ⟨e, .part hq he, hcrosses⟩
      · have hin := hbounds q hq a ha
        have hin' := hbounds r hr b hb
        rcases hqr with hbefore | ⟨e, m, n, rfl, rfl, rfl, hswapped⟩
        · have hle : q.span.stop ≤ r.span.start := hbefore
          omega
        · refine ⟨e, .refl _, ⟨m, n, hswapped.earlier, hswapped.before, ha, hb⟩, ?_, ?_⟩
          · exact Span.Inside.trans ⟨hin.1, hin.2.2⟩ hswapped.inside.1
          · exact Span.Inside.trans ⟨hin'.1, hin'.2.2⟩ hswapped.inside.2
    rcases p.nodes_cases with ⟨n, rfl, hnodes⟩ | hnodes
    · rw [hnodes]
      refine List.pairwise_cons.2 ⟨fun b hb hlt => ?_, hparts⟩
      obtain ⟨q, hq, hheld⟩ := Node.mem_flatMap_parts.1 hb
      have hle : n.span.start ≤ b.span.start := ((Piece.Holds.part hq hheld).bounds h).1
      exact absurd hlt (Nat.not_lt.2 hle)
    · rw [hnodes]
      exact hparts

end Tree

/-- Rules see every node of the tree of a source once. Right behind a node they see what is below it
and nothing else. A node is seen before one that starts earlier just where the two are in items of an
opening tag that are seen by kind, and the item of the second is written first. -/
theorem Tree.Template.parse_walk {source : String} {t : Tree.Template}
    (ht : Tree.Template.parse source = .ok t) :
    t.nodes.Nodup ∧
      (∀ a ∈ t.nodes, ∃ before below after, t.nodes = before ++ a :: below ++ after ∧
        ∀ b, b ∈ below ↔ b.Below a) ∧
      t.nodes.Pairwise fun a b => b.span.start < a.span.start ↔
        ∃ e, .element e ∈ t.nodes ∧ e.Crosses a b := by
  obtain ⟨u, x, v, -, hx⟩ := Tree.Template.written ht (.refl _)
  refine ⟨hx.nodes_nodup, fun a ha => ?_, hx.nodes_inOrder.imp fun {a b} hab => ⟨fun hlt => ?_, ?_⟩⟩
  · obtain ⟨before, after, hsplit⟩ := (Tree.Template.mem_nodes_iff.1 ha).infix_nodes
    refine ⟨before, a.parts.flatMap Tree.Piece.nodes, after, ?_, fun b => Tree.Node.mem_flatMap_parts⟩
    rw [← Tree.Node.nodes_eq]
    exact hsplit.symm
  · obtain ⟨e, he, hcrosses⟩ := hab hlt
    exact ⟨e, Tree.Template.mem_nodes_iff.2 he, hcrosses⟩
  · rintro ⟨e, he, hcrosses⟩
    obtain ⟨u', y, v', -, hy⟩ := Tree.Template.written ht (Tree.Template.mem_nodes_iff.1 he)
    exact hcrosses.start_lt hy

/-- An opening tag in which the items stand in the opposite order of their kinds. -/
def swappedItems : String :=
  "<p \x7b\x7b!c\x7d\x7d \x7b\x7bm x\x7d\x7d a=\x7b\x7bb\x7d\x7d c=>t</p>"

theorem Tree.Template.parse_walk_swapped :
    ∃ t, Tree.Template.parse swappedItems = .ok t ∧
      t.nodes.map Tree.Node.span =
        [⟨0, 34⟩, ⟨0, 34⟩, ⟨18, 25⟩, ⟨20, 25⟩, ⟨22, 23⟩, ⟨26, 28⟩, ⟨28, 28⟩, ⟨10, 17⟩, ⟨12, 13⟩,
          ⟨14, 15⟩, ⟨3, 9⟩, ⟨29, 30⟩] ∧
      t.nodes.Nodup ∧
      t.nodes.Pairwise fun a b => b.span.start < a.span.start ↔
        ∃ e, .element e ∈ t.nodes ∧ e.Crosses a b := by
  have hspans : (Tree.Template.parse swappedItems).toOption.map (fun t =>
      t.nodes.map Tree.Node.span) =
        some [⟨0, 34⟩, ⟨0, 34⟩, ⟨18, 25⟩, ⟨20, 25⟩, ⟨22, 23⟩, ⟨26, 28⟩, ⟨28, 28⟩, ⟨10, 17⟩,
          ⟨12, 13⟩, ⟨14, 15⟩, ⟨3, 9⟩, ⟨29, 30⟩] := by
    decide +kernel
  cases ht : Tree.Template.parse swappedItems with
  | error e =>
    rw [ht] at hspans
    cases hspans
  | ok t =>
    rw [ht] at hspans
    obtain ⟨hnodup, -, hordered⟩ := Tree.Template.parse_walk ht
    exact ⟨t, rfl, Option.some.inj hspans, hnodup, hordered⟩

end TemplateLint
