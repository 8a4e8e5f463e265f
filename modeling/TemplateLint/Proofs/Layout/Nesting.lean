import TemplateLint.Proofs.Edit.Selection
import TemplateLint.Proofs.Layout.Nodes
import TemplateLint.Proofs.Layout.Written

namespace TemplateLint

namespace Tree

theorem Node.parts_of_call {n : Node} {c : Call} (hc : n.call? = some c) :
    ∃ ps, n.parts = c.parts ++ ps := by
  cases n with
  | mustache m => cases hc; exact ⟨[], (List.append_nil _).symm⟩
  | block b => cases hc; exact ⟨_, rfl⟩
  | subExpression e => cases hc; exact ⟨[], (List.append_nil _).symm⟩
  | elementModifier m => cases hc; exact ⟨[], (List.append_nil _).symm⟩
  | _ => cases hc

/-- The parts of a call are in the order in which they are written. -/
theorem Piece.WrittenAt.call_ordered {k : Nat} {cs : List Char} {n : Node} {c : Call}
    (h : (Piece.node n).WrittenAt k cs) (hc : n.call? = some c) :
    c.parts.Pairwise Piece.Before := by
  have hrow := h.row_parts (by rintro e ⟨⟩; cases hc)
  obtain ⟨ps, hparts⟩ := Node.parts_of_call hc
  rw [Piece.parts, hparts] at hrow
  exact (List.pairwise_append.1 hrow.ordered).1

theorem Piece.Holds.inside_written {p q : Piece} (hpq : p.Holds q) {k : Nat} {cs : List Char}
    (h : p.WrittenAt k cs) : q.span.Inside p.span := by
  refine hpq.inside fun r hr => ?_
  obtain ⟨u, x, v, -, hx⟩ := hr.written h
  exact hx.nested

/-- Nodes of which none is in another have no byte in common. -/
theorem Piece.WrittenAt.filter_apart {select : Node → Bool}
    (hselect : ∀ n, select n = true → ∀ q ∈ n.parts, ∀ m ∈ q.nodes, select m = false) {p : Piece}
    {k : Nat} {cs : List Char} (h : p.WrittenAt k cs) :
    (p.nodes.filter select).Pairwise fun m n => m.span.Apart n.span := by
  induction p using Piece.induction generalizing k cs with
  | step p ih =>
    have hinside : ∀ q ∈ p.parts, ∀ m ∈ q.nodes.filter select, m.span.Inside q.span := by
      intro q hq m hm
      obtain ⟨j, x, hx⟩ := h.part_written hq
      exact (Piece.holds_of_mem_nodes (List.mem_filter.1 hm).1).inside_written hx
    have hparts : ((p.parts.flatMap Piece.nodes).filter select).Pairwise
        fun m n => m.span.Apart n.span := by
      rw [List.filter_flatMap, List.pairwise_flatMap]
      refine ⟨fun q hq => ?_, h.nested.2.imp_of_mem fun {q r} hq hr hapart m hm n hn => ?_⟩
      · obtain ⟨j, x, hx⟩ := h.part_written hq
        exact ih q hq hx
      · exact Span.Apart.inside hapart (hinside q hq m hm) (hinside r hr n hn)
    rcases p.nodes_cases with ⟨n, rfl, hnodes⟩ | hnodes
    · rw [hnodes, List.filter_cons]
      split
      · next hn =>
        refine List.pairwise_cons.2 ⟨fun m hm => ?_, hparts⟩
        obtain ⟨hm, hsel⟩ := List.mem_filter.1 hm
        obtain ⟨q, hq, hm⟩ := List.mem_flatMap.1 hm
        rw [hselect n hn q hq m hm] at hsel
        cases hsel
      · exact hparts
    · rw [hnodes]
      exact hparts

end Tree

/-- Every piece of the tree of a source has a range of the source, in the range of what it is part of
and apart from the other parts of that. So the ranges of two pieces are nested or have no byte in
common. The parts of a call are in the order of the source. -/
theorem Tree.Template.parse_nested {source : String} {t : Tree.Template}
    (ht : Tree.Template.parse source = .ok t) :
    (∀ p, t.Holds p → p.span.Fits source.toList ∧ (∀ q ∈ p.parts, q.span.Inside p.span) ∧
        p.parts.Pairwise Tree.Piece.Apart) ∧
      (∀ p q, t.Holds p → t.Holds q →
        p.span.Inside q.span ∨ q.span.Inside p.span ∨ p.Apart q) ∧
      ∀ n ∈ t.nodes, ∀ c, n.call? = some c → c.parts.Pairwise Tree.Piece.Before := by
  have hnested : ∀ p, t.Holds p → p.Nested := by
    intro p hp
    obtain ⟨u, x, v, -, hx⟩ := Tree.Template.written ht hp
    exact hx.nested
  refine ⟨?_, ?_, ?_⟩
  · intro p hp
    obtain ⟨u, x, v, hsource, hx⟩ := Tree.Template.written ht hp
    refine ⟨?_, hnested p hp⟩
    rw [hx.span_eq, hsource]
    exact Span.fits_append u x v
  · intro p q hp hq
    exact hp.nested_or_apart hnested hq
  · intro n hn c hc
    obtain ⟨u, x, v, -, hx⟩ := Tree.Template.written ht (Tree.Template.mem_nodes_iff.1 hn)
    exact hx.call_ordered hc

/-- An attribute without a value, an empty value, a call of a call and a chain, in one element. -/
def mixedSource : String :=
  "<a b c=>\x7b\x7b(f x) y k=1\x7d\x7d\x7b\x7b#if z\x7d\x7dé\x7b\x7belse if w\x7d\x7d2\x7b\x7b/if\x7d\x7d</a>"

theorem Tree.Template.parse_nested_mixed :
    ∃ t, Tree.Template.parse mixedSource = .ok t ∧
      t.nodes.map Tree.Node.span =
        [⟨0, 59⟩, ⟨0, 59⟩, ⟨3, 4⟩, ⟨5, 7⟩, ⟨7, 7⟩, ⟨8, 23⟩, ⟨10, 15⟩, ⟨11, 12⟩, ⟨13, 14⟩, ⟨16, 17⟩,
          ⟨20, 21⟩, ⟨23, 55⟩, ⟨26, 28⟩, ⟨29, 30⟩, ⟨32, 34⟩, ⟨34, 48⟩, ⟨41, 43⟩, ⟨44, 45⟩, ⟨47, 48⟩] ∧
      (∀ p, t.Holds p → p.span.Fits mixedSource.toList ∧ p.Nested) ∧
      ∀ p q, t.Holds p → t.Holds q →
        p.span.Inside q.span ∨ q.span.Inside p.span ∨ p.Apart q := by
  have hspans : (Tree.Template.parse mixedSource).toOption.map (fun t =>
      t.nodes.map Tree.Node.span) =
        some [⟨0, 59⟩, ⟨0, 59⟩, ⟨3, 4⟩, ⟨5, 7⟩, ⟨7, 7⟩, ⟨8, 23⟩, ⟨10, 15⟩, ⟨11, 12⟩, ⟨13, 14⟩,
          ⟨16, 17⟩, ⟨20, 21⟩, ⟨23, 55⟩, ⟨26, 28⟩, ⟨29, 30⟩, ⟨32, 34⟩, ⟨34, 48⟩, ⟨41, 43⟩, ⟨44, 45⟩,
          ⟨47, 48⟩] := by
    decide +kernel
  cases ht : Tree.Template.parse mixedSource with
  | error e =>
    rw [ht] at hspans
    cases hspans
  | ok t =>
    rw [ht] at hspans
    obtain ⟨hpieces, hpairs, -⟩ := Tree.Template.parse_nested ht
    exact ⟨t, rfl, Option.some.inj hspans, hpieces, hpairs⟩

end TemplateLint
