import TemplateLint.Proofs.Layout.Moved
import TemplateLint.Proofs.Layout.Tiling
import TemplateLint.Proofs.Reading.Following

namespace TemplateLint

open Text (size slice?)
open Concrete (Section)

namespace Tree

/-- What a plain `else` leads to. -/
def ElsePart.plain? : ElsePart → Option Body
  | .final _ body => some body
  | _ => none

/-- The program and the plain `else` body of a block, the children between the two tags of an
element. -/
def Node.bodies : Node → List Body
  | .block b => b.program :: b.inverse.plain?.toList
  | .element e => (e.closeSpan.map e.content).toList
  | _ => []

/-- The text `cs` at `k` holds statements that are read as the body. -/
def Body.WrittenIn (k : Nat) (cs : List Char) (b : Body) : Prop :=
  ∃ u ss v rest, cs = u ++ (Concrete.Statement.charsAll ss ++ v) ∧
    Concrete.Statement.AllStand ss rest ∧
    b = ⟨Concrete.Statement.atAll (k + size u) ss, .over (k + size u) (Concrete.Statement.charsAll ss)⟩

namespace Body.WrittenIn

variable {k : Nat} {cs : List Char} {b : Body}

theorem after (u : List Char) (h : b.WrittenIn (k + size u) cs) : b.WrittenIn k (u ++ cs) := by
  obtain ⟨w, ss, v, rest, rfl, hss, rfl⟩ := h
  exact ⟨u ++ w, ss, v, rest, by simp, hss, by rw [Text.size_append, Nat.add_assoc]⟩

theorem before (v : List Char) (h : b.WrittenIn k cs) : b.WrittenIn k (cs ++ v) := by
  obtain ⟨u, ss, w, rest, rfl, hss, rfl⟩ := h
  exact ⟨u, ss, w ++ v, rest, by simp, hss, rfl⟩

end Body.WrittenIn

end Tree

namespace Concrete

theorem Statement.AllStand.writtenIn {ss : List Statement} {rest : List Char}
    (h : Statement.AllStand ss rest) (k : Nat) :
    Tree.Body.WrittenIn k (Statement.charsAll ss)
      ⟨Statement.atAll k ss, ⟨k, k + Statement.widthAll ss⟩⟩ := by
  refine ⟨[], ss, [], rest, by simp, h, ?_⟩
  rw [Statement.widthAll_eq]
  rfl

theorem Section.AllStand.writtenIn {sections : List Section} {rest : List Char} {k : Nat}
    {b : Tree.Body} (h : Section.AllStand sections rest)
    (hb : (Section.atAll k sections).plain? = some b) :
    b.WrittenIn k (Section.charsAll sections) := by
  cases sections with
  | nil => simp [Section.atAll, Tree.ElsePart.plain?] at hb
  | cons s more =>
    obtain ⟨⟨tilde, lead, tail⟩, body⟩ := s
    cases tail with
    | plain trail after =>
      obtain ⟨-, hbody, -⟩ := h
      simp only [Section.atAll, Tree.ElsePart.plain?, Option.some.injEq] at hb
      rw [← hb, Section.charsAll, Section.chars]
      exact ((hbody.writtenIn _).after _).before _
    | chained call ending => simp [Section.atAll, Tree.ElsePart.plain?] at hb

theorem Statement.Stands.writtenIn {s : Statement} {rest : List Char} (h : s.Stands rest) {k : Nat}
    {b : Tree.Body} (hb : b ∈ (s.at k).node.bodies) : b.WrittenIn k s.chars := by
  cases s with
  | block opening program sections closing =>
    obtain ⟨-, hprogram, hsections, -⟩ := h
    rw [Statement.at_block] at hb
    simp only [Statement.chars]
    rcases List.mem_cons.1 hb with rfl | hb
    · exact (((hprogram.writtenIn _).after opening.chars).before _).before _
    · have hplain := hsections.writtenIn (Option.mem_toList.1 hb)
      rw [Statement.widthAll_eq, Nat.add_assoc, ← Text.size_append] at hplain
      exact (hplain.after _).before _
  | element opening children closing =>
    obtain ⟨-, -, hchildren, -⟩ := h
    obtain rfl := List.mem_singleton.1 hb
    have hbody := (hchildren.writtenIn (k + size opening.chars)).after opening.chars
    simp only [Statement.chars, List.append_assoc] at hbody ⊢
    rw [← List.append_assoc]
    exact hbody.before _
  | _ => cases hb

/-- The bodies of a segment are written in the sections of its chain. -/
theorem Section.AllStand.writtenIn_segment {sections : List Section} {rest : List Char} {k : Nat}
    {segment : Tree.Block} {b : Tree.Body} (h : Section.AllStand sections rest)
    (hs : Section.atAll k sections = .chained segment)
    (hb : b ∈ (Tree.Node.block segment).bodies) : b.WrittenIn k (Section.charsAll sections) := by
  obtain ⟨tilde, lead, call, ending, body, more, rfl, rfl⟩ := Section.eq_of_chained hs
  obtain ⟨-, hbody, -, hmore⟩ := h
  rw [Section.charsAll, Section.chars]
  rcases List.mem_cons.1 hb with rfl | hb
  · exact ((hbody.writtenIn _).after _).before _
  · have hplain := hmore.writtenIn (Option.mem_toList.1 hb)
    rw [Statement.widthAll_eq, Nat.add_assoc, ← Text.size_append] at hplain
    exact hplain.after _

end Concrete

namespace Tree

theorem Piece.WrittenAt.writtenIn {k : Nat} {cs : List Char} {n : Node} {b : Body}
    (h : (Piece.node n).WrittenAt k cs) (hb : b ∈ n.bodies) : b.WrittenIn k cs := by
  cases h with
  | @expr _ e rest h => cases he : e.at k <;> rw [he] at hb <;> cases hb
  | statement k h => exact h.writtenIn hb
  | segment k h hs => exact h.writtenIn_segment hs hb
  | _ => cases hb

end Tree

/-- Every body of a block or an element is a template by itself. Its tree is the one that the body has
in its place, with all ranges counted from the start of the body. -/
theorem Tree.Template.parse_body {source : String} {t : Tree.Template}
    (ht : Tree.Template.parse source = .ok t) {n : Tree.Node} (hn : t.Holds (.node n))
    {b : Tree.Body} (hb : b ∈ n.bodies) :
    ∃ cs t', slice? b.span source.toList = some cs ∧
      Tree.Template.parse (String.ofList cs) = .ok t' ∧
      t'.body = Tree.Statement.respanAll (.back b.span.start) b.statements ∧
      b.statements = Tree.Statement.respanAll (.forward b.span.start) t'.body := by
  obtain ⟨u, x, v, hsource, hx⟩ := Tree.Template.written ht hn
  obtain ⟨w, ss, v', rest, rfl, hss, rfl⟩ := hx.writtenIn hb
  have hslice := Text.slice?_append (u ++ w) (Concrete.Statement.charsAll ss) (v' ++ v)
  have hback := Span.moves_back (size u + size w) 0
  have hforward := Span.moves_forward (size u + size w) 0
  simp only [Text.size_append, List.append_assoc, Nat.add_zero] at hslice hback hforward
  refine ⟨Concrete.Statement.charsAll ss, .ofConcrete ss, ?_, ?_, ?_, ?_⟩
  · rw [hsource, List.append_assoc, List.append_assoc]
    exact hslice
  · exact Tree.Template.parse_eq_ok.2 ⟨ss, hss.alone, rfl, rfl⟩
  · exact (Concrete.Statement.atAll_moved ss hback).symm
  · exact (Concrete.Statement.atAll_moved ss hforward).symm

/-- A text that ends where the `else` after it begins, and an element in the `else` body. -/
def nestedBodies : String :=
  "\x7b\x7b#if a\x7d\x7dé<\x7b\x7belse\x7d\x7d<b>\x7b\x7bc\x7d\x7d</b>\x7b\x7b/if\x7d\x7d"

theorem Tree.Template.parse_body_nested :
    ∃ t, Tree.Template.parse nestedBodies = .ok t ∧
      (t.nodes.flatMap Tree.Node.bodies).map Tree.Body.span = [⟨9, 12⟩, ⟨20, 32⟩, ⟨23, 28⟩] ∧
      ∀ n, t.Holds (.node n) → ∀ b ∈ n.bodies, ∃ cs t',
        slice? b.span nestedBodies.toList = some cs ∧
          Tree.Template.parse (String.ofList cs) = .ok t' ∧
          b.statements = Tree.Statement.respanAll (.forward b.span.start) t'.body := by
  have hspans : (Tree.Template.parse nestedBodies).toOption.map (fun t =>
      (t.nodes.flatMap Tree.Node.bodies).map Tree.Body.span) =
        some [⟨9, 12⟩, ⟨20, 32⟩, ⟨23, 28⟩] := by
    decide +kernel
  cases ht : Tree.Template.parse nestedBodies with
  | error e =>
    rw [ht] at hspans
    cases hspans
  | ok t =>
    rw [ht] at hspans
    refine ⟨t, rfl, Option.some.inj hspans, fun n hn b hb => ?_⟩
    obtain ⟨cs, t', hslice, hparse, -, hstatements⟩ := Tree.Template.parse_body ht hn hb
    exact ⟨cs, t', hslice, hparse, hstatements⟩

namespace Concrete

theorem Statement.atAll_append (k : Nat) (ss ts : List Statement) :
    Statement.atAll k (ss ++ ts) =
      Statement.atAll k ss ++ Statement.atAll (k + size (Statement.charsAll ss)) ts := by
  induction ss generalizing k with
  | nil => rfl
  | cons s ss ih =>
    simp only [List.cons_append, Statement.atAll, Statement.charsAll, Text.size_append,
      Statement.width_eq, ih, Nat.add_assoc]

theorem Statement.getLast?_atAll (k : Nat) {ss : List Statement} {cs : List Char}
    (h : ss.getLast? = some (.text cs)) :
    ∃ text, (Statement.atAll k ss).getLast? = some (.text text) := by
  obtain ⟨more, rfl⟩ := List.getLast?_eq_some_iff.1 h
  rw [Statement.atAll_append]
  exact ⟨_, List.getLast?_concat⟩

end Concrete

/-- A template that does not end with a text goes on with any other template. The tree of the whole
has the statements of both, those of the second where they stand now. -/
theorem Tree.Template.parse_append {s t : String} {a b : Tree.Template}
    (ha : Tree.Template.parse s = .ok a) (hb : Tree.Template.parse t = .ok b)
    (hlast : s = "" ∨ ∀ text, a.body.getLast? ≠ some (.text text)) :
    ∃ c, Tree.Template.parse (s ++ t) = .ok c ∧
      c.body = a.body ++ Tree.Statement.respanAll (.forward (size s.toList)) b.body := by
  obtain ⟨ss, hss, rfl, rfl⟩ := Tree.Template.parse_eq_ok.1 ha
  obtain ⟨ts, hts, rfl, rfl⟩ := Tree.Template.parse_eq_ok.1 hb
  have hopen : ∀ cs, ss.getLast? ≠ some (.text cs) := by
    intro cs hcs
    rcases hlast with hempty | hlast
    · cases ss with
      | nil => cases hcs
      | cons s ss =>
        have hchars := congrArg String.toList hempty
        simp [Concrete.Statement.charsAll, hss.1.ne_nil] at hchars
    · obtain ⟨text, htext⟩ := Concrete.Statement.getLast?_atAll 0 hcs
      exact hlast text htext
  have hbefore : Concrete.Statement.AllStand ss (Concrete.Statement.charsAll ts ++ []) :=
    hss.follow fun cs hcs => absurd hcs (hopen cs)
  refine ⟨.ofConcrete (ss ++ ts), Tree.Template.parse_eq_ok.2 ⟨_, hbefore.append hts, ?_, rfl⟩, ?_⟩
  · rw [Concrete.Statement.charsAll_append, String.ofList_append]
  · have hforward := Span.moves_forward (size (Concrete.Statement.charsAll ss)) 0
    rw [Nat.add_zero] at hforward
    simp only [Tree.Template.ofConcrete, Concrete.Statement.atAll_append, Nat.zero_add,
      String.toList_ofList, Concrete.Statement.atAll_moved ts hforward]

/-- A comment, which may be followed by what would end a mustache. -/
def closingAfterNote : String × String := ("é\x7b\x7b!-- a --\x7d\x7d", "\x7d<b>c</b>")

theorem Tree.Template.parse_append_note :
    ∃ a b c, Tree.Template.parse closingAfterNote.1 = .ok a ∧
      Tree.Template.parse closingAfterNote.2 = .ok b ∧
      (∀ text, a.body.getLast? ≠ some (.text text)) ∧
      Tree.Template.parse (closingAfterNote.1 ++ closingAfterNote.2) = .ok c ∧
      c.body = a.body ++ Tree.Statement.respanAll (.forward 14) b.body := by
  have hfirst : (Tree.Template.parse closingAfterNote.1).toOption.map (fun t =>
      (t.body.getLast?.map fun s => s.node.kind)) = some (some .mustacheComment) := by
    decide +kernel
  have hsecond : (Tree.Template.parse closingAfterNote.2).isOk = true := by decide +kernel
  have hsize : size closingAfterNote.1.toList = 14 := by decide +kernel
  cases ha : Tree.Template.parse closingAfterNote.1 with
  | error e =>
    rw [ha] at hfirst
    cases hfirst
  | ok a =>
    rw [ha] at hfirst
    have hkind : a.body.getLast?.map (fun s => s.node.kind) = some .mustacheComment :=
      Option.some.inj hfirst
    have hlast : ∀ text, a.body.getLast? ≠ some (.text text) := by
      intro text h
      rw [h] at hkind
      cases hkind
    cases hb : Tree.Template.parse closingAfterNote.2 with
    | error e =>
      rw [hb] at hsecond
      cases hsecond
    | ok b =>
      obtain ⟨c, hc, hbody⟩ := Tree.Template.parse_append ha hb (.inr hlast)
      rw [hsize] at hbody
      exact ⟨a, b, c, rfl, rfl, hlast, hc, hbody⟩

end TemplateLint
