import TemplateLint.Proofs.Layout.Composition

namespace TemplateLint

open Text (size slice? startsWith Clear)
open Concrete (IsQuote)

/-- The string is the text of the range. -/
def Span.Says (cs : List Char) (span : Span) (s : String) : Prop := slice? span cs = some s.toList

theorem Span.says_over (u x v : List Char) :
    (Span.over (size u) x).Says (u ++ (x ++ v)) (String.ofList x) := by
  rw [Span.Says, String.toList_ofList]
  exact Text.slice?_append u x v

namespace Tree

/-- A character of a string as it is written: by itself, or behind a backslash. -/
inductive QuotedChar where
  | plain (c : Char)
  | escaped (c : Char)

namespace QuotedChar

def written : QuotedChar → List Char
  | plain c => [c]
  | escaped c => ['\\', c]

def meant : QuotedChar → Char
  | plain c => c
  | escaped c => c

end QuotedChar

/-- The range holds the string between two equal quotes. Each backslash in it is dropped and the
character behind it kept, whatever it is. -/
def StringAt (cs : List Char) (span : Span) (value : String) : Prop :=
  ∃ (mark : Char) (units : List QuotedChar), IsQuote mark ∧
    slice? span cs = some (mark :: (units.flatMap QuotedChar.written ++ [mark])) ∧
    value.toList = units.map QuotedChar.meant ∧ ∀ c, .plain c ∈ units → c ≠ mark ∧ c ≠ '\\'

def Literal.Verbatim (cs : List Char) (l : Literal) : Prop :=
  match l.value with
  | .string value => StringAt cs l.span value
  | .number text => l.span.Says cs text
  | .boolean value => l.span.Says cs (if value then "true" else "false")
  | .null => l.span.Says cs "null"
  | .undefined => l.span.Says cs "undefined"

/-- The comment is the text from what opens it up to the first place where one of `closings` stands. -/
def Comment.Between (cs opening : List Char) (closings : List (List Char)) (c : Comment) : Prop :=
  ∃ u closing v, closing ∈ closings ∧ cs = u ++ (opening ++ (c.value.toList ++ (closing ++ v))) ∧
    c.span = .over (size u) (opening ++ (c.value.toList ++ closing)) ∧
    Clear (fun s => closings.any (startsWith · s)) c.value.toList (closing ++ v)

/-- A template comment that opens with two dashes also closes with two. -/
def Comment.NoteIn (cs : List Char) (c : Comment) : Prop :=
  ∃ tilde dashes, c.Between cs
      (['{', '{'] ++ Concrete.flagged tilde ['~'] ++ ['!'] ++ Concrete.flagged dashes ['-', '-'])
      [Concrete.flagged dashes ['-', '-'] ++ ['}', '}'],
        Concrete.flagged dashes ['-', '-'] ++ ['~', '}', '}']] ∧
    (dashes = false → startsWith ['-', '-'] c.value.toList = false)

/-- What content keeps of the source by itself, not by the nodes in it. -/
def Statement.Verbatim (cs : List Char) : Statement → Prop
  | .text t => t.span.Says cs t.chars
  | .comment c => c.Between cs ['<', '!', '-', '-'] [['-', '-', '>']]
  | .mustacheComment c => c.NoteIn cs
  | _ => True

def ConcatPart.Verbatim (cs : List Char) : ConcatPart → Prop
  | .text t => t.span.Says cs t.chars
  | .mustache _ => True

/-- A plain value stands between two equal quotes, or by itself and then does not begin with a
quote. -/
def AttrValue.Verbatim (cs : List Char) : AttrValue → Prop
  | .text t =>
    (∃ mark, IsQuote mark ∧ mark ∉ t.chars.toList ∧
      slice? t.span cs = some (mark :: (t.chars.toList ++ [mark]))) ∨
    t.span.Says cs t.chars ∧ ∀ mark, IsQuote mark → t.chars.toList.head? ≠ some mark
  | .concat parts _ => ∀ p ∈ parts, p.Verbatim cs
  | _ => True

/-- A block that is no segment of a chain is called and closed by the same path. -/
def Block.ClosedByName (cs : List Char) (b : Block) : Prop :=
  b.isSegment = false → ∃ path close, b.call.callee = .path path ∧ b.close = some close ∧
    close.pathSpan.Says cs path.text

structure Element.Verbatim (cs : List Char) (e : Element) : Prop where
  tag : e.tagSpan.Says cs e.tag
  comments : ∀ c ∈ e.comments, c.NoteIn cs
  close : ∀ span, e.closeSpan = some span → ∃ inner, '>' ∉ inner ∧
    slice? span cs = some (['<', '/'] ++ (inner ++ ['>'])) ∧ Text.trim inner = e.tag.toList

/-- The strings that a node keeps are those of the source. Texts and comments are not nodes to say
this of but parts of what holds them, since a quoted value counts its quotes in its range. -/
def Node.Verbatim (cs : List Char) : Node → Prop
  | .template t => ∀ s ∈ t.body, s.Verbatim cs
  | .path p => p.span.Says cs p.text
  | .literal l => l.Verbatim cs
  | .attribute a => a.nameSpan.Says cs a.name ∧ a.value.Verbatim cs
  | .block b =>
    b.ClosedByName cs ∧ ∀ body ∈ (Node.block b).bodies, ∀ s ∈ body.statements, s.Verbatim cs
  | .element e => e.Verbatim cs ∧ ∀ s ∈ e.children, s.Verbatim cs
  | _ => True

end Tree

namespace Concrete

open TemplateLint.Tree (QuotedChar)

theorem Closes.exists_units {mark : Char} {raw : List Char} (h : Closes mark raw) :
    ∃ units : List QuotedChar, raw = units.flatMap QuotedChar.written ∧
      unescape raw = units.map QuotedChar.meant ∧
      ∀ c, .plain c ∈ units → c ≠ mark ∧ c ≠ '\\' := by
  fun_induction Closes mark raw with
  | case1 => exact ⟨[], rfl, rfl, by simp⟩
  | case2 => exact h.elim
  | case3 c s ih =>
    obtain ⟨units, rfl, hmeant, hplain⟩ := ih h
    refine ⟨.escaped c :: units, rfl, ?_, ?_⟩
    · rw [unescape, hmeant]
      rfl
    · intro d hd
      exact hplain d (by simpa using hd)
  | case4 c s hne hne' ih =>
    have hc : c ≠ '\\' := by
      rintro rfl
      cases s with
      | nil => exact hne rfl rfl
      | cons d s => exact hne' d s rfl rfl
    obtain ⟨units, rfl, hmeant, hplain⟩ := ih h.2
    refine ⟨.plain c :: units, rfl, ?_, ?_⟩
    · rw [unescape_cons hc, hmeant]
      rfl
    · intro d hd
      rcases List.mem_cons.1 hd with heq | hd
      · cases heq
        exact ⟨h.1, hc⟩
      · exact hplain d hd

theorem wordAt_verbatim (u w v : List Char) :
    (wordAt (size u) w).node.Verbatim (u ++ (w ++ v)) := by
  have hsays := Span.says_over u w v
  unfold wordAt
  dsimp only
  split
  · next h => subst h; exact hsays
  · split
    · next h => subst h; exact hsays
    · split
      · next h => subst h; exact hsays
      · split
        · next h => subst h; exact hsays
        · split
          · exact hsays
          · exact hsays

theorem Expr.Stands.verbatim {e : Expr} {rest : List Char} (h : e.Stands rest) (u v : List Char) :
    (e.at (size u)).node.Verbatim (u ++ (e.chars ++ v)) := by
  cases e with
  | word w => exact wordAt_verbatim u w v
  | quoted mark raw =>
    obtain ⟨hmark, hcloses⟩ := h
    obtain ⟨units, hraw, hmeant, hplain⟩ := hcloses.exists_units
    refine ⟨mark, units, hmark, ?_, by rw [String.toList_ofList, hmeant], hplain⟩
    rw [← hraw, Expr.width_eq]
    exact Text.slice?_append u (Expr.quoted mark raw).chars v
  | group call => trivial

theorem startsWith_marks (a b s : List Char) :
    startsWith (a ++ b) s = ((Text.after? a s).map (startsWith b)).getD false := by
  induction a generalizing s with
  | nil => cases s <;> rfl
  | cons c a ih =>
    cases s with
    | nil => rfl
    | cons d s =>
      have hs := ih s
      unfold startsWith at hs ⊢
      rw [List.cons_append, Text.after?_cons_cons, Text.after?_cons_cons]
      split
      · exact hs
      · rfl

theorem tagEndAhead_eq (s : List Char) :
    tagEndAhead s = (startsWith ['}', '}'] s || startsWith ['~', '}', '}'] s) := by
  cases s with
  | nil => rfl
  | cons c s =>
    by_cases hc : c = '~'
    · subst hc
      simp [tagEndAhead, Text.eat, startsWith, Token.chars, Text.after?]
    · simp [tagEndAhead, Text.eat, startsWith, Token.chars, Text.after?, hc, Ne.symm hc]

theorem noteEndAhead_eq (dashes : Bool) (s : List Char) :
    noteEndAhead dashes s = [flagged dashes ['-', '-'] ++ ['}', '}'],
      flagged dashes ['-', '-'] ++ ['~', '}', '}']].any (startsWith · s) := by
  simp only [List.any_cons, List.any_nil, Bool.or_false, startsWith_marks]
  unfold noteEndAhead
  cases Text.after? (flagged dashes ['-', '-']) s with
  | none => rfl
  | some rest => exact tagEndAhead_eq rest

theorem Note.Stands.noteIn {n : Note} (h : n.Stands) (u v : List Char) :
    (n.at (size u)).NoteIn (u ++ (n.chars ++ v)) := by
  obtain ⟨hdashes, hclear⟩ := h
  refine ⟨n.tildeBefore, n.dashes, ⟨u, n.tail, v, ?_, ?_, ?_, ?_⟩, fun hd => ?_⟩
  · cases hd : n.dashes <;> cases ht : n.tildeAfter <;> simp [Note.tail, Token.chars, flagged, hd, ht]
  · rw [Note.chars_append]
    simp [Note.at, Token.chars]
  · have hchars := n.chars_append []
    rw [List.append_nil, List.append_nil] at hchars
    simp only [Note.at, hchars, String.toList_ofList]
    simp [Token.chars]
  · simp only [← noteEndAhead_eq, Note.at, String.toList_ofList]
    exact (n.clear_tail v).2 hclear
  · simp only [Note.at, String.toList_ofList]
    cases hvalue : startsWith ['-', '-'] n.value with
    | false => rfl
    | true =>
      obtain ⟨rest, hrest⟩ := Text.startsWith_iff.1 hvalue
      have hnone := hdashes hd
      rw [hrest, List.append_assoc, Text.startsWith_append] at hnone
      cases hnone

theorem Spaced.AllStand.noteIn {items : List Spaced} {rest : List Char}
    (h : Spaced.AllStand items rest) (u v : List Char) :
    ∀ c ∈ notesAt (size u) items, c.NoteIn (u ++ (items.flatMap Spaced.chars ++ v)) := by
  induction items generalizing u with
  | nil => simp [notesAt, Spaced.offsets]
  | cons s items ih =>
    obtain ⟨lead, item⟩ := s
    obtain ⟨-, hitem, hitems⟩ := h
    intro c hc
    rw [notesAt_cons] at hc
    rcases List.mem_append.1 hc with hc | hc
    · cases item with
      | note n =>
        obtain rfl := List.mem_singleton.1 hc
        have hnote := Note.Stands.noteIn hitem (u ++ lead) (items.flatMap Spaced.chars ++ v)
        simpa [Spaced.chars, Item.chars] using hnote
      | _ => cases hc
    · have hnext := ih hitems (u ++ (Spaced.mk lead item).chars) c
      rw [Text.size_append] at hnext
      simpa using hnext hc

theorem OpeningTag.Stands.noteIn {t : OpeningTag} (h : t.Stands) (u v : List Char) :
    ∀ c ∈ (t.at (size u)).comments, c.NoteIn (u ++ (t.chars ++ v)) := by
  intro c hc
  rw [(t.at_items (size u)).2.2, ← Text.size_append] at hc
  have hnote := h.2.2.2.1.noteIn (u ++ (Token.tagOpen.chars ++ t.name))
    (t.trail ++ (tagClosing t.selfClosing ++ v)) c hc
  rw [OpeningTag.chars_append]
  simpa using hnote

theorem Part.atAll_verbatim (ps : List Part) (u v : List Char) :
    ∀ p ∈ Part.atAll (size u) ps, p.Verbatim (u ++ (ps.flatMap Part.chars ++ v)) := by
  induction ps generalizing u with
  | nil => simp [Part.atAll]
  | cons p ps ih =>
    intro q hq
    have hps := ih (u ++ p.chars) q
    rw [Text.size_append] at hps
    cases p with
    | text cs =>
      rcases List.mem_cons.1 hq with rfl | hq
      · have hsays := Span.says_over u cs (ps.flatMap Part.chars ++ v)
        simpa [Part.chars, Tree.ConcatPart.Verbatim] using hsays
      · simpa [Part.chars] using hps hq
    | mustache m =>
      rcases List.mem_cons.1 hq with rfl | hq
      · trivial
      · simpa [Part.chars] using hps hq

theorem AttrValue.Stands.verbatim {a : AttrValue} {rest : List Char} (h : a.Stands rest)
    (u v : List Char) : (a.at (size u)).Verbatim (u ++ (a.chars ++ v)) := by
  cases a with
  | quoted mark parts =>
    rw [AttrValue.at]
    split
    · intro p hp
      have hparts := Part.atAll_verbatim parts (u ++ [mark]) ([mark] ++ v) p
      rw [Text.size_append] at hparts
      simpa [AttrValue.chars] using hparts hp
    · next hplain =>
      refine .inl ⟨mark, h.1, ?_, ?_⟩
      · rw [String.toList_ofList]
        exact not_mem_parts h.2 (Bool.eq_false_iff.2 hplain)
      · rw [String.toList_ofList]
        exact Text.slice?_append u (AttrValue.quoted mark parts).chars v
  | mustache m => trivial
  | bare cs =>
    obtain ⟨-, -, hopens, -⟩ := h
    refine .inr ⟨Span.says_over u cs v, ?_⟩
    rintro mark hmark hhead
    rw [String.toList_ofList] at hhead
    obtain ⟨cs', rfl⟩ := List.head?_eq_some_iff.1 hhead
    rcases hmark with rfl | rfl <;> cases hopens

theorem Attribute.Stands.verbatim {a : Attribute} {rest : List Char} (h : a.Stands rest)
    (u v : List Char) :
    (Tree.Node.attribute (a.at (size u))).Verbatim (u ++ (a.chars ++ v)) := by
  obtain ⟨name, assigned⟩ := a
  cases assigned with
  | none =>
    refine ⟨?_, trivial⟩
    rw [Attribute.chars, Option.map_none, Option.getD_none, List.append_nil]
    exact Span.says_over u name v
  | some w =>
    obtain ⟨-, -, -, -, hvalue⟩ := h
    have hchars : Attribute.chars ⟨name, some w⟩ =
        name ++ (w.before ++ (['='] ++ (w.after ++ w.value.chars))) := by
      simp [Attribute.chars, Assigned.chars]
    have hoffset : size u + size name + size w.before + 1 + size w.after =
        size (u ++ (name ++ (w.before ++ (['='] ++ w.after)))) := by
      simp only [Text.size_append, Nat.add_assoc]
      rfl
    have hvalue := hvalue.verbatim (u ++ (name ++ (w.before ++ (['='] ++ w.after)))) v
    rw [hchars]
    refine ⟨?_, ?_⟩
    · rw [List.append_assoc]
      exact Span.says_over u name _
    · simp only [Attribute.at, hoffset]
      simpa using hvalue

theorem Statement.Stands.verbatim {s : Statement} {rest : List Char} (h : s.Stands rest)
    (u v : List Char) : (s.at (size u)).Verbatim (u ++ (s.chars ++ v)) := by
  cases s with
  | text cs => exact Span.says_over u cs v
  | comment value =>
    refine ⟨u, ['-', '-', '>'], v, by simp, ?_, ?_, ?_⟩
    · simp [Statement.chars, Token.chars]
    · simp [Statement.chars, Token.chars]
    · simpa using (clear_commentEnd value v).2 h
  | note n => exact Note.Stands.noteIn h u v
  | block opening program sections closing =>
    rw [Statement.at_block]
    trivial
  | _ => trivial

theorem Statement.AllStand.verbatim {ss : List Statement} {rest : List Char}
    (h : Statement.AllStand ss rest) (u v : List Char) :
    ∀ s ∈ Statement.atAll (size u) ss, s.Verbatim (u ++ (Statement.charsAll ss ++ v)) := by
  induction ss generalizing u with
  | nil => simp [Statement.atAll]
  | cons s ss ih =>
    obtain ⟨hs, hss⟩ := h
    intro t ht
    rw [Statement.atAll, Statement.width_eq, ← Text.size_append] at ht
    rw [Statement.charsAll, List.append_assoc]
    rcases List.mem_cons.1 ht with rfl | ht
    · exact hs.verbatim u _
    · have hmore := ih hss (u ++ s.chars) t ht
      rwa [List.append_assoc] at hmore

theorem OpeningTag.says_tag (t : OpeningTag) (u v : List Char) :
    (t.at (size u)).tagSpan.Says (u ++ (t.chars ++ v)) (t.at (size u)).tag := by
  have hsays := Span.says_over (u ++ Token.tagOpen.chars) t.name
    (t.items.flatMap Spaced.chars ++ (t.trail ++ (tagClosing t.selfClosing ++ v)))
  rw [Text.size_append, List.append_assoc] at hsays
  rw [OpeningTag.chars_append]
  exact hsays

theorem whole_verbatim {t : OpeningTag} (h : t.Stands) (u v : List Char) :
    (t.at (size u)).Verbatim (u ++ (t.chars ++ v)) where
  tag := t.says_tag u v
  comments := h.noteIn u v
  close := fun _ hspan => by cases hspan

/-- The closing tag of an element with content stands behind the children. -/
theorem element_verbatim {t : OpeningTag} {children : List Statement} {closing rest : List Char}
    (h : (Statement.element t children closing).Stands rest) (u v : List Char) {e : Tree.Element}
    (he : (Statement.element t children closing).at (size u) = .element e) :
    e.Verbatim (u ++ ((Statement.element t children closing).chars ++ v)) := by
  obtain ⟨hopening, -, -, hclosing, htag⟩ := h
  simp only [Statement.at, Tree.Statement.element.injEq] at he
  have hchars : (Statement.element t children closing).chars = t.chars ++
      (Statement.charsAll children ++ (Token.closingTagOpen.chars ++ (closing ++ ['>']))) := by
    simp only [Statement.chars, List.append_assoc]
  rw [hchars, List.append_assoc, ← he]
  refine ⟨t.says_tag u _, hopening.noteIn u _, fun span hspan => ⟨closing, hclosing, ?_, ?_⟩⟩
  · have hslice := Text.slice?_append (u ++ (t.chars ++ Statement.charsAll children))
      (Token.closingTagOpen.chars ++ (closing ++ ['>'])) v
    simp only [Text.size_append, List.append_assoc] at hslice
    rw [← Option.some.inj hspan, Statement.widthAll_eq]
    simpa [Token.chars, Nat.add_assoc] using hslice
  · exact htag.trans String.toList_ofList.symm

theorem CloseTag.says_path (t : CloseTag) (u v : List Char) :
    (t.at (size u)).pathSpan.Says (u ++ (t.chars ++ v)) (String.ofList t.name) := by
  have hsays := Span.says_over (u ++ (Token.mustacheOpen.chars ++ flagged t.tildeBefore ['~'] ++
    Token.slash.chars ++ t.lead)) t.name
    (t.trail ++ (flagged t.tildeAfter ['~'] ++ (Token.mustacheClose.chars ++ v)))
  rw [Text.size_append, List.append_assoc] at hsays
  rw [CloseTag.chars_append, CloseTag.at, CloseTag.nameOffset]
  simpa only [List.append_assoc] using hsays

theorem Call.at_callee (c : Call) (k : Nat) : (c.at k).callee = c.callee.at (k + size c.lead) := by
  cases c
  rfl

/-- What closes a block is the path that it is called by. -/
theorem blockAt_closedByName {opening : BlockTag} {program : List Statement}
    {sections : List Section} {closing : CloseTag} {rest : List Char}
    (h : (Statement.block opening program sections closing).Stands rest) (u v : List Char) :
    (blockAt (size u) opening program sections closing).ClosedByName
      (u ++ ((Statement.block opening program sections closing).chars ++ v)) := by
  obtain ⟨-, -, -, name, hname, -, rfl, -⟩ := h
  have hcallee := (path?_at hname (size u + opening.callOffset + size opening.call.lead)).2
  have hsays := closing.says_path
    (u ++ (opening.chars ++ Statement.charsAll program ++ Section.charsAll sections)) v
  intro _
  refine ⟨_, _, (opening.call.at_callee _).trans hcallee, rfl, ?_⟩
  simp only [Statement.widthAll_eq, Section.widthAll_eq, Statement.chars]
  simpa [Nat.add_assoc] using hsays

end Concrete

namespace Tree

theorem Body.WrittenIn.verbatim {u x v : List Char} {b : Body} (h : b.WrittenIn (size u) x) :
    ∀ s ∈ b.statements, s.Verbatim (u ++ (x ++ v)) := by
  obtain ⟨w, ss, v', rest, rfl, hss, rfl⟩ := h
  have hverbatim := hss.verbatim (u ++ w) (v' ++ v)
  rw [Text.size_append] at hverbatim
  simpa using hverbatim

end Tree

namespace Concrete

theorem Statement.Stands.node_verbatim {s : Statement} {rest : List Char} (h : s.Stands rest)
    (u v : List Char) : (s.at (size u)).node.Verbatim (u ++ (s.chars ++ v)) := by
  have hbodies : ∀ b ∈ (s.at (size u)).node.bodies, ∀ t ∈ b.statements,
      t.Verbatim (u ++ (s.chars ++ v)) := fun b hb => (h.writtenIn hb).verbatim
  cases s with
  | block opening program sections closing =>
    rw [Statement.at_block] at hbodies ⊢
    exact ⟨blockAt_closedByName h u v, hbodies⟩
  | whole opening => exact ⟨whole_verbatim h.1 u v, by simp [OpeningTag.at]⟩
  | element opening children closing =>
    exact ⟨element_verbatim h u v rfl, hbodies _ (List.mem_singleton.2 rfl)⟩
  | _ => trivial

end Concrete

namespace Tree

theorem Piece.WrittenAt.verbatim {u x : List Char} {n : Node}
    (h : (Piece.node n).WrittenAt (size u) x) (v : List Char) : n.Verbatim (u ++ (x ++ v)) := by
  generalize hk : size u = k at h
  cases h with
  | expr k h =>
    subst hk
    exact h.verbatim u v
  | «attribute» k h =>
    subst hk
    exact h.verbatim u v
  | statement k h =>
    subst hk
    exact h.node_verbatim u v
  | segment k h hb =>
    subst hk
    refine ⟨fun hsegment => ?_, fun b hbody => (h.writtenIn_segment hb hbody).verbatim⟩
    obtain ⟨tilde, lead, call, ending, body, more, -, rfl⟩ := Concrete.Section.eq_of_chained hb
    cases hsegment
  | template h =>
    obtain rfl : u = [] := by
      cases u with
      | nil => rfl
      | cons c u =>
        have hpos := c.utf8Size_pos
        rw [Text.size_cons] at hk
        omega
    exact h.verbatim [] v
  | _ => trivial

/-- The strings that the tree of a source keeps are texts of the source. -/
theorem Template.parse_verbatim {source : String} {t : Template}
    (ht : Template.parse source = .ok t) {n : Node} (hn : t.Holds (.node n)) :
    n.Verbatim source.toList := by
  obtain ⟨u, x, v, hsource, hx⟩ := Template.written ht hn
  rw [hsource]
  exact hx.verbatim v

/-- The string that a node keeps, of those that keep one. -/
def Node.string? : Node → Option String
  | .text t => some t.chars
  | .comment c | .mustacheComment c => some c.value
  | .path p => some p.text
  | .literal ⟨.string value, _⟩ => some value
  | .literal ⟨.number chars, _⟩ => some chars
  | .attribute a => some a.name
  | .element e => some e.tag
  | _ => none

/-- Comments that go on past what only looks like their end, escapes, a quote in quotes, and closing
tags with blanks in them. -/
def markedStrings : String :=
  "é\x7b\x7b!--\x7d\x7dü--~\x7d\x7d<Fö a='\"' \x7b\x7b!x-\x7d\x7d>" ++
    "\x7b\x7b#f \"ä\\\"\\\\\" -1.5 \x7d\x7d<!----é-->\x7b\x7b/\nf~\x7d\x7d</ Fö\n>"

theorem Template.parse_verbatim_marked :
    ∃ t, Template.parse markedStrings = .ok t ∧
      t.nodes.filterMap Node.string? =
        ["é", "\x7d\x7dü", "Fö", "a", "\"", "x-", "f", "ä\"\\", "-1.5", "--é"] ∧
      ∀ n, t.Holds (.node n) → n.Verbatim markedStrings.toList := by
  have hstrings : (Template.parse markedStrings).toOption.map (fun t =>
      t.nodes.filterMap Node.string?) =
        some ["é", "\x7d\x7dü", "Fö", "a", "\"", "x-", "f", "ä\"\\", "-1.5", "--é"] := by
    decide +kernel
  cases ht : Template.parse markedStrings with
  | error e =>
    rw [ht] at hstrings
    cases hstrings
  | ok t =>
    rw [ht] at hstrings
    exact ⟨t, rfl, Option.some.inj hstrings, fun n hn => Template.parse_verbatim ht hn⟩

end Tree

end TemplateLint
