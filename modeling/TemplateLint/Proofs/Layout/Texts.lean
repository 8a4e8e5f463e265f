import TemplateLint.Proofs.Layout.Nodes
import TemplateLint.Proofs.Layout.Written
import TemplateLint.Proofs.Reading.Following
import TemplateLint.Proofs.Text.Bytes

namespace TemplateLint

open Text (size bytes Clear)

namespace Concrete

inductive Opener : List Char → Prop
  | braces : Opener ['{', '{']
  | closingTag : Opener ['<', '/']
  | comment : Opener ['<', '!', '-', '-']
  | tag {c : Char} (h : startsTag c = true) : Opener ['<', c]

theorem startsTag_size {c : Char} (h : startsTag c = true) : c.utf8Size = 1 := by
  simp only [startsTag, Bool.or_eq_true, beq_iff_eq] at h
  rcases h with (h | rfl) | rfl
  · rw [Char.utf8Size_eq_one_iff, UInt32.le_iff_toNat_le]
    have hbound : c.toNat ≤ 127 := by
      have hletter := toNat_of_isAlpha h
      omega
    exact hbound
  · decide
  · decide

theorem Opener.size_one {mark : List Char} (h : Opener mark) : ∀ c ∈ mark, c.utf8Size = 1 := by
  cases h with
  | tag hc => exact List.forall_mem_cons.2 ⟨rfl, List.forall_mem_singleton.2 (startsTag_size hc)⟩
  | _ => simp [Char.utf8Size]

theorem Opener.ne_nil {mark : List Char} (h : Opener mark) : mark ≠ [] := by
  cases h <;> exact List.cons_ne_nil _ _

/-- Where a text ends, one of the marks stands, or nothing is left. -/
theorem textEndAhead_iff (s : List Char) :
    textEndAhead s = true ↔ s = [] ∨ ∃ mark rest, Opener mark ∧ s = mark ++ rest := by
  cases s with
  | nil => exact ⟨fun _ => .inl rfl, fun _ => rfl⟩
  | cons c s =>
    rw [textEndAhead_cons]
    constructor
    · rintro (⟨rfl, hs⟩ | ⟨rfl, hs | hs⟩)
      · cases s with
        | nil => cases hs
        | cons d s =>
          obtain rfl : d = '{' := by simpa using hs
          exact .inr ⟨_, s, .braces, rfl⟩
      · cases s with
        | nil => cases hs
        | cons d s =>
          rcases Bool.or_eq_true_iff.1 hs with hd | hd
          · obtain rfl : d = '/' := by simpa using hd
            exact .inr ⟨_, s, .closingTag, rfl⟩
          · exact .inr ⟨_, s, .tag hd, rfl⟩
      · obtain ⟨rest, rfl⟩ := Text.startsWith_iff.1 hs
        exact .inr ⟨_, rest, .comment, rfl⟩
    · rintro (h | ⟨mark, rest, hmark, hs⟩)
      · cases h
      · cases hmark with
        | braces => cases hs; exact .inl ⟨rfl, rfl⟩
        | closingTag => cases hs; exact .inr ⟨rfl, .inl rfl⟩
        | comment => cases hs; exact .inr ⟨rfl, .inr (Text.startsWith_iff.2 ⟨rest, rfl⟩)⟩
        | tag hc =>
          cases hs
          exact .inr ⟨rfl, .inl (Bool.or_eq_true_iff.2 (.inr hc))⟩

end Concrete

namespace Tree

/-- A text among statements. It is not empty, no mark of anything else can be read at a byte of it, and
behind it one can, or nothing is left. -/
structure TextRun.Plain (cs : List Char) (t : TextRun) : Prop where
  chars : t.chars ≠ ""
  span : t.span.start < t.span.stop
  clear : ∀ n, t.span.start ≤ n → n < t.span.stop →
    ∀ mark, Concrete.Opener mark → ¬ bytes mark <+: (bytes cs).drop n
  ended : t.span.stop = size cs ∨
    ∃ mark, Concrete.Opener mark ∧ bytes mark <+: (bytes cs).drop t.span.stop

/-- No two texts stand side by side, and each is plain. -/
structure Statement.TextsPlain (cs : List Char) (ss : List Statement) : Prop where
  apart : ss.IsChain fun s s' => ∀ t t', s = .text t → s' ≠ .text t'
  plain : ∀ t, .text t ∈ ss → t.Plain cs

/-- The lists of statements that a node holds: the body of a template, the program of a block and what
its `else` leads to, the children of an element. -/
def Node.lists : Node → List (List Statement)
  | .template t => [t.body]
  | .block b => b.program.statements :: (b.inverse.body?.map Body.statements).toList
  | .element e => [e.children]
  | _ => []

end Tree

namespace Concrete

theorem clear_append {stop : List Char → Bool} {s t rest : List Char}
    (h : Clear stop (s ++ t) rest) : Clear stop t rest := by
  induction s with
  | nil => exact h
  | cons c s ih => exact ih h.2

theorem Statement.Stands.plain {text rest : List Char} (h : (Statement.text text).Stands rest)
    (u : List Char) :
    Tree.TextRun.Plain (u ++ (text ++ rest)) ⟨String.ofList text, .over (size u) text⟩ := by
  obtain ⟨hne, hclear, hend⟩ := h
  refine ⟨?_, ?_, fun n hstart hstop mark hmark hmarked => ?_, ?_⟩
  · exact fun hempty => hne (by simpa using congrArg String.toList hempty)
  · exact Nat.lt_add_of_pos_right (Text.size_pos_of_ne_nil hne)
  · obtain ⟨a, b, hsource, rfl⟩ := (Text.bytes_prefix_iff hmark.size_one hmark.ne_nil).1 hmarked
    obtain ⟨before, rfl, hread⟩ := Text.front_of_size_le hsource hstart
    have hbefore : size before ≤ size text := by
      simp only [Span.over, Text.size_append] at hstop
      omega
    obtain ⟨after, rfl, hafter⟩ := Text.front_of_size_le hread.symm hbefore
    cases after with
    | nil =>
      simp [Span.over] at hstop
    | cons c after =>
      have hfalse : textEndAhead (c :: (after ++ rest)) = false := (clear_append hclear).1
      have htrue := (textEndAhead_iff (c :: (after ++ rest))).2 (.inr ⟨mark, b, hmark, hafter.symm⟩)
      rw [hfalse] at htrue
      cases htrue
  · rcases (textEndAhead_iff rest).1 hend with rfl | ⟨mark, b, hmark, rfl⟩
    · left
      simp [Span.over]
    · right
      refine ⟨mark, hmark, (Text.bytes_prefix_iff hmark.size_one hmark.ne_nil).2 ⟨u ++ text, b, ?_, ?_⟩⟩
      · rw [List.append_assoc]
      · simp [Span.over]

theorem Statement.eq_text_of_at {s : Statement} {k : Nat} {t : Tree.TextRun}
    (h : s.at k = .text t) : ∃ cs, s = .text cs ∧ t = ⟨String.ofList cs, .over k cs⟩ := by
  cases s with
  | text cs =>
    cases h
    exact ⟨cs, rfl, rfl⟩
  | block opening program sections closing =>
    rw [Statement.at_block] at h
    cases h
  | _ => cases h

/-- Behind a text comes none, as it would go on. -/
theorem Statement.AllStand.textsPlain {ss : List Statement} {rest : List Char}
    (h : Statement.AllStand ss rest) (u : List Char) :
    Tree.Statement.TextsPlain (u ++ (Statement.charsAll ss ++ rest)) (Statement.atAll (size u) ss) := by
  induction ss generalizing u with
  | nil => exact ⟨.nil, fun t ht => by cases ht⟩
  | cons s ss ih =>
    obtain ⟨hs, hss⟩ := h
    have htail := ih hss (u ++ s.chars)
    rw [Text.size_append, ← Statement.width_eq] at htail
    rw [Statement.atAll, Statement.charsAll]
    simp only [List.append_assoc] at htail ⊢
    refine ⟨?_, fun t ht => ?_⟩
    · cases ss with
      | nil => exact .singleton _
      | cons s' more =>
        refine .cons_cons (fun t t' ht ht' => ?_) htail.apart
        obtain ⟨cs, rfl, -⟩ := Statement.eq_text_of_at ht
        obtain ⟨cs', rfl, -⟩ := Statement.eq_text_of_at ht'
        have hnext := hss.1.isText_eq_false (by simpa [Statement.charsAll] using hs.2.2)
        cases hnext
    · rcases List.mem_cons.1 ht with ht | ht
      · obtain ⟨cs, rfl, rfl⟩ := Statement.eq_text_of_at ht.symm
        exact hs.plain u
      · exact htail.plain t ht

end Concrete

namespace Tree

theorem Call.lists_nodes {c : Call} {n : Node} (hn : n ∈ c.nodes) : n.lists = [] := by
  have hargument := Call.isArgument_of_mem_nodes hn
  cases n <;> first | rfl | cases hargument

theorem Mustache.lists_nodes {m : Mustache} {n : Node} (hn : n ∈ m.nodes) : n.lists = [] := by
  rcases List.mem_cons.1 hn with rfl | hn
  · rfl
  · exact Call.lists_nodes hn

theorem AttrValue.lists_nodes {v : AttrValue} {n : Node} (hn : n ∈ v.nodes) : n.lists = [] := by
  cases v with
  | valueless => cases hn
  | text t =>
    obtain rfl := List.mem_singleton.1 hn
    rfl
  | mustache m => exact m.lists_nodes hn
  | concat parts span =>
    obtain ⟨part, -, hn⟩ := List.mem_flatMap.1 hn
    cases part with
    | text t =>
      obtain rfl := List.mem_singleton.1 hn
      rfl
    | mustache m => exact m.lists_nodes hn

/-- No statement stands in an opening tag. -/
theorem Element.lists_openingNodes {e : Element} {n : Node} (hn : n ∈ e.openingNodes) :
    n.lists = [] := by
  rcases List.mem_append.1 hn with hn | hn
  · rcases List.mem_append.1 hn with hn | hn
    · obtain ⟨a, -, hn⟩ := List.mem_flatMap.1 hn
      rcases List.mem_cons.1 hn with rfl | hn
      · rfl
      · exact AttrValue.lists_nodes hn
    · obtain ⟨m, -, hn⟩ := List.mem_flatMap.1 hn
      rcases List.mem_cons.1 hn with rfl | hn
      · rfl
      · exact Call.lists_nodes hn
  · obtain ⟨c, -, rfl⟩ := List.mem_map.1 hn
    rfl

/-- The lists of statements in a node have plain texts. -/
def Node.TextsPlain (cs : List Char) (n : Node) : Prop := ∀ ss ∈ n.lists, Statement.TextsPlain cs ss

theorem Node.textsPlain_of_none {cs : List Char} {n : Node} (h : n.lists = []) :
    n.TextsPlain cs := by
  rw [Node.TextsPlain, h]
  simp

theorem Block.textsPlain {cs : List Char} {b : Block}
    (hprogram : Statement.TextsPlain cs b.program.statements)
    (hbody : ∀ body, b.inverse.body? = some body → Statement.TextsPlain cs body.statements)
    (hinner : ∀ n ∈ b.program.nodes ++ b.inverse.nodes, n.TextsPlain cs) :
    ∀ n ∈ b.nodes, n.TextsPlain cs := by
  obtain ⟨call, blockParams, openSpan, program, inverse, close, span⟩ := b
  intro n hn
  rw [Block.nodes, List.append_assoc] at hn
  rcases List.mem_cons.1 hn with rfl | hn
  · intro ss hss
    rcases List.mem_cons.1 hss with rfl | hss
    · exact hprogram
    · obtain ⟨body, hsome, rfl⟩ := Option.map_eq_some_iff.1 (Option.mem_toList.1 hss)
      exact hbody body hsome
  · rcases List.mem_append.1 hn with hn | hn
    · exact Node.textsPlain_of_none (Call.lists_nodes hn)
    · exact hinner n hn

theorem Element.textsPlain {cs : List Char} {e : Element}
    (hchildren : Statement.TextsPlain cs e.children)
    (hinner : ∀ n ∈ Statement.nodesAll e.children, n.TextsPlain cs) :
    ∀ n ∈ e.nodes, n.TextsPlain cs := by
  obtain ⟨tag, tagSpan, attributes, modifiers, comments, params, children, single, opening, closing,
    span⟩ := e
  intro n hn
  rw [Element.nodes] at hn
  rcases List.mem_cons.1 hn with rfl | hn
  · intro ss hss
    obtain rfl := List.mem_singleton.1 hss
    exact hchildren
  · rcases List.mem_append.1 hn with hn | hn
    · exact Node.textsPlain_of_none (Element.lists_openingNodes hn)
    · exact hinner n hn

end Tree

namespace Concrete

open TemplateLint.Tree (Node)

/-- What an `else` leads to: the statements behind it, or one segment of a chain. -/
theorem Section.AllStand.textsPlain {sections : List Section} {rest : List Char}
    (h : Section.AllStand sections rest) (u : List Char) {b : Tree.Body}
    (hbody : (Section.atAll (size u) sections).body? = some b) :
    Tree.Statement.TextsPlain (u ++ (Section.charsAll sections ++ rest)) b.statements := by
  cases sections with
  | nil => simp [Section.atAll, Tree.ElsePart.body?] at hbody
  | cons s more =>
    obtain ⟨⟨tilde, lead, tail⟩, ss⟩ := s
    cases tail with
    | plain trail after =>
      obtain ⟨-, hss, -⟩ := h
      simp only [Section.atAll, Tree.ElsePart.body?, Option.some.injEq] at hbody
      rw [← hbody, ← Text.size_append, Section.charsAll, Section.chars]
      simpa only [List.append_assoc] using hss.textsPlain (u ++ (ElseTag.mk tilde lead _).chars)
    | chained call ending =>
      simp only [Section.atAll, Tree.ElsePart.body?, Option.some.injEq] at hbody
      rw [← hbody]
      exact ⟨.singleton _, fun t ht => by simp at ht⟩

mutual

theorem Statement.textsPlain_at : ∀ (s : Statement) (rest u : List Char), s.Stands rest →
    ∀ n ∈ (s.at (size u)).nodes, n.TextsPlain (u ++ (s.chars ++ rest))
  | .text _, _, _, _, n, hn | .comment _, _, _, _, n, hn | .note _, _, _, _, n, hn => by
    obtain rfl := List.mem_singleton.1 hn
    exact Node.textsPlain_of_none rfl
  | .mustache m, _, _, _, n, hn => Node.textsPlain_of_none (Tree.Mustache.lists_nodes hn)
  | .block opening program sections closing, rest, u, h, n, hn => by
    obtain ⟨-, hprogram, hsections, -⟩ := h
    have hhead : closing.chars.head? = (closing.chars ++ rest).head? := rfl
    have hend : textEndAhead closing.chars = true := by simpa using closing.textEnd []
    have hprogram := hprogram.congr (sections_head hhead sections)
      (Section.textEnd hsections hend)
      (Section.textEnd (hsections.congr hhead hend (closing.textEnd rest)) (closing.textEnd rest))
    have hsections := hsections.congr hhead hend (closing.textEnd rest)
    have hlist := hprogram.textsPlain (u ++ opening.chars)
    have hnodes := Statement.textsPlain_atAll program _ (u ++ opening.chars) hprogram
    have helse := fun body => hsections.textsPlain (b := body)
      (u ++ opening.chars ++ Statement.charsAll program)
    have hmore := Section.textsPlain_atAll sections _
      (u ++ opening.chars ++ Statement.charsAll program) hsections
    simp only [Text.size_append, List.append_assoc, ← Statement.widthAll_eq, ← Nat.add_assoc]
      at hlist hnodes helse hmore
    rw [Statement.at_block] at hn
    simp only [Statement.chars, List.append_assoc]
    refine Tree.Block.textsPlain hlist helse (fun m hm => ?_) n hn
    rcases List.mem_append.1 hm with hm | hm
    · exact hnodes m hm
    · exact hmore m hm
  | .whole opening, _, _, _, n, hn =>
    Tree.Element.textsPlain ⟨.nil, fun t ht => by cases ht⟩ (fun m hm => by cases hm) n hn
  | .element opening children closing, rest, u, h, n, hn => by
    obtain ⟨-, -, hchildren, -⟩ := h
    have hend := textEndAhead_of_ahead
      (closingTag_ahead (closing ++ ['>'])) (by decide)
    have hhead : (Token.closingTagOpen.chars ++ (closing ++ ['>'])).head? =
        (Token.closingTagOpen.chars ++ (closing ++ ['>']) ++ rest).head? := rfl
    have hchildren := hchildren.congr hhead hend
      (textEndAhead_of_ahead (closingTag_ahead (closing ++ ['>'] ++ rest)) (by decide))
    have hlist := hchildren.textsPlain (u ++ opening.chars)
    have hnodes := Statement.textsPlain_atAll children _ (u ++ opening.chars) hchildren
    simp only [Text.size_append, List.append_assoc] at hlist hnodes
    simp only [Statement.chars, List.append_assoc]
    exact Tree.Element.textsPlain hlist hnodes n hn

theorem Statement.textsPlain_atAll : ∀ (ss : List Statement) (rest u : List Char),
    Statement.AllStand ss rest → ∀ n ∈ Tree.Statement.nodesAll (Statement.atAll (size u) ss),
      n.TextsPlain (u ++ (Statement.charsAll ss ++ rest))
  | [], _, _, _, n, hn => by cases hn
  | s :: ss, rest, u, h, n, hn => by
    obtain ⟨hs, hss⟩ := h
    have hsize : size u + s.width = size (u ++ s.chars) := by
      rw [Text.size_append, Statement.width_eq]
    rw [Statement.atAll, Tree.Statement.nodesAll, hsize] at hn
    rw [Statement.charsAll]
    rcases List.mem_append.1 hn with hn | hn
    · have hplain := Statement.textsPlain_at s (Statement.charsAll ss ++ rest) u hs n hn
      simpa only [List.append_assoc] using hplain
    · have hplain := Statement.textsPlain_atAll ss rest (u ++ s.chars) hss n hn
      simpa only [List.append_assoc] using hplain

theorem Section.textsPlain_atAll : ∀ (sections : List Section) (rest u : List Char),
    Section.AllStand sections rest → ∀ n ∈ (Section.atAll (size u) sections).nodes,
      n.TextsPlain (u ++ (Section.charsAll sections ++ rest))
  | [], _, _, _, n, hn => by cases hn
  | ⟨⟨tilde, lead, .plain trail after⟩, body⟩ :: more, rest, u, h, n, hn => by
    obtain ⟨-, hbody, -⟩ := h
    rw [Section.atAll, Tree.ElsePart.nodes, Tree.Body.nodes, ← Text.size_append] at hn
    have hplain := Statement.textsPlain_atAll body _ _ hbody n hn
    simpa only [Section.charsAll, Section.chars, List.append_assoc] using hplain
  | ⟨⟨tilde, lead, .chained call ending⟩, body⟩ :: more, rest, u, h, n, hn => by
    obtain ⟨-, hbody, -, hmore⟩ := h
    have hlist := hbody.textsPlain (u ++ (ElseTag.mk tilde lead (.chained call ending)).chars)
    have hnodes := Statement.textsPlain_atAll body _
      (u ++ (ElseTag.mk tilde lead (.chained call ending)).chars) hbody
    have helse := fun b => hmore.textsPlain (b := b)
      (u ++ (ElseTag.mk tilde lead (.chained call ending)).chars ++ Statement.charsAll body)
    have hmore := Section.textsPlain_atAll more rest
      (u ++ (ElseTag.mk tilde lead (.chained call ending)).chars ++ Statement.charsAll body) hmore
    simp only [Text.size_append, List.append_assoc, ← Statement.widthAll_eq, ← Nat.add_assoc]
      at hlist hnodes helse hmore
    rw [Section.atAll, Tree.ElsePart.nodes] at hn
    simp only [Section.charsAll, Section.chars, List.append_assoc]
    refine Tree.Block.textsPlain hlist helse (fun m hm => ?_) n hn
    rcases List.mem_append.1 hm with hm | hm
    · exact hnodes m hm
    · exact hmore m hm

end

end Concrete

/-- In every list of statements of the tree of a source no two texts stand side by side. Each text is
not empty, at no byte of it the source reads as the start of anything else, and behind it there is such
a start or the end of the source. -/
theorem Tree.Template.parse_texts {source : String} {t : Tree.Template}
    (ht : Tree.Template.parse source = .ok t) {n : Tree.Node} (hn : n ∈ t.nodes)
    {ss : List Tree.Statement} (hss : ss ∈ n.lists) :
    Tree.Statement.TextsPlain source.toList ss := by
  obtain ⟨statements, hstand, rfl, rfl⟩ := Tree.Template.parse_eq_ok.1 ht
  rw [String.toList_ofList]
  have hbody := hstand.textsPlain []
  have hnodes := Concrete.Statement.textsPlain_atAll statements [] [] hstand
  simp only [List.nil_append, List.append_nil, Text.size_nil] at hbody hnodes
  rcases List.mem_cons.1 hn with rfl | hn
  · obtain rfl := List.mem_singleton.1 hss
    exact hbody
  · exact hnodes n hn ss hss

/-- Texts with characters that begin a mark elsewhere, one of them right before an `else`. -/
def openTexts : String :=
  "\x7b\x7b#if a\x7d\x7dé<\x7b\x7belse\x7d\x7d<b>< \x7b1\x7b\x7bc\x7d\x7d>\x7d</b>\x7b\x7b/if\x7d\x7d"

theorem Tree.Template.parse_texts_open :
    ∃ t, Tree.Template.parse openTexts = .ok t ∧
      (t.nodes.flatMap Tree.Node.lists).map (List.map Tree.Statement.span) =
        [[⟨0, 45⟩], [⟨9, 12⟩], [⟨20, 38⟩], [⟨23, 27⟩, ⟨27, 32⟩, ⟨32, 34⟩]] ∧
      ∀ n ∈ t.nodes, ∀ ss ∈ n.lists, Tree.Statement.TextsPlain openTexts.toList ss := by
  have hspans : (Tree.Template.parse openTexts).toOption.map (fun t =>
      (t.nodes.flatMap Tree.Node.lists).map (List.map Tree.Statement.span)) =
        some [[⟨0, 45⟩], [⟨9, 12⟩], [⟨20, 38⟩], [⟨23, 27⟩, ⟨27, 32⟩, ⟨32, 34⟩]] := by
    decide +kernel
  cases ht : Tree.Template.parse openTexts with
  | error e =>
    rw [ht] at hspans
    cases hspans
  | ok t =>
    rw [ht] at hspans
    exact ⟨t, rfl, Option.some.inj hspans, fun n hn ss hss => Tree.Template.parse_texts ht hn hss⟩

end TemplateLint
