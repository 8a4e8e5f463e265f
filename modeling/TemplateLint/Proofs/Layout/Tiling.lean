import TemplateLint.Proofs.Layout.Written

namespace TemplateLint

open Text (size slice?)

/-- The ranges follow one another from `a` to `b`: each starts where the one before it stops. -/
def Span.Tiles (a b : Nat) : List Span → Prop
  | [] => a = b
  | s :: ss => s.start = a ∧ s.start ≤ s.stop ∧ Span.Tiles s.stop b ss

theorem Span.Tiles.append {a b c : Nat} {ss ts : List Span} (h : Span.Tiles a b ss)
    (h' : Span.Tiles b c ts) : Span.Tiles a c (ss ++ ts) := by
  induction ss generalizing a with
  | nil =>
    obtain rfl := h
    exact h'
  | cons s ss ih =>
    obtain ⟨hstart, hle, hss⟩ := h
    exact ⟨hstart, hle, ih hss⟩

theorem Span.Tiles.over {k b : Nat} {cs : List Char} {ss : List Span}
    (h : Span.Tiles (k + size cs) b ss) : Span.Tiles k b (.over k cs :: ss) :=
  ⟨rfl, Nat.le_add_right _ _, h⟩

namespace Tree

/-- The ranges of the `else` tag and of what it leads to. A segment of a chain has its tag in it. -/
def ElsePart.spans : ElsePart → List Span
  | .absent => []
  | .final elseSpan body => [elseSpan, body.span]
  | .chained segment => [segment.span]

/-- The segments of a chain, from the first to the last. -/
def ElsePart.segments : ElsePart → List Block
  | .absent => []
  | .final _ _ => []
  | .chained ⟨call, blockParams, openSpan, program, inverse, close, span⟩ =>
    ⟨call, blockParams, openSpan, program, inverse, close, span⟩ :: inverse.segments

/-- The statements make up the whole body, and every block among them has its closing tag. -/
def Body.Tiled (b : Body) : Prop :=
  Span.Tiles b.span.start b.span.stop (b.statements.map Statement.span) ∧
    ∀ block, .block block ∈ b.statements → block.close.isSome = true

/-- A block is its opening tag, its program, its `else` part and its closing tag. The segments of its
chain have no closing tag: they end where the one of the block starts. -/
structure Block.Tiled (b : Block) : Prop where
  parts : Span.Tiles b.span.start b.span.stop
    (b.openSpan :: b.program.span :: (b.inverse.spans ++ (b.close.map CloseTag.span).toList))
  program : b.program.Tiled
  inverse : ∀ elseSpan body, b.inverse = .final elseSpan body → body.Tiled
  chain : ∀ segment ∈ b.inverse.segments, segment.close = none ∧
    ∀ close, b.close = some close → segment.span.stop = close.span.start

/-- The children of an element. -/
def Element.content (e : Element) (close : Span) : Body := ⟨e.children, ⟨e.openSpan.stop, close.start⟩⟩

/-- An element is its opening tag, its children and its closing tag, or its opening tag alone. -/
structure Element.Tiled (e : Element) : Prop where
  closed : ∀ close, e.closeSpan = some close →
    Span.Tiles e.span.start e.span.stop [e.openSpan, (e.content close).span, close] ∧
      (e.content close).Tiled
  whole : e.closeSpan = none → e.children = [] ∧ e.span = e.openSpan

/-- The parts of a quoted value make up all that stands between its two quotes. -/
def ConcatPart.Tiled (cs : List Char) (parts : List ConcatPart) (span : Span) : Prop :=
  ∃ mark, Concrete.IsQuote mark ∧ slice? ⟨span.start, span.start + 1⟩ cs = some [mark] ∧
    slice? ⟨span.stop - 1, span.stop⟩ cs = some [mark] ∧
    Span.Tiles (span.start + 1) (span.stop - 1) (parts.map fun p => p.node.span)

/-- A piece of the tree of the text `cs` has no gap in it. -/
def Piece.Tiled (cs : List Char) : Piece → Prop
  | .node (.template t) => (Body.mk t.body t.span).Tiled
  | .node (.block b) => b.Tiled
  | .node (.element e) => e.Tiled
  | .concat parts span => ConcatPart.Tiled cs parts span
  | _ => True

end Tree

namespace Concrete

open TemplateLint.Tree (Piece)

theorem Statement.tiles_atAll (k : Nat) (ss : List Statement) :
    Span.Tiles k (k + size (Statement.charsAll ss))
      ((Statement.atAll k ss).map Tree.Statement.span) := by
  induction ss generalizing k with
  | nil => rfl
  | cons s ss ih =>
    have hss := ih (k + size s.chars)
    rw [Nat.add_assoc, ← Text.size_append] at hss
    rw [Statement.atAll, List.map_cons, Statement.at_span, Statement.width_eq]
    exact .over hss

theorem Statement.close_of_atAll {k : Nat} {ss : List Statement} {b : Tree.Block}
    (h : .block b ∈ Statement.atAll k ss) : b.close.isSome = true := by
  induction ss generalizing k with
  | nil => cases h
  | cons s ss ih =>
    rw [Statement.atAll] at h
    rcases List.mem_cons.1 h with h | h
    · cases s with
      | block opening program sections closing =>
        rw [Statement.at_block] at h
        cases h
        rfl
      | _ => cases h
    · exact ih h

theorem Statement.tiled_atAll (k : Nat) (ss : List Statement) :
    (Tree.Body.mk (Statement.atAll k ss) ⟨k, k + Statement.widthAll ss⟩).Tiled := by
  rw [Statement.widthAll_eq]
  exact ⟨Statement.tiles_atAll k ss, fun _ => Statement.close_of_atAll⟩

theorem Part.tiles_atAll (k : Nat) (ps : List Part) :
    Span.Tiles k (k + size (ps.flatMap Part.chars))
      ((Part.atAll k ps).map fun p => p.node.span) := by
  induction ps generalizing k with
  | nil => rfl
  | cons p ps ih =>
    have hps := ih (k + size p.chars)
    rw [Nat.add_assoc, ← Text.size_append] at hps
    cases p with
    | text cs => exact .over hps
    | mustache m => exact .over hps

theorem Section.tiles_atAll {sections : List Section} {rest : List Char}
    (h : Section.AllStand sections rest) (k : Nat) :
    Span.Tiles k (k + Section.widthAll sections) (Section.atAll k sections).spans := by
  cases sections with
  | nil => rfl
  | cons s more =>
    obtain ⟨⟨tilde, lead, tail⟩, body⟩ := s
    cases tail with
    | plain trail after =>
      obtain ⟨-, -, hlast, -⟩ := h
      obtain rfl := hlast trail after rfl
      simp only [Section.atAll, Tree.ElsePart.spans, Section.widthAll, Section.width]
      refine .over ⟨rfl, Nat.le_add_right _ _, ?_⟩
      simp only [Span.Tiles]
      omega
    | chained call ending =>
      simp only [Section.atAll, Tree.ElsePart.spans, Section.widthAll, Section.width]
      refine ⟨rfl, ?_, ?_⟩
      · dsimp only
        omega
      · simp only [Span.Tiles]
        omega

theorem Section.tiled_final {k : Nat} {sections : List Section} {elseSpan : Span} {b : Tree.Body}
    (h : Section.atAll k sections = .final elseSpan b) : b.Tiled := by
  cases sections with
  | nil => simp [Section.atAll] at h
  | cons s more =>
    obtain ⟨⟨tilde, lead, tail⟩, body⟩ := s
    cases tail with
    | plain trail after =>
      simp only [Section.atAll, Tree.ElsePart.final.injEq] at h
      rw [← h.2]
      exact Statement.tiled_atAll _ body
    | chained call ending => simp [Section.atAll] at h

/-- All segments of a chain end with the last of its sections. -/
theorem Section.segments_atAll {k : Nat} {sections : List Section} {b : Tree.Block}
    (h : b ∈ (Section.atAll k sections).segments) :
    b.close = none ∧ b.span.stop = k + Section.widthAll sections := by
  induction sections generalizing k with
  | nil => simp [Section.atAll, Tree.ElsePart.segments] at h
  | cons s more ih =>
    obtain ⟨⟨tilde, lead, tail⟩, body⟩ := s
    cases tail with
    | plain trail after => simp [Section.atAll, Tree.ElsePart.segments] at h
    | chained call ending =>
      have hstop : k + Section.widthAll (⟨⟨tilde, lead, .chained call ending⟩, body⟩ :: more) =
          k + size (ElseTag.mk tilde lead (.chained call ending)).chars +
            Statement.widthAll body + Section.widthAll more := by
        simp only [Section.widthAll, Section.width]
        omega
      rw [hstop]
      simp only [Section.atAll, Tree.ElsePart.segments] at h
      rcases List.mem_cons.1 h with rfl | h
      · exact ⟨rfl, rfl⟩
      · exact ih h

/-- A segment is its `else` tag, its program and what comes after that in the chain. -/
theorem Section.AllStand.tiled_segment {k : Nat} {sections : List Section} {rest : List Char}
    {b : Tree.Block} (h : Section.AllStand sections rest)
    (hb : Section.atAll k sections = .chained b) : b.Tiled := by
  obtain ⟨tilde, lead, call, ending, body, more, rfl, rfl⟩ := Section.eq_of_chained hb
  obtain ⟨-, -, -, hmore⟩ := h
  refine ⟨?_, Statement.tiled_atAll _ body, fun _ _ h => Section.tiled_final h, ?_⟩
  · simp only [segmentAt, Option.map_none, Option.toList_none, List.append_nil]
    exact .over ⟨rfl, Nat.le_add_right _ _, Section.tiles_atAll hmore _⟩
  · intro segment hsegment
    refine ⟨(Section.segments_atAll hsegment).1, fun close hclose => ?_⟩
    cases hclose

theorem blockAt_tiled {opening : BlockTag} {program : List Statement} {sections : List Section}
    {closing : CloseTag} {rest : List Char} (h : Section.AllStand sections rest) (k : Nat) :
    (blockAt k opening program sections closing).Tiled := by
  refine ⟨?_, Statement.tiled_atAll _ program, fun _ _ h => Section.tiled_final h, ?_⟩
  · have hclose : Span.Tiles (k + size opening.chars + Statement.widthAll program +
        Section.widthAll sections) (blockAt k opening program sections closing).span.stop
        [(closing.at (k + size opening.chars + Statement.widthAll program +
          Section.widthAll sections)).span] := .over rfl
    exact .over ⟨rfl, Nat.le_add_right _ _, (Section.tiles_atAll h _).append hclose⟩
  · intro segment hsegment
    obtain ⟨hnone, hstop⟩ := Section.segments_atAll hsegment
    refine ⟨hnone, fun close hclose => ?_⟩
    cases hclose
    exact hstop

/-- A quote takes one byte. -/
theorem IsQuote.size_eq {mark : Char} (h : IsQuote mark) : size [mark] = 1 := by
  rcases h with rfl | rfl <;> rfl

theorem AttrValue.tiled_quoted {mark : Char} (hmark : IsQuote mark) (parts : List Part)
    (u v : List Char) :
    Tree.ConcatPart.Tiled (u ++ ((AttrValue.quoted mark parts).chars ++ v))
      (Part.atAll (size u + size [mark]) parts) (.over (size u) (AttrValue.quoted mark parts).chars)
    := by
  have hchars : (AttrValue.quoted mark parts).chars =
      [mark] ++ (parts.flatMap Part.chars ++ [mark]) := rfl
  have hopen := Text.slice?_append u [mark] (parts.flatMap Part.chars ++ ([mark] ++ v))
  have hclose := Text.slice?_append (u ++ ([mark] ++ parts.flatMap Part.chars)) [mark] v
  have hparts := Part.tiles_atAll (size u + size [mark]) parts
  rw [hmark.size_eq] at hopen hclose hparts
  have hstop : size u + size (AttrValue.quoted mark parts).chars - 1 =
      size u + 1 + size (parts.flatMap Part.chars) := by
    simp only [hchars, Text.size_append, hmark.size_eq]
    omega
  have hlast : size u + size (AttrValue.quoted mark parts).chars =
      size u + 1 + size (parts.flatMap Part.chars) + 1 := by
    simp only [hchars, Text.size_append, hmark.size_eq]
    omega
  simp only [Text.size_append, hmark.size_eq, ← Nat.add_assoc, List.append_assoc] at hclose
  simp only [Tree.ConcatPart.Tiled, Span.over]
  rw [hstop, hlast, hchars, hmark.size_eq]
  simp only [List.append_assoc]
  exact ⟨mark, hmark, hopen, hclose, hparts⟩

theorem Statement.tiled_at (k : Nat) {s : Statement} {rest : List Char} (h : s.Stands rest)
    (cs : List Char) : (Piece.node (s.at k).node).Tiled cs := by
  cases s with
  | block opening program sections closing =>
    rw [Statement.at_block]
    exact blockAt_tiled h.2.2.1 k
  | whole opening =>
    refine ⟨fun close hclose => ?_, fun _ => ⟨rfl, rfl⟩⟩
    cases hclose
  | element opening children closing =>
    refine ⟨fun close hclose => ?_, fun hnone => Option.some_ne_none _ hnone |>.elim⟩
    obtain rfl := Option.some.inj hclose
    refine ⟨.over ⟨rfl, ?_, ?_⟩, Statement.tiled_atAll _ children⟩
    · exact Nat.le_add_right _ _
    · exact ⟨rfl, Nat.le_add_right _ _, rfl⟩
  | _ => trivial

end Concrete

namespace Tree

theorem Piece.WrittenAt.tiled {k : Nat} {u x v : List Char} {p : Piece} (h : p.WrittenAt k x)
    (hk : k = size u) : p.Tiled (u ++ (x ++ v)) := by
  cases h with
  | text k cs s => trivial
  | note k n => trivial
  | @expr _ e rest h => cases e.at k <;> trivial
  | pair k key h => trivial
  | mustache k h => trivial
  | modifier k h => trivial
  | «attribute» k h => trivial
  | statement k h => exact Concrete.Statement.tiled_at k h _
  | segment k h hb => exact h.tiled_segment hb
  | @template ss h =>
    have hbody := Concrete.Statement.tiled_atAll 0 ss
    rwa [Nat.zero_add] at hbody
  | concat k hmark h =>
    rw [hk]
    exact Concrete.AttrValue.tiled_quoted hmark _ u v

end Tree

/-- The tree of a source covers it. Its statements, the program and the plain `else` body of every
block and the children of every element follow one another without a gap, as the tags and bodies of
blocks and elements do and the parts of quoted values. -/
theorem Tree.Template.parse_tiled {source : String} {t : Tree.Template}
    (ht : Tree.Template.parse source = .ok t) :
    t.span = ⟨0, size source.toList⟩ ∧ ∀ p, t.Holds p → p.Tiled source.toList := by
  constructor
  · obtain ⟨ss, -, rfl, rfl⟩ := Tree.Template.parse_eq_ok.1 ht
    rw [String.toList_ofList, ← Concrete.Statement.widthAll_eq]
    rfl
  · intro p hp
    obtain ⟨u, x, v, hsource, hx⟩ := Tree.Template.written ht hp
    rw [hsource]
    exact hx.tiled rfl

/-- A value with a mustache in it, and a chain that ends with a plain `else`. -/
def chainedSource : String :=
  "<p class=\"a \x7b\x7bb\x7d\x7d\">\x7b\x7b#if x\x7d\x7dé" ++
    "\x7b\x7belse if y\x7d\x7d2\x7b\x7belse\x7d\x7d3\x7b\x7b/if\x7d\x7d</p>"

theorem Tree.Template.parse_tiled_chained :
    ∃ t, Tree.Template.parse chainedSource = .ok t ∧ t.span = ⟨0, 64⟩ ∧
      t.nodes.map Tree.Node.span =
        [⟨0, 64⟩, ⟨0, 64⟩, ⟨3, 18⟩, ⟨10, 12⟩, ⟨12, 17⟩, ⟨14, 15⟩, ⟨19, 60⟩, ⟨22, 24⟩, ⟨25, 26⟩,
          ⟨28, 30⟩, ⟨30, 53⟩, ⟨37, 39⟩, ⟨40, 41⟩, ⟨43, 44⟩, ⟨52, 53⟩] ∧
      ∀ p, t.Holds p → p.Tiled chainedSource.toList := by
  have hspans : (Tree.Template.parse chainedSource).toOption.map (fun t =>
      t.nodes.map Tree.Node.span) =
        some [⟨0, 64⟩, ⟨0, 64⟩, ⟨3, 18⟩, ⟨10, 12⟩, ⟨12, 17⟩, ⟨14, 15⟩, ⟨19, 60⟩, ⟨22, 24⟩,
          ⟨25, 26⟩, ⟨28, 30⟩, ⟨30, 53⟩, ⟨37, 39⟩, ⟨40, 41⟩, ⟨43, 44⟩, ⟨52, 53⟩] := by
    decide +kernel
  have hsize : size chainedSource.toList = 64 := by decide +kernel
  cases ht : Tree.Template.parse chainedSource with
  | error e =>
    rw [ht] at hspans
    cases hspans
  | ok t =>
    rw [ht] at hspans
    obtain ⟨hspan, hpieces⟩ := Tree.Template.parse_tiled ht
    rw [hsize] at hspan
    exact ⟨t, rfl, hspan, Option.some.inj hspans, hpieces⟩

end TemplateLint
