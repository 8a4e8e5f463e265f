import TemplateLint.Proofs.Reading.Statement
import TemplateLint.Tree.Layout

namespace TemplateLint

open Text (size)

namespace Concrete

/-- A word is a literal or a path. -/
theorem wordAt_eq (k : Nat) (w : List Char) :
    (∃ value, wordAt k w = .literal ⟨value, .over k w⟩) ∨
      wordAt k w = .path ⟨String.ofList w, .over k w⟩ := by
  unfold wordAt
  dsimp only
  repeat' split
  all_goals first | exact .inl ⟨_, rfl⟩ | exact .inr rfl

theorem wordAt_span (k : Nat) (w : List Char) : (wordAt k w).span = .over k w := by
  rcases wordAt_eq k w with ⟨value, h⟩ | h <;> rw [h] <;> rfl

theorem Expr.at_span (k : Nat) (e : Expr) : (e.at k).span = .over k e.chars := by
  cases e with
  | word w => exact wordAt_span k w
  | quoted mark raw =>
    rw [Span.over, ← Expr.width_eq]
    rfl
  | group call =>
    rw [Span.over, ← Expr.width_eq]
    rfl

theorem Expr.at_start (k : Nat) (e : Expr) : (e.at k).span.start = k := by
  rw [Expr.at_span]
  rfl

theorem path?_at {e : Expr} {name : List Char} (h : e.path? = some name) (k : Nat) :
    e.chars = name ∧ e.at k = .path ⟨String.ofList name, .over k name⟩ := by
  cases e with
  | word w =>
    simp only [Expr.path?] at h
    split at h
    · cases h
    · next hw =>
      obtain rfl := Option.some.inj h
      simp only [isKeyword, List.contains_cons, List.contains_nil, Bool.or_eq_true, beq_iff_eq,
        Bool.or_false, not_or] at hw
      obtain ⟨⟨htrue, hfalse, hnull, hundefined⟩, hnumber⟩ := hw
      refine ⟨rfl, ?_⟩
      simp [Expr.at, wordAt, htrue, hfalse, hnull, hundefined, hnumber]
  | quoted mark raw => cases h
  | group call => cases h

/-- An expression is laid out as a path if it is a word that is no keyword and no number. -/
theorem Expr.at_path? (e : Expr) (k : Nat) :
    (e.at k).path? = e.path?.map fun name => ⟨String.ofList name, .over k name⟩ := by
  cases h : e.path? with
  | some name =>
    rw [(path?_at h k).2]
    rfl
  | none =>
    cases e with
    | word w =>
      simp only [Expr.path?] at h
      split at h
      · next hw =>
        rw [Expr.at, wordAt]
        dsimp only
        repeat' split
        all_goals first
          | rfl
          | simp_all [isKeyword]
      · cases h
    | quoted mark raw => rfl
    | group call => rfl

theorem Arg.AllStand.paramsAt_true {args : List Arg} {rest : List Char}
    (h : Arg.AllStand true args rest) (k : Nat) : Arg.paramsAt k args = [] := by
  induction args generalizing k with
  | nil => rfl
  | cons a args ih =>
    obtain ⟨lead, key, value⟩ := a
    cases key with
    | none => exact absurd h.2.1 (by simp)
    | some key => exact ih h.2.2.2 _

theorem Mustache.chars_eq (m : Mustache) :
    m.chars = m.opening ++ (m.call.chars ++ m.closing) := by
  simp [Mustache.chars, Mustache.opening, Mustache.closing]

/-- The quote of a value without mustaches does not stand in it. -/
theorem not_mem_parts {mark : Char} {ps : List Part} (h : Part.AllStand mark ps)
    (hps : ps.any Part.isMustache = false) : mark ∉ ps.flatMap Part.chars := by
  induction ps with
  | nil => exact List.not_mem_nil
  | cons p ps ih =>
    obtain ⟨hp, hps⟩ := Bool.or_eq_false_iff.1 hps
    cases p with
    | mustache m => cases hp
    | text cs =>
      obtain ⟨-, hclear, -, hrest⟩ := h
      have hcs : mark ∉ cs := hclear.not_mem fun s => partEndAhead_mark mark s
      rw [List.flatMap_cons, List.mem_append]
      exact not_or.2 ⟨hcs, ih hrest hps⟩

/-- What stands before the call of an opening tag. -/
def BlockTag.front (t : BlockTag) : List Char :=
  Token.mustacheOpen.chars ++ flagged t.tilde ['~'] ++ Token.hash.chars

theorem BlockTag.chars_eq (t : BlockTag) : t.chars = t.front ++ (t.call.chars ++ t.ending.chars) := by
  simp [BlockTag.chars, BlockTag.front]

/-- The tree of a block that is not a segment of a chain. -/
def blockAt (k : Nat) (opening : BlockTag) (program : List Statement) (sections : List Section)
    (closing : CloseTag) : Tree.Block :=
  let programStart := k + size opening.chars
  let programEnd := programStart + Statement.widthAll program
  let closeStart := programEnd + Section.widthAll sections
  { call := opening.call.at (k + opening.callOffset)
    blockParams := opening.ending.bound
    openSpan := .over k opening.chars
    program := ⟨Statement.atAll programStart program, ⟨programStart, programEnd⟩⟩
    inverse := Section.atAll programEnd sections
    close := some (closing.at closeStart)
    span := ⟨k, closeStart + size closing.chars⟩ }

theorem Statement.at_block (k : Nat) (opening : BlockTag) (program : List Statement)
    (sections : List Section) (closing : CloseTag) :
    (Statement.block opening program sections closing).at k =
      .block (blockAt k opening program sections closing) := by
  rw [Statement.at]
  rfl

theorem blockAt_span (k : Nat) (opening : BlockTag) (program : List Statement)
    (sections : List Section) (closing : CloseTag) :
    (blockAt k opening program sections closing).span =
      .over k (Statement.block opening program sections closing).chars := by
  simp [blockAt, Span.over, Statement.chars, Statement.widthAll_eq, Section.widthAll_eq,
    Nat.add_assoc]

/-- The tree of a chained section, with the sections after it. -/
def segmentAt (k : Nat) (tag : ElseTag) (call : Call) (ending : TagEnd) (body : List Statement)
    (more : List Section) : Tree.Block :=
  let bodyStart := k + size tag.chars
  let bodyEnd := bodyStart + Statement.widthAll body
  { call := call.at (k + tag.tailOffset)
    blockParams := ending.bound
    openSpan := .over k tag.chars
    program := ⟨Statement.atAll bodyStart body, ⟨bodyStart, bodyEnd⟩⟩
    inverse := Section.atAll bodyEnd more
    close := none
    span := ⟨k, bodyEnd + Section.widthAll more⟩ }

/-- Sections that go on with another helper start with a chained one. -/
theorem Section.eq_of_chained {k : Nat} {sections : List Section} {b : Tree.Block}
    (h : Section.atAll k sections = .chained b) :
    ∃ tilde lead call ending body more,
      sections = ⟨⟨tilde, lead, .chained call ending⟩, body⟩ :: more ∧
        b = segmentAt k ⟨tilde, lead, .chained call ending⟩ call ending body more := by
  cases sections with
  | nil => simp [Section.atAll] at h
  | cons s more =>
    obtain ⟨⟨tilde, lead, tail⟩, body⟩ := s
    cases tail with
    | plain trail after => simp [Section.atAll] at h
    | chained call ending =>
      simp only [Section.atAll, Tree.ElsePart.chained.injEq] at h
      exact ⟨tilde, lead, call, ending, body, more, rfl, h.symm⟩

/-- The attributes, the modifiers and the comments among items, the blanks before the first item at
`k`. -/
def attributesAt (k : Nat) (items : List Spaced) : List Tree.Attribute :=
  (Spaced.offsets k items).filterMap fun
    | (k, .attribute a) => some (a.at k)
    | _ => none

def modifiersAt (k : Nat) (items : List Spaced) : List Tree.ElementModifier :=
  (Spaced.offsets k items).filterMap fun
    | (k, .modifier m) => some ⟨(m.at k).call, (m.at k).span⟩
    | _ => none

def notesAt (k : Nat) (items : List Spaced) : List Tree.Comment :=
  (Spaced.offsets k items).filterMap fun
    | (k, .note n) => some (n.at k)
    | _ => none

theorem attributesAt_cons (k : Nat) (s : Spaced) (ss : List Spaced) :
    attributesAt k (s :: ss) = (match s.item with
      | .attribute a => [a.at (k + size s.lead)]
      | _ => []) ++ attributesAt (k + size s.chars) ss := by
  obtain ⟨lead, item⟩ := s
  cases item <;> rfl

theorem modifiersAt_cons (k : Nat) (s : Spaced) (ss : List Spaced) :
    modifiersAt k (s :: ss) = (match s.item with
      | .modifier m => [⟨(m.at (k + size s.lead)).call, (m.at (k + size s.lead)).span⟩]
      | _ => []) ++ modifiersAt (k + size s.chars) ss := by
  obtain ⟨lead, item⟩ := s
  cases item <;> rfl

theorem notesAt_cons (k : Nat) (s : Spaced) (ss : List Spaced) :
    notesAt k (s :: ss) = (match s.item with
      | .note n => [n.at (k + size s.lead)]
      | _ => []) ++ notesAt (k + size s.chars) ss := by
  obtain ⟨lead, item⟩ := s
  cases item <;> rfl

/-- The names that items bind after `names`. -/
def boundBy (names : List String) (items : List Spaced) : List String :=
  items.foldl (fun names s => match s.item with
    | .params p => p.bound
    | _ => names) names

/-- The items of an element where they stand in its opening tag. -/
theorem OpeningTag.at_items (t : OpeningTag) (k : Nat) :
    (t.at k).attributes = attributesAt (k + size (Token.tagOpen.chars ++ t.name)) t.items ∧
      (t.at k).modifiers = modifiersAt (k + size (Token.tagOpen.chars ++ t.name)) t.items ∧
      (t.at k).comments = notesAt (k + size (Token.tagOpen.chars ++ t.name)) t.items := by
  have hoffset : k + 1 + size t.name = k + size (Token.tagOpen.chars ++ t.name) := by
    rw [Text.size_append, Nat.add_assoc]
    rfl
  rw [← hoffset]
  exact ⟨rfl, rfl, rfl⟩

theorem foldl_offsets (items : List Spaced) (names : List String) (k : Nat) :
    (Spaced.offsets k items).foldl (fun names item => match item with
      | (_, .params p) => p.bound
      | _ => names) names = boundBy names items := by
  induction items generalizing names k with
  | nil => rfl
  | cons s ss ih =>
    obtain ⟨lead, item⟩ := s
    cases item <;> exact ih _ _

theorem OpeningTag.at_blockParams (t : OpeningTag) (k : Nat) :
    (t.at k).blockParams = boundBy [] t.items := foldl_offsets _ _ _

end Concrete

end TemplateLint
