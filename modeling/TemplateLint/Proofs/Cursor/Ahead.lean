import TemplateLint.Cursor.Basic
import TemplateLint.Proofs.Reading.Statement

namespace TemplateLint.Concrete

open Text (isBlank eat run scanTo startsWith)

variable {s : List Char} {m : Nat}

/-- What is ahead, by the tests of the cursor in their order. -/
theorem ahead_eq (s : List Char) : Ahead.of s =
    if s.isEmpty then .ending
    else if startsWith Token.mustacheOpen.chars s then .inBraces (s.drop 2)
    else if startsWith Token.commentOpen.chars s then .comment
    else if startsWith Token.closingTagOpen.chars s then .closingTag
    else if tagStartAhead s then .element
    else .text := by
  unfold Ahead.of
  split
  · rfl
  · rfl
  · rfl
  · rfl
  · next c t hcomment hclosing =>
    have hc : startsWith Token.commentOpen.chars ('<' :: c :: t) = false :=
      Text.startsWith_none fun u hu => by
        cases hu
        exact hcomment u rfl rfl
    have hd : startsWith Token.closingTagOpen.chars ('<' :: c :: t) = false :=
      Text.startsWith_none fun u hu => by
        cases hu
        exact hclosing rfl
    rw [hc, hd]
    rfl
  · next c t hbraces hcomment hclosing hangle =>
    have hb : startsWith Token.mustacheOpen.chars (c :: t) = false :=
      Text.startsWith_none fun u hu => by
        cases hu
        exact hbraces u rfl rfl
    have hc : startsWith Token.commentOpen.chars (c :: t) = false :=
      Text.startsWith_none fun u hu => by
        cases hu
        exact hcomment u rfl rfl
    have hd : startsWith Token.closingTagOpen.chars (c :: t) = false :=
      Text.startsWith_none fun u hu => by
        cases hu
        exact hclosing u rfl rfl
    have hstart : tagStartAhead (c :: t) = false := by
      unfold tagStartAhead
      split
      · next d u he =>
        cases he
        exact absurd rfl (hangle d u rfl)
      · rfl
    rw [hb, hc, hd, hstart]
    rfl

theorem inBraces_cases (s : List Char) :
    Ahead.inBraces s = .note ∨ Ahead.inBraces s = .block ∨ Ahead.inBraces s = .closeTag ∨
      Ahead.inBraces s = .elseTag ∨ Ahead.inBraces s = .mustache := by
  unfold Ahead.inBraces
  split
  · simp
  · simp
  · simp
  · split <;> simp

theorem ahead_ending (h : Ahead.of s = .ending) : s = [] := by
  cases s with
  | nil => rfl
  | cons c s =>
    rw [ahead_eq] at h
    simp only [List.isEmpty_cons, Bool.false_eq_true, if_false] at h
    split at h
    · rcases inBraces_cases ((c :: s).drop 2) with hin | hin | hin | hin | hin <;>
        rw [hin] at h <;> cases h
    · split at h
      · cases h
      · split at h
        · cases h
        · split at h <;> cases h

theorem textBoundaryAhead_cons (c : Char) (s : List Char) :
    textBoundaryAhead (c :: s) = textEndAhead (c :: s) := by
  rw [textBoundaryAhead, textEndAhead, ahead_eq]
  simp only [List.isEmpty_cons, Bool.false_eq_true, if_false]
  split
  · next h =>
    rw [h]
    rcases inBraces_cases ((c :: s).drop 2) with h | h | h | h | h <;> rw [h] <;> rfl
  · next h =>
    rw [Bool.eq_false_iff.2 h]
    cases startsWith Token.closingTagOpen.chars (c :: s) <;>
      cases startsWith Token.commentOpen.chars (c :: s) <;> cases tagStartAhead (c :: s) <;> rfl

theorem scanTo_textBoundaryAhead (s : List Char) :
    scanTo textBoundaryAhead s = scanTo textEndAhead s := by
  induction s with
  | nil => rfl
  | cons c s ih => rw [scanTo, scanTo, textBoundaryAhead_cons, ih]

theorem ne_nil_of_text {cs rest : List Char} (hs : Ahead.of s = .text)
    (h : scanTo textEndAhead s = (cs, rest)) : cs ≠ [] := by
  cases s with
  | nil => cases hs
  | cons c s =>
    have hstop : textEndAhead (c :: s) = false := by
      rw [textEndAhead, hs]
      rfl
    rw [scanTo, hstop, if_neg Bool.false_ne_true] at h
    cases h
    exact List.cons_ne_nil c _

/-- What follows the opening tag of the block `name`: the program, the sections and the closing tag. -/
def restWithin (name start : List Char) (m : Nat) (s : List Char) :
    Result ((List Statement × List Section × CloseTag) × List Char) := do
  let (program, s) ← statementsWithin m s
  let ((sections, closing), s) ← sectionsWithin name start m s
  .ok ((program, sections, closing), s)

/-- A block, read as `statementsWithin` reads it. -/
def blockWithin (m : Nat) (s : List Char) :
    Result ((BlockTag × List Statement × List Section × CloseTag) × List Char) := do
  let ((opening, name), rest) ← BlockTag.read s
  let (p, rest) ← restWithin name s m rest
  .ok ((opening, p), rest)

def blockOf : BlockTag × List Statement × List Section × CloseTag → Statement
  | (opening, program, sections, closing) => .block opening program sections closing

/-- An element, read as `statementsWithin` reads it; what is inside is none if it is its opening tag
alone. -/
def elementWithin (m : Nat) (s : List Char) :
    Result ((OpeningTag × Option (List Statement × List Char)) × List Char) := do
  let (opening, rest) ← OpeningTag.read s
  if opening.isWhole then .ok ((opening, none), rest)
  else
    let (children, rest) ← statementsWithin m rest
    let (closing, rest) ← readClosingTag opening.name s rest
    .ok ((opening, some (children, closing)), rest)

def elementOf : OpeningTag × Option (List Statement × List Char) → Statement
  | (opening, none) => .whole opening
  | (opening, some (children, closing)) => .element opening children closing

theorem statementsWithin_cons_block (hs : Ahead.of s = .block) :
    statementsWithin (m + 1) s = (do
      let (c, s) ← blockWithin m s
      let (more, s) ← statementsWithin m s
      .ok (blockOf c :: more, s)) := by
  rw [statementsWithin, hs]
  simp only [blockWithin, restWithin, bind_assoc]
  rfl

theorem statementsWithin_cons_element (hs : Ahead.of s = .element) :
    statementsWithin (m + 1) s = (do
      let (c, s) ← elementWithin m s
      let (more, s) ← statementsWithin m s
      .ok (elementOf c :: more, s)) := by
  rw [statementsWithin, hs]
  simp only [elementWithin, bind_assoc]
  refine congrArg (OpeningTag.read s >>= ·) (funext fun p => ?_)
  by_cases hwhole : p.1.isWhole = true
  · rw [if_pos hwhole, if_pos hwhole]
    rfl
  · rw [if_neg hwhole, if_neg hwhole]
    simp only [bind_assoc]
    rfl

theorem elementOf_ne_nil (c : OpeningTag × Option (List Statement × List Char)) :
    (elementOf c).chars ≠ [] := by
  rcases c with ⟨opening, _ | ⟨children, closing⟩⟩ <;>
    simp [elementOf, Statement.chars, OpeningTag.chars, Token.chars]

theorem cons_inv {γ : Type} {ss : List Statement} {rest : List Char}
    {r : Result (γ × List Char)} {stm : γ → Statement}
    (h : (do
      let (c, s) ← r
      let (more, s) ← statementsWithin m s
      .ok (stm c :: more, s)) = (.ok (ss, rest) : Result (List Statement × List Char))) :
    ∃ st more t, ss = st :: more ∧ statementsWithin m t = .ok (more, rest) := by
  obtain ⟨⟨c, t⟩, -, h⟩ := bind_eq_ok.1 h
  obtain ⟨⟨more, u⟩, hmore, h⟩ := bind_eq_ok.1 h
  cases h
  exact ⟨stm c, more, t, rfl, hmore⟩

/-- The reading of a list of statements stops at once, or goes on behind its first statement. -/
theorem statementsWithin_inv {ss : List Statement} {rest : List Char}
    (h : statementsWithin (m + 1) s = .ok (ss, rest)) :
    (ss = [] ∧ rest = s ∧ endsContent s) ∨
      ∃ st more t, ss = st :: more ∧ statementsWithin m t = .ok (more, rest) := by
  cases hs : Ahead.of s with
  | ending | closingTag | elseTag | closeTag =>
    rw [statementsWithin, hs] at h
    cases h
    exact .inl ⟨rfl, rfl, by simp [endsContent, hs]⟩
  | text =>
    rw [statementsWithin, hs] at h
    exact .inr (cons_inv (r := .ok (scanTo textEndAhead s)) h)
  | comment | note | mustache =>
    rw [statementsWithin, hs] at h
    exact .inr (cons_inv h)
  | block =>
    rw [statementsWithin_cons_block hs] at h
    exact .inr (cons_inv h)
  | element =>
    rw [statementsWithin_cons_element hs] at h
    exact .inr (cons_inv h)

/-- Content that is read to its end stops before a tag that closes something, or with the text. -/
theorem ends_of_statementsWithin {ss : List Statement} {rest : List Char}
    (hm : s.length ≤ m) (h : statementsWithin m s = .ok (ss, rest)) : endsContent rest := by
  induction ss generalizing m s with
  | nil =>
    cases m with
    | zero =>
      obtain rfl := List.length_eq_zero_iff.1 (Nat.le_zero.1 hm)
      cases h
      exact .inl rfl
    | succ m =>
      rcases statementsWithin_inv h with ⟨-, rfl, hends⟩ | ⟨st, more, t, hcons, -⟩
      · exact hends
      · cases hcons
  | cons st ss ih =>
    cases m with
    | zero => cases h
    | succ m =>
      obtain ⟨rfl, hstand, -⟩ := (readsStatements (m + 1)).1 _ _ _ h
      rcases statementsWithin_inv h with ⟨hnil, -⟩ | ⟨st, more, t, hcons, hmore⟩
      · cases hnil
      · cases hcons
        obtain ⟨rfl, -⟩ := (readsStatements m).1 _ _ _ hmore
        refine ih ?_ hmore
        refine length_of_append hstand.ne_nil ?_
        simpa [Statement.charsAll] using hm

/-- Content ends where no braces are, before an `else` tag or before a closing tag. -/
theorem endsContent_cases (h : endsContent s) :
    (startsWith Token.mustacheOpen.chars s = false ∧
        (Ahead.of s = .ending ∨ Ahead.of s = .closingTag)) ∨
      (∃ t, s = Token.mustacheOpen.chars ++ t ∧ Ahead.inBraces t = .elseTag) ∨
        ∃ t, s = Token.mustacheOpen.chars ++ t ∧ Ahead.inBraces t = .closeTag := by
  cases hs : startsWith Token.mustacheOpen.chars s with
  | true =>
    obtain ⟨t, rfl⟩ := Text.startsWith_iff.1 hs
    replace h : Ahead.inBraces t = .ending ∨ Ahead.inBraces t = .closingTag ∨
      Ahead.inBraces t = .elseTag ∨ Ahead.inBraces t = .closeTag := h
    rcases inBraces_cases t with hin | hin | hin | hin | hin <;> simp [hin] at h
    · exact .inr (.inr ⟨t, rfl, hin⟩)
    · exact .inr (.inl ⟨t, rfl, hin⟩)
  | false =>
    rw [endsContent, ahead_eq, hs] at h
    rw [ahead_eq, hs]
    revert h
    cases s.isEmpty <;> cases startsWith Token.commentOpen.chars s <;>
      cases startsWith Token.closingTagOpen.chars s <;> cases tagStartAhead s <;> simp

theorem sectionsWithin_unclosed {name start : List Char}
    (h : Ahead.of s = .ending ∨ Ahead.of s = .closingTag) :
    sectionsWithin name start m s = .error ⟨.unclosedBlock name, start⟩ := by
  cases m with
  | zero => rfl
  | succ m =>
    rw [sectionsWithin]
    rcases h with h | h <;> rw [h]

theorem sectionsWithin_close {name start : List Char} (hm : s.length ≤ m)
    (h : Ahead.of s = .closeTag) :
    sectionsWithin name start m s = (do
      let (closing, s) ← CloseTag.read name s
      .ok (([], closing), s)) := by
  cases m with
  | zero =>
    obtain rfl := List.length_eq_zero_iff.1 (Nat.le_zero.1 hm)
    cases h
  | succ m => rw [sectionsWithin, h]

/-- What follows the last `else` part of a block, which is no other one. -/
def lastWithin (name start : List Char) (m : Nat) (s : List Char) :
    Result ((List Section × CloseTag) × List Char) :=
  match Ahead.of s with
  | .elseTag => .error ⟨.elseAfterElse, s⟩
  | _ => sectionsWithin name start m s

/-- The last `else` part from the end of its tag on: whether `~` stands there, and its statements. -/
def finalWithin (name start : List Char) (m : Nat) (s : List Char) :
    Result ((Bool × List Statement × List Section × CloseTag) × List Char) := do
  let (tilde, s) := eat '~' s
  let s ← expect .mustacheClose s
  let (body, s) ← statementsWithin m s
  let ((more, closing), s) ← lastWithin name start m s
  .ok ((tilde, body, more, closing), s)

/-- A segment from the helper in its tag on. -/
def chainedWithin (name start : List Char) (m : Nat) (s : List Char) :
    Result ((Expr × (List Arg × List Char) × TagEnd × List Statement × List Section × CloseTag) ×
      List Char) := do
  let (callee, s) ← Expr.read s
  let (args, s) ← Arg.readAll true s
  let (ending, s) ← TagEnd.read s
  let (p, s) ← restWithin name start m s
  .ok ((callee, args, ending, p), s)

theorem sectionsWithin_else {name start : List Char} (hs : Ahead.of s = .elseTag) :
    sectionsWithin name start (m + 1) s = (do
      let s ← expect .mustacheOpen s
      let (tilde, s) := eat '~' s
      let (lead, s) := run isBlank s
      let s ← expect .elseWord s
      let (gap, s) := run isBlank s
      if tagEndAhead s then
        let ((after, body, more, closing), s) ← finalWithin name start m s
        .ok ((⟨⟨tilde, lead, .plain gap after⟩, body⟩ :: more, closing), s)
      else
        let ((callee, (args, trail), ending, body, more, closing), s) ← chainedWithin name start m s
        .ok ((⟨⟨tilde, lead, .chained ⟨gap, callee, args, trail⟩ ending⟩, body⟩ :: more, closing),
          s)) := by
  rw [sectionsWithin, hs]
  simp only [ElseTag.read, ElseTail.read, bind_assoc]
  refine congrArg (expect .mustacheOpen s >>= ·) (funext fun s₁ => ?_)
  refine congrArg (expect .elseWord _ >>= ·) (funext fun s₂ => ?_)
  by_cases hplain : tagEndAhead (run isBlank s₂).2 = true
  · rw [if_pos hplain, if_pos hplain]
    simp only [finalWithin, bind_assoc, ok_bind]
    refine congrArg (expect .mustacheClose _ >>= ·) (funext fun s₃ => ?_)
    refine congrArg (statementsWithin m s₃ >>= ·) (funext fun p => ?_)
    rw [lastWithin]
    cases Ahead.of p.2 <;> rfl
  · rw [if_neg hplain, if_neg hplain]
    simp only [chainedWithin, restWithin, bind_assoc, ok_bind]

end TemplateLint.Concrete
