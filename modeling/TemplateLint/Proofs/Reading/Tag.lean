import TemplateLint.Concrete.Read.Tag
import TemplateLint.Proofs.Reading.Expr

namespace TemplateLint.Concrete

open Text (isBlank after? eat run scanTo startsWith opens AllBlank Clear Near)

theorem eat_flagged {c : Char} {b : Bool} {rest : List Char}
    (hr : b = false → opens (· == c) rest = false) :
    eat c (flagged b [c] ++ rest) = (b, rest) :=
  Text.eat_eq c b hr

theorem eq_of_eat {c : Char} {b : Bool} {s rest : List Char} (h : eat c s = (b, rest)) :
    s = flagged b [c] ++ rest :=
  (Text.eq_of_eat h).1

theorem opens_flagged {p : Char → Bool} {b : Bool} {c : Char} {s : List Char} (hc : p c = false)
    (hs : opens p s = false) : opens p (flagged b [c] ++ s) = false := by
  cases b with
  | false => exact hs
  | true => exact hc

@[simp] theorem Call.mk_parts (c : Call) : Call.mk c.lead c.callee c.args c.trail = c := by
  cases c
  rfl

theorem Call.chars_append (c : Call) (s : List Char) :
    c.chars ++ s =
      c.lead ++ (c.callee.chars ++ (Arg.charsAll c.args ++ (c.trail ++ s))) := by
  obtain ⟨lead, callee, args, trail⟩ := c
  simp [Call.chars]

/-- A call begins with a blank or with its callee. -/
theorem Call.Stands.opens_ne {c : Call} {rest : List Char} (h : c.Stands rest) {d : Char}
    (hb : isBlank d = false) (he : startsExpr d = false) (s : List Char) :
    opens (· == d) (c.chars ++ s) = false := by
  obtain ⟨lead, callee, args, trail⟩ := c
  obtain ⟨hlead, hcallee, -⟩ := h
  rw [Call.chars_append]
  cases lead with
  | nil =>
    apply Foreign.opens_false _ (hcallee.opens _)
    intro c hc
    simpa using ne_of_startsExpr hc he
  | cons c lead =>
    have hc : c ≠ d := by
      rintro rfl
      rw [hlead c (by simp)] at hb
      cases hb
    simpa using hc

theorem Call.Stands.allBlank_lead {c : Call} {rest : List Char} (h : c.Stands rest) :
    AllBlank c.lead := by
  obtain ⟨lead, callee, args, trail⟩ := c
  exact h.1

theorem Call.Stands.opens_callee {c : Call} {rest : List Char} (h : c.Stands rest)
    (s : List Char) : opens startsExpr (c.callee.chars ++ s) = true := by
  obtain ⟨lead, callee, args, trail⟩ := c
  exact h.2.1.opens s

theorem Call.Stands.run_lead {c : Call} {rest : List Char} (h : c.Stands rest) :
    run isBlank (c.chars ++ rest) =
      (c.lead, c.callee.chars ++ (Arg.charsAll c.args ++ (c.trail ++ rest))) := by
  obtain ⟨lead, callee, args, trail⟩ := c
  rw [Call.chars_append]
  exact Text.run_eq h.1 (Foreign.opens_false (fun c hc => isBlank_of_startsExpr hc)
    (h.2.1.opens _))

theorem Call.Stands.read_callee {c : Call} {rest : List Char} (h : c.Stands rest) :
    Expr.read (c.callee.chars ++ (Arg.charsAll c.args ++ (c.trail ++ rest))) =
      .ok (c.callee, Arg.charsAll c.args ++ (c.trail ++ rest)) := by
  obtain ⟨lead, callee, args, trail⟩ := c
  exact h.2.1.read_eq

theorem Call.Stands.readAll_args {c : Call} {rest : List Char} (h : c.Stands rest) {binds : Bool}
    (hr : argsEndAhead binds rest = true) :
    Arg.readAll binds (Arg.charsAll c.args ++ (c.trail ++ rest)) =
      .ok ((c.args, c.trail), rest) := by
  obtain ⟨lead, callee, args, trail⟩ := c
  exact h.2.2.1.readAll_eq h.2.2.2 hr

/-- What the three steps that read a call give together. -/
theorem Call.eq_of_read {binds : Bool} {s lead t u trail rest : List Char} {callee : Expr}
    {args : List Arg} (hlead : run isBlank s = (lead, t)) (hcallee : Expr.read t = .ok (callee, u))
    (hargs : Arg.readAll binds u = .ok ((args, trail), rest)) :
    s = (Call.mk lead callee args trail).chars ++ rest ∧
      (Call.mk lead callee args trail).Stands rest ∧ argsEndAhead binds rest = true := by
  obtain ⟨rfl, hl, -⟩ := Text.eq_of_run hlead
  obtain ⟨rfl, hc⟩ := Expr.eq_of_read hcallee
  obtain ⟨rfl, ha, ht, hend⟩ := Arg.eq_of_readAll hargs
  rw [Call.chars_append]
  exact ⟨rfl, ⟨hl, hc, ha, ht⟩, hend⟩

/-- What stands after the call of a mustache. -/
def Mustache.closing (m : Mustache) : List Char :=
  flagged m.tildeAfter ['~'] ++
    (if m.trusting then Token.tripleClose.chars else Token.mustacheClose.chars)

def Mustache.Stands (m : Mustache) : Prop := m.call.Stands m.closing

theorem Mustache.chars_append (m : Mustache) (s : List Char) :
    m.chars ++ s =
      Token.mustacheOpen.chars ++ (flagged m.trusting ['{'] ++ (flagged m.tildeBefore ['~'] ++
        (m.call.chars ++ (m.closing ++ s)))) := by
  simp [Mustache.chars, Mustache.closing]

theorem opens_isWordChar_closing (m : Mustache) (s : List Char) :
    opens isWordChar (m.closing ++ s) = opens isWordChar m.closing := by
  cases h : m.trusting <;> cases ht : m.tildeAfter <;> simp [Mustache.closing, h, ht] <;> rfl

theorem tagEndAhead_closing (m : Mustache) (s : List Char) :
    tagEndAhead (m.closing ++ s) = true := by
  cases h : m.trusting <;> cases ht : m.tildeAfter <;> simp [Mustache.closing, h, ht] <;> rfl

theorem Mustache.eq_of_read {s rest : List Char} {m : Mustache} (h : Mustache.read s = .ok (m, rest)) :
    s = m.chars ++ rest ∧ m.Stands := by
  unfold Mustache.read at h
  obtain ⟨s₁, h₁, h₂⟩ := bind_eq_ok.1 h
  cases hq : eat '{' s₁ with
  | mk trusting s₂ =>
    cases ht : eat '~' s₂ with
    | mk tildeBefore s₃ =>
      cases hl : run isBlank s₃ with
      | mk lead s₄ =>
        simp only [hq, ht, hl] at h₂
        obtain ⟨⟨callee, s₅⟩, hc, h₃⟩ := bind_eq_ok.1 h₂
        obtain ⟨⟨⟨args, trail⟩, s₆⟩, ha, h₄⟩ := bind_eq_ok.1 h₃
        cases htl : eat '~' s₆ with
        | mk tildeAfter s₇ =>
          simp only [htl] at h₄
          obtain ⟨s₈, h₈, h₉⟩ := bind_eq_ok.1 h₄
          cases h₉
          obtain ⟨rfl, hcall, -⟩ := Call.eq_of_read hl hc ha
          obtain rfl := eq_of_expect h₁
          obtain rfl := eq_of_expect h₈
          obtain rfl := eq_of_eat hq
          obtain rfl := eq_of_eat ht
          obtain rfl := eq_of_eat htl
          constructor
          · cases trusting <;> simp [Mustache.chars]
          · refine (Call.stands_congr _ ?_).1 hcall
            cases trusting <;> cases tildeAfter <;> rfl

theorem Mustache.Stands.read_eq {m : Mustache} (h : m.Stands) (rest : List Char) :
    Mustache.read (m.chars ++ rest) = .ok (m, rest) := by
  have hcall : m.call.Stands (m.closing ++ rest) :=
    (Call.stands_congr _ (opens_isWordChar_closing m rest)).2 h
  have hend : argsEndAhead false (m.closing ++ rest) = true := by
    simp [argsEndAhead, tagEndAhead_closing]
  have htilde : eat '~' (flagged m.tildeBefore ['~'] ++ (m.call.chars ++ (m.closing ++ rest))) =
      (m.tildeBefore, m.call.chars ++ (m.closing ++ rest)) :=
    eat_flagged fun _ => hcall.opens_ne (by decide) (by decide) _
  have hbrace : eat '{' (flagged m.trusting ['{'] ++ (flagged m.tildeBefore ['~'] ++
      (m.call.chars ++ (m.closing ++ rest)))) =
        (m.trusting, flagged m.tildeBefore ['~'] ++ (m.call.chars ++ (m.closing ++ rest))) :=
    eat_flagged fun _ => opens_flagged (by decide) (hcall.opens_ne (by decide) (by decide) _)
  have hclose : eat '~' (m.closing ++ rest) =
      (m.tildeAfter,
        (if m.trusting then Token.tripleClose else Token.mustacheClose).chars ++ rest) := by
    cases hm : m.trusting <;> cases ht : m.tildeAfter <;> simp [Mustache.closing, hm, ht] <;> rfl
  rw [Mustache.chars_append]
  unfold Mustache.read
  simp only [expect_append, ok_bind, hbrace, htilde, hcall.run_lead, hcall.read_callee,
    hcall.readAll_args hend, hclose, Call.mk_parts]

theorem near_tagEndAhead : Near 3 tagEndAhead := by
  intro s t hlen
  cases s with
  | nil => simp at hlen
  | cons c s =>
    have hlen' : 2 ≤ s.length := by simpa using hlen
    have hs := Text.near_startsWith Token.mustacheClose.chars s t hlen'
    have hcs := Text.near_startsWith Token.mustacheClose.chars (c :: s) t
      (Nat.le_succ_of_le hlen')
    by_cases hc : c = '~'
    · simpa [tagEndAhead, eat, hc] using hs
    · simpa [tagEndAhead, eat, hc] using hcs

theorem near_after {k : Nat} {stop : List Char → Bool} (hn : Near k stop) (mark : List Char) :
    Near (mark.length + k) fun s =>
      match after? mark s with
      | some rest => stop rest
      | none => false := by
  intro s t hlen
  induction mark generalizing s with
  | nil => exact hn s t (by simpa using hlen)
  | cons m mark ih =>
    cases s with
    | nil => simp only [List.length_cons, List.length_nil] at hlen; omega
    | cons c s =>
      have hs := ih s (by simp only [List.length_cons] at hlen; omega)
      simp only [List.cons_append, Text.after?_cons_cons]
      by_cases hc : m = c
      · simp only [if_pos hc]
        exact hs
      · simp only [if_neg hc]

theorem near_noteEndAhead (dashes : Bool) :
    Near ((flagged dashes ['-', '-']).length + 3) (noteEndAhead dashes) :=
  near_after near_tagEndAhead (flagged dashes ['-', '-'])

/-- What stands after the value of a comment. -/
def Note.tail (n : Note) : List Char :=
  flagged n.dashes ['-', '-'] ++ (flagged n.tildeAfter ['~'] ++ Token.mustacheClose.chars)

def Note.Stands (n : Note) : Prop :=
  (n.dashes = false → startsWith ['-', '-'] (n.value ++ n.tail) = false) ∧
    Clear (noteEndAhead n.dashes) n.value n.tail

theorem Note.chars_append (n : Note) (s : List Char) :
    n.chars ++ s =
      Token.mustacheOpen.chars ++ (flagged n.tildeBefore ['~'] ++ (Token.bang.chars ++
        (flagged n.dashes ['-', '-'] ++ (n.value ++ (n.tail ++ s))))) := by
  simp [Note.chars, Note.tail]

theorem Note.tail_length (n : Note) :
    (flagged n.dashes ['-', '-']).length + 2 ≤ n.tail.length := by
  simp only [Note.tail, Token.chars, List.length_append, List.length_cons, List.length_nil]
  omega

theorem startsWith_dashes (n : Note) (s : List Char) :
    startsWith ['-', '-'] (n.value ++ (n.tail ++ s)) = startsWith ['-', '-'] (n.value ++ n.tail) := by
  have hlen := n.tail_length
  rw [← List.append_assoc]
  apply Text.near_startsWith
  simp only [List.length_append, List.length_cons, List.length_nil]
  omega

theorem Note.clear_tail (n : Note) (s : List Char) :
    Clear (noteEndAhead n.dashes) n.value (n.tail ++ s) ↔
      Clear (noteEndAhead n.dashes) n.value n.tail := by
  have hlen := n.tail_length
  apply (near_noteEndAhead n.dashes).clear
  omega

theorem noteEndAhead_tail (n : Note) (s : List Char) :
    noteEndAhead n.dashes (n.tail ++ s) = true := by
  cases hd : n.dashes <;> cases ht : n.tildeAfter <;> simp [Note.tail, hd, ht] <;> rfl

theorem drop_flagged (b : Bool) (cs s : List Char) :
    (flagged b cs ++ s).drop (flagged b cs).length = s := by
  simp

theorem eq_of_noteEndAhead {dashes : Bool} {s : List Char} (h : noteEndAhead dashes s = true) :
    s = flagged dashes ['-', '-'] ++ s.drop (flagged dashes ['-', '-']).length := by
  unfold noteEndAhead at h
  cases ha : after? (flagged dashes ['-', '-']) s with
  | none =>
    rw [ha] at h
    cases h
  | some rest =>
    obtain rfl := Text.after?_eq_some_iff.1 ha
    rw [drop_flagged]

theorem eq_of_startsWith_dashes {dashes : Bool} {s : List Char}
    (h : startsWith ['-', '-'] s = dashes) :
    s = flagged dashes ['-', '-'] ++ s.drop (flagged dashes ['-', '-']).length := by
  cases dashes with
  | false => rfl
  | true =>
    obtain ⟨rest, rfl⟩ := Text.startsWith_iff.1 h
    rfl

theorem Note.eq_of_read {s rest : List Char} {n : Note} (h : Note.read s = .ok (n, rest)) :
    s = n.chars ++ rest ∧ n.Stands := by
  unfold Note.read at h
  obtain ⟨s₁, h₁, h₂⟩ := bind_eq_ok.1 h
  cases ht : eat '~' s₁ with
  | mk tildeBefore s₂ =>
    simp only [ht] at h₂
    obtain ⟨s₃, h₃, h₄⟩ := bind_eq_ok.1 h₂
    generalize hd : startsWith ['-', '-'] s₃ = dashes at h₄
    cases hv : scanTo (noteEndAhead dashes) (s₃.drop (flagged dashes ['-', '-']).length) with
    | mk value s₄ =>
      simp only [hv] at h₄
      split at h₄
      · cases h₄
      · next hne =>
        cases hta : eat '~' (s₄.drop (flagged dashes ['-', '-']).length) with
        | mk tildeAfter s₅ =>
          simp only [hta] at h₄
          obtain ⟨s₆, h₆, h₇⟩ := bind_eq_ok.1 h₄
          cases h₇
          obtain ⟨hs₃, hclear, hstop⟩ := Text.eq_of_scanTo hv
          have hend := eq_of_noteEndAhead (hstop (by simpa using hne))
          have hdash := eq_of_startsWith_dashes hd
          rw [hs₃] at hdash
          rw [eq_of_eat hta, eq_of_expect h₆] at hend
          obtain rfl := hend
          obtain rfl := eq_of_expect h₁
          obtain rfl := eq_of_eat ht
          obtain rfl := eq_of_expect h₃
          let n : Note := ⟨tildeBefore, dashes, value, tildeAfter⟩
          have htail : flagged dashes ['-', '-'] ++ (flagged tildeAfter ['~'] ++
              (Token.mustacheClose.chars ++ rest)) = n.tail ++ rest := by
            simp [Note.tail, n]
          rw [htail] at hdash hclear
          refine ⟨?_, ?_, (n.clear_tail rest).1 hclear⟩
          · rw [Note.chars_append, hdash]
          · intro hn
            rw [show dashes = false from hn] at hdash hd
            rw [hdash] at hd
            rw [← startsWith_dashes n rest]
            exact hd

theorem Note.Stands.read_eq {n : Note} (h : n.Stands) (rest : List Char) :
    Note.read (n.chars ++ rest) = .ok (n, rest) := by
  obtain ⟨hdash, hclear⟩ := h
  have htilde : ∀ s, eat '~' (flagged n.tildeBefore ['~'] ++ (Token.bang.chars ++ s)) =
      (n.tildeBefore, Token.bang.chars ++ s) := fun s => eat_flagged fun _ => rfl
  have hdashes : startsWith ['-', '-']
      (flagged n.dashes ['-', '-'] ++ (n.value ++ (n.tail ++ rest))) = n.dashes := by
    cases hd : n.dashes with
    | false =>
      have hv := hdash hd
      rw [← startsWith_dashes n rest] at hv
      exact hv
    | true => exact Text.startsWith_append ['-', '-'] _
  have hscan : scanTo (noteEndAhead n.dashes) (n.value ++ (n.tail ++ rest)) =
      (n.value, n.tail ++ rest) :=
    Text.scanTo_eq ((n.clear_tail rest).2 hclear) fun _ => noteEndAhead_tail n rest
  have hne : (n.tail ++ rest).isEmpty = false := by
    have hlen := n.tail_length
    cases ht : n.tail with
    | nil => simp [ht] at hlen
    | cons c s => rfl
  have htail : (n.tail ++ rest).drop (flagged n.dashes ['-', '-']).length =
      flagged n.tildeAfter ['~'] ++ (Token.mustacheClose.chars ++ rest) := by
    simp [Note.tail]
  have hclose : eat '~' (flagged n.tildeAfter ['~'] ++ (Token.mustacheClose.chars ++ rest)) =
      (n.tildeAfter, Token.mustacheClose.chars ++ rest) := eat_flagged fun _ => rfl
  rw [Note.chars_append]
  unfold Note.read
  simp only [expect_append, ok_bind, htilde, hdashes, drop_flagged, hscan, hne, htail, hclose]
  rfl

/-- The value of `<!-- value -->`. -/
def CommentStands (value : List Char) : Prop :=
  Clear (startsWith ['-', '-', '>']) value ['-', '-', '>']

theorem clear_commentEnd (value s : List Char) :
    Clear (startsWith ['-', '-', '>']) value (['-', '-', '>'] ++ s) ↔ CommentStands value :=
  (Text.near_startsWith ['-', '-', '>']).clear (by simp) s

theorem eq_of_readComment {s value rest : List Char} (h : readComment s = .ok (value, rest)) :
    s = (Token.commentOpen.chars ++ value ++ ['-', '-', '>']) ++ rest ∧ CommentStands value := by
  unfold readComment at h
  obtain ⟨s₁, h₁, h₂⟩ := bind_eq_ok.1 h
  cases hv : scanTo (startsWith ['-', '-', '>']) s₁ with
  | mk value' s₂ =>
    simp only [hv] at h₂
    split at h₂
    · next s₃ h₃ =>
      cases h₂
      obtain ⟨hs₁, hclear, -⟩ := Text.eq_of_scanTo hv
      rw [Text.after?_eq_some_iff.1 h₃] at hs₁ hclear
      obtain rfl := hs₁
      obtain rfl := eq_of_expect h₁
      exact ⟨by simp, (clear_commentEnd value rest).1 hclear⟩
    · cases h₂

theorem CommentStands.read_eq {value : List Char} (h : CommentStands value) (rest : List Char) :
    readComment ((Token.commentOpen.chars ++ value ++ ['-', '-', '>']) ++ rest) =
      .ok (value, rest) := by
  have hscan : scanTo (startsWith ['-', '-', '>']) (value ++ (['-', '-', '>'] ++ rest)) =
      (value, ['-', '-', '>'] ++ rest) :=
    Text.scanTo_eq ((clear_commentEnd value rest).2 h) fun _ => Text.startsWith_append _ _
  unfold readComment
  simp only [List.append_assoc, expect_append, ok_bind]
  simp only [hscan, Text.after?_append]

/-- `as |names|`, with a blank before the bar and words and blanks between the bars. -/
def BlockParams.Stands (p : BlockParams) : Prop :=
  p.gap ≠ [] ∧ AllBlank p.gap ∧ ∀ c ∈ p.names, (isBlank c || isWordChar c) = true

theorem BlockParams.chars_append (p : BlockParams) (s : List Char) :
    p.chars ++ s = Token.asWord.chars ++ (p.gap ++ (Token.bar.chars ++ (p.names ++
      (Token.bar.chars ++ s)))) := by
  simp [BlockParams.chars]

theorem BlockParams.Stands.paramsAhead_eq {p : BlockParams} (h : p.Stands) (s : List Char) :
    paramsAhead (p.chars ++ s) = true := by
  obtain ⟨hne, hgap, -⟩ := h
  rw [BlockParams.chars_append]
  unfold paramsAhead
  rw [Text.after?_append]
  cases hg : p.gap with
  | nil => exact absurd hg hne
  | cons c gap =>
    rw [hg] at hgap
    have hdrop := Text.dropWhile_blank hgap
      (show opens isBlank (Token.bar.chars ++ (p.names ++ (Token.bar.chars ++ s))) = false from rfl)
    have hc : isBlank c = true := hgap c (by simp)
    simp only [List.cons_append] at hdrop ⊢
    simp [hc, hdrop]

theorem BlockParams.eq_of_read {s rest : List Char} {p : BlockParams} (hs : paramsAhead s = true)
    (h : BlockParams.read s = .ok (p, rest)) : s = p.chars ++ rest ∧ p.Stands := by
  unfold BlockParams.read at h
  obtain ⟨s₁, h₁, h₂⟩ := bind_eq_ok.1 h
  cases hg : run isBlank s₁ with
  | mk gap s₂ =>
    simp only [hg] at h₂
    obtain ⟨s₃, h₃, h₄⟩ := bind_eq_ok.1 h₂
    cases hn : run (fun c => isBlank c || isWordChar c) s₃ with
    | mk names s₄ =>
      simp only [hn] at h₄
      split at h₄
      · next s₅ h₅ =>
        cases h₄
        obtain ⟨rfl, hnames, -⟩ := Text.eq_of_run hn
        obtain ⟨rfl, hgap, -⟩ := Text.eq_of_run hg
        obtain rfl := Text.after?_eq_some_iff.1 h₅
        obtain rfl := eq_of_expect h₃
        obtain rfl := eq_of_expect h₁
        refine ⟨by simp [BlockParams.chars], ?_, hgap, hnames⟩
        rintro rfl
        have hno : paramsAhead (Token.asWord.chars ++ ([] ++ (Token.bar.chars ++ (names ++
            (Token.bar.chars ++ rest))))) = false := by
          unfold paramsAhead
          rw [Text.after?_append]
          rfl
        rw [hno] at hs
        cases hs
      · cases h₄

theorem BlockParams.Stands.read_eq {p : BlockParams} (h : p.Stands) (rest : List Char) :
    BlockParams.read (p.chars ++ rest) = .ok (p, rest) := by
  obtain ⟨-, hgap, hnames⟩ := h
  have hg : run isBlank (p.gap ++ (Token.bar.chars ++ (p.names ++ (Token.bar.chars ++ rest)))) =
      (p.gap, Token.bar.chars ++ (p.names ++ (Token.bar.chars ++ rest))) := Text.run_eq hgap rfl
  have hn : run (fun c => isBlank c || isWordChar c) (p.names ++ (Token.bar.chars ++ rest)) =
      (p.names, Token.bar.chars ++ rest) := Text.run_eq hnames rfl
  rw [BlockParams.chars_append]
  unfold BlockParams.read
  simp only [expect_append, ok_bind, hg, hn, Text.after?_append]

/-- The blanks before the braces belong to the call, unless names are bound in between. -/
def TagEnd.Stands (e : TagEnd) : Prop :=
  match e.params with
  | none => e.trail = []
  | some p => p.Stands ∧ AllBlank e.trail

theorem TagEnd.Stands.allBlank_trail {e : TagEnd} (h : e.Stands) : AllBlank e.trail := by
  unfold TagEnd.Stands at h
  split at h
  · rw [h]
    exact Text.allBlank_nil
  · exact h.2

theorem TagEnd.chars_append (e : TagEnd) (s : List Char) :
    e.chars ++ s = (e.params.map BlockParams.chars).getD [] ++ (e.trail ++
      (flagged e.tilde ['~'] ++ (Token.mustacheClose.chars ++ s))) := by
  simp [TagEnd.chars]

theorem tagEndAhead_flagged (b : Bool) (s : List Char) :
    tagEndAhead (flagged b ['~'] ++ (Token.mustacheClose.chars ++ s)) = true := by
  cases b <;> rfl

theorem TagEnd.chars_none {e : TagEnd} (hp : e.params = none) (ht : e.trail = []) (s : List Char) :
    e.chars ++ s = flagged e.tilde ['~'] ++ (Token.mustacheClose.chars ++ s) := by
  rw [TagEnd.chars_append, hp, ht]
  rfl

theorem TagEnd.chars_some {e : TagEnd} {p : BlockParams} (hp : e.params = some p) (s : List Char) :
    e.chars ++ s = p.chars ++ (e.trail ++
      (flagged e.tilde ['~'] ++ (Token.mustacheClose.chars ++ s))) := by
  rw [TagEnd.chars_append, hp]
  rfl

theorem paramsAhead_flagged (b : Bool) (s : List Char) :
    paramsAhead (flagged b ['~'] ++ (Token.mustacheClose.chars ++ s)) = false := by
  cases b <;> rfl

theorem TagEnd.Stands.argsEndAhead_eq {e : TagEnd} (h : e.Stands) (s : List Char) :
    argsEndAhead true (e.chars ++ s) = true := by
  unfold TagEnd.Stands at h
  split at h
  · next hp =>
    rw [TagEnd.chars_none hp h]
    simp [argsEndAhead, tagEndAhead_flagged]
  · next p hp =>
    rw [TagEnd.chars_some hp]
    simp [argsEndAhead, h.1.paramsAhead_eq]

theorem TagEnd.Stands.opens_append {e : TagEnd} (h : e.Stands) (p : Char → Bool) (s : List Char) :
    opens p (e.chars ++ s) = opens p e.chars := by
  apply Text.opens_append
  intro he
  have hend := h.argsEndAhead_eq []
  rw [he] at hend
  cases hend

theorem run_flagged {trail : List Char} (h : AllBlank trail) (b : Bool) (s : List Char) :
    run isBlank (trail ++ (flagged b ['~'] ++ (Token.mustacheClose.chars ++ s))) =
      (trail, flagged b ['~'] ++ (Token.mustacheClose.chars ++ s)) :=
  Text.run_eq h (by cases b <;> rfl)

theorem eat_tilde (b : Bool) (s : List Char) :
    eat '~' (flagged b ['~'] ++ (Token.mustacheClose.chars ++ s)) =
      (b, Token.mustacheClose.chars ++ s) :=
  eat_flagged fun _ => rfl

theorem BlockParams.eq_of_read? {s rest : List Char} {params : Option BlockParams}
    (h : BlockParams.read? s = .ok (params, rest)) :
    match params with
    | none => s = rest
    | some p => s = p.chars ++ rest ∧ p.Stands := by
  unfold BlockParams.read? at h
  split at h
  · next hs =>
    obtain ⟨⟨p, s₁⟩, h₁, h₂⟩ := bind_eq_ok.1 h
    cases h₂
    exact BlockParams.eq_of_read hs h₁
  · cases h
    rfl

theorem TagEnd.eq_of_read {s rest : List Char} {e : TagEnd} (hs : opens isBlank s = false)
    (h : TagEnd.read s = .ok (e, rest)) : s = e.chars ++ rest ∧ e.Stands := by
  unfold TagEnd.read at h
  obtain ⟨⟨params, s₁⟩, h₁, h₂⟩ := bind_eq_ok.1 h
  cases ht : run isBlank s₁ with
  | mk trail s₂ =>
    cases htl : eat '~' s₂ with
    | mk tilde s₃ =>
      simp only [ht, htl] at h₂
      obtain ⟨s₄, h₄, h₅⟩ := bind_eq_ok.1 h₂
      cases h₅
      have hp := BlockParams.eq_of_read? h₁
      obtain ⟨rfl, htrail, -⟩ := Text.eq_of_run ht
      obtain rfl := eq_of_eat htl
      obtain rfl := eq_of_expect h₄
      cases params with
      | none =>
        simp only at hp
        subst hp
        refine ⟨by simp [TagEnd.chars], ?_⟩
        cases trail with
        | nil => exact rfl
        | cons c trail =>
          have hc := htrail c (by simp)
          simp [hc] at hs
      | some p =>
        obtain ⟨rfl, hp⟩ := hp
        exact ⟨by simp [TagEnd.chars], hp, htrail⟩

theorem TagEnd.Stands.read_eq {e : TagEnd} (h : e.Stands) (rest : List Char) :
    TagEnd.read (e.chars ++ rest) = .ok (e, rest) := by
  have hparams : BlockParams.read? (e.chars ++ rest) = .ok (e.params,
      e.trail ++ (flagged e.tilde ['~'] ++ (Token.mustacheClose.chars ++ rest))) := by
    unfold BlockParams.read?
    unfold TagEnd.Stands at h
    split at h
    · next hp =>
      rw [TagEnd.chars_none hp h, paramsAhead_flagged, hp, h]
      rfl
    · next p hp =>
      rw [TagEnd.chars_some hp, h.1.paramsAhead_eq, if_pos rfl, h.1.read_eq, hp]
      rfl
  unfold TagEnd.read
  simp only [hparams, ok_bind, run_flagged h.allBlank_trail, eat_tilde, expect_append]

/-- The helper of a block has to be a path. -/
def BlockTag.Stands (t : BlockTag) : Prop :=
  t.call.Stands t.ending.chars ∧ t.ending.Stands ∧ t.call.callee.path?.isSome

theorem BlockTag.chars_append (t : BlockTag) (s : List Char) :
    t.chars ++ s = Token.mustacheOpen.chars ++ (flagged t.tilde ['~'] ++ (Token.hash.chars ++
      (t.call.chars ++ (t.ending.chars ++ s)))) := by
  simp [BlockTag.chars]

theorem opens_isBlank_of_argsEndAhead {binds : Bool} {s : List Char}
    (h : argsEndAhead binds s = true) : opens isBlank s = false := by
  apply Foreign.opens_false _ (opens_of_argsEndAhead h)
  intro c hc
  simp only [endsArgs, Bool.or_eq_true, beq_iff_eq] at hc
  rcases hc with ((rfl | rfl) | rfl) | rfl <;> decide

theorem BlockTag.eq_of_read {s rest name : List Char} {t : BlockTag}
    (h : BlockTag.read s = .ok ((t, name), rest)) :
    s = t.chars ++ rest ∧ t.Stands ∧ t.call.callee.path? = some name := by
  unfold BlockTag.read at h
  obtain ⟨s₁, h₁, h₂⟩ := bind_eq_ok.1 h
  cases ht : eat '~' s₁ with
  | mk tilde s₂ =>
    simp only [ht] at h₂
    obtain ⟨s₃, h₃, h₄⟩ := bind_eq_ok.1 h₂
    cases hl : run isBlank s₃ with
    | mk lead s₄ =>
      simp only [hl] at h₄
      obtain ⟨⟨callee, s₅⟩, hc, h₅⟩ := bind_eq_ok.1 h₄
      cases hname : callee.path? with
      | none =>
        simp only [hname] at h₅
        cases h₅
      | some name' =>
        simp only [hname] at h₅
        obtain ⟨⟨⟨args, trail⟩, s₆⟩, ha, h₆⟩ := bind_eq_ok.1 h₅
        obtain ⟨⟨ending, s₇⟩, he, h₇⟩ := bind_eq_ok.1 h₆
        cases h₇
        obtain ⟨rfl, hcall, hend⟩ := Call.eq_of_read hl hc ha
        obtain ⟨rfl, hending⟩ := TagEnd.eq_of_read (opens_isBlank_of_argsEndAhead hend) he
        obtain rfl := eq_of_expect h₃
        obtain rfl := eq_of_eat ht
        obtain rfl := eq_of_expect h₁
        refine ⟨by simp [BlockTag.chars], ⟨?_, hending, by simp [hname]⟩, hname⟩
        exact (Call.stands_congr _ (hending.opens_append isWordChar _)).1 hcall

theorem BlockTag.Stands.read_eq {t : BlockTag} (h : t.Stands) {name : List Char}
    (hn : t.call.callee.path? = some name) (rest : List Char) :
    BlockTag.read (t.chars ++ rest) = .ok ((t, name), rest) := by
  obtain ⟨hcall, hending, -⟩ := h
  have hcall : t.call.Stands (t.ending.chars ++ rest) :=
    (Call.stands_congr _ (hending.opens_append isWordChar rest)).2 hcall
  have htilde : ∀ s, eat '~' (flagged t.tilde ['~'] ++ (Token.hash.chars ++ s)) =
      (t.tilde, Token.hash.chars ++ s) := fun s => eat_flagged fun _ => rfl
  rw [BlockTag.chars_append]
  unfold BlockTag.read
  simp only [expect_append, ok_bind, htilde, hcall.run_lead, hcall.read_callee, hn,
    hcall.readAll_args (hending.argsEndAhead_eq rest), hending.read_eq, Call.mk_parts]

/-- A blank divides the word `else` from the call of a chained segment. -/
def ElseTail.Stands : ElseTail → Prop
  | .plain trail _ => AllBlank trail
  | .chained call ending => call.lead ≠ [] ∧ call.Stands ending.chars ∧ ending.Stands

def ElseTag.Stands (t : ElseTag) : Prop := AllBlank t.lead ∧ t.tail.Stands

theorem ElseTag.chars_append (t : ElseTag) (s : List Char) :
    t.chars ++ s = Token.mustacheOpen.chars ++ (flagged t.tilde ['~'] ++ (t.lead ++
      (Token.elseWord.chars ++ (t.tail.chars ++ s)))) := by
  simp [ElseTag.chars]

/-- What can come right after the word `else` of a tag. -/
def afterElse (c : Char) : Bool := isBlank c || c == '~' || c == '}'

theorem elseAhead_eq {lead : List Char} (h : AllBlank lead) (s : List Char) :
    elseAhead (lead ++ (Token.elseWord.chars ++ s)) = opens afterElse s := by
  unfold elseAhead
  rw [Text.dropWhile_blank h rfl, Text.after?_append]
  cases s <;> rfl

theorem ElseTail.eq_of_read {s rest : List Char} {t : ElseTail} (hs : opens afterElse s = true)
    (h : ElseTail.read s = .ok (t, rest)) : s = t.chars ++ rest ∧ t.Stands := by
  unfold ElseTail.read at h
  cases hl : run isBlank s with
  | mk lead s₁ =>
    simp only [hl] at h
    split at h
    · next hend =>
      cases ht : eat '~' s₁ with
      | mk tilde s₂ =>
        simp only [ht] at h
        obtain ⟨s₃, h₃, h₄⟩ := bind_eq_ok.1 h
        cases h₄
        obtain ⟨rfl, hlead, -⟩ := Text.eq_of_run hl
        obtain rfl := eq_of_eat ht
        obtain rfl := eq_of_expect h₃
        exact ⟨by simp [ElseTail.chars], hlead⟩
    · next hend =>
      obtain ⟨⟨callee, s₂⟩, hc, h₂⟩ := bind_eq_ok.1 h
      obtain ⟨⟨⟨args, trail⟩, s₃⟩, ha, h₃⟩ := bind_eq_ok.1 h₂
      obtain ⟨⟨ending, s₄⟩, he, h₄⟩ := bind_eq_ok.1 h₃
      cases h₄
      obtain ⟨rfl, hcall, hstop⟩ := Call.eq_of_read hl hc ha
      obtain ⟨rfl, hending⟩ := TagEnd.eq_of_read (opens_isBlank_of_argsEndAhead hstop) he
      refine ⟨by simp [ElseTail.chars], ?_, ?_, hending⟩
      · rintro rfl
        have hno : ∀ s, opens afterElse (callee.chars ++ s) = false := by
          intro s
          apply Foreign.opens_false _ (hcall.2.1.opens s)
          intro c hc
          have hb := isBlank_of_startsExpr hc
          have ht : c ≠ '~' := ne_of_startsExpr hc (by decide)
          have hbr : c ≠ '}' := ne_of_startsExpr hc (by decide)
          simp [afterElse, hb, ht, hbr]
        rw [Call.chars_append, List.nil_append, hno] at hs
        cases hs
      · exact (Call.stands_congr _ (hending.opens_append isWordChar _)).1 hcall

theorem ElseTail.Stands.read_eq {t : ElseTail} (h : t.Stands) (rest : List Char) :
    ElseTail.read (t.chars ++ rest) = .ok (t, rest) := by
  cases t with
  | plain trail tilde =>
    unfold ElseTail.read
    simp only [ElseTail.chars, List.append_assoc, run_flagged h, tagEndAhead_flagged, eat_tilde,
      expect_append, ok_bind, if_true]
  | chained call ending =>
    obtain ⟨-, hcall, hending⟩ := h
    have hcall : call.Stands (ending.chars ++ rest) :=
      (Call.stands_congr _ (hending.opens_append isWordChar rest)).2 hcall
    have hno := tagEndAhead_expr (hcall.opens_callee (Arg.charsAll call.args ++
      (call.trail ++ (ending.chars ++ rest))))
    unfold ElseTail.read
    simp only [ElseTail.chars, List.append_assoc, hcall.run_lead, hno, hcall.read_callee, ok_bind,
      hcall.readAll_args (hending.argsEndAhead_eq rest), hending.read_eq, Call.mk_parts]
    rfl

theorem ElseTail.Stands.opens_afterElse {t : ElseTail} (h : t.Stands) (s : List Char) :
    opens afterElse (t.chars ++ s) = true := by
  cases t with
  | plain trail tilde =>
    cases trail with
    | nil => cases tilde <;> rfl
    | cons c trail => simp [ElseTail.chars, afterElse, h c (by simp)]
  | chained call ending =>
    obtain ⟨hne, hcall, -⟩ := h
    have hb := hcall.allBlank_lead
    rw [ElseTail.chars, List.append_assoc, Call.chars_append]
    cases hl : call.lead with
    | nil => exact absurd hl hne
    | cons c lead => simp [afterElse, hb c (by simp [hl])]

theorem ElseTag.eq_of_read {s rest : List Char} {t : ElseTag} (hs : Ahead.of s = .elseTag)
    (h : ElseTag.read s = .ok (t, rest)) : s = t.chars ++ rest ∧ t.Stands := by
  unfold ElseTag.read at h
  obtain ⟨s₁, h₁, h₂⟩ := bind_eq_ok.1 h
  cases ht : eat '~' s₁ with
  | mk tilde s₂ =>
    cases hl : run isBlank s₂ with
    | mk lead s₃ =>
      simp only [ht, hl] at h₂
      obtain ⟨s₄, h₄, h₅⟩ := bind_eq_ok.1 h₂
      obtain ⟨⟨tail, s₅⟩, h₆, h₇⟩ := bind_eq_ok.1 h₅
      cases h₇
      obtain rfl := eq_of_expect h₁
      obtain ⟨rfl, hlead, -⟩ := Text.eq_of_run hl
      obtain rfl := eq_of_expect h₄
      have helse : elseAhead (lead ++ (Token.elseWord.chars ++ s₄)) = true := by
        have hs : Ahead.inBraces s₁ = .elseTag := hs
        unfold Ahead.inBraces at hs
        rw [ht] at hs
        split at hs
        · cases hs
        · cases hs
        · cases hs
        · split at hs
          · next he => exact he
          · cases hs
      rw [elseAhead_eq hlead] at helse
      obtain ⟨rfl, htail⟩ := ElseTail.eq_of_read helse h₆
      obtain rfl := eq_of_eat ht
      exact ⟨by simp [ElseTag.chars], hlead, htail⟩

theorem opens_lead {p : Char → Bool} {lead s : List Char} (hp : ∀ c, isBlank c = true → p c = false)
    (hl : AllBlank lead) (hs : opens p s = false) : opens p (lead ++ s) = false := by
  cases lead with
  | nil => exact hs
  | cons c lead => exact hp c (hl c (by simp))

theorem beq_of_isBlank {c d : Char} (hd : isBlank d = false) (hc : isBlank c = true) :
    (c == d) = false := by
  rw [beq_eq_false_iff_ne]
  rintro rfl
  rw [hc] at hd
  cases hd

theorem ElseTag.Stands.read_eq {t : ElseTag} (h : t.Stands) (rest : List Char) :
    ElseTag.read (t.chars ++ rest) = .ok (t, rest) := by
  obtain ⟨hlead, htail⟩ := h
  have htilde : ∀ s, eat '~' (flagged t.tilde ['~'] ++ (t.lead ++ (Token.elseWord.chars ++ s))) =
      (t.tilde, t.lead ++ (Token.elseWord.chars ++ s)) :=
    fun s => eat_flagged fun _ => opens_lead (fun c => beq_of_isBlank (by decide)) hlead rfl
  have hrun : ∀ s, run isBlank (t.lead ++ (Token.elseWord.chars ++ s)) =
      (t.lead, Token.elseWord.chars ++ s) := fun s => Text.run_eq hlead rfl
  rw [ElseTag.chars_append]
  unfold ElseTag.read
  simp only [expect_append, ok_bind, htilde, hrun, htail.read_eq]

/-- The tag closes the block `name`. -/
def CloseTag.Stands (name : List Char) (t : CloseTag) : Prop :=
  AllBlank t.lead ∧ t.name = name ∧ AllBlank t.trail

theorem CloseTag.chars_append (t : CloseTag) (s : List Char) :
    t.chars ++ s = Token.mustacheOpen.chars ++ (flagged t.tildeBefore ['~'] ++
      (Token.slash.chars ++ (t.lead ++ (t.name ++ (t.trail ++ (flagged t.tildeAfter ['~'] ++
        (Token.mustacheClose.chars ++ s))))))) := by
  simp [CloseTag.chars]

theorem CloseTag.eq_of_read {name s rest : List Char} {t : CloseTag}
    (h : CloseTag.read name s = .ok (t, rest)) : s = t.chars ++ rest ∧ t.Stands name := by
  unfold CloseTag.read at h
  obtain ⟨s₁, h₁, h₂⟩ := bind_eq_ok.1 h
  cases ht : eat '~' s₁ with
  | mk tildeBefore s₂ =>
    simp only [ht] at h₂
    obtain ⟨s₃, h₃, h₄⟩ := bind_eq_ok.1 h₂
    cases hl : run isBlank s₃ with
    | mk lead s₄ =>
      cases hf : run isWordChar s₄ with
      | mk found s₅ =>
        simp only [hl, hf] at h₄
        split at h₄
        · cases h₄
        · next hname =>
          cases htr : run isBlank s₅ with
          | mk trail s₆ =>
            cases hta : eat '~' s₆ with
            | mk tildeAfter s₇ =>
              simp only [htr, hta] at h₄
              obtain ⟨s₈, h₈, h₉⟩ := bind_eq_ok.1 h₄
              cases h₉
              obtain ⟨rfl, htrail, -⟩ := Text.eq_of_run htr
              obtain ⟨rfl, -, -⟩ := Text.eq_of_run hf
              obtain ⟨rfl, hlead, -⟩ := Text.eq_of_run hl
              obtain rfl := eq_of_eat hta
              obtain rfl := eq_of_expect h₈
              obtain rfl := eq_of_expect h₃
              obtain rfl := eq_of_eat ht
              obtain rfl := eq_of_expect h₁
              exact ⟨by simp [CloseTag.chars], hlead, by simpa using hname, htrail⟩

/-- A closing tag is read whatever its name, and then has to have the right one. -/
theorem CloseTag.Stands.read_name {found : List Char} {t : CloseTag} (h : t.Stands found)
    (hn : IsWord found) (name rest : List Char) :
    CloseTag.read name (t.chars ++ rest) =
      if found ≠ name then .error ⟨.closeMismatch found name, t.chars ++ rest⟩
      else .ok (t, rest) := by
  obtain ⟨hlead, rfl, htrail⟩ := h
  obtain ⟨hne, hword⟩ := hn
  have htilde : ∀ s, eat '~' (flagged t.tildeBefore ['~'] ++ (Token.slash.chars ++ s)) =
      (t.tildeBefore, Token.slash.chars ++ s) := fun s => eat_flagged fun _ => rfl
  have hrun : ∀ s, run isBlank (t.lead ++ (t.name ++ s)) = (t.lead, t.name ++ s) := by
    intro s
    apply Text.run_eq hlead
    cases hname : t.name with
    | nil => exact absurd hname hne
    | cons c name => exact isBlank_of_isWordChar (hword c (by simp [hname]))
  have hfound : ∀ b s, run isWordChar (t.name ++ (t.trail ++
      (flagged b ['~'] ++ (Token.mustacheClose.chars ++ s)))) =
        (t.name, t.trail ++ (flagged b ['~'] ++ (Token.mustacheClose.chars ++ s))) := by
    intro b s
    apply Text.run_eq hword
    apply opens_lead _ htrail (by cases b <;> rfl)
    intro c hc
    simp [isWordChar, hc]
  rw [CloseTag.chars_append]
  unfold CloseTag.read
  simp only [expect_append, ok_bind, htilde, hrun, hfound, run_flagged htrail, eat_tilde]

theorem CloseTag.Stands.read_eq {name : List Char} {t : CloseTag} (h : t.Stands name)
    (hn : IsWord name) (rest : List Char) :
    CloseTag.read name (t.chars ++ rest) = .ok (t, rest) := by
  rw [h.read_name hn, if_neg (by simp)]

theorem CloseTag.Stands.read_other {found name : List Char} {t : CloseTag} (h : t.Stands found)
    (hn : IsWord found) (hne : name ≠ found) (rest : List Char) :
    CloseTag.read name (t.chars ++ rest) =
      .error ⟨.closeMismatch found name, t.chars ++ rest⟩ := by
  rw [h.read_name hn, if_pos hne.symm]

end TemplateLint.Concrete
