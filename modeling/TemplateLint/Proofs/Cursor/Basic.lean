import TemplateLint.Cursor.Basic
import TemplateLint.Proofs.Reading.Tag
import TemplateLint.Proofs.Text.Lines

namespace TemplateLint.Cursor

open Text (isBlank size isBoundary slice? after? scanTo startsWith minus cut)
open Concrete (Token Failure Result flagged isWordChar)

variable {α β γ δ : Type} {source s : List Char} {n : Nat}

/-- `s` is the text of the source from byte `n` on. -/
def Left (source : List Char) (n : Nat) (s : List Char) : Prop := ∃ u, source = u ++ s ∧ n = size u

namespace Left

theorem start (source : List Char) : Left source 0 source := ⟨[], rfl, rfl⟩

theorem drop {x : List Char} (h : Left source n (x ++ s)) : Left source (n + size x) s := by
  obtain ⟨u, rfl, rfl⟩ := h
  exact ⟨u ++ x, by simp, by simp⟩

theorem size_eq (h : Left source n s) : size source = n + size s := by
  obtain ⟨u, rfl, rfl⟩ := h
  exact Text.size_append u s

/-- So a loop that starts here has more rounds than characters are left. -/
theorem length_lt (h : Left source n s) : s.length < source.length + 1 := by
  obtain ⟨u, rfl, rfl⟩ := h
  rw [List.length_append]
  exact Nat.lt_succ_of_le (Nat.le_add_left _ _)

theorem isBoundary (h : Left source n s) : isBoundary n source = true := by
  obtain ⟨u, rfl, rfl⟩ := h
  rw [Text.isBoundary, Text.splitAt?_append]
  rfl

theorem slice? {x : List Char} (h : Left source n (x ++ s)) :
    slice? ⟨n, n + size x⟩ source = some x := by
  obtain ⟨u, rfl, rfl⟩ := h
  exact Text.slice?_append u x s

end Left

/-- The run ends with a value, at an offset. -/
def done (a : α) (n : Nat) : Outcome α := .ok (a, n)

/-- The run ends with the failure of a reading. -/
def failed (source : List Char) (f : Failure) : Outcome α := .error (.failure (f.inText source))

theorem runAt_pure (a : α) : runAt source n (pure a) = done a n := rfl

theorem runAt_get : runAt source n get = done n n := rfl

theorem runAt_read : runAt source n read = done source n := rfl

theorem runAt_bind (m : Cursor α) (f : α → Cursor β) :
    runAt source n (m >>= f) = match runAt source n m with
      | .error e => .error e
      | .ok (a, k) => runAt source k (f a) := by
  change (m source n).bind _ = _
  rw [runAt]
  rcases m source n with e | ⟨a, k⟩ <;> rfl

theorem runAt_bind_done {m : Cursor α} {f : α → Cursor β} {a : α} {k : Nat}
    (h : runAt source n m = done a k) : runAt source n (m >>= f) = runAt source k (f a) := by
  rw [runAt_bind, h]
  rfl

theorem runAt_bind_failed {m : Cursor α} {f : α → Cursor β} {e : Failure}
    (h : runAt source n m = failed source e) : runAt source n (m >>= f) = failed source e := by
  rw [runAt_bind, h]
  rfl

theorem slice_run {x : List Char} (h : Left source n (x ++ s)) (k : Nat) :
    runAt source k (slice n (n + size x)) = done x k := by
  rw [slice, runAt_bind_done runAt_read, cut, h.slice?]
  rfl

theorem sliceFrom_run (h : Left source n s) (k : Nat) :
    runAt source k (sliceFrom n) = done s k := by
  have hs : Left source n (s ++ []) := by rwa [List.append_nil]
  rw [sliceFrom, runAt_bind_done runAt_read, h.size_eq]
  exact slice_run hs k

theorem rest_run (h : Left source n s) : runAt source n rest = done s n := by
  rw [rest, runAt_bind_done runAt_get]
  exact sliceFrom_run h n

theorem goto_run {k : Nat} (h : Left source k s) : runAt source n (goto k) = done () k := by
  rw [goto, runAt_bind_done runAt_read, if_pos h.isBoundary]
  rfl

theorem fail_run {k : Nat} (h : Left source k s) (cause : Concrete.ParseError) :
    runAt source n (fail cause k : Cursor α) = failed source ⟨cause, s⟩ := by
  have hk : size source - size s = k := by
    rw [h.size_eq]
    exact Nat.add_sub_cancel _ _
  obtain ⟨u, rfl, rfl⟩ := h
  rw [fail, runAt_bind_done runAt_read, Text.lookup_size]
  simp only [failed, Failure.inText, hk]
  rfl

/-- The text that is left is known from its length, and where it starts from that. -/
theorem minus_run (h : Left source n s) (k : Nat) :
    runAt source k (check (minus (size source) (size s))) = done n k := by
  rw [minus, h.size_eq, if_pos (Nat.le_add_left _ _), Nat.add_sub_cancel]
  rfl

theorem front_run (x t : List Char) (k : Nat) :
    runAt source k (check (cut ⟨0, size x⟩ (x ++ t))) = done x k := by
  have hslice := Text.slice?_append [] x t
  rw [Text.size_nil, Nat.zero_add] at hslice
  rw [cut]
  simp only [List.nil_append] at hslice
  rw [hslice]
  rfl

/-- A mark is found where the scan for it stops. -/
theorem find?_cases (mark s : List Char) :
    (∃ front, scanTo (startsWith mark) s = (front, []) ∧ Text.find? mark s = none) ∨
      ∃ front t, s = front ++ (mark ++ t) ∧ scanTo (startsWith mark) s = (front, mark ++ t) ∧
        Text.find? mark s = some (size front) := by
  cases hs : scanTo (startsWith mark) s with
  | mk front t =>
    obtain ⟨rfl, -, hstop⟩ := Text.eq_of_scanTo hs
    cases t with
    | nil => exact .inl ⟨front, rfl, by rw [Text.find?, hs]⟩
    | cons c t =>
      obtain ⟨t', ht⟩ := Text.startsWith_iff.1 (hstop (List.cons_ne_nil c t))
      refine .inr ⟨front, t', by rw [ht], by rw [ht], by rw [Text.find?, hs]⟩

theorem atEnd_run (h : Left source n s) : runAt source n atEnd = done s.isEmpty n := by
  have hend : decide (size source ≤ n) = s.isEmpty := by
    rw [h.size_eq]
    cases s with
    | nil => simp
    | cons c s =>
      have hpos := c.utf8Size_pos
      refine decide_eq_false (Nat.not_le.2 ?_)
      rw [Text.size_cons]
      omega
  rw [atEnd, runAt_bind_done runAt_read, runAt_bind_done runAt_get, hend]
  rfl

theorem isAt_run (h : Left source n s) (test : List Char → Bool) :
    runAt source n (isAt test) = done (test s) n := by
  rw [isAt, runAt_bind_done (rest_run h)]
  rfl

theorem peek_run (h : Left source n s) : runAt source n peek = done s.head? n := by
  rw [peek, runAt_bind_done (rest_run h)]
  rfl

theorem Left.next {c : Char} (h : Left source n (c :: s)) : Left source (n + c.utf8Size) s :=
  Left.drop (x := [c]) h

theorem bump_cons {c : Char} (h : Left source n (c :: s)) :
    runAt source n bump = done (some c) (n + c.utf8Size) := by
  rw [bump, runAt_bind_done (peek_run h)]
  simp only [List.head?_cons]
  rw [runAt_bind_done runAt_get, runAt_bind_done (goto_run h.next)]
  rfl

theorem bump_nil (h : Left source n []) : runAt source n bump = done none n := by
  rw [bump, runAt_bind_done (peek_run h)]
  rfl

theorem eat_mark {mark : List Char} (h : Left source n (mark ++ s)) :
    runAt source n (eat mark) = done true (n + size mark) := by
  rw [eat, runAt_bind_done (isAt_run h _), Text.startsWith_append, if_pos rfl,
    runAt_bind_done runAt_get, runAt_bind_done (goto_run h.drop)]
  rfl

theorem eat_other {mark : List Char} (h : Left source n s) (hs : startsWith mark s = false) :
    runAt source n (eat mark) = done false n := by
  rw [eat, runAt_bind_done (isAt_run h _), hs]
  rfl

theorem eat_run (h : Left source n s) (mark : List Char) :
    runAt source n (eat mark) =
        done (startsWith mark s) (n + size (flagged (startsWith mark s) mark)) ∧
      s = flagged (startsWith mark s) mark ++ s.drop (flagged (startsWith mark s) mark).length := by
  cases hs : startsWith mark s with
  | true =>
    obtain ⟨t, rfl⟩ := Text.startsWith_iff.1 hs
    refine ⟨eat_mark h, ?_⟩
    simp [flagged]
  | false => exact ⟨eat_other h hs, rfl⟩

theorem expect_run {t : Token} (h : Left source n (t.chars ++ s)) :
    runAt source n (expect t) = done () (n + size t.chars) := by
  rw [expect, runAt_bind_done (eat_mark h)]
  rfl

/-- A flag is set if its character stands here. -/
theorem eat_flag (h : Left source n s) (c : Char) :
    ∃ b t, Text.eat c s = (b, t) ∧ s = flagged b [c] ++ t ∧
      runAt source n (eat [c]) = done b (n + size (flagged b [c])) ∧
        Left source (n + size (flagged b [c])) t := by
  cases hs : Text.eat c s with
  | mk b t =>
    obtain rfl := Concrete.eq_of_eat hs
    refine ⟨b, t, rfl, rfl, ?_, h.drop⟩
    cases b with
    | true => exact eat_mark h
    | false =>
      refine eat_other h ?_
      rw [Text.startsWith_singleton]
      exact (Text.eq_of_eat hs).2 rfl

theorem runAt_rounds (f : Nat → Cursor α) :
    runAt source n (rounds >>= f) = runAt source n (f (source.length + 1)) := rfl

theorem skipBlanksWithin_run {lead t : List Char} {k : Nat} (h : Left source n (lead ++ t))
    (hk : (lead ++ t).length < k) (hlead : ∀ c ∈ lead, isBlank c = true)
    (hend : Text.opens isBlank t = false) :
    runAt source n (skipBlanksWithin k) = done () (n + size lead) := by
  induction lead generalizing n k with
  | nil =>
    cases k with
    | zero => cases hk
    | succ k =>
      rw [skipBlanksWithin, runAt_bind_done (peek_run h)]
      cases t with
      | nil => rfl
      | cons c t =>
        rw [Text.opens_cons] at hend
        simp only [List.nil_append, List.head?_cons, hend]
        rfl
  | cons c lead ih =>
    cases k with
    | zero => cases hk
    | succ k =>
      have hc := hlead c List.mem_cons_self
      have hrun := ih h.next (Nat.lt_of_succ_lt_succ hk) fun d hd => hlead d (List.mem_cons_of_mem c hd)
      rw [skipBlanksWithin, runAt_bind_done (peek_run h)]
      simp only [List.cons_append, List.head?_cons, hc, if_true]
      rw [runAt_bind_done runAt_get, runAt_bind_done (goto_run h.next), hrun, Nat.add_assoc]
      rfl

theorem skipBlanks_lead (h : Left source n s) :
    ∃ lead t, Text.run isBlank s = (lead, t) ∧ s = lead ++ t ∧
      runAt source n skipBlanks = done () (n + size lead) ∧ Left source (n + size lead) t := by
  cases hs : Text.run isBlank s with
  | mk lead t =>
    obtain ⟨rfl, hlead, hend⟩ := Text.eq_of_run hs
    exact ⟨lead, t, rfl, rfl, skipBlanksWithin_run h h.length_lt hlead hend,
      h.drop⟩

theorem skipBlanks_none (h : Left source n s) (hs : Text.opens isBlank s = false) :
    runAt source n skipBlanks = done () n := by
  have h' : Left source n ([] ++ s) := h
  exact skipBlanksWithin_run h' h.length_lt (by simp) hs

theorem bumpToWithin_run {stop : List Char → Bool} {front t : List Char} {k : Nat}
    (h : Left source n (front ++ t)) (hk : (front ++ t).length < k) (hclear : Text.Clear stop front t)
    (hend : t ≠ [] → stop t = true) :
    runAt source n (bumpToWithin stop k) = done () (n + size front) := by
  induction front generalizing n k with
  | nil =>
    cases k with
    | zero => cases hk
    | succ k =>
      rw [bumpToWithin, runAt_bind_done (atEnd_run h)]
      cases t with
      | nil => rfl
      | cons c t =>
        rw [List.nil_append, List.isEmpty_cons, if_neg Bool.false_ne_true,
          runAt_bind_done (isAt_run h stop), List.nil_append, hend (List.cons_ne_nil c t), if_pos rfl]
        rfl
  | cons c front ih =>
    cases k with
    | zero => cases hk
    | succ k =>
      obtain ⟨hc, hclear⟩ := hclear
      have hrun := ih h.next (Nat.lt_of_succ_lt_succ hk) hclear
      rw [bumpToWithin, runAt_bind_done (atEnd_run h), List.cons_append, List.isEmpty_cons,
        if_neg Bool.false_ne_true, runAt_bind_done (isAt_run h stop), List.cons_append, hc,
        if_neg Bool.false_ne_true, runAt_bind_done (bump_cons h), hrun, Nat.add_assoc]
      rfl

theorem bumpTo_run {stop : List Char → Bool} {front t : List Char} (h : Left source n s)
    (hs : scanTo stop s = (front, t)) :
    runAt source n (bumpTo stop) = done () (n + size front) := by
  obtain ⟨rfl, hclear, hend⟩ := Text.eq_of_scanTo hs
  exact bumpToWithin_run h h.length_lt hclear hend

theorem wordEnd_run {w t : List Char} (h : Left source n s) (hs : Text.run isWordChar s = (w, t))
    (k : Nat) : runAt source k (wordEnd n) = done (n + size w) k := by
  obtain rfl : s.takeWhile isWordChar = w := congrArg Prod.fst hs
  rw [wordEnd, runAt_bind_done (sliceFrom_run h k)]
  rfl

/-- The fixed skip of two bytes is in range because the braces stand there. -/
theorem inBraces_run (h : Left source n (Token.mustacheOpen.chars ++ s)) :
    runAt source n inBraces = done (Concrete.Ahead.inBraces s) n := by
  have hslice : Text.slice? ⟨2, size (Token.mustacheOpen.chars ++ s)⟩
      (Token.mustacheOpen.chars ++ s) = some s := by
    have hs := Text.slice?_append Token.mustacheOpen.chars s []
    rwa [List.append_nil, ← Text.size_append] at hs
  rw [inBraces, runAt_bind_done (rest_run h)]
  simp only [cut, hslice]
  rfl

/-- The run does what the reading of `s` at byte `n` does: it goes past the characters of what is read
and gives `out` of it, or it fails in the same way, at a place between two characters. -/
def Agrees (source : List Char) (n : Nat) (s : List Char) (run : Outcome α)
    (r : Result (β × List Char)) (chars : β → List Char) (out : β → α) : Prop :=
  match r with
  | .ok (b, rest) => s = chars b ++ rest ∧ run = done (out b) (n + size (chars b))
  | .error f => run = failed source f ∧ ∃ k, Left source k f.rest

namespace Agrees

variable {n₀ : Nat} {s₀ : List Char} {chars : β → List Char} {out : β → α} {f : δ → Cursor α}

theorem ok {run : Outcome α} {b : β} {rest : List Char} (hs : s = chars b ++ rest)
    (hrun : run = done (out b) (n + size (chars b))) :
    Agrees source n s run (.ok (b, rest)) chars out := ⟨hs, hrun⟩

theorem expect {t : Token} {f : Unit → Cursor α} {g : List Char → Result (β × List Char)}
    (h : Left source n s)
    (hf : ∀ rest, s = t.chars ++ rest → Left source (n + size t.chars) rest →
      Agrees source n₀ s₀ (runAt source (n + size t.chars) (f ())) (g rest) chars out) :
    Agrees source n₀ s₀ (runAt source n (Cursor.expect t >>= f)) (Concrete.expect t s >>= g)
      chars out := by
  cases ha : after? t.chars s with
  | some rest =>
    obtain rfl := Text.after?_eq_some_iff.1 ha
    rw [runAt_bind_done (expect_run h), Concrete.expect_append]
    exact hf rest rfl h.drop
  | none =>
    have hrun : runAt source n (Cursor.expect t) = failed source ⟨.expected t s.isEmpty, s⟩ := by
      rw [Cursor.expect, runAt_bind_done (eat_other h (by rw [startsWith, ha]; rfl)),
        if_neg Bool.false_ne_true, runAt_bind_done (atEnd_run h), runAt_bind_done runAt_get]
      exact fail_run h _
    rw [runAt_bind_failed hrun, Concrete.expect, ha]
    exact ⟨rfl, n, h⟩

theorem bind {m : Cursor δ} {r : Result (γ × List Char)} {charsOf : γ → List Char} {outOf : γ → δ}
    {g : γ × List Char → Result (β × List Char)}
    (hm : Agrees source n s (runAt source n m) r charsOf outOf) (h : Left source n s)
    (hf : ∀ c rest, r = .ok (c, rest) → s = charsOf c ++ rest →
      Left source (n + size (charsOf c)) rest →
        Agrees source n₀ s₀ (runAt source (n + size (charsOf c)) (f (outOf c))) (g (c, rest))
          chars out) :
    Agrees source n₀ s₀ (runAt source n (m >>= f)) (r >>= g) chars out := by
  cases r with
  | error e =>
    rw [runAt_bind_failed hm.1]
    exact ⟨rfl, hm.2⟩
  | ok p =>
    obtain ⟨c, rest⟩ := p
    obtain ⟨rfl, hrun⟩ := hm
    rw [runAt_bind_done hrun]
    exact hf c rest rfl rfl h.drop

/-- The last routine of a run decides the outcome; the reading may do something with its result. -/
theorem last {run : Outcome α} {r : Result (γ × List Char)} {charsOf : γ → List Char}
    {outOf : γ → α} {g : γ × List Char → Result (β × List Char)}
    (hm : Agrees source n s run r charsOf outOf)
    (hf : ∀ c rest, r = .ok (c, rest) → s = charsOf c ++ rest →
      Agrees source n₀ s₀ (done (outOf c) (n + size (charsOf c))) (g (c, rest)) chars out) :
    Agrees source n₀ s₀ run (r >>= g) chars out := by
  cases r with
  | error e => exact hm
  | ok p =>
    obtain ⟨c, rest⟩ := p
    obtain ⟨rfl, rfl⟩ := hm
    exact hf c rest rfl rfl

theorem fail {k : Nat} (h : Left source k s) (cause : Concrete.ParseError) :
    Agrees source n₀ s₀ (runAt source n (Cursor.fail cause k : Cursor α)) (.error ⟨cause, s⟩)
      chars out := ⟨fail_run h cause, k, h⟩

end Agrees

end TemplateLint.Cursor
