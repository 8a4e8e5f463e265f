import TemplateLint.Cursor.Round
import TemplateLint.Proofs.Cursor.Basic

namespace TemplateLint

/-- Whether some test finds the mark before the cursor takes it. The others end an expression or a
tag. -/
def Concrete.Token.isForeseen : Concrete.Token → Bool
  | .mustacheClose | .tripleClose | .groupClose => false
  | _ => true

/-- A mark is not where a test had found it. -/
def Stop.Unforeseen : Stop → Prop
  | .failure ⟨.expected t _, _⟩ => t.isForeseen = true
  | _ => False

/-- What may end a run early, when its rounds may be `short` or not. -/
def Stop.Allowed (short : Prop) : Stop → Prop
  | .rounds => short
  | e => ¬ e.Unforeseen

namespace Cursor

open Text (isBlank size isBoundary startsWith scanTo)
open Concrete (Token)

variable {σ α β : Type} {source s t : List Char} {n m : Nat} {short : Prop}

namespace Left

theorem of_isBoundary (h : Text.isBoundary n source = true) : ∃ s, Left source n s := by
  obtain ⟨⟨u, s⟩, hsplit⟩ := Option.isSome_iff_exists.1 h
  obtain ⟨hsource, hn⟩ := Text.eq_append_of_splitAt? hsplit
  exact ⟨s, u, hsource, hn⟩

/-- What is left at a later place is an end of what was left. -/
theorem suffix (h : Left source n s) (h' : Left source m t) (hnm : n ≤ m) :
    ∃ passed, s = passed ++ t ∧ m = n + size passed := by
  obtain ⟨u, hu, rfl⟩ := h
  obtain ⟨v, hv, rfl⟩ := h'
  obtain ⟨passed, rfl, rfl⟩ := Text.front_of_size_le (hu.symm.trans hv) hnm
  exact ⟨passed, rfl, Text.size_append u passed⟩

theorem length_le (h : Left source n s) (h' : Left source m t) (hnm : n ≤ m) :
    t.length ≤ s.length := by
  obtain ⟨passed, rfl, -⟩ := h.suffix h' hnm
  rw [List.length_append]
  exact Nat.le_add_left _ _

theorem length_lt_of_lt (h : Left source n s) (h' : Left source m t) (hnm : n < m) :
    t.length < s.length := by
  obtain ⟨passed, rfl, hm⟩ := h.suffix h' (Nat.le_of_lt hnm)
  cases passed with
  | nil =>
    rw [Text.size_nil] at hm
    omega
  | cons c passed =>
    simp only [List.length_append, List.length_cons]
    omega

theorem eq (h : Left source n s) (h' : Left source n t) : s = t := by
  obtain ⟨passed, rfl, hn⟩ := h.suffix h' (Nat.le_refl n)
  cases passed with
  | nil => rfl
  | cons c passed =>
    have hpos := c.utf8Size_pos
    rw [Text.size_cons] at hn
    omega

end Left

/-- The run ends between two characters, with a value and at an offset that satisfy `Q`, or it ends
early for a reason that is allowed. -/
def Ends (source : List Char) (short : Prop) (run : Outcome α) (Q : α → Nat → Prop) : Prop :=
  match run with
  | .ok (a, m) => (∃ s, Left source m s) ∧ Q a m
  | .error e => e.Allowed short

namespace Ends

variable {P : α → Nat → Prop} {Q : β → Nat → Prop} {k : Cursor α} {f : α → Cursor β}

theorem pure {b : β} (h : Left source n s) (hQ : Q b n) :
    Ends source short (runAt source n (pure b)) Q := ⟨⟨s, h⟩, hQ⟩

theorem bind (hk : Ends source short (runAt source n k) P)
    (hf : ∀ a m s, Left source m s → P a m → Ends source short (runAt source m (f a)) Q) :
    Ends source short (runAt source n (k >>= f)) Q := by
  rw [runAt_bind]
  cases hrun : runAt source n k with
  | error e =>
    rw [hrun] at hk
    exact hk
  | ok p =>
    obtain ⟨a, m⟩ := p
    rw [hrun] at hk
    obtain ⟨⟨s, h⟩, ha⟩ := hk
    exact hf a m s h ha

theorem ite {c : Prop} [Decidable c] {g r : Cursor β}
    (hpos : c → Ends source short (runAt source n g) Q)
    (hneg : ¬ c → Ends source short (runAt source n r) Q) :
    Ends source short (runAt source n (if c then g else r)) Q := by
  by_cases hc : c
  · rw [if_pos hc]
    exact hpos hc
  · rw [if_neg hc]
    exact hneg hc

theorem imp {Q' : β → Nat → Prop} {run : Outcome β} (h : Ends source short run Q)
    (hQ : ∀ b m, Q b m → Q' b m) : Ends source short run Q' := by
  rcases run with e | ⟨b, m⟩
  · exact h
  · exact ⟨h.1, hQ b m h.2⟩

theorem of_done {run : Outcome β} {b : β} (h : Ends source short run Q) (hrun : run = done b m) :
    (∃ s, Left source m s) ∧ Q b m := by
  rw [hrun] at h
  exact h

theorem not_unforeseen {run : Outcome β} (h : Ends source short run Q) {e : Stop}
    (hrun : run = .error e) : ¬ e.Unforeseen := by
  subst hrun
  cases e with
  | rounds => exact id
  | fault f => exact h
  | failure e => exact h

theorem ne_rounds {run : Outcome β} (h : Ends source False run Q) : run ≠ .error .rounds := by
  rintro rfl
  exact h

end Ends

section Steps

variable {Q : α → Nat → Prop}

/-- A failure for another cause than a missing mark. -/
theorem fail_ends {cause : Concrete.ParseError} (k : Nat)
    (hcause : ∀ t atEnd, cause ≠ .expected t atEnd) :
    Ends source short (runAt source n (fail cause k)) Q := by
  rw [fail, runAt_bind_done runAt_read, runAt_bind]
  cases Text.lookup (Text.lineStarts source) k source with
  | error f => exact id
  | ok position =>
    change ¬ Stop.Unforeseen _
    cases cause with
    | expected t atEnd => exact absurd rfl (hcause t atEnd)
    | _ => exact id

theorem check_ends (h : Left source n s) (x : Except Fault α) :
    Ends source short (runAt source n (check x)) fun a m => x = .ok a ∧ m = n := by
  cases x with
  | error f => exact id
  | ok a => exact ⟨⟨s, h⟩, rfl, rfl⟩

theorem slice_ends (h : Left source n s) (start stop : Nat) :
    Ends source short (runAt source n (slice start stop)) fun _ m => m = n := by
  rw [slice, runAt_bind_done runAt_read]
  exact (check_ends h _).imp fun _ _ hm => hm.2

theorem goto_ends (k : Nat) : Ends source short (runAt source n (goto k)) fun _ m => m = k := by
  rw [goto, runAt_bind_done runAt_read]
  by_cases hk : isBoundary k source = true
  · rw [if_pos hk]
    exact ⟨Left.of_isBoundary hk, rfl⟩
  · rw [if_neg hk]
    exact id

theorem eat_ends (h : Left source n s) (mark : List Char) :
    Ends source short (runAt source n (eat mark)) fun _ m => n ≤ m := by
  obtain ⟨hrun, hs⟩ := eat_run h mark
  rw [hrun]
  rw [hs] at h
  exact ⟨⟨_, h.drop⟩, Nat.le_add_right _ _⟩

theorem expect_absent {t : Token} (h : Left source n s) (hs : startsWith t.chars s = false) :
    runAt source n (expect t) = failed source ⟨.expected t s.isEmpty, s⟩ := by
  rw [expect, runAt_bind_done (eat_other h hs), if_neg Bool.false_ne_true,
    runAt_bind_done (atEnd_run h), runAt_bind_done runAt_get]
  exact fail_run h _

/-- A mark that was foreseen has to stand here. -/
theorem expect_ends (h : Left source n s) {t : Token}
    (ht : t.isForeseen = true → startsWith t.chars s = true) :
    Ends source short (runAt source n (expect t)) fun _ m => n < m := by
  cases hs : startsWith t.chars s with
  | true =>
    obtain ⟨rest, rfl⟩ := Text.startsWith_iff.1 hs
    have hpos : 0 < size t.chars := Text.size_pos_of_ne_nil (by cases t <;> simp [Token.chars])
    rw [expect_run h]
    exact ⟨⟨rest, h.drop⟩, by omega⟩
  | false =>
    rw [expect_absent h hs]
    change ¬ t.isForeseen = true
    intro hforeseen
    exact absurd (ht hforeseen) (by rw [hs]; exact Bool.false_ne_true)

theorem rounds_run : runAt source n rounds = done (source.length + 1) n := rfl

theorem wordEnd_ends (h : Left source n s) :
    Ends source short (runAt source n (wordEnd n)) fun stop m => n ≤ stop ∧ m = n := by
  rw [wordEnd, runAt_bind_done (sliceFrom_run h n)]
  exact .pure h ⟨Nat.le_add_right _ _, rfl⟩

theorem bump_ends (h : Left source n s) :
    Ends source short (runAt source n bump) fun c m => n ≤ m ∧ (c.isSome = true → n < m) := by
  cases s with
  | nil =>
    rw [bump_nil h]
    exact ⟨⟨[], h⟩, Nat.le_refl n, fun hc => by cases hc⟩
  | cons c s =>
    have hpos := c.utf8Size_pos
    rw [bump_cons h]
    exact ⟨⟨s, h.next⟩, Nat.le_add_right _ _, fun _ => by omega⟩

theorem bump_moves (h : Left source n s) (hs : ¬ s.isEmpty = true) :
    Ends source short (runAt source n bump) fun _ m => n < m := by
  cases s with
  | nil => exact absurd rfl hs
  | cons c s =>
    have hpos := c.utf8Size_pos
    rw [bump_cons h]
    exact ⟨⟨s, h.next⟩, by omega⟩

theorem skipBlanks_ends (h : Left source n s) :
    Ends source short (runAt source n skipBlanks) fun _ m => n ≤ m := by
  obtain ⟨lead, t, -, -, hrun, ht⟩ := skipBlanks_lead h
  rw [hrun]
  exact ⟨⟨t, ht⟩, Nat.le_add_right _ _⟩

theorem bumpTo_ends (h : Left source n s) (stop : List Char → Bool) :
    Ends source short (runAt source n (bumpTo stop)) fun _ m => n ≤ m := by
  cases hs : scanTo stop s with
  | mk front t =>
    obtain ⟨rfl, -, -⟩ := Text.eq_of_scanTo hs
    rw [bumpTo_run h hs]
    exact ⟨⟨t, h.drop⟩, Nat.le_add_right _ _⟩

end Steps

structure EndAlike (source : List Char) (short : Prop) (run run' : Outcome α)
    (Q : α → Nat → Prop) : Prop where
  same : run = run'
  ends : Ends source short run Q

theorem Ends.alike {run : Outcome α} {Q : α → Nat → Prop} (h : Ends source short run Q) :
    EndAlike source short run run Q := ⟨rfl, h⟩

namespace EndAlike

variable {P : α → Nat → Prop} {Q : β → Nat → Prop} {k k' : Cursor α} {f f' : α → Cursor β}

theorem bind (hk : EndAlike source short (runAt source n k) (runAt source n k') P)
    (hf : ∀ a m s, Left source m s → P a m →
      EndAlike source short (runAt source m (f a)) (runAt source m (f' a)) Q) :
    EndAlike source short (runAt source n (k >>= f)) (runAt source n (k' >>= f')) Q := by
  refine ⟨?_, hk.ends.bind fun a m s h ha => (hf a m s h ha).ends⟩
  obtain ⟨hsame, hends⟩ := hk
  rw [runAt_bind, runAt_bind, ← hsame]
  cases hrun : runAt source n k with
  | error e => rfl
  | ok p =>
    obtain ⟨⟨s, h⟩, ha⟩ := hends.of_done hrun
    exact (hf p.1 p.2 s h ha).same

theorem pure {b : β} (h : Left source n s) (hQ : Q b n) :
    EndAlike source short (runAt source n (pure b)) (runAt source n (pure b)) Q :=
  ⟨rfl, Ends.pure h hQ⟩

/-- The two runs take the first step together. -/
theorem step (hk : Ends source short (runAt source n k) P)
    (hf : ∀ a m s, Left source m s → P a m →
      EndAlike source short (runAt source m (f a)) (runAt source m (f' a)) Q) :
    EndAlike source short (runAt source n (k >>= f)) (runAt source n (k >>= f')) Q :=
  hk.alike.bind hf

/-- The outcome of the first step is known. -/
theorem known {a : α} (hk : runAt source n k = done a m)
    (hf : EndAlike source short (runAt source m (f a)) (runAt source m (f' a)) Q) :
    EndAlike source short (runAt source n (k >>= f)) (runAt source n (k >>= f')) Q := by
  rwa [runAt_bind_done hk, runAt_bind_done hk]

theorem ite {c : Prop} [Decidable c] {g g' r r' : Cursor β}
    (hpos : c → EndAlike source short (runAt source n g) (runAt source n g') Q)
    (hneg : ¬ c → EndAlike source short (runAt source n r) (runAt source n r') Q) :
    EndAlike source short (runAt source n (if c then g else r)) (runAt source n (if c then g' else r'))
      Q := by
  by_cases hc : c
  · rw [if_pos hc, if_pos hc]
    exact hpos hc
  · rw [if_neg hc, if_neg hc]
    exact hneg hc

theorem imp {Q' : β → Nat → Prop} {run run' : Outcome β} (h : EndAlike source short run run' Q)
    (hQ : ∀ b m, Q b m → Q' b m) : EndAlike source short run run' Q' :=
  ⟨h.same, h.ends.imp hQ⟩

end EndAlike

/-- From `n` on two routines end alike, as `Q` says of where they start. -/
def AlikeFrom (source : List Char) (short : Prop) (n : Nat) (k k' : Cursor α)
    (Q : Nat → α → Nat → Prop) : Prop :=
  ∀ m s, Left source m s → n ≤ m →
    EndAlike source short (runAt source m k) (runAt source m k') (Q m)

/-- What a round comes to: where the loop goes on, the cursor has moved. -/
def Round.Past (n : Nat) (Q : α → Nat → Prop) : Round σ α → Nat → Prop
  | .again _, m => n < m
  | .last a, m => Q a m

theorem Ends.again {x : σ} {Q : α → Nat → Prop} (h : Left source m s) (hnm : n < m) :
    Ends source short (runAt source m (Pure.pure (Round.again x))) (Round.Past n Q) := ⟨⟨s, h⟩, hnm⟩

theorem Ends.last {a : α} {Q : α → Nat → Prop} (h : Left source m s) (hQ : Q a m) :
    Ends source short (runAt source m (Pure.pure (Round.last a : Round σ α))) (Round.Past n Q) :=
  ⟨⟨s, h⟩, hQ⟩

/-- A round and the loop behind it. -/
theorem EndAlike.round {round round' : Cursor (Round σ α)} {loop loop' : σ → Cursor α}
    {Q : α → Nat → Prop}
    (hround : EndAlike source short (runAt source n round) (runAt source n round') (Round.Past n Q))
    (hnext : ∀ x m s, Left source m s → n < m →
      EndAlike source short (runAt source m (loop x)) (runAt source m (loop' x)) Q) :
    EndAlike source short (runAt source n (round >>= Round.next loop))
      (runAt source n (round' >>= Round.next loop')) Q := by
  refine hround.bind fun r m s h hr => ?_
  cases r with
  | again x => exact hnext x m s h hr
  | last a => exact .pure h hr

theorem Ends.round {round : Cursor (Round σ α)} {loop : σ → Cursor α} {Q : α → Nat → Prop}
    (hround : Ends source short (runAt source n round) (Round.Past n Q))
    (hnext : ∀ x m s, Left source m s → n < m → Ends source short (runAt source m (loop x)) Q) :
    Ends source short (runAt source n (round >>= Round.next loop)) Q :=
  (hround.alike.round fun x m s h hm => (hnext x m s h hm).alike).ends

/-- As every round moves the cursor, a loop with more rounds than characters are left never wants for
one. -/
theorem EndAlike.loop {loop loop' : Nat → σ → Cursor α} {round round' : σ → Cursor (Round σ α)}
    (hloop : IsLoop loop fun _ => round) (hloop' : IsLoop loop' fun _ => round')
    (hround : ∀ x, AlikeFrom source short n (round x) (round' x) fun m => Round.Past m fun _ k => m ≤ k)
    (h : Left source n s) {k : Nat} (hk : short ∨ s.length < k) (x : σ) :
    EndAlike source short (runAt source n (loop k x)) (runAt source n (loop' k x))
      fun _ m => n ≤ m := by
  induction k generalizing n s x with
  | zero =>
    rw [hloop.zero, hloop'.zero]
    exact ⟨rfl, hk.resolve_right (Nat.not_lt_zero _)⟩
  | succ k ih =>
    rw [hloop.succ, hloop'.succ]
    refine (hround x n s h (Nat.le_refl n)).round fun y m t ht hnm => ?_
    have hlength := h.length_lt_of_lt ht hnm
    refine (ih (fun x m' s' h' hm' => hround x m' s' h' (by omega)) ht
      (hk.imp_right fun hk => by omega) y).imp fun _ _ hm => by omega

theorem Ends.loop {loop : Nat → σ → Cursor α} {round : σ → Cursor (Round σ α)}
    (hloop : IsLoop loop fun _ => round)
    (hround : ∀ x m s, Left source m s →
      Ends source short (runAt source m (round x)) (Round.Past m fun _ k => m ≤ k))
    (h : Left source n s) {k : Nat} (hk : short ∨ s.length < k) (x : σ) :
    Ends source short (runAt source n (loop k x)) fun _ m => n ≤ m :=
  (EndAlike.loop hloop hloop (fun x m s h _ => (hround x m s h).alike) h hk x).ends

end Cursor

end TemplateLint
