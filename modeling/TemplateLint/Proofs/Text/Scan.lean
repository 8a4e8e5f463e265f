import TemplateLint.Text.Blank
import TemplateLint.Text.Front
import TemplateLint.Text.Span

namespace TemplateLint.Text

/-- Whether the first character of a text is of a class. -/
def opens (p : Char → Bool) : List Char → Bool
  | [] => false
  | c :: _ => p c

@[simp] theorem opens_nil (p : Char → Bool) : opens p [] = false := rfl

@[simp] theorem opens_cons (p : Char → Bool) (c : Char) (s : List Char) :
    opens p (c :: s) = p c := rfl

theorem opens_append {p : Char → Bool} {s : List Char} (t : List Char) (h : s ≠ []) :
    opens p (s ++ t) = opens p s := by
  cases s with
  | nil => exact absurd rfl h
  | cons c s => rfl

/-- A shorter front of a text is a front of the longer one. -/
theorem front_of_size_le {u s a b : List Char} (h : u ++ s = a ++ b) (hle : size u ≤ size a) :
    ∃ kept, a = u ++ kept ∧ s = kept ++ b := by
  rcases List.append_eq_append_iff.1 h with ⟨kept, ha, hs⟩ | ⟨left, hu, hb⟩
  · exact ⟨kept, ha, hs⟩
  · cases left with
    | nil =>
      rw [List.append_nil] at hu
      exact ⟨[], by rw [hu, List.append_nil], hb.symm⟩
    | cons c left =>
      have hpos := c.utf8Size_pos
      rw [hu, size_append, size_cons] at hle
      omega

/-- A text of blanks only. -/
def AllBlank (s : List Char) : Prop := ∀ c ∈ s, isBlank c = true

@[simp] theorem allBlank_nil : AllBlank [] := by
  intro c hc
  cases hc

theorem startsWith_iff {mark s : List Char} :
    startsWith mark s = true ↔ ∃ rest, s = mark ++ rest := by
  unfold startsWith
  rw [Option.isSome_iff_exists]
  constructor
  · rintro ⟨rest, h⟩
    exact ⟨rest, after?_eq_some_iff.1 h⟩
  · rintro ⟨rest, h⟩
    exact ⟨rest, after?_eq_some_iff.2 h⟩

theorem startsWith_eq_false_iff {mark s : List Char} :
    startsWith mark s = false ↔ after? mark s = none := by
  simp [startsWith]

theorem startsWith_none {mark s : List Char} (h : ∀ t, s ≠ mark ++ t) :
    startsWith mark s = false := by
  cases hs : startsWith mark s with
  | false => rfl
  | true =>
    obtain ⟨t, ht⟩ := startsWith_iff.1 hs
    exact absurd ht (h t)

@[simp] theorem startsWith_append (mark s : List Char) : startsWith mark (mark ++ s) = true := by
  simp [startsWith]

@[simp] theorem startsWith_singleton (c : Char) (s : List Char) :
    startsWith [c] s = opens (· == c) s := by
  cases s with
  | nil => rfl
  | cons d s =>
    by_cases h : c = d
    · simp [startsWith, after?, h]
    · have hd : d ≠ c := fun hd => h hd.symm
      simp [startsWith, after?, h, hd]

theorem after?_cons_cons (m c : Char) (mark s : List Char) :
    after? (m :: mark) (c :: s) = if m = c then after? mark s else none := rfl

theorem run_eq {p : Char → Bool} {s rest : List Char} (hs : ∀ c ∈ s, p c = true)
    (hr : opens p rest = false) : run p (s ++ rest) = (s, rest) := by
  have htake : rest.takeWhile p = [] := by
    cases rest with
    | nil => rfl
    | cons c rest =>
      rw [opens_cons] at hr
      simp [hr]
  have hdrop : rest.dropWhile p = rest := by
    cases rest with
    | nil => rfl
    | cons c rest =>
      rw [opens_cons] at hr
      simp [hr]
  unfold run
  rw [List.takeWhile_append_of_pos hs, List.dropWhile_append_of_pos hs, htake, hdrop,
    List.append_nil]

theorem eq_of_run {p : Char → Bool} {s t rest : List Char} (h : run p s = (t, rest)) :
    s = t ++ rest ∧ (∀ c ∈ t, p c = true) ∧ opens p rest = false := by
  unfold run at h
  obtain ⟨rfl, rfl⟩ := Prod.mk.inj h
  refine ⟨List.takeWhile_append_dropWhile.symm, ?_, ?_⟩
  · intro c hc
    exact List.all_eq_true.1 List.all_takeWhile c hc
  · cases hd : s.dropWhile p with
    | nil => rfl
    | cons c rest =>
      have hc := List.head_dropWhile_not (p := p) (l := s) (by simp [hd])
      simpa [hd] using hc

theorem dropWhile_blank {s rest : List Char} (hs : AllBlank s) (hr : opens isBlank rest = false) :
    (s ++ rest).dropWhile isBlank = rest :=
  congrArg Prod.snd (run_eq hs hr)

theorem words_cons (c : Char) (cs : List Char) :
    words (c :: cs) = if isBlank c then words cs else match cs, words cs with
      | d :: _, w :: ws => if isBlank d then [c] :: w :: ws else (c :: w) :: ws
      | _, ws => [c] :: ws := rfl

theorem words_blank {lead : List Char} (h : AllBlank lead) (s : List Char) :
    words (lead ++ s) = words s := by
  induction lead with
  | nil => rfl
  | cons c lead ih =>
    rw [List.cons_append, words_cons, if_pos (h c List.mem_cons_self)]
    exact ih fun d hd => h d (List.mem_cons_of_mem c hd)

theorem words_word {w s : List Char} (hne : w ≠ []) (hw : ∀ c ∈ w, isBlank c = false)
    (hs : s = [] ∨ opens isBlank s = true) :
    words (w ++ s) = w :: words s := by
  induction w with
  | nil => exact absurd rfl hne
  | cons c w ih =>
    rw [List.cons_append, words_cons, hw c List.mem_cons_self, if_neg Bool.false_ne_true]
    cases w with
    | nil =>
      rcases hs with rfl | hs
      · rfl
      · cases s with
        | nil => rfl
        | cons d s =>
          rw [opens_cons] at hs
          rw [List.nil_append]
          cases hwords : words (d :: s) with
          | nil => rfl
          | cons v vs => simp only [hs, if_true]
    | cons d w =>
      rw [ih (List.cons_ne_nil d w) fun e he => hw e (List.mem_cons_of_mem c he)]
      simp [hw d (List.mem_cons_of_mem c List.mem_cons_self)]

theorem eat_eq (c : Char) (b : Bool) {rest : List Char}
    (hr : b = false → opens (· == c) rest = false) :
    eat c ((if b then [c] else []) ++ rest) = (b, rest) := by
  cases b with
  | true => simp [eat]
  | false =>
    cases rest with
    | nil => rfl
    | cons d rest =>
      have hd : d ≠ c := by simpa using hr rfl
      simp [eat, hd]

theorem eq_of_eat {c : Char} {b : Bool} {s rest : List Char} (h : eat c s = (b, rest)) :
    s = (if b then [c] else []) ++ rest ∧ (b = false → opens (· == c) rest = false) := by
  cases s with
  | nil =>
    obtain ⟨rfl, rfl⟩ := Prod.mk.inj h
    simp
  | cons d s =>
    by_cases hd : d = c
    · rw [eat, if_pos hd] at h
      obtain ⟨rfl, rfl⟩ := Prod.mk.inj h
      simp [hd]
    · rw [eat, if_neg hd] at h
      obtain ⟨rfl, rfl⟩ := Prod.mk.inj h
      simp [hd]

/-- The stop test holds at no character of `s` when `rest` follows. -/
def Clear (stop : List Char → Bool) : List Char → List Char → Prop
  | [], _ => True
  | c :: s, rest => stop (c :: (s ++ rest)) = false ∧ Clear stop s rest

@[simp] theorem clear_nil (stop : List Char → Bool) (rest : List Char) : Clear stop [] rest :=
  trivial

/-- What the test always stops at is no character of `s`. -/
theorem Clear.not_mem {stop : List Char → Bool} {c : Char} (hstop : ∀ s, stop (c :: s) = true)
    {s rest : List Char} (h : Clear stop s rest) : c ∉ s := by
  induction s with
  | nil => exact List.not_mem_nil
  | cons d s ih =>
    obtain ⟨hd, hs⟩ := h
    have hne : c ≠ d := by
      rintro rfl
      rw [hstop] at hd
      cases hd
    exact List.not_mem_cons_of_ne_of_not_mem hne (ih hs)

theorem scanTo_eq {stop : List Char → Bool} {s rest : List Char} (hs : Clear stop s rest)
    (hr : rest ≠ [] → stop rest = true) : scanTo stop (s ++ rest) = (s, rest) := by
  induction s with
  | nil =>
    cases rest with
    | nil => rfl
    | cons c rest =>
      have hc := hr (by simp)
      simp [scanTo, hc]
  | cons c s ih =>
    obtain ⟨hc, hs⟩ := hs
    rw [List.cons_append, scanTo, hc, ih hs]
    rfl

theorem eq_of_scanTo {stop : List Char → Bool} {s t rest : List Char}
    (h : scanTo stop s = (t, rest)) :
    s = t ++ rest ∧ Clear stop t rest ∧ (rest ≠ [] → stop rest = true) := by
  induction s generalizing t with
  | nil =>
    obtain ⟨rfl, rfl⟩ := Prod.mk.inj h
    simp
  | cons c s ih =>
    unfold scanTo at h
    split at h
    · next hc =>
      obtain ⟨rfl, rfl⟩ := Prod.mk.inj h
      exact ⟨rfl, trivial, fun _ => hc⟩
    · next hc =>
      cases hs : scanTo stop s with
      | mk u v =>
        rw [hs] at h
        obtain ⟨rfl, rfl⟩ := Prod.mk.inj h
        obtain ⟨rfl, hu, hv⟩ := ih hs
        exact ⟨rfl, ⟨by simpa using hc, hu⟩, hv⟩

/-- A test that looks at no more than `k` characters. -/
def Near (k : Nat) (stop : List Char → Bool) : Prop :=
  ∀ s t : List Char, k ≤ s.length → stop (s ++ t) = stop s

theorem near_startsWith (mark : List Char) : Near mark.length (startsWith mark) := by
  intro s t hlen
  induction mark generalizing s with
  | nil => simp [startsWith, after?]
  | cons m mark ih =>
    cases s with
    | nil => simp at hlen
    | cons c s =>
      have hs := ih s (by simpa using hlen)
      unfold startsWith at hs ⊢
      rw [List.cons_append, after?_cons_cons, after?_cons_cons]
      split
      · exact hs
      · rfl

theorem Near.clear {k : Nat} {stop : List Char → Bool} (hn : Near k stop) {s u : List Char}
    (hu : k ≤ u.length + 1) (t : List Char) : Clear stop s (u ++ t) ↔ Clear stop s u := by
  induction s with
  | nil => simp
  | cons c s ih =>
    have hc : stop (c :: (s ++ (u ++ t))) = stop (c :: (s ++ u)) := by
      have h := hn (c :: (s ++ u)) t (by simp; omega)
      simpa using h
    simp only [Clear, hc, ih]

end TemplateLint.Text
