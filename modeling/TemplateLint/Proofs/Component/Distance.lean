import Mathlib.Order.Bounds.Defs
import Mathlib.Order.MinMax
import TemplateLint.Component.Rows

namespace TemplateLint

/-- The table for a text holds the table for its end. -/
theorem tail_distances (b : Char) (bs as : List Char) :
    (distances (b :: bs) as).tail = distances bs as := by
  induction as with
  | nil => rfl
  | cons a as ih =>
    simp only [distances, distanceRow, List.tail_cons]
    rw [ih]

@[simp] theorem editDistance_nil (bs : List Char) : editDistance [] bs = bs.length := by
  cases bs <;> rfl

@[simp] theorem editDistance_cons_nil (a : Char) (as : List Char) :
    editDistance (a :: as) [] = editDistance as [] + 1 := rfl

theorem editDistance_nil_right (as : List Char) : editDistance as [] = as.length := by
  induction as with
  | nil => rfl
  | cons a as ih => rw [editDistance_cons_nil, ih, List.length_cons]

/-- The first character is deleted, or inserted, or it stays or is replaced. -/
theorem editDistance_cons_cons (a b : Char) (as bs : List Char) :
    editDistance (a :: as) (b :: bs) =
      min (min (editDistance as (b :: bs) + 1) (editDistance (a :: as) bs + 1))
        (editDistance as bs + if a = b then 0 else 1) := by
  have hend : distances bs as = (distances (b :: bs) as).tail := (tail_distances b bs as).symm
  simp only [editDistance, distances, distanceRow, List.headD_cons]
  rw [hend]

theorem editDistance_self (as : List Char) : editDistance as as = 0 := by
  induction as with
  | nil => rfl
  | cons a as ih =>
    rw [editDistance_cons_cons, ih, if_pos rfl]
    exact Nat.min_zero _

/-- A change of one character, at a place counted in characters. -/
inductive CharEdit where
  | insert (place : Nat) (c : Char)
  | delete (place : Nat)
  | replace (place : Nat) (c : Char)
  deriving DecidableEq, Repr

namespace CharEdit

/-- The text after a change; nothing when it has no such place. -/
def result? : CharEdit → List Char → Option (List Char)
  | .insert place c, s =>
    if place ≤ s.length then some (s.take place ++ c :: s.drop place) else none
  | .delete place, s =>
    if place < s.length then some (s.take place ++ s.drop (place + 1)) else none
  | .replace place c, s =>
    if place < s.length then some (s.take place ++ c :: s.drop (place + 1)) else none

/-- The text after a script of changes, one after the other. -/
def applyAll? : List CharEdit → List Char → Option (List Char)
  | [], s => some s
  | e :: script, s => (e.result? s).bind (applyAll? script)

/-- Some script of `n` changes turns a text into another. -/
def Turns (n : Nat) (s t : List Char) : Prop :=
  ∃ script : List CharEdit, script.length = n ∧ applyAll? script s = some t

/-- Two texts that are the same but for one character. -/
inductive Changed : List Char → List Char → Prop
  | insert (before after : List Char) (c : Char) : Changed (before ++ after) (before ++ c :: after)
  | delete (before after : List Char) (c : Char) : Changed (before ++ c :: after) (before ++ after)
  | replace (before after : List Char) (c d : Char) :
    Changed (before ++ c :: after) (before ++ d :: after)

theorem Changed.cons {s t : List Char} (a : Char) (h : Changed s t) : Changed (a :: s) (a :: t) := by
  cases h with
  | insert before after c => exact .insert (a :: before) after c
  | delete before after c => exact .delete (a :: before) after c
  | replace before after c d => exact .replace (a :: before) after c d

theorem Changed.reverse {s t : List Char} (h : Changed s t) : Changed s.reverse t.reverse := by
  cases h with
  | insert before after c => simpa using Changed.insert after.reverse before.reverse c
  | delete before after c => simpa using Changed.delete after.reverse before.reverse c
  | replace before after c d => simpa using Changed.replace after.reverse before.reverse c d

theorem changed_of_result? {e : CharEdit} {s t : List Char} (h : e.result? s = some t) :
    Changed s t := by
  have hsplit : ∀ n, n < s.length → ∃ c, s = s.take n ++ c :: s.drop (n + 1) := by
    intro n hn
    refine ⟨s[n], ?_⟩
    rw [← List.drop_eq_getElem_cons hn, List.take_append_drop]
  cases e with
  | insert place c =>
    simp only [result?, Option.ite_none_right_eq_some, Option.some.injEq] at h
    obtain ⟨-, rfl⟩ := h
    have hchange := Changed.insert (s.take place) (s.drop place) c
    rwa [List.take_append_drop] at hchange
  | delete place =>
    simp only [result?, Option.ite_none_right_eq_some, Option.some.injEq] at h
    obtain ⟨hplace, rfl⟩ := h
    obtain ⟨c, hs⟩ := hsplit place hplace
    have hchange := Changed.delete (s.take place) (s.drop (place + 1)) c
    rwa [← hs] at hchange
  | replace place d =>
    simp only [result?, Option.ite_none_right_eq_some, Option.some.injEq] at h
    obtain ⟨hplace, rfl⟩ := h
    obtain ⟨c, hs⟩ := hsplit place hplace
    have hchange := Changed.replace (s.take place) (s.drop (place + 1)) c d
    rwa [← hs] at hchange

theorem Changed.exists_result? {s t : List Char} (h : Changed s t) :
    ∃ e : CharEdit, e.result? s = some t := by
  cases h with
  | insert before after c => exact ⟨.insert before.length c, by simp [result?]⟩
  | delete before after c => exact ⟨.delete before.length, by simp [result?]⟩
  | replace before after c d => exact ⟨.replace before.length d, by simp [result?]⟩

theorem turns_zero {s t : List Char} : Turns 0 s t ↔ s = t := by
  constructor
  · rintro ⟨script, hlength, hscript⟩
    rw [List.length_eq_zero_iff.1 hlength] at hscript
    exact Option.some.inj hscript
  · rintro rfl
    exact ⟨[], rfl, rfl⟩

theorem turns_succ {n : Nat} {s t : List Char} :
    Turns (n + 1) s t ↔ ∃ u, Changed s u ∧ Turns n u t := by
  constructor
  · rintro ⟨script, hlength, hscript⟩
    obtain ⟨e, script, rfl⟩ := List.exists_cons_of_length_eq_add_one hlength
    obtain ⟨u, he, hu⟩ := Option.bind_eq_some_iff.1 hscript
    exact ⟨u, changed_of_result? he, script, Nat.succ.inj hlength, hu⟩
  · rintro ⟨u, hsu, script, rfl, hscript⟩
    obtain ⟨e, he⟩ := hsu.exists_result?
    exact ⟨e :: script, rfl, Option.bind_eq_some_iff.2 ⟨u, he, hscript⟩⟩

theorem Turns.step {n : Nat} {s t u : List Char} (h : Turns n s t) (htu : Changed t u) :
    Turns (n + 1) s u := by
  induction n generalizing s with
  | zero =>
    obtain rfl := turns_zero.1 h
    exact turns_succ.2 ⟨u, htu, turns_zero.2 rfl⟩
  | succ n ih =>
    obtain ⟨v, hsv, hvt⟩ := turns_succ.1 h
    exact turns_succ.2 ⟨v, hsv, ih hvt⟩

theorem Turns.min {m n : Nat} {s t : List Char} (hm : Turns m s t) (hn : Turns n s t) :
    Turns (min m n) s t := by
  rcases min_choice m n with h | h
  · rwa [h]
  · rwa [h]

/-- What changes every pair of texts that differ in one character does so with whole ways. -/
theorem Turns.map {f : List Char → List Char} (hf : ∀ s t, Changed s t → Changed (f s) (f t))
    {n : Nat} {s t : List Char} (h : Turns n s t) : Turns n (f s) (f t) := by
  induction n generalizing s with
  | zero => exact turns_zero.2 (congrArg f (turns_zero.1 h))
  | succ n ih =>
    obtain ⟨u, hsu, hut⟩ := turns_succ.1 h
    exact turns_succ.2 ⟨f u, hf s u hsu, ih hut⟩

theorem Turns.cons {n : Nat} {s t : List Char} (a : Char) (h : Turns n s t) :
    Turns n (a :: s) (a :: t) :=
  h.map fun _ _ => Changed.cons a

theorem Turns.reverse {n : Nat} {s t : List Char} (h : Turns n s t) :
    Turns n s.reverse t.reverse :=
  h.map fun _ _ => Changed.reverse

end CharEdit

open CharEdit

theorem turns_editDistance (s t : List Char) : Turns (editDistance s t) s t := by
  induction s generalizing t with
  | nil =>
    induction t with
    | nil => exact turns_zero.2 rfl
    | cons b t ih =>
      rw [editDistance_nil] at ih ⊢
      exact ih.step (.insert [] t b)
  | cons a s ihs =>
    induction t with
    | nil => exact turns_succ.2 ⟨s, .delete [] s a, ihs []⟩
    | cons b t iht =>
      have hdelete : Turns (editDistance s (b :: t) + 1) (a :: s) (b :: t) :=
        turns_succ.2 ⟨s, .delete [] s a, ihs (b :: t)⟩
      have hinsert : Turns (editDistance (a :: s) t + 1) (a :: s) (b :: t) :=
        iht.step (.insert [] t b)
      have hreplace : Turns (editDistance s t + if a = b then 0 else 1) (a :: s) (b :: t) := by
        by_cases hab : a = b
        · rw [if_pos hab, hab]
          exact (ihs t).cons b
        · rw [if_neg hab]
          exact turns_succ.2 ⟨b :: s, .replace [] s a b, (ihs t).cons b⟩
      rw [editDistance_cons_cons]
      exact (hdelete.min hinsert).min hreplace

theorem editDistance_cons_le (a : Char) (s t : List Char) :
    editDistance (a :: s) t ≤ editDistance s t + 1 := by
  cases t with
  | nil => exact Nat.le_refl _
  | cons b t =>
    rw [editDistance_cons_cons]
    omega

theorem le_editDistance_cons (a : Char) (s t : List Char) :
    editDistance s t ≤ editDistance (a :: s) t + 1 := by
  induction t generalizing a s with
  | nil =>
    rw [editDistance_cons_nil]
    omega
  | cons b t ih =>
    -- what `b` is put for can go, since `s` is one longer than a text that is left
    have hinsert : editDistance s (b :: t) ≤ editDistance s t + 1 := by
      cases s with
      | nil => simp
      | cons d s =>
        rw [editDistance_cons_cons]
        omega
    have hend := ih a s
    rw [editDistance_cons_cons]
    omega

theorem editDistance_replace_le (c d : Char) (s t : List Char) :
    editDistance (c :: s) t ≤ editDistance (d :: s) t + 1 := by
  induction t with
  | nil => exact Nat.le_succ _
  | cons b t ih =>
    have hsame : editDistance s t + (if c = b then 0 else 1) ≤
        editDistance s t + (if d = b then 0 else 1) + 1 := by
      split <;> omega
    rw [editDistance_cons_cons, editDistance_cons_cons]
    omega

/-- Texts that are near to each other are so behind one more character. -/
theorem editDistance_cons_congr {s t : List Char}
    (h : ∀ u, editDistance s u ≤ editDistance t u + 1) (a : Char) (u : List Char) :
    editDistance (a :: s) u ≤ editDistance (a :: t) u + 1 := by
  induction u with
  | nil =>
    have hend := h []
    simp only [editDistance_cons_nil]
    omega
  | cons b u ih =>
    have hwhole := h (b :: u)
    have hend := h u
    rw [editDistance_cons_cons, editDistance_cons_cons]
    omega

/-- A change brings a text nearer to another by at most one. -/
theorem editDistance_le_of_changed {s t : List Char} (h : Changed s t) (u : List Char) :
    editDistance s u ≤ editDistance t u + 1 := by
  have hfront : ∀ (before x y : List Char),
      (∀ v, editDistance x v ≤ editDistance y v + 1) →
        editDistance (before ++ x) u ≤ editDistance (before ++ y) u + 1 := by
    intro before x y hxy
    induction before generalizing u with
    | nil => exact hxy u
    | cons a before ih => exact editDistance_cons_congr ih a u
  cases h with
  | insert before after c => exact hfront before _ _ (le_editDistance_cons c after)
  | delete before after c => exact hfront before _ _ (editDistance_cons_le c after)
  | replace before after c d => exact hfront before _ _ (editDistance_replace_le c d after)

theorem editDistance_le_of_turns {n : Nat} {s t : List Char} (h : Turns n s t) :
    editDistance s t ≤ n := by
  induction n generalizing s with
  | zero =>
    obtain rfl := turns_zero.1 h
    exact Nat.le_of_eq (editDistance_self s)
  | succ n ih =>
    obtain ⟨u, hsu, hut⟩ := turns_succ.1 h
    have hfirst := editDistance_le_of_changed hsu t
    have hrest := ih hut
    omega

theorem isLeast_editDistance (s t : List Char) : IsLeast {n | Turns n s t} (editDistance s t) :=
  ⟨turns_editDistance s t, fun _ h => editDistance_le_of_turns h⟩

/-- Ways between texts are ways between the reversed ones, so these are as far apart. -/
theorem editDistance_reverse (s t : List Char) :
    editDistance s.reverse t.reverse = editDistance s t := by
  apply Nat.le_antisymm
  · exact editDistance_le_of_turns (turns_editDistance s t).reverse
  · have hback := (turns_editDistance s.reverse t.reverse).reverse
    rw [List.reverse_reverse, List.reverse_reverse] at hback
    exact editDistance_le_of_turns hback

namespace Rows

variable {bs s : List Char} {rows : Rows bs.length}

/-- Up to the place `k` a row tells the distances of the characters that are read to the fronts. -/
def Tells (bs s : List Char) (k : Nat) (row : Vector Nat (bs.length + 1)) : Prop :=
  ∀ j (hj : j < bs.length + 1), j ≤ k → row[j] = editDistance s.reverse (bs.take j).reverse

theorem tells_start (bs : List Char) : Tells bs [] bs.length (start bs.length).previous := by
  intro j hj hle
  have hlength : (bs.take j).length = j := List.length_take_of_le hle
  simp [start, hlength]

/-- The first place tells how many characters are read. -/
theorem tells_first (s : List Char) (row : Vector Nat (bs.length + 1)) :
    Tells bs s 0 (row.set 0 s.length (Nat.succ_pos _)) := by
  intro j hj hle
  obtain rfl := Nat.le_zero.1 hle
  rw [Vector.getElem_set_self, List.take_zero, List.reverse_nil, editDistance_nil_right,
    List.length_reverse]

/-- Filling a row tells one more distance at each place. -/
theorem tells_fold_fill (h : Tells bs s bs.length rows.previous) (c : Char)
    {current : Vector Nat (bs.length + 1)} (hfirst : Tells bs (s ++ [c]) 0 current) {k : Nat}
    (hk : k ≤ bs.length) :
    Tells bs (s ++ [c]) k
      (Nat.fold k (fun j hj => fill bs rows.previous c j (Nat.lt_of_lt_of_le hj hk)) current) := by
  induction k with
  | zero => exact hfirst
  | succ k ih =>
    intro j hj hle
    have hrow := ih (Nat.le_of_succ_le hk)
    rw [Nat.fold_succ]
    by_cases hlast : j = k + 1
    · subst hlast
      have hfront : (bs.take (k + 1)).reverse = bs[k] :: (bs.take k).reverse := by
        rw [List.take_succ_eq_append_getElem hk, List.reverse_append]
        rfl
      have hbefore := hrow k (Nat.lt_succ_of_lt hk) (Nat.le_refl k)
      have habove := h (k + 1) hj hk
      have hcorner := h k (Nat.lt_succ_of_lt hk) (Nat.le_of_succ_le hk)
      rw [hfront] at habove ⊢
      rw [List.reverse_append, List.reverse_singleton, List.singleton_append] at hbefore ⊢
      rw [editDistance_cons_cons, ← habove, ← hbefore, ← hcorner]
      simp only [fill, Vector.getElem_set_self]
    · have hold : j ≤ k := by omega
      simp only [fill]
      rw [Vector.getElem_set_ne _ _ (Ne.symm hlast)]
      exact hrow j hj hold

theorem tells_read (h : Tells bs s bs.length rows.previous) (c : Char) :
    Tells bs (s ++ [c]) bs.length (rows.read bs c s.length).previous := by
  have hfirst := tells_first (s ++ [c]) rows.current
  rw [List.length_append, List.length_singleton] at hfirst
  exact tells_fold_fill h c hfirst (Nat.le_refl bs.length)

theorem tells_foldl (h : Tells bs s bs.length rows.previous) (t : List Char) :
    Tells bs (s ++ t) bs.length
      ((t.zipIdx s.length).foldl (fun rows p => rows.read bs p.1 p.2) rows).previous := by
  induction t generalizing s rows with
  | nil => simpa using h
  | cons c t ih =>
    have hrest := ih (tells_read h c)
    rw [List.length_append, List.append_assoc] at hrest
    exact hrest

end Rows

/-- Two rows that are written over in turn give what the whole table gives. -/
theorem rowsDistance_eq (as bs : List Char) : rowsDistance as bs = editDistance as bs := by
  have htells := Rows.tells_foldl (Rows.tells_start bs) as bs.length (Nat.lt_succ_self _)
    (Nat.le_refl _)
  rw [List.nil_append, List.take_length, editDistance_reverse] at htells
  exact htells

/-- The distance by two rows is the length of the shortest script of single changes that turns one text
into the other, and that of the table. -/
theorem rowsDistance_isLeast (a b : String) :
    rowsDistance a.toList b.toList = editDistance a.toList b.toList ∧
      IsLeast {n | ∃ script : List CharEdit, script.length = n ∧
        applyAll? script a.toList = some b.toList} (rowsDistance a.toList b.toList) := by
  refine ⟨rowsDistance_eq _ _, ?_⟩
  rw [rowsDistance_eq]
  exact isLeast_editDistance a.toList b.toList

example : rowsDistance "kitten".toList "sitting".toList = 3 := by decide +kernel

end TemplateLint
