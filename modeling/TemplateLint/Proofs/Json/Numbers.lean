import TemplateLint.Json.ReadNumber

namespace TemplateLint.Json

/-- The text behind a value of a document: none, or a mark that ends the value. -/
def Ends (s : List Char) : Prop := ∀ c ∈ s.head?, c = ',' ∨ c = ']' ∨ c = '}'

/-- A text that does not go on with a digit. -/
def NoDigitAhead (s : List Char) : Prop := ∀ c ∈ s.head?, c.isDigit = false

theorem Ends.noDigitAhead {s : List Char} (h : Ends s) : NoDigitAhead s := by
  intro c hc
  rcases h c hc with rfl | rfl | rfl <;> rfl

theorem le_ofDigitChars (ds : List Char) (sum : Nat) : sum ≤ Nat.ofDigitChars 10 ds sum := by
  induction ds generalizing sum with
  | nil => exact Nat.le_refl _
  | cons d ds ih =>
    rw [Nat.ofDigitChars_cons]
    exact Nat.le_trans (by omega) (ih _)

/-- Digits are taken while they fit, up to where none follows. -/
theorem gather_append {limit sum : Nat} {ds s : List Char} (hdigits : ∀ d ∈ ds, d.isDigit = true)
    (hlimit : Nat.ofDigitChars 10 ds sum ≤ limit) (hs : NoDigitAhead s) :
    gather limit sum (ds ++ s) = (Nat.ofDigitChars 10 ds sum, ds.length, s) := by
  induction ds generalizing sum with
  | nil =>
    cases s with
    | nil => rfl
    | cons c s => simp [gather, hs c rfl]
  | cons d ds ih =>
    have hsum : 10 * sum + (d.toNat - '0'.toNat) = sum * 10 + digitValue d := by
      rw [digitValue, Nat.mul_comm]
    rw [Nat.ofDigitChars_cons, hsum] at hlimit ⊢
    have hfits := Nat.le_trans (le_ofDigitChars ds _) hlimit
    have hread := ih (fun e he => hdigits e (List.mem_cons_of_mem _ he)) hlimit
    simp [gather, hdigits d List.mem_cons_self, hfits, hread]

theorem isDigit_of_mem_toDigits {n : Nat} {d : Char} (h : d ∈ Nat.toDigits 10 n) :
    d.isDigit = true := Nat.isDigit_of_mem_toDigits (by decide) (by decide) h

theorem gather_toDigits {n : Nat} (h : n ≤ maxUnsigned) {s : List Char} (hs : NoDigitAhead s) :
    gather maxUnsigned 0 (Nat.toDigits 10 n ++ s) = (n, (Nat.toDigits 10 n).length, s) := by
  have hvalue : Nat.ofDigitChars 10 (Nat.toDigits 10 n) 0 = n := Nat.ofDigitChars_ten_toDigits
  rw [gather_append (fun d => isDigit_of_mem_toDigits) (by rw [hvalue]; exact h) hs, hvalue]

/-- The first digit of a number that is not zero is not zero. -/
theorem exists_toDigits_eq_cons (n : Nat) :
    ∃ d ds, Nat.toDigits 10 n = d :: ds ∧ d.isDigit = true ∧ (0 < n → d ≠ '0') := by
  induction n using Nat.strongRecOn with
  | ind n ih =>
    by_cases hn : n < 10
    · have hds : Nat.toDigits 10 n = [n.digitChar] := Nat.toDigits_of_lt_base hn
      refine ⟨_, [], hds, isDigit_of_mem_toDigits (hds ▸ List.mem_cons_self), fun hpos hd => ?_⟩
      exact Nat.ne_of_gt hpos (Nat.digitChar_eq_zero.1 hd)
    · obtain ⟨d, ds, hds, hdigit, hd⟩ := ih (n / 10) (by omega)
      rw [Nat.toDigits_of_base_le (by decide) (by omega), hds]
      exact ⟨d, _, rfl, hdigit, fun _ => hd (by omega)⟩

/-- Digits that are not a zero before others are gathered. -/
theorem readNumber_cons (negative : Bool) {n taken : Nat} {d : Char} {s rest : List Char}
    (hd : d ≠ '0' ∨ s = []) (hdigit : d.isDigit = true)
    (hgather : gather maxUnsigned 0 (d :: s) = (n, taken, rest)) (hrest : NoDigitAhead rest) :
    readNumber negative (d :: s) = readTail negative n 0 rest := by
  have hdrop : rest.dropWhile Char.isDigit = rest := by
    cases rest with
    | nil => rfl
    | cons c rest => rw [List.dropWhile_cons, hrest c rfl]; rfl
  unfold readNumber
  split
  · next h => cases h
  · next h =>
    cases h
    rcases hd with hd | hd
    · exact absurd rfl hd
    · cases hd
  · next h =>
    cases h
    simp [hdigit, hgather, hdrop]

/-- A number is read up to what follows its digits. -/
theorem readNumber_toDigits (negative : Bool) {n : Nat} (h : n ≤ maxUnsigned) {s : List Char}
    (hs : NoDigitAhead s) :
    readNumber negative (Nat.toDigits 10 n ++ s) = readTail negative n 0 s := by
  have hgather := gather_toDigits h hs
  rcases Nat.eq_zero_or_pos n with rfl | hn
  · have hzero : Nat.toDigits 10 0 = ['0'] := rfl
    rw [hzero] at hgather ⊢
    cases s with
    | nil => exact readNumber_cons negative (.inr rfl) rfl hgather hs
    | cons c s => simp [readNumber, hs c rfl]
  · obtain ⟨d, ds, hds, hdigit, hd⟩ := exists_toDigits_eq_cons n
    rw [hds] at hgather ⊢
    exact readNumber_cons negative (.inl (hd hn)) hdigit hgather hs

/-- A whole number ends where a value can end. -/
theorem readTail_of_ends {s : List Char} (hs : Ends s) (n : Nat) :
    readTail false n 0 s = .ok (.int n, s) := by
  cases s with
  | nil => rfl
  | cons c s => rcases hs c rfl with rfl | rfl | rfl <;> rfl

theorem readTail_negative {s : List Char} (hs : Ends s) {n : Nat} (hpos : 0 < n)
    (hle : n ≤ maxSigned + 1) : readTail true n 0 s = .ok (.int (-n), s) := by
  have hzero : ¬ n = 0 := by omega
  have hfits : ¬ maxSigned + 1 < n := by omega
  cases s with
  | nil => simp [readTail, hzero, hfits]
  | cons c s => rcases hs c rfl with rfl | rfl | rfl <;> simp [readTail, hzero, hfits]

end TemplateLint.Json
