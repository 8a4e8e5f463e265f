import TemplateLint.Json.Reader

namespace TemplateLint.Json

@[simp] theorem ok_bind {α β : Type} (a : α) (f : α → Result β) :
    ((Except.ok a : Result α) >>= f) = f a := rfl

theorem escape_ne_nil (c : Char) : escape c ≠ [] := by
  unfold escape
  repeat' split
  all_goals exact List.cons_ne_nil _ _

/-- The digits of an escape by number are those of the number. -/
theorem readHex_hexDigits {n : Nat} (h : n < 0x20) (s : List Char) :
    readHex ('0' :: '0' :: hexDigit (n / 16) :: hexDigit n :: s) = .ok (n, s) := by
  have hdigits : ∀ n < 0x20,
      Text.size ['0', '0', hexDigit (n / 16), hexDigit n] = 4 ∧
        hexNumber? ['0', '0', hexDigit (n / 16), hexDigit n] = some n := by decide
  obtain ⟨hsize, hnumber⟩ := hdigits n h
  have htake : ('0' :: '0' :: hexDigit (n / 16) :: hexDigit n :: s).take 4 =
      ['0', '0', hexDigit (n / 16), hexDigit n] := rfl
  rw [readHex, htake, hsize, hnumber]
  rfl

theorem readEscape_hexDigits {n : Nat} (h : n < 0x20) (s : List Char) :
    readEscape ('u' :: '0' :: '0' :: hexDigit (n / 16) :: hexDigit n :: s) =
      .ok (Char.ofNat n, s) := by
  have hlow : ¬ 0xDC00 ≤ n := by omega
  have hhigh : n < 0xD800 := by omega
  simp [readEscape, readHex_hexDigits h, hlow, hhigh]

section

variable {n : Nat} {c : Char} {cs : List Char} {s s' rest : List Char}

theorem stringWithin_backslash (hc : readEscape s = .ok (c, s'))
    (h : stringWithin n s' = .ok (cs, rest)) :
    stringWithin (n + 1) ('\\' :: s) = .ok (c :: cs, rest) := by
  simp only [stringWithin, hc, ok_bind, h]

theorem stringWithin_cons (hquote : c ≠ '"') (hslash : c ≠ '\\') (hcontrol : ¬ c.toNat < 0x20)
    (h : stringWithin n s = .ok (cs, rest)) :
    stringWithin (n + 1) (c :: s) = .ok (c :: cs, rest) := by
  simp only [stringWithin, hcontrol, if_false, ok_bind, h]

/-- A character is read from its escape. -/
theorem stringWithin_escape (h : stringWithin n s = .ok (cs, rest)) :
    stringWithin (n + 1) (escape c ++ s) = .ok (c :: cs, rest) := by
  by_cases hshort : c ∈ ['"', '\\', '\x08', '\x0c', '\n', '\r', '\t']
  · simp only [List.mem_cons, List.not_mem_nil, or_false] at hshort
    rcases hshort with rfl | rfl | rfl | rfl | rfl | rfl | rfl <;>
      exact stringWithin_backslash rfl h
  · simp only [List.mem_cons, List.not_mem_nil, or_false, not_or] at hshort
    simp only [escape, hshort, if_false]
    split
    · next hcontrol =>
      have hread := readEscape_hexDigits hcontrol s
      rw [Char.ofNat_toNat] at hread
      exact stringWithin_backslash hread h
    · next hcontrol => exact stringWithin_cons hshort.1 hshort.2.1 hcontrol h

end

/-- The characters of a string are read up to its closing quote. -/
theorem stringWithin_flatMap (cs : List Char) {n : Nat} (h : cs.length < n) (s : List Char) :
    stringWithin n (cs.flatMap escape ++ '"' :: s) = .ok (cs, s) := by
  induction cs generalizing n with
  | nil =>
    obtain ⟨n, rfl⟩ := Nat.exists_eq_succ_of_ne_zero (Nat.ne_of_gt h)
    rfl
  | cons c cs ih =>
    obtain ⟨n, rfl⟩ := Nat.exists_eq_succ_of_ne_zero (Nat.ne_of_gt (Nat.zero_lt_of_lt h))
    rw [List.flatMap_cons, List.append_assoc]
    exact stringWithin_escape (ih (Nat.lt_of_succ_lt_succ h))

theorem length_le_escape (cs : List Char) : cs.length ≤ (cs.flatMap escape).length := by
  induction cs with
  | nil => exact Nat.le_refl _
  | cons c cs ih =>
    have hescape := List.length_pos_iff.2 (escape_ne_nil c)
    rw [List.flatMap_cons, List.length_append, List.length_cons]
    omega

/-- A string is read after its opening quote. -/
theorem readString_append (text : String) (s : List Char) :
    readString (text.toList.flatMap escape ++ '"' :: s) = .ok (text, s) := by
  have hlength : text.toList.length < (text.toList.flatMap escape ++ '"' :: s).length := by
    rw [List.length_append, List.length_cons]
    have hescape := length_le_escape text.toList
    omega
  simp only [readString, stringWithin_flatMap _ hlength, ok_bind, String.ofList_toList]

end TemplateLint.Json
