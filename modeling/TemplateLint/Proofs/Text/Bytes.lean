import TemplateLint.Text.Span

namespace TemplateLint.Text

/-- The bytes of the UTF-8 encoding. -/
def bytes (cs : List Char) : List UInt8 := cs.flatMap String.utf8EncodeChar

@[simp] theorem bytes_nil : bytes [] = [] := rfl

@[simp] theorem bytes_cons (c : Char) (cs : List Char) :
    bytes (c :: cs) = String.utf8EncodeChar c ++ bytes cs := rfl

@[simp] theorem bytes_append (s t : List Char) : bytes (s ++ t) = bytes s ++ bytes t :=
  List.flatMap_append

@[simp] theorem length_bytes (cs : List Char) : (bytes cs).length = size cs := by
  induction cs with
  | nil => rfl
  | cons c cs ih => rw [bytes_cons, List.length_append, String.length_utf8EncodeChar, ih, size_cons]

theorem toNat_le_of_size_one {c : Char} (h : c.utf8Size = 1) : c.val.toNat ≤ 127 :=
  UInt32.le_iff_toNat_le.1 (Char.utf8Size_eq_one_iff.1 h)

/-- The byte of a character of one byte is the number of the character. -/
theorem toNat_of_size_one {c : Char} (h : c.utf8Size = 1) : c.val.toUInt8.toNat = c.val.toNat := by
  have hle := toNat_le_of_size_one h
  rw [UInt32.toNat_toUInt8]
  omega

/-- Every byte of a longer character has its highest bit set. -/
theorem high_of_mem_encode {c : Char} {b : UInt8} (h : 1 < c.utf8Size)
    (hb : b ∈ String.utf8EncodeChar c) : 128 ≤ b.toNat := by
  have hlong : ¬ c.val.toNat ≤ 127 := by
    intro hle
    have hone : c.utf8Size = 1 := Char.utf8Size_eq_one_iff.2 (UInt32.le_iff_toNat_le.2 hle)
    omega
  unfold String.utf8EncodeChar at hb
  dsimp only at hb
  rw [if_neg hlong] at hb
  split at hb
  · simp only [List.mem_cons, List.not_mem_nil, or_false] at hb
    rcases hb with rfl | rfl <;> simp only [UInt8.toNat_ofNat'] <;> omega
  · split at hb
    · simp only [List.mem_cons, List.not_mem_nil, or_false] at hb
      rcases hb with rfl | rfl | rfl <;> simp only [UInt8.toNat_ofNat'] <;> omega
    · simp only [List.mem_cons, List.not_mem_nil, or_false] at hb
      rcases hb with rfl | rfl | rfl | rfl <;> simp only [UInt8.toNat_ofNat'] <;> omega

/-- The byte of a character of one byte is in no other character. -/
theorem mem_encode_iff {c d : Char} (h : c.utf8Size = 1) :
    c.toUInt8 ∈ String.utf8EncodeChar d ↔ d = c := by
  constructor
  · intro hmem
    by_cases hd : d.utf8Size = 1
    · rw [String.utf8EncodeChar_eq_singleton hd, List.mem_singleton] at hmem
      have hnat : c.val.toNat = d.val.toNat := by
        rw [← toNat_of_size_one h, ← toNat_of_size_one hd]
        exact congrArg UInt8.toNat hmem
      exact Char.ext (UInt32.toNat_inj.1 hnat.symm)
    · have hlong : 1 < d.utf8Size := Nat.lt_of_le_of_ne d.utf8Size_pos (Ne.symm hd)
      have hhigh := high_of_mem_encode hlong hmem
      have hlow := toNat_le_of_size_one h
      have hbyte : c.toUInt8.toNat = c.val.toNat := toNat_of_size_one h
      omega
  · rintro rfl
    rw [String.utf8EncodeChar_eq_singleton h]
    exact List.mem_singleton_self _

/-- So the byte is counted in the bytes as often as the character is in the text. -/
theorem count_bytes {c : Char} (h : c.utf8Size = 1) (cs : List Char) :
    (bytes cs).count c.toUInt8 = cs.count c := by
  induction cs with
  | nil => rfl
  | cons d cs ih =>
    rw [bytes_cons, List.count_append, ih]
    by_cases hd : d = c
    · rw [hd, String.utf8EncodeChar_eq_singleton h, List.count_cons_self, Nat.add_comm]
      exact congrArg _ List.count_singleton_self
    · rw [List.count_eq_zero_of_not_mem (mt (mem_encode_iff h).1 hd), List.count_cons_of_ne hd,
        Nat.zero_add]

/-- A byte offset up to the end lies between two characters or in one. -/
theorem boundary_or_inside {n : Nat} {cs : List Char} (h : n ≤ size cs) :
    (∃ s t, cs = s ++ t ∧ n = size s) ∨
      ∃ s c t k, cs = s ++ c :: t ∧ n = size s + k ∧ 0 < k ∧ k < c.utf8Size := by
  induction cs generalizing n with
  | nil => exact .inl ⟨[], [], rfl, Nat.le_zero.1 h⟩
  | cons c cs ih =>
    rw [size_cons] at h
    by_cases hn : n = 0
    · exact .inl ⟨[], c :: cs, rfl, hn⟩
    by_cases hc : n < c.utf8Size
    · exact .inr ⟨[], c, cs, n, rfl, (Nat.zero_add n).symm, Nat.pos_of_ne_zero hn, hc⟩
    · have hrest : n - c.utf8Size ≤ size cs := by omega
      rcases ih hrest with ⟨s, t, rfl, hs⟩ | ⟨s, d, t, k, rfl, hs, hk⟩
      · exact .inl ⟨c :: s, t, rfl, by rw [size_cons]; omega⟩
      · exact .inr ⟨c :: s, d, t, k, rfl, by rw [size_cons]; omega, hk⟩

theorem take_bytes_size (s t : List Char) : (bytes (s ++ t)).take (size s) = bytes s := by
  rw [bytes_append, ← length_bytes, List.take_left]

theorem drop_bytes_size (s t : List Char) : (bytes (s ++ t)).drop (size s) = bytes t := by
  rw [bytes_append, ← length_bytes, List.drop_left]

theorem take_bytes_inside (s t : List Char) (c : Char) {k : Nat} (hk : k ≤ c.utf8Size) :
    (bytes (s ++ c :: t)).take (size s + k) = bytes s ++ (String.utf8EncodeChar c).take k := by
  have hlength : k ≤ (String.utf8EncodeChar c).length := by rwa [String.length_utf8EncodeChar]
  rw [bytes_append, bytes_cons, ← length_bytes, List.take_length_add_append,
    List.take_append_of_le_length hlength]

theorem drop_bytes_inside (s t : List Char) (c : Char) {k : Nat} (hk : k ≤ c.utf8Size) :
    (bytes (s ++ c :: t)).drop (size s + k) = (String.utf8EncodeChar c).drop k ++ bytes t := by
  have hlength : k ≤ (String.utf8EncodeChar c).length := by rwa [String.length_utf8EncodeChar]
  rw [bytes_append, bytes_cons, ← length_bytes, List.drop_length_add_append,
    List.drop_append_of_le_length hlength]

theorem eq_append_of_bytes_prefix {mark t : List Char} (hmark : ∀ c ∈ mark, c.utf8Size = 1)
    (h : bytes mark <+: bytes t) : ∃ rest, t = mark ++ rest := by
  induction mark generalizing t with
  | nil => exact ⟨t, rfl⟩
  | cons c mark ih =>
    have hc := hmark c List.mem_cons_self
    rw [bytes_cons, String.utf8EncodeChar_eq_singleton hc, List.singleton_append] at h
    cases t with
    | nil =>
      obtain ⟨more, hmore⟩ := h
      cases hmore
    | cons d t =>
      obtain ⟨b, bs, hd⟩ := List.exists_cons_of_ne_nil (String.utf8EncodeChar_ne_nil (c := d))
      rw [bytes_cons, hd, List.cons_append, List.cons_prefix_cons] at h
      have hmem : c.toUInt8 ∈ String.utf8EncodeChar d := by
        rw [hd]
        exact h.1 ▸ List.mem_cons_self
      obtain rfl := (mem_encode_iff hc).1 hmem
      rw [String.utf8EncodeChar_eq_singleton hc] at hd
      obtain ⟨-, rfl⟩ := List.cons.inj hd
      obtain ⟨rest, rfl⟩ := ih (fun e he => hmark e (List.mem_cons_of_mem _ he)) h.2
      exact ⟨rest, rfl⟩

/-- A mark of characters of one byte can be read at a byte offset exactly where it stands in the
text. -/
theorem bytes_prefix_iff {mark : List Char} (hmark : ∀ c ∈ mark, c.utf8Size = 1) (hne : mark ≠ [])
    {n : Nat} {cs : List Char} :
    bytes mark <+: (bytes cs).drop n ↔ ∃ s t, cs = s ++ (mark ++ t) ∧ n = size s := by
  constructor
  · intro h
    obtain ⟨c, more, rfl⟩ := List.exists_cons_of_ne_nil hne
    have hc := hmark c List.mem_cons_self
    have hn : n ≤ size cs := by
      have hlength := h.length_le
      rw [List.length_drop, length_bytes, length_bytes, size_cons, hc] at hlength
      omega
    rcases boundary_or_inside hn with ⟨s, t, rfl, rfl⟩ | ⟨s, d, t, k, rfl, rfl, hpos, hk⟩
    · rw [drop_bytes_size] at h
      obtain ⟨rest, rfl⟩ := eq_append_of_bytes_prefix hmark h
      exact ⟨s, rest, rfl, rfl⟩
    · -- in a character every byte is higher than the first of the mark
      rw [drop_bytes_inside s t d (Nat.le_of_lt hk), bytes_cons,
        String.utf8EncodeChar_eq_singleton hc] at h
      obtain ⟨b, bs, hb⟩ : ∃ b bs, (String.utf8EncodeChar d).drop k = b :: bs := by
        refine List.exists_cons_of_ne_nil fun hnil => ?_
        have hlength := congrArg List.length hnil
        rw [List.length_drop, String.length_utf8EncodeChar, List.length_nil] at hlength
        omega
      rw [hb, List.singleton_append, List.cons_append, List.cons_prefix_cons] at h
      have hmem : b ∈ String.utf8EncodeChar d := List.mem_of_mem_drop (hb ▸ List.mem_cons_self)
      have hhigh := high_of_mem_encode (by omega) hmem
      have hlow := toNat_le_of_size_one hc
      have hbyte := toNat_of_size_one hc
      rw [h.1] at hbyte
      omega
  · rintro ⟨s, t, rfl, rfl⟩
    rw [drop_bytes_size, bytes_append]
    exact List.prefix_append _ _

/-- Two numbers differ first in a digit to the base 64 that is smaller in the smaller number. -/
theorem digit_lt {v w : Nat} (h : v < w) (hw : w < 0x110000) :
    v / 262144 % 8 < w / 262144 % 8 ∨ v / 262144 % 8 = w / 262144 % 8 ∧
      (v / 4096 % 64 < w / 4096 % 64 ∨ v / 4096 % 64 = w / 4096 % 64 ∧
        (v / 64 % 64 < w / 64 % 64 ∨ v / 64 % 64 = w / 64 % 64 ∧ v % 64 < w % 64)) := by
  rcases Nat.lt_or_eq_of_le (Nat.div_le_div_right (c := 262144) (Nat.le_of_lt h)) with h₁ | h₁
  · left
    omega
  · refine .inr ⟨by rw [h₁], ?_⟩
    rcases Nat.lt_or_eq_of_le (Nat.div_le_div_right (c := 4096) (Nat.le_of_lt h)) with h₂ | h₂
    · left
      omega
    · refine .inr ⟨by rw [h₂], ?_⟩
      rcases Nat.lt_or_eq_of_le (Nat.div_le_div_right (c := 64) (Nat.le_of_lt h)) with h₃ | h₃
      · left
        omega
      · refine .inr ⟨by rw [h₃], ?_⟩
        omega

theorem toNat_ofNat_lt {n : Nat} (h : n < 256) : (UInt8.ofNat n).toNat = n := by
  rw [UInt8.toNat_ofNat']
  omega

/-- The bytes of a smaller character come before those of a greater one, whatever follows. -/
theorem encode_append_lt {c d : Char} (h : c < d) (s t : List UInt8) :
    String.utf8EncodeChar c ++ s < String.utf8EncodeChar d ++ t := by
  have hcd : c.val.toNat < d.val.toNat := UInt32.lt_iff_toNat_lt.1 h
  have hmax : d.val.toNat < 0x110000 := by
    rcases d.valid with hd | hd <;> omega
  unfold String.utf8EncodeChar
  dsimp only
  generalize c.val.toNat = v at *
  generalize d.val.toNat = w at *
  have hdigit := digit_lt hcd hmax
  -- one case for every pair of lengths; with more bytes the first byte is greater
  repeat' split
  all_goals
    simp only [List.cons_append, List.nil_append, List.cons_lt_cons_iff, UInt8.lt_iff_toNat_lt,
      ← UInt8.toNat_inj]
    repeat rw [toNat_ofNat_lt (by omega)]
    omega

/-- The order of texts is that of their bytes. -/
theorem bytes_lt_of_lt {s t : List Char} (h : s < t) : bytes s < bytes t := by
  induction s generalizing t with
  | nil =>
    cases t with
    | nil => exact absurd h (List.not_lt_nil _)
    | cons d t =>
      obtain ⟨b, bs, hd⟩ := List.exists_cons_of_ne_nil (String.utf8EncodeChar_ne_nil (c := d))
      rw [bytes_cons, hd]
      exact List.nil_lt_cons b _
  | cons c s ih =>
    cases t with
    | nil => exact absurd h (List.not_lt_nil _)
    | cons d t =>
      rw [bytes_cons, bytes_cons]
      rcases List.cons_lt_cons_iff.1 h with hcd | ⟨rfl, hst⟩
      · exact encode_append_lt hcd _ _
      · exact List.append_left_lt (ih hst)

end TemplateLint.Text
