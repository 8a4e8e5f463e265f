import TemplateLint.Proofs.Json.Numbers
import TemplateLint.Proofs.Json.Strings

namespace TemplateLint.Json

/-- A value without fractions, its whole numbers of 64 bits, in which no object has a key twice and
arrays and objects are nested at most `depth` deep. -/
inductive Value.Plain : Nat → Value → Prop
  | null {depth : Nat} : Plain depth .null
  | bool {depth : Nat} (b : Bool) : Plain depth (.bool b)
  | int {depth : Nat} {i : Int} (least : -(maxSigned + 1) ≤ i) (greatest : i ≤ maxUnsigned) :
      Plain depth (.int i)
  | string {depth : Nat} (text : String) : Plain depth (.string text)
  | array {depth : Nat} {items : List Value} (parts : ∀ v ∈ items, Plain depth v) :
      Plain (depth + 1) (.array items)
  | object {depth : Nat} {ms : List (String × Value)} (keys : (ms.map Prod.fst).Nodup)
      (parts : ∀ m ∈ ms, Plain depth m.2) : Plain (depth + 1) (.object ms)

/-- A value whose text starts with neither a blank nor the end of an array. -/
def Value.Starts (v : Value) : Prop := ∃ c s, v.chars = c :: s ∧ isBlank c = false ∧ c ≠ ']'

/-- A value that a reader takes from its text and no further. -/
def Value.ReadBy (read : List Char → Result (Value × List Char)) (v : Value) : Prop :=
  ∀ s, Ends s → read (v.chars ++ s) = .ok (v, s)

theorem charsAll_eq_map (items : List Value) : Value.charsAll items = items.map Value.chars := by
  induction items with
  | nil => rfl
  | cons v vs ih => rw [Value.charsAll, ih, List.map_cons]

theorem memberChars_eq_map (ms : List (String × Value)) :
    memberChars ms = ms.map fun m => stringChars m.1 ++ ':' :: m.2.chars := by
  induction ms with
  | nil => rfl
  | cons m ms ih =>
    obtain ⟨key, v⟩ := m
    rw [memberChars, ih, List.map_cons]

/-- Parts are fewer than the characters of their texts and of what ends them. -/
theorem length_lt_commaSeparated {texts : List (List Char)} (h : ∀ t ∈ texts, t ≠ []) (c : Char)
    (s : List Char) : texts.length < (commaSeparated texts ++ c :: s).length := by
  have hcommas (ts : List (List Char)) : ts.length ≤ (afterCommas ts).length := by
    induction ts with
    | nil => exact Nat.le_refl _
    | cons t ts ih =>
      rw [afterCommas, List.flatMap_cons, List.length_append, List.length_cons, List.length_cons]
      rw [afterCommas] at ih
      omega
  rw [List.length_append, List.length_cons]
  cases texts with
  | nil => exact Nat.zero_lt_succ _
  | cons t ts =>
    have hmore := hcommas ts
    have hfirst := List.length_pos_iff.2 (h t List.mem_cons_self)
    rw [commaSeparated, List.length_append, List.length_cons]
    omega

theorem length_lt_members (ms : List (String × Value)) (s : List Char) :
    ms.length < (commaSeparated (memberChars ms) ++ '}' :: s).length := by
  have hne : ∀ t ∈ memberChars ms, t ≠ [] := by
    intro t ht
    rw [memberChars_eq_map] at ht
    obtain ⟨m, -, rfl⟩ := List.mem_map.1 ht
    exact List.cons_ne_nil _ _
  have hlength := length_lt_commaSeparated hne '}' s
  rwa [memberChars_eq_map, List.length_map, ← memberChars_eq_map] at hlength

/-- Behind a part of an array or an object a comma or the end follows. -/
theorem ends_afterCommas (texts : List (List Char)) {c : Char} (hc : c = ']' ∨ c = '}')
    (s : List Char) : Ends (afterCommas texts ++ c :: s) := by
  intro d hd
  cases texts with
  | nil =>
    cases hd
    exact .inr hc
  | cons t ts =>
    cases hd
    exact .inl rfl

section

variable {read : List Char → Result (Value × List Char)} {n : Nat}

theorem nextElement?_first {v : Value} (hv : v.Starts) (s : List Char) :
    nextElement? true (v.chars ++ s) = .ok (some (v.chars ++ s)) := by
  obtain ⟨c, cs, hchars, hblank, hend⟩ := hv
  simp [nextElement?, skip, hchars, hblank, hend]

theorem nextElement?_comma {v : Value} (hv : v.Starts) (s : List Char) :
    nextElement? false (',' :: (v.chars ++ s)) = .ok (some (v.chars ++ s)) := by
  obtain ⟨c, cs, hchars, hblank, hend⟩ := hv
  have hcomma : isBlank ',' = false := rfl
  simp [nextElement?, skip, hchars, hblank, hend, hcomma]

theorem elementsWith_cons {first : Bool} {v : Value} {vs : List Value} {s t after rest : List Char}
    (hnext : nextElement? first s = .ok (some t)) (hread : read t = .ok (v, after))
    (hmore : elementsWith read n false after = .ok (vs, rest)) :
    elementsWith read (n + 1) first s = .ok (v :: vs, rest) := by
  simp only [elementsWith, hnext, ok_bind, hread, hmore]

theorem elementsWith_afterCommas {items : List Value}
    (h : ∀ v ∈ items, v.Starts ∧ v.ReadBy read) (hn : items.length < n) (s : List Char) :
    elementsWith read n false (afterCommas (items.map Value.chars) ++ ']' :: s) =
      .ok (items, s) := by
  induction items generalizing n with
  | nil =>
    obtain ⟨n, rfl⟩ := Nat.exists_eq_succ_of_ne_zero (Nat.ne_of_gt hn)
    rfl
  | cons v vs ih =>
    obtain ⟨n, rfl⟩ := Nat.exists_eq_succ_of_ne_zero (Nat.ne_of_gt (Nat.zero_lt_of_lt hn))
    obtain ⟨hstarts, hread⟩ := h v List.mem_cons_self
    have hmore := ih (fun w hw => h w (List.mem_cons_of_mem _ hw)) (Nat.lt_of_succ_lt_succ hn)
    have htext : afterCommas ((v :: vs).map Value.chars) ++ ']' :: s =
        ',' :: (v.chars ++ (afterCommas (vs.map Value.chars) ++ ']' :: s)) := by
      simp [afterCommas]
    rw [htext]
    exact elementsWith_cons (nextElement?_comma hstarts _)
      (hread _ (ends_afterCommas _ (.inl rfl) s)) hmore

/-- The elements of an array are read up to and with its bracket. -/
theorem elementsWith_commaSeparated {items : List Value}
    (h : ∀ v ∈ items, v.Starts ∧ v.ReadBy read) (hn : items.length < n) (s : List Char) :
    elementsWith read n true (commaSeparated (items.map Value.chars) ++ ']' :: s) =
      .ok (items, s) := by
  obtain ⟨n, rfl⟩ := Nat.exists_eq_succ_of_ne_zero (Nat.ne_of_gt (Nat.zero_lt_of_lt hn))
  cases items with
  | nil => rfl
  | cons v vs =>
    obtain ⟨hstarts, hread⟩ := h v List.mem_cons_self
    have hmore := elementsWith_afterCommas (fun w hw => h w (List.mem_cons_of_mem _ hw))
      (Nat.lt_of_succ_lt_succ hn) s
    rw [List.map_cons, commaSeparated, List.append_assoc]
    exact elementsWith_cons (nextElement?_first hstarts _)
      (hread _ (ends_afterCommas _ (.inl rfl) s)) hmore

theorem readColon_colon (s : List Char) : readColon (':' :: s) = .ok s := rfl

/-- A key and its value are read behind the quote of the key. -/
theorem membersWith_cons {first : Bool} {key : String} {v : Value} {ms : List (String × Value)}
    {s after rest : List Char}
    (hnext : nextKey? first s =
      .ok (some (key.toList.flatMap escape ++ '"' :: ':' :: (v.chars ++ after))))
    (hread : read (v.chars ++ after) = .ok (v, after))
    (hmore : membersWith read n false after = .ok (ms, rest)) :
    membersWith read (n + 1) first s = .ok ((key, v) :: ms, rest) := by
  simp only [membersWith, hnext, ok_bind, readString_append, readColon_colon, hread, hmore]

theorem membersWith_afterCommas {ms : List (String × Value)} (h : ∀ m ∈ ms, m.2.ReadBy read)
    (hn : ms.length < n) (s : List Char) :
    membersWith read n false (afterCommas (memberChars ms) ++ '}' :: s) = .ok (ms, s) := by
  induction ms generalizing n with
  | nil =>
    obtain ⟨n, rfl⟩ := Nat.exists_eq_succ_of_ne_zero (Nat.ne_of_gt hn)
    rfl
  | cons m ms ih =>
    obtain ⟨n, rfl⟩ := Nat.exists_eq_succ_of_ne_zero (Nat.ne_of_gt (Nat.zero_lt_of_lt hn))
    obtain ⟨key, v⟩ := m
    have hmore := ih (fun m hm => h m (List.mem_cons_of_mem _ hm)) (Nat.lt_of_succ_lt_succ hn)
    have htext : afterCommas (memberChars ((key, v) :: ms)) ++ '}' :: s =
        ',' :: '"' :: (key.toList.flatMap escape ++ '"' :: ':' ::
          (v.chars ++ (afterCommas (memberChars ms) ++ '}' :: s))) := by
      simp [afterCommas, memberChars, stringChars]
    rw [htext]
    exact membersWith_cons rfl (h _ List.mem_cons_self _ (ends_afterCommas _ (.inr rfl) s)) hmore

/-- The members of an object are read up to and with its brace. -/
theorem membersWith_commaSeparated {ms : List (String × Value)} (h : ∀ m ∈ ms, m.2.ReadBy read)
    (hn : ms.length < n) (s : List Char) :
    membersWith read n true (commaSeparated (memberChars ms) ++ '}' :: s) = .ok (ms, s) := by
  obtain ⟨n, rfl⟩ := Nat.exists_eq_succ_of_ne_zero (Nat.ne_of_gt (Nat.zero_lt_of_lt hn))
  cases ms with
  | nil => rfl
  | cons m ms =>
    obtain ⟨key, v⟩ := m
    have hmore := membersWith_afterCommas (fun m hm => h m (List.mem_cons_of_mem _ hm))
      (Nat.lt_of_succ_lt_succ hn) s
    have htext : commaSeparated (memberChars ((key, v) :: ms)) ++ '}' :: s =
        '"' :: (key.toList.flatMap escape ++ '"' :: ':' ::
          (v.chars ++ (afterCommas (memberChars ms) ++ '}' :: s))) := by
      simp [commaSeparated, memberChars, stringChars]
    rw [htext]
    exact membersWith_cons rfl (h _ List.mem_cons_self _ (ends_afterCommas _ (.inr rfl) s)) hmore

end

theorem setMember_of_not_mem {key : String} (value : Value) {ms : List (String × Value)}
    (h : key ∉ ms.map Prod.fst) : setMember key value ms = ms ++ [(key, value)] := by
  induction ms with
  | nil => rfl
  | cons m ms ih =>
    obtain ⟨k, v⟩ := m
    rw [List.map_cons, List.mem_cons, not_or] at h
    rw [setMember, if_neg (Ne.symm h.1), ih h.2, List.cons_append]

/-- Members with different keys stay as they are read. -/
theorem members_of_nodup {ms : List (String × Value)} (h : (ms.map Prod.fst).Nodup) :
    members ms = ms := by
  have hmore (front : List (String × Value)) (hfront : ((front ++ ms).map Prod.fst).Nodup) :
      ms.foldl (fun ms m => setMember m.1 m.2 ms) front = front ++ ms := by
    clear h
    induction ms generalizing front with
    | nil => rw [List.foldl_nil, List.append_nil]
    | cons m ms ih =>
      have hnew : m.1 ∉ front.map Prod.fst := by
        rw [List.map_append, List.nodup_append] at hfront
        intro hm
        exact hfront.2.2 _ hm _ (List.mem_map_of_mem List.mem_cons_self) rfl
      rw [List.foldl_cons, setMember_of_not_mem _ hnew, ih, List.append_assoc,
        List.singleton_append]
      rwa [List.append_assoc, List.singleton_append]
  exact hmore [] h

section

variable {c d : Char}

theorem ne_of_isDigit (hc : c.isDigit = true) (hd : d.isDigit = false) : c ≠ d := by
  rintro rfl
  rw [hc] at hd
  cases hd

theorem isBlank_of_isDigit (hc : c.isDigit = true) : isBlank c = false := by
  simp [isBlank, ne_of_isDigit hc]

end

section

variable (depth : Nat) (s : List Char)

theorem valueWithin_quote :
    valueWithin depth ('"' :: s) = readString s >>= fun read => .ok (.string read.1, read.2) := by
  rw [valueWithin.eq_def]
  rfl

theorem valueWithin_bracket :
    valueWithin (depth + 1) ('[' :: s) =
      elementsWith (valueWithin depth) s.length true s >>= fun read => .ok (.array read.1, read.2) :=
  rfl

theorem valueWithin_brace :
    valueWithin (depth + 1) ('{' :: s) =
      membersWith (valueWithin depth) s.length true s >>= fun read =>
        .ok (.object (members read.1), read.2) :=
  rfl

theorem valueWithin_minus : valueWithin depth ('-' :: s) = readNumber true s := by
  rw [valueWithin.eq_def]
  rfl

end

theorem valueWithin_digit (depth : Nat) {c : Char} (hc : c.isDigit = true) (s : List Char) :
    valueWithin depth (c :: s) = readNumber false (c :: s) := by
  have hskip : skip (c :: s) = c :: s := by
    rw [skip, List.dropWhile_cons, isBlank_of_isDigit hc]
    rfl
  rw [valueWithin.eq_def, hskip]
  split
  case h_1 h => cases h
  case h_9 h =>
    cases h
    rw [if_pos hc]
  all_goals
    next h =>
      cases h
      cases hc

/-- A whole number of 64 bits is read from its digits and its sign. -/
theorem valueWithin_intChars (depth : Nat) {i : Int} (hmin : -(maxSigned + 1) ≤ i)
    (hmax : i ≤ maxUnsigned) {s : List Char} (hs : Ends s) :
    valueWithin depth (intChars i ++ s) = .ok (.int i, s) := by
  cases i with
  | ofNat n =>
    have hread := readNumber_toDigits false (Int.ofNat_le.1 hmax) hs.noDigitAhead
    obtain ⟨d, ds, hds, hdigit, -⟩ := exists_toDigits_eq_cons n
    rw [readTail_of_ends hs, hds, List.cons_append] at hread
    rw [intChars, hds, List.cons_append, valueWithin_digit depth hdigit, hread]
    rfl
  | negSucc n =>
    have hle : n + 1 ≤ maxSigned + 1 := by omega
    have hfits : n + 1 ≤ maxUnsigned := Nat.le_trans hle (by decide)
    rw [intChars, List.cons_append, valueWithin_minus,
      readNumber_toDigits true hfits hs.noDigitAhead, readTail_negative hs (Nat.succ_pos n) hle]
    rfl

theorem starts_int (i : Int) : (Value.int i).Starts := by
  cases i with
  | ofNat n =>
    obtain ⟨d, ds, hds, hdigit, -⟩ := exists_toDigits_eq_cons n
    exact ⟨d, ds, hds, isBlank_of_isDigit hdigit, ne_of_isDigit hdigit rfl⟩
  | negSucc n => exact ⟨_, _, rfl, rfl, by decide⟩

theorem Value.Plain.starts {depth : Nat} {v : Value} (hv : v.Plain depth) : v.Starts := by
  cases hv with
  | bool b => cases b <;> exact ⟨_, _, rfl, rfl, by decide⟩
  | int => exact starts_int _
  | _ => exact ⟨_, _, rfl, rfl, by decide⟩

theorem Value.Starts.chars_ne_nil {v : Value} (hv : v.Starts) : v.chars ≠ [] := by
  obtain ⟨c, s, hchars, -⟩ := hv
  rw [hchars]
  exact List.cons_ne_nil c s

/-- A value is read from its text. -/
theorem Value.Plain.readBy {depth : Nat} {v : Value} (hv : v.Plain depth) :
    v.ReadBy (valueWithin depth) := by
  induction hv with
  | null =>
    intro s _
    rw [valueWithin.eq_def]
    rfl
  | bool b =>
    intro s _
    rw [valueWithin.eq_def]
    cases b <;> rfl
  | int hmin hmax =>
    intro s hs
    exact valueWithin_intChars _ hmin hmax hs
  | string text =>
    intro s _
    have htext : (Value.string text).chars ++ s = '"' :: (text.toList.flatMap escape ++ '"' :: s) := by
      simp [Value.chars, stringChars]
    rw [htext, valueWithin_quote, readString_append, ok_bind]
  | @array depth items parts ih =>
    intro s _
    have htext : (Value.array items).chars ++ s =
        '[' :: (commaSeparated (items.map Value.chars) ++ ']' :: s) := by
      simp [Value.chars, charsAll_eq_map]
    have hne : ∀ t ∈ items.map Value.chars, t ≠ [] := by
      intro t ht
      obtain ⟨v, hv, rfl⟩ := List.mem_map.1 ht
      exact (parts v hv).starts.chars_ne_nil
    have hlength := length_lt_commaSeparated hne ']' s
    rw [List.length_map] at hlength
    have hread := elementsWith_commaSeparated (fun v hv => ⟨(parts v hv).starts, ih v hv⟩) hlength s
    rw [htext, valueWithin_bracket, hread, ok_bind]
  | @object depth ms keys parts ih =>
    intro s _
    have htext : (Value.object ms).chars ++ s = '{' :: (commaSeparated (memberChars ms) ++ '}' :: s) := by
      simp [Value.chars]
    have hlength := length_lt_members ms s
    rw [htext, valueWithin_brace, membersWith_commaSeparated ih hlength, ok_bind,
      members_of_nodup keys]

/-- The compact text of a value is read as this value. -/
theorem Value.Plain.read_compact {v : Value} (hv : v.Plain maxDepth) :
    Value.read v.compact = .ok v := by
  have hread := hv.readBy [] (fun c hc => by cases hc)
  rw [List.append_nil] at hread
  rw [Value.read, Value.compact, String.toList_ofList, hread]
  rfl

end TemplateLint.Json
