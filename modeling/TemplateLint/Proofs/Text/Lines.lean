import TemplateLint.Proofs.Text.Scan
import TemplateLint.Text.Checked

namespace TemplateLint.Text

theorem before_size (s t : List Char) : before (size s) (s ++ t) = (s, 0) := by
  induction s with
  | nil =>
    cases t with
    | nil => rfl
    | cons c t =>
      have hpos : ¬ c.utf8Size ≤ 0 := Nat.not_le.2 c.utf8Size_pos
      simp [before, hpos]
  | cons c s ih => simp [before, ih]

/-- A place between two characters: lines count the line feeds before it, columns the characters of
its line. -/
theorem positionAt_size (s t : List Char) :
    positionAt (size s) (s ++ t) = ⟨1 + s.count '\n', (lastLine s).length⟩ := by
  rw [positionAt, before_size]
  rfl

/-- A text is lines that each end, and then a last line. -/
structure Lines (s lines line : List Char) : Prop where
  eq : s = lines ++ line
  ended : lines = [] ∨ ∃ full, lines = full ++ ['\n']
  unbroken : '\n' ∉ line

theorem lines_lastLine (s : List Char) : ∃ lines, Lines s lines (lastLine s) := by
  obtain ⟨hs, hline, hstop⟩ := eq_of_run (p := (· != '\n')) (s := s.reverse) rfl
  refine ⟨(s.reverse.dropWhile (· != '\n')).reverse, ?_, ?_, ?_⟩
  · rw [lastLine, ← List.reverse_append, ← hs, List.reverse_reverse]
  · cases hrest : s.reverse.dropWhile (· != '\n') with
    | nil => exact .inl rfl
    | cons c rest =>
      rw [hrest, opens_cons] at hstop
      obtain rfl : c = '\n' := by simpa using hstop
      exact .inr ⟨rest.reverse, List.reverse_cons⟩
  · intro hmem
    have hne := hline '\n' (List.mem_reverse.1 hmem)
    simp at hne

theorem Lines.count {s lines line : List Char} (h : Lines s lines line) :
    s.count '\n' = lines.count '\n' := by
  rw [h.eq, List.count_append, List.count_eq_zero_of_not_mem h.unbroken, Nat.add_zero]

theorem length_splitOn (cs : List Char) : (cs.splitOn '\n').length = lineCount cs := by
  induction cs with
  | nil => rfl
  | cons c cs ih =>
    rw [lineCount] at ih ⊢
    rw [List.splitOn_cons_eq_if_modifyHead]
    by_cases hc : c = '\n'
    · simp [hc, ih, Nat.add_assoc]
    · simp [hc, ih]

/-- The first line goes on with what has no line feed. -/
theorem splitOn_unbroken {line : List Char} (h : '\n' ∉ line) (t : List Char) :
    ∃ more lines, (line ++ t).splitOn '\n' = (line ++ more) :: lines := by
  obtain ⟨ht, hmore, hrest⟩ := eq_of_run (p := (· != '\n')) (s := t) rfl
  have hunbroken : '\n' ∉ line ++ t.takeWhile (· != '\n') := by
    rw [List.mem_append, not_or]
    exact ⟨h, fun hmem => by simpa using hmore '\n' hmem⟩
  rw [ht, ← List.append_assoc]
  cases hd : t.dropWhile (· != '\n') with
  | nil => exact ⟨_, [], by rw [List.append_nil, List.splitOn_eq_singleton hunbroken]⟩
  | cons c rest =>
    rw [hd, opens_cons] at hrest
    obtain rfl : c = '\n' := by simpa using hrest
    exact ⟨_, _, List.splitOn_append_cons_self_of_not_mem hunbroken rest⟩

/-- A place between two characters is in a line of the text, or at its end. -/
theorem positionAt_within (s t : List Char) :
    1 ≤ (positionAt (size s) (s ++ t)).line ∧
      (positionAt (size s) (s ++ t)).line ≤ lineCount (s ++ t) ∧
      ∃ line, ((s ++ t).splitOn '\n')[(positionAt (size s) (s ++ t)).line - 1]? = some line ∧
        (positionAt (size s) (s ++ t)).column ≤ line.length := by
  obtain ⟨lines, hlines⟩ := lines_lastLine s
  obtain ⟨more, rest, hsplit⟩ := splitOn_unbroken hlines.unbroken t
  have hentry : ((s ++ t).splitOn '\n')[s.count '\n']? = some (lastLine s ++ more) := by
    have hs : s ++ t = lines ++ (lastLine s ++ t) := by rw [← List.append_assoc, ← hlines.eq]
    rw [hlines.count, hs]
    rcases hlines.ended with rfl | ⟨full, rfl⟩
    · rw [List.nil_append, hsplit]
      rfl
    · have hcount : (full ++ ['\n']).count '\n' = (full.splitOn '\n').length := by
        rw [length_splitOn, lineCount, List.count_append, Nat.add_comm]
        rfl
      rw [List.append_assoc, List.singleton_append, List.splitOn_append_cons_self, hcount,
        List.getElem?_append_right (Nat.le_refl _), Nat.sub_self, hsplit]
      rfl
  rw [positionAt_size, lineCount, List.count_append, Nat.add_sub_cancel_left]
  refine ⟨Nat.le_add_right _ _, Nat.add_le_add_left (Nat.le_add_right _ _) 1, _, hentry, ?_⟩
  rw [List.length_append]
  exact Nat.le_add_right _ _

theorem lineStartsFrom_append (k : Nat) (s t : List Char) :
    lineStartsFrom k (s ++ t) = lineStartsFrom k s ++ lineStartsFrom (k + size s) t := by
  induction s generalizing k with
  | nil => rfl
  | cons c s ih =>
    rw [List.cons_append, lineStartsFrom, lineStartsFrom]
    split
    · next hc =>
      have hsize : '\n'.utf8Size = 1 := rfl
      rw [ih, hc, size_cons, hsize, List.cons_append, Nat.add_assoc]
    · rw [ih, size_cons, Nat.add_assoc]

theorem lineStartsFrom_unbroken {s : List Char} (h : '\n' ∉ s) (k : Nat) :
    lineStartsFrom k s = [] := by
  induction s generalizing k with
  | nil => rfl
  | cons c s ih =>
    obtain ⟨hc, hs⟩ := not_or.1 (mt List.mem_cons.2 h)
    rw [lineStartsFrom, if_neg (Ne.symm hc), ih hs]

theorem length_lineStartsFrom (k : Nat) (s : List Char) :
    (lineStartsFrom k s).length = s.count '\n' := by
  induction s generalizing k with
  | nil => rfl
  | cons c s ih =>
    rw [lineStartsFrom]
    split
    · next hc => rw [hc, List.length_cons, ih, List.count_cons_self]
    · next hc => rw [ih, List.count_cons_of_ne hc]

theorem of_mem_lineStartsFrom {n k : Nat} {s : List Char} (h : n ∈ lineStartsFrom k s) :
    k < n ∧ n ≤ k + size s := by
  induction s generalizing k with
  | nil => cases h
  | cons c s ih =>
    have hpos := c.utf8Size_pos
    rw [lineStartsFrom] at h
    rw [size_cons]
    split at h
    · rcases List.mem_cons.1 h with rfl | h
      · omega
      · have hmem := ih h
        omega
    · have hmem := ih h
      omega

/-- Of full lines the last offset at which a line starts is their end. -/
theorem lineStarts_ended {lines : List Char} (h : lines = [] ∨ ∃ full, lines = full ++ ['\n']) :
    ∃ front, lineStarts lines = front ++ [size lines] ∧ front.length = lines.count '\n' ∧
      ∀ n ∈ front, n < size lines := by
  rcases h with rfl | ⟨full, rfl⟩
  · exact ⟨[], rfl, rfl, by simp⟩
  · have hsize : size (full ++ ['\n']) = size full + 1 := Text.size_append full ['\n']
    refine ⟨lineStarts full, ?_, ?_, ?_⟩
    · rw [lineStarts, lineStartsFrom_append, hsize, Nat.zero_add]
      rfl
    · rw [lineStarts, List.length_cons, length_lineStartsFrom, List.count_append]
      rfl
    · intro n hn
      rw [hsize]
      rcases List.mem_cons.1 hn with rfl | hn
      · exact Nat.succ_pos _
      · have hmem := of_mem_lineStartsFrom hn
        omega

/-- In an increasing list the search finds the last number that is not greater. -/
theorem Search.line_of {front more : List Nat} {a n : Nat} (hfront : ∀ x ∈ front, x < a)
    (ha : a ≤ n) (hmore : ∀ x ∈ more, n < x) :
    (Search.of n (front ++ a :: more)).line = .ok front.length := by
  have hless : ∀ x ∈ front, x ≠ n := fun x hx => Nat.ne_of_lt (Nat.lt_of_lt_of_le (hfront x hx) ha)
  have hcount : (front ++ a :: more).countP (· < n) = front.length + if a < n then 1 else 0 := by
    have hall : front.countP (· < n) = front.length :=
      List.countP_eq_length.2 fun x hx =>
        decide_eq_true (Nat.lt_of_lt_of_le (hfront x hx) ha)
    have hnone : more.countP (· < n) = 0 :=
      List.countP_eq_zero.2 fun x hx => by simpa using Nat.le_of_lt (hmore x hx)
    simp [List.countP_append, List.countP_cons, hall, hnone]
  have hindex : (front ++ a :: more).idxOf? n = if a = n then some front.length else none := by
    clear hcount hfront
    induction front with
    | nil =>
      by_cases han : a = n
      · simp [han, List.idxOf?_cons]
      · have hmem : n ∉ more := fun h => Nat.lt_irrefl n (hmore n h)
        simp [han, List.idxOf?_cons, List.idxOf?_eq_none_iff.2 hmem]
    | cons x front ih =>
      have hx : x ≠ n := hless x List.mem_cons_self
      rw [List.cons_append, List.idxOf?_cons, ih fun y hy => hless y (List.mem_cons_of_mem x hy)]
      by_cases han : a = n <;> simp [hx, han]
  unfold Search.of
  rw [hindex, hcount]
  by_cases han : a = n
  · simp [han, Search.line]
  · have hlt : a < n := Nat.lt_of_le_of_ne ha han
    simp [han, hlt, Search.line, minus]

/-- The line that is looked up is the one that the text before the offset ends in, when no line starts
between that text and the offset. Looking it up takes no step that cannot be made. -/
theorem lookup_line {s t lines : List Char} (hlines : Lines s lines (lastLine s)) {k : Nat}
    (hnext : ∀ n ∈ lineStartsFrom (size s) t, size s + k < n) (hk : k ≤ size t) :
    lookup (lineStarts (s ++ t)) (size s + k) (s ++ t) =
      .ok ⟨1 + s.count '\n', match slice? ⟨size lines, size s + k⟩ (s ++ t) with
        | some text => text.length
        | none => size (lastLine s) + k⟩ := by
  obtain ⟨front, hstarts, hlength, hfront⟩ := lineStarts_ended hlines.ended
  have hs : size s = size lines + size (lastLine s) := by
    rw [← Text.size_append, ← hlines.eq]
  have hall : lineStarts (s ++ t) = front ++ size lines :: lineStartsFrom (size s) t := by
    rw [lineStarts, lineStartsFrom_append, Nat.zero_add]
    conv => lhs; rw [hlines.eq, lineStartsFrom_append, lineStartsFrom_unbroken hlines.unbroken]
    rw [List.append_nil, ← List.cons_append, ← hlines.eq]
    rw [lineStarts] at hstarts
    rw [hstarts, List.append_assoc]
    rfl
  have hline : (Search.of (size s + k) (lineStarts (s ++ t))).line = .ok front.length := by
    rw [hall]
    exact Search.line_of hfront (by omega) hnext
  have hstart : entry (lineStarts (s ++ t)) front.length = .ok (size lines) := by
    rw [entry, hall, List.getElem?_append_right (Nat.le_refl _), Nat.sub_self]
    rfl
  have hmin : min (size s + k) (size (s ++ t)) = size s + k := by
    rw [Text.size_append]
    omega
  have hbytes : minus (size s + k) (size lines) = .ok (size (lastLine s) + k) := by
    rw [minus, if_pos (by omega)]
    exact congrArg _ (by omega)
  rw [hlines.count, Nat.add_comm 1, ← hlength]
  unfold lookup
  rw [hmin]
  change ((Search.of (size s + k) (lineStarts (s ++ t))).line >>= _) = _
  rw [hline]
  change (entry (lineStarts (s ++ t)) front.length >>= _) = _
  rw [hstart]
  change (minus (size s + k) (size lines) >>= _) = _
  rw [hbytes]
  rfl

/-- Between two characters the place that is looked up is the one that is counted, and looking it up
takes no step that cannot be made. -/
theorem lookup_size (s t : List Char) :
    lookup (lineStarts (s ++ t)) (size s) (s ++ t) = .ok (positionAt (size s) (s ++ t)) := by
  obtain ⟨lines, hlines⟩ := lines_lastLine s
  have hslice : slice? ⟨size lines, size s⟩ (s ++ t) = some (lastLine s) := by
    have h := slice?_append lines (lastLine s) t
    rwa [← List.append_assoc, ← hlines.eq, ← Text.size_append, ← hlines.eq] at h
  have hlookup := lookup_line hlines (t := t) (k := 0)
    (fun n hn => (of_mem_lineStartsFrom hn).1) (Nat.zero_le _)
  rw [Nat.add_zero, hslice] at hlookup
  rw [hlookup, positionAt_size]

end TemplateLint.Text
