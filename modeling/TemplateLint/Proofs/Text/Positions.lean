import Mathlib.Data.List.Nodup
import TemplateLint.Proofs.Text.Bytes
import TemplateLint.Proofs.Text.Lines

namespace TemplateLint

/-- The first place is on an earlier line, or before the second on the same line. -/
def Position.Before (p q : Position) : Prop :=
  p.line < q.line ∨ p.line = q.line ∧ p.column < q.column

theorem Position.Before.ne {p q : Position} (h : p.Before q) : p ≠ q := by
  rintro rfl
  unfold Before at h
  omega

namespace Text

/-- A later line starts at a greater offset. -/
theorem lineStarts_pairwise (cs : List Char) : (lineStarts cs).Pairwise (· < ·) := by
  have hfrom : ∀ (cs : List Char) (k : Nat), (lineStartsFrom k cs).Pairwise (· < ·) := by
    intro cs
    induction cs with
    | nil => exact fun _ => .nil
    | cons c cs ih =>
      intro k
      rw [lineStartsFrom]
      split
      · exact List.pairwise_cons.2 ⟨fun n hn => (of_mem_lineStartsFrom hn).1, ih _⟩
      · exact ih _
  exact List.pairwise_cons.2 ⟨fun n hn => (of_mem_lineStartsFrom hn).1, hfrom cs 0⟩

/-- What a binary search of a list promises: an entry that is the number, or the place where the
number would have to be put in. -/
def Search.Meets (n : Nat) (ns : List Nat) : Search → Prop
  | .found i => ns[i]? = some n
  | .missing i => i ≤ ns.length ∧ (∀ a ∈ ns.take i, a < n) ∧ ∀ a ∈ ns.drop i, n < a

theorem Search.of_meets {n : Nat} {ns : List Nat} (h : ns.Pairwise (· < ·)) :
    (Search.of n ns).Meets n ns := by
  unfold Search.of
  split
  · next i hi =>
    obtain ⟨hlt, hget, -⟩ := List.idxOf?_eq_some_iff.1 hi
    exact List.getElem?_eq_some_iff.2 ⟨hlt, hget⟩
  · next hnone =>
    have hmem : n ∉ ns := List.idxOf?_eq_none_iff.1 hnone
    clear hnone
    induction ns with
    | nil => exact ⟨Nat.le_refl _, by simp, by simp⟩
    | cons a ns ih =>
      obtain ⟨ha, hns⟩ := List.pairwise_cons.1 h
      obtain ⟨hne, hmem⟩ := not_or.1 (mt List.mem_cons.2 hmem)
      by_cases hlt : a < n
      · obtain ⟨hle, htake, hdrop⟩ := ih hns hmem
        have hcount : (a :: ns).countP (· < n) = ns.countP (· < n) + 1 :=
          List.countP_cons_of_pos (decide_eq_true hlt)
        rw [hcount]
        exact ⟨Nat.succ_le_succ hle, List.forall_mem_cons.2 ⟨hlt, htake⟩, hdrop⟩
      · -- the number is less than the first entry, and so than all
        have hall : ∀ b ∈ a :: ns, n < b :=
          List.forall_mem_cons.2 ⟨by omega, fun b hb => Nat.lt_trans (by omega) (ha b hb)⟩
        have hcount : (a :: ns).countP (· < n) = 0 :=
          List.countP_eq_zero.2 fun b hb => by simpa using Nat.le_of_lt (hall b hb)
        rw [hcount]
        exact ⟨Nat.zero_le _, by simp, hall⟩

theorem Search.Meets.not_mem {n i : Nat} {ns : List Nat} (h : (Search.missing i).Meets n ns) :
    n ∉ ns := by
  obtain ⟨-, htake, hdrop⟩ := h
  intro hmem
  rw [← List.take_append_drop i ns, List.mem_append] at hmem
  rcases hmem with hmem | hmem
  · exact Nat.lt_irrefl n (htake n hmem)
  · exact Nat.lt_irrefl n (hdrop n hmem)

theorem Search.Meets.le {n i j : Nat} {ns : List Nat} (hi : (Search.missing i).Meets n ns)
    (hj : (Search.missing j).Meets n ns) : i ≤ j := by
  refine Nat.le_of_not_lt fun hlt => ?_
  have hj' : j < ns.length := Nat.lt_of_lt_of_le hlt hi.1
  have htake : ns[j] < n := hi.2.1 _ (List.mem_take_iff_getElem.2 ⟨j, by omega, rfl⟩)
  have hdrop : n < ns[j] := hj.2.2 _ (List.mem_drop_iff_getElem.2 ⟨0, by omega, rfl⟩)
  omega

/-- In an increasing list there is one result that meets the promise. -/
theorem Search.meets_iff {n : Nat} {ns : List Nat} (h : ns.Pairwise (· < ·)) (r : Search) :
    r.Meets n ns ↔ r = Search.of n ns := by
  refine ⟨fun hr => ?_, fun hr => hr ▸ Search.of_meets h⟩
  have hof := Search.of_meets (n := n) h
  generalize Search.of n ns = q at hof
  match r, q, hr, hof with
  | .found i, .found j, hi, hj =>
    obtain ⟨hi, hget⟩ := List.getElem?_eq_some_iff.1 hi
    obtain ⟨hj, hget'⟩ := List.getElem?_eq_some_iff.1 hj
    have hnodup : ns.Nodup := h.imp Nat.ne_of_lt
    exact congrArg _ (hnodup.getElem_inj_iff.1 (hget.trans hget'.symm))
  | .found i, .missing j, hi, hj => exact absurd (List.mem_of_getElem? hi) hj.not_mem
  | .missing i, .found j, hi, hj => exact absurd (List.mem_of_getElem? hj) hi.not_mem
  | .missing i, .missing j, hi, hj => exact congrArg _ (Nat.le_antisymm (hi.le hj) (hj.le hi))

/-- The line of the byte offset `n` starts at `start`: at the front of the text or behind a line feed,
and from there up to `n` there is no line feed. -/
structure LineStart (cs : List Char) (n start : Nat) : Prop where
  le : start ≤ n
  behind : start = 0 ∨ (bytes cs)[start - 1]? = some '\n'.toUInt8
  unbroken : ∀ i, start ≤ i → i < n → (bytes cs)[i]? ≠ some '\n'.toUInt8

/-- The place counts the line feeds among the first `n` bytes, and the characters from the start of
the line up to `n`, or the bytes when `n` is inside a character. -/
structure Counted (cs : List Char) (n : Nat) (p : Position) : Prop where
  line : p.line = 1 + ((bytes cs).take n).count '\n'.toUInt8
  column : ∃ start, LineStart cs n start ∧
    (isBoundary n cs = true → ∃ text, slice? ⟨start, n⟩ cs = some text ∧ p.column = text.length) ∧
    (isBoundary n cs = false → p.column = n - start)

theorem isBoundary_size (s t : List Char) : isBoundary (size s) (s ++ t) = true := by
  rw [isBoundary, splitAt?_append]
  rfl

theorem exists_of_isBoundary {n : Nat} {cs : List Char} (h : isBoundary n cs = true) :
    ∃ s t, cs = s ++ t ∧ n = size s := by
  obtain ⟨⟨s, t⟩, hsplit⟩ := Option.isSome_iff_exists.1 h
  exact ⟨s, t, splitAt?_eq_some_iff.1 hsplit⟩

theorem splitAt?_inside (s t : List Char) {c : Char} {k : Nat} (hpos : 0 < k)
    (hk : k < c.utf8Size) : splitAt? (size s + k) (s ++ c :: t) = none := by
  induction s with
  | nil =>
    have hzero : k ≠ 0 := Nat.ne_of_gt hpos
    have hle : ¬ c.utf8Size ≤ k := Nat.not_le.2 hk
    simp [splitAt?, hzero, hle]
  | cons d s ih =>
    have hne : d.utf8Size + size s + k ≠ 0 := by omega
    have hle : d.utf8Size ≤ d.utf8Size + size s + k := by omega
    have hsub : d.utf8Size + size s + k - d.utf8Size = size s + k := by omega
    rw [List.cons_append, splitAt?, size_cons, if_neg hne, if_pos hle, hsub, ih]
    rfl

theorem before_inside (s t : List Char) {c : Char} {k : Nat} (hk : k < c.utf8Size) :
    before (size s + k) (s ++ c :: t) = (s, k) := by
  induction s with
  | nil =>
    have hle : ¬ c.utf8Size ≤ k := Nat.not_le.2 hk
    simp [before, hle]
  | cons d s ih =>
    have hle : d.utf8Size ≤ d.utf8Size + size s + k := by omega
    have hsub : d.utf8Size + size s + k - d.utf8Size = size s + k := by omega
    rw [List.cons_append, before, size_cons, if_pos hle, hsub, ih]

/-- Inside a character the column counts bytes. -/
theorem positionAt_inside (s t : List Char) {c : Char} {k : Nat} (hpos : 0 < k)
    (hk : k < c.utf8Size) :
    positionAt (size s + k) (s ++ c :: t) = ⟨1 + s.count '\n', size (lastLine s) + k⟩ := by
  rw [positionAt, before_inside s t hk]
  dsimp only
  rw [if_neg (Nat.ne_of_gt hpos)]

theorem lineFeed_size : '\n'.utf8Size = 1 := rfl

theorem lineFeed_not_mem_bytes {s : List Char} (h : '\n' ∉ s) : '\n'.toUInt8 ∉ bytes s := by
  rw [← List.count_eq_zero, count_bytes lineFeed_size]
  exact List.count_eq_zero_of_not_mem h

/-- The last line before an offset starts behind the full lines, when the bytes between that line and
the offset hold no line feed. -/
theorem Lines.lineStart {s lines line : List Char} (h : Lines s lines line) {t : List Char}
    {more : List UInt8} (hmore : '\n'.toUInt8 ∉ more)
    (htake : (bytes (s ++ t)).take (size s + more.length) = bytes s ++ more) :
    LineStart (s ++ t) (size s + more.length) (size lines) := by
  have hs : size s = size lines + size line := by rw [← Text.size_append, ← h.eq]
  refine ⟨by omega, ?_, fun i hi hlt hget => ?_⟩
  · rcases h.ended with rfl | ⟨full, rfl⟩
    · exact .inl rfl
    · right
      have hsize : size (full ++ ['\n']) - 1 = (bytes full).length := by
        rw [Text.size_append, length_bytes]
        rfl
      rw [hsize, h.eq]
      simp only [bytes_append, List.append_assoc]
      rw [List.getElem?_append_right (Nat.le_refl _), Nat.sub_self]
      rfl
  · have hline : '\n'.toUInt8 ∈ bytes line ++ more := by
      have htaken : (bytes s ++ more)[i]? = some '\n'.toUInt8 := by
        rw [← htake, List.getElem?_take_of_lt hlt, hget]
      rw [h.eq, bytes_append, List.append_assoc,
        List.getElem?_append_right (by rwa [length_bytes])] at htaken
      exact List.mem_of_getElem? htaken
    rcases List.mem_append.1 hline with hline | hline
    · exact lineFeed_not_mem_bytes h.unbroken hline
    · exact hmore hline

theorem counted_size (s t : List Char) : Counted (s ++ t) (size s) (positionAt (size s) (s ++ t)) := by
  obtain ⟨lines, hlines⟩ := lines_lastLine s
  rw [positionAt_size]
  refine ⟨?_, size lines, ?_, fun _ => ⟨lastLine s, ?_, rfl⟩, fun h => ?_⟩
  · rw [take_bytes_size, count_bytes lineFeed_size]
  · have hempty : '\n'.toUInt8 ∉ ([] : List UInt8) := List.not_mem_nil
    exact hlines.lineStart hempty (by simp)
  · have hslice := slice?_append lines (lastLine s) t
    rwa [← List.append_assoc, ← hlines.eq, ← Text.size_append, ← hlines.eq] at hslice
  · rw [isBoundary_size] at h
    cases h

theorem counted_inside (s t : List Char) {c : Char} {k : Nat} (hpos : 0 < k)
    (hk : k < c.utf8Size) :
    Counted (s ++ c :: t) (size s + k) (positionAt (size s + k) (s ++ c :: t)) := by
  obtain ⟨lines, hlines⟩ := lines_lastLine s
  have hlow : '\n'.toUInt8 ∉ (String.utf8EncodeChar c).take k := by
    intro hmem
    have hhigh := high_of_mem_encode (by omega) (List.mem_of_mem_take hmem)
    exact absurd hhigh (by decide)
  have htake := take_bytes_inside s t c (Nat.le_of_lt hk)
  have hlength : ((String.utf8EncodeChar c).take k).length = k := by
    rw [List.length_take, String.length_utf8EncodeChar]
    omega
  have hs : size s = size lines + size (lastLine s) := by
    rw [← Text.size_append, ← hlines.eq]
  rw [positionAt_inside s t hpos hk]
  refine ⟨?_, size lines, ?_, fun h => ?_, fun _ => ?_⟩
  · rw [htake, List.count_append, count_bytes lineFeed_size,
      List.count_eq_zero_of_not_mem hlow, Nat.add_zero]
  · have hstart := hlines.lineStart (t := c :: t) hlow (by rw [hlength, htake])
    rwa [hlength] at hstart
  · rw [isBoundary, splitAt?_inside s t hpos hk] at h
    cases h
  · dsimp only
    omega

/-- Inside a character too, the place that is looked up is the one that is counted. -/
theorem lookup_inside (s t : List Char) {c : Char} {k : Nat} (hpos : 0 < k)
    (hk : k < c.utf8Size) :
    lookup (lineStarts (s ++ c :: t)) (size s + k) (s ++ c :: t) =
      .ok (positionAt (size s + k) (s ++ c :: t)) := by
  obtain ⟨lines, hlines⟩ := lines_lastLine s
  have hc : c ≠ '\n' := by
    rintro rfl
    rw [lineFeed_size] at hk
    omega
  have hnext : ∀ n ∈ lineStartsFrom (size s) (c :: t), size s + k < n := by
    intro n hn
    rw [lineStartsFrom, if_neg hc] at hn
    have hn := (of_mem_lineStartsFrom hn).1
    omega
  have hslice : slice? ⟨size lines, size s + k⟩ (s ++ c :: t) = none := by
    have hs : size s + k - size lines = size (lastLine s) + k := by
      have hs : size s = size lines + size (lastLine s) := by
        rw [← Text.size_append, ← hlines.eq]
      omega
    have hsplit : splitAt? (size lines) (s ++ c :: t) = some (lines, lastLine s ++ c :: t) := by
      conv => lhs; rw [hlines.eq, List.append_assoc, splitAt?_append]
    rw [slice?, hsplit, hs]
    simp [splitAt?_inside _ _ hpos hk]
  have hlookup := lookup_line hlines hnext (by rw [size_cons]; omega)
  rw [hslice] at hlookup
  rw [hlookup, positionAt_inside s t hpos hk]

theorem lastLine_append {s w : List Char} (h : '\n' ∉ w) : lastLine (s ++ w) = lastLine s ++ w := by
  have hw : ∀ c ∈ w.reverse, (c != '\n') = true := by
    intro c hc
    rw [bne_iff_ne]
    rintro rfl
    exact h (List.mem_reverse.1 hc)
  rw [lastLine, lastLine, List.reverse_append, List.takeWhile_append_of_pos hw,
    List.reverse_append, List.reverse_reverse]

/-- With more text before it a place is later. -/
theorem positionAt_before {s w t : List Char} (h : w ≠ []) :
    (positionAt (size s) (s ++ (w ++ t))).Before
      (positionAt (size (s ++ w)) (s ++ w ++ t)) := by
  rw [positionAt_size, positionAt_size, Position.Before, List.count_append]
  by_cases hw : '\n' ∈ w
  · have hpos := List.count_pos_iff.2 hw
    left
    dsimp only
    omega
  · have hpos := List.length_pos_of_ne_nil h
    right
    rw [List.count_eq_zero_of_not_mem hw, lastLine_append hw, List.length_append]
    dsimp only
    omega

theorem before_past {n : Nat} {cs : List Char} (h : size cs ≤ n) : before n cs = (cs, 0) := by
  induction cs generalizing n with
  | nil => rfl
  | cons c cs ih =>
    rw [size_cons] at h
    rw [before, if_pos (by omega), ih (by omega)]

/-- An offset past the end has the place of the end. -/
theorem positionAt_min (n : Nat) (cs : List Char) :
    positionAt (min n (size cs)) cs = positionAt n cs := by
  rcases Nat.le_total n (size cs) with h | h
  · rw [Nat.min_eq_left h]
  · rw [Nat.min_eq_right h, positionAt, positionAt, before_past h, before_past (Nat.le_refl _)]

theorem lookup_min (starts : List Nat) (n : Nat) (cs : List Char) :
    lookup starts (min n (size cs)) cs = lookup starts n cs := by
  rw [lookup, lookup, Nat.min_assoc, Nat.min_self]

/-- For every offset the place that is looked up is the one that the bytes before the offset give, up
to the end of the text. No step of looking it up is one that cannot be made, and the table is in
increasing order, so that the search in it has one result. A later offset between two characters has a
later place, and so no two of them have the same. -/
theorem lookup_counts (cs : List Char) :
    (∀ n r, r.Meets n (lineStarts cs) ↔ r = Search.of n (lineStarts cs)) ∧
      (∀ n, lookup (lineStarts cs) n cs = .ok (positionAt n cs) ∧
        Counted cs (min n (size cs)) (positionAt n cs)) ∧
      ∀ m n, isBoundary m cs = true → isBoundary n cs = true →
        (m < n → (positionAt m cs).Before (positionAt n cs)) ∧
          (positionAt m cs = positionAt n cs → m = n) := by
  have hbefore : ∀ m n, isBoundary m cs = true → isBoundary n cs = true → m < n →
      (positionAt m cs).Before (positionAt n cs) := by
    intro m n hm hn hlt
    obtain ⟨s, t, rfl, rfl⟩ := exists_of_isBoundary hm
    obtain ⟨u, v, hcs, rfl⟩ := exists_of_isBoundary hn
    obtain ⟨w, rfl, rfl⟩ := front_of_size_le hcs (Nat.le_of_lt hlt)
    have hw : w ≠ [] := by
      rintro rfl
      rw [List.append_nil] at hlt
      exact Nat.lt_irrefl _ hlt
    rw [hcs]
    conv => lhs; rw [List.append_assoc]
    exact positionAt_before hw
  refine ⟨fun n r => Search.meets_iff (lineStarts_pairwise cs) r, fun n => ?_, fun m n hm hn => ?_⟩
  · rw [← positionAt_min, ← lookup_min]
    rcases boundary_or_inside (Nat.min_le_right n (size cs)) with
      ⟨s, t, rfl, hn⟩ | ⟨s, c, t, k, rfl, hn, hpos, hk⟩
    · rw [hn]
      exact ⟨lookup_size s t, counted_size s t⟩
    · rw [hn]
      exact ⟨lookup_inside s t hpos hk, counted_inside s t hpos hk⟩
  · refine ⟨hbefore m n hm hn, fun heq => ?_⟩
    rcases Nat.lt_trichotomy m n with hlt | rfl | hlt
    · exact absurd heq (hbefore m n hm hn hlt).ne
    · rfl
    · exact absurd heq.symm (hbefore n m hn hm hlt).ne

/-- Two lines with a character of two bytes in each. -/
def twoLines : List Char := "é\nü".toList

/-- An offset inside the last character and one past the end have the same place; the line feed and
what follows it do not. -/
theorem lookup_counts_inside :
    lookup (lineStarts twoLines) 4 twoLines = .ok ⟨2, 1⟩ ∧
      lookup (lineStarts twoLines) 9 twoLines = .ok ⟨2, 1⟩ ∧
      isBoundary 2 twoLines = true ∧ isBoundary 3 twoLines = true ∧
      (⟨1, 1⟩ : Position).Before ⟨2, 0⟩ := by
  obtain ⟨-, hall, hlater⟩ := lookup_counts twoLines
  have hinside : positionAt 4 twoLines = ⟨2, 1⟩ := by decide
  have hpast : positionAt 9 twoLines = ⟨2, 1⟩ := by decide
  have hfeed : positionAt 2 twoLines = ⟨1, 1⟩ := by decide
  have hnext : positionAt 3 twoLines = ⟨2, 0⟩ := by decide
  refine ⟨hinside ▸ (hall 4).1, hpast ▸ (hall 9).1, by decide, by decide, ?_⟩
  rw [← hfeed, ← hnext]
  exact (hlater 2 3 (by decide) (by decide)).1 (by decide)

end Text

end TemplateLint
