import TemplateLint.Text.Blank

namespace TemplateLint

/-- The bytes from `start` up to, and without, `stop`. -/
structure Span where
  start : Nat
  stop : Nat
  deriving DecidableEq, Repr, Inhabited

namespace Text

/-- The number of bytes that a text takes in UTF-8. -/
def size : List Char → Nat
  | [] => 0
  | c :: cs => c.utf8Size + size cs

@[simp] theorem size_nil : size [] = 0 := rfl

@[simp] theorem size_cons (c : Char) (cs : List Char) : size (c :: cs) = c.utf8Size + size cs := rfl

@[simp] theorem size_append (s t : List Char) : size (s ++ t) = size s + size t := by
  induction s with
  | nil => simp
  | cons c s ih => simp [ih, Nat.add_assoc]

theorem size_pos_of_ne_nil {cs : List Char} (h : cs ≠ []) : 0 < size cs := by
  cases cs with
  | nil => exact absurd rfl h
  | cons c cs => exact Nat.lt_add_right _ c.utf8Size_pos

/-- The text before and after `n` bytes; nothing when that is past the end or inside a character. -/
def splitAt? (n : Nat) : List Char → Option (List Char × List Char)
  | [] => if n = 0 then some ([], []) else none
  | c :: cs =>
    if n = 0 then some ([], c :: cs)
    else if c.utf8Size ≤ n then
      (splitAt? (n - c.utf8Size) cs).map fun p => (c :: p.1, p.2)
    else none

/-- Whether a byte offset lies between two characters, before the first or after the last. -/
def isBoundary (n : Nat) (cs : List Char) : Bool := (splitAt? n cs).isSome

/-- The text of a range, when the range has one. -/
def slice? (span : Span) (cs : List Char) : Option (List Char) :=
  if span.start ≤ span.stop then do
    let (_, rest) ← splitAt? span.start cs
    let (text, _) ← splitAt? (span.stop - span.start) rest
    some text
  else none

/-- The text of a range; empty when the range has none. -/
def slice (span : Span) (text : String) : String :=
  String.ofList ((slice? span text.toList).getD [])

theorem splitAt?_append (s t : List Char) : splitAt? (size s) (s ++ t) = some (s, t) := by
  induction s with
  | nil => cases t <;> simp [splitAt?]
  | cons c s ih =>
    simp [splitAt?, Nat.ne_of_gt c.utf8Size_pos, ih]

theorem eq_append_of_splitAt? {n : Nat} {cs s t : List Char} (h : splitAt? n cs = some (s, t)) :
    cs = s ++ t ∧ n = size s := by
  induction cs generalizing n s with
  | nil =>
    unfold splitAt? at h
    split at h
    · next hn => cases h; exact ⟨rfl, hn⟩
    · cases h
  | cons c cs ih =>
    unfold splitAt? at h
    split at h
    · next hn => cases h; exact ⟨rfl, hn⟩
    · split at h
      · next hle =>
        obtain ⟨⟨u, v⟩, hp, he⟩ := Option.map_eq_some_iff.1 h
        cases he
        obtain ⟨rfl, hs⟩ := ih hp
        exact ⟨rfl, by simp only [size_cons]; omega⟩
      · cases h

/-- A split at `n` bytes writes the text as two parts of which the first has `n` bytes. -/
theorem splitAt?_eq_some_iff {n : Nat} {cs s t : List Char} :
    splitAt? n cs = some (s, t) ↔ cs = s ++ t ∧ n = size s :=
  ⟨eq_append_of_splitAt?, fun ⟨h, hn⟩ => by rw [h, hn, splitAt?_append]⟩

theorem slice?_append (u w v : List Char) :
    slice? ⟨size u, size u + size w⟩ (u ++ (w ++ v)) = some w := by
  unfold slice?
  rw [if_pos (Nat.le_add_right _ _), splitAt?_append]
  simp [splitAt?_append]

end Text

end TemplateLint
