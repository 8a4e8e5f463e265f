
namespace TemplateLint.Text

/-- What follows `mark` at the front of a text, when it stands there. -/
def after? : List Char → List Char → Option (List Char)
  | [], s => some s
  | _ :: _, [] => none
  | m :: mark, c :: s => if m = c then after? mark s else none

/-- Whether a text begins with `mark`. -/
def startsWith (mark s : List Char) : Bool := (after? mark s).isSome

/-- Takes one character if it stands here. -/
def eat (c : Char) : List Char → Bool × List Char
  | [] => (false, [])
  | d :: s => if d = c then (true, s) else (false, d :: s)

/-- The longest run of characters that satisfy `p`, and the rest. -/
def run (p : Char → Bool) (s : List Char) : List Char × List Char := (s.takeWhile p, s.dropWhile p)

/-- The text up to the first place where `stop` holds of what is left, or up to the end. -/
def scanTo (stop : List Char → Bool) : List Char → List Char × List Char
  | [] => ([], [])
  | c :: s =>
    if stop (c :: s) then ([], c :: s)
    else
      let (t, rest) := scanTo stop s
      (c :: t, rest)

@[simp] theorem after?_append (mark s : List Char) : after? mark (mark ++ s) = some s := by
  induction mark with
  | nil => cases s <;> rfl
  | cons m mark ih => simp [after?, ih]

theorem after?_eq_some_iff {mark s rest : List Char} :
    after? mark s = some rest ↔ s = mark ++ rest := by
  refine ⟨fun h => ?_, fun h => h ▸ after?_append mark rest⟩
  induction mark generalizing s with
  | nil => simpa [after?] using h
  | cons m mark ih =>
    cases s with
    | nil => simp [after?] at h
    | cons c s =>
      simp only [after?] at h
      split at h
      · next hc => rw [hc, ih h]; rfl
      · cases h

end TemplateLint.Text
