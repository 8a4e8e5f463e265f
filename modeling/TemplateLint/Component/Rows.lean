import TemplateLint.Component.Suggestion

namespace TemplateLint

/-- Two rows of a table of distances to the fronts of a text of `n` characters, the shortest front
first. -/
structure Rows (n : Nat) where
  /-- The row of the characters that are read. -/
  previous : Vector Nat (n + 1)
  /-- The row of one more character, which is being written. -/
  current : Vector Nat (n + 1)

namespace Rows

/-- Nothing is read, so every front has to be inserted. -/
def start (n : Nat) : Rows n := ⟨Vector.range (n + 1), Vector.replicate (n + 1) 0⟩

/-- Writes the place behind `j` in the row of a character, from the one before it and from the two
above. -/
def fill (bs : List Char) (previous : Vector Nat (bs.length + 1)) (c : Char) (j : Nat)
    (hj : j < bs.length) (current : Vector Nat (bs.length + 1)) : Vector Nat (bs.length + 1) :=
  let cost := if c = bs[j] then 0 else 1
  current.set (j + 1) (min (min (previous[j + 1] + 1) (current[j] + 1)) (previous[j] + cost))

/-- Reads a character that `i` others stand before. The two rows change places at the end. -/
def read (bs : List Char) (rows : Rows bs.length) (c : Char) (i : Nat) : Rows bs.length :=
  let current := rows.current.set 0 (i + 1)
  ⟨Nat.fold bs.length (fill bs rows.previous c) current, rows.previous⟩

end Rows

/-- The number of insertions, deletions and replacements of one character, by two rows. -/
def rowsDistance (as bs : List Char) : Nat :=
  (as.zipIdx.foldl (fun rows p => rows.read bs p.1 p.2) (Rows.start bs.length)).previous[bs.length]

/-- The best candidate after one more: a new one has to be near enough and nearer than the last. -/
def better (name : String) (best : Option (String × Nat)) (candidate : String) :
    Option (String × Nat) :=
  let distance := rowsDistance name.toList candidate.toList
  if distance ≤ maxSuggestionDistance && best.all (fun last => distance < last.2) then
    some (candidate, distance)
  else best

/-- The known argument to suggest, by one pass over all of them. -/
def ComponentSchema.scan? (c : ComponentSchema) (argument : String) : Option String :=
  (c.knownArguments.foldl (better argument) none).map Prod.fst

end TemplateLint
