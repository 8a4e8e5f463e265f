import TemplateLint.Text.Span

namespace TemplateLint

/-- A place in a text: lines count from one, columns from zero. -/
structure Position where
  line : Nat
  column : Nat
  deriving DecidableEq, Repr, Inhabited

namespace Text

/-- The characters that end at or before byte `n`, and the bytes of the next one that do. -/
def before (n : Nat) : List Char → List Char × Nat
  | [] => ([], 0)
  | c :: cs =>
    if c.utf8Size ≤ n then
      let (t, k) := before (n - c.utf8Size) cs
      (c :: t, k)
    else ([], n)

/-- What follows the last line feed. -/
def lastLine (cs : List Char) : List Char := (cs.reverse.takeWhile (· != '\n')).reverse

/-- The place of a byte offset, taken as the end of the text when past it. Inside a character the
column is the distance in bytes from the start of the line. -/
def positionAt (n : Nat) (cs : List Char) : Position :=
  let (t, k) := before n cs
  let line := lastLine t
  ⟨1 + t.count '\n', if k = 0 then line.length else size line + k⟩

/-- The number of lines; a text without a line feed is one line. -/
def lineCount (cs : List Char) : Nat := 1 + cs.count '\n'

end Text

end TemplateLint
