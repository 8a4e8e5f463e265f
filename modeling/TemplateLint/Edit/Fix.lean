import TemplateLint.Text.Span

namespace TemplateLint

/-- Puts `replacement` where `range` was. -/
structure Fix where
  range : Span
  replacement : String
  deriving DecidableEq, Repr, Inhabited

namespace Fix

def insert (offset : Nat) (text : String) : Fix := ⟨⟨offset, offset⟩, text⟩

def delete (range : Span) : Fix := ⟨range, ""⟩

/-- Two fixes conflict when their ranges overlap or start at the same offset. -/
def conflictsWith (f g : Fix) : Bool :=
  f.range.start == g.range.start ||
    (f.range.start < g.range.stop && g.range.start < f.range.stop)

/-- Whether the range of a fix has a text in the source. -/
def fits (cs : List Char) (f : Fix) : Bool :=
  f.range.start ≤ f.range.stop && Text.isBoundary f.range.start cs &&
    Text.isBoundary f.range.stop cs

/-- Fixes are ordered by where they start, and those that start together by where they end. -/
def le (f g : Fix) : Bool :=
  f.range.start < g.range.start ||
    (f.range.start == g.range.start && f.range.stop ≤ g.range.stop)

/-- The fixes in order; those of one range stay as they were. -/
def sort (fixes : List Fix) : List Fix := fixes.mergeSort le

/-- The text between `start` and `stop` with each fix in place of its range. Text that no fix covers
is kept; a range without a text gives none. -/
def splice (cs : List Char) (start stop : Nat) : List Fix → List Char
  | [] => (Text.slice? ⟨start, stop⟩ cs).getD []
  | f :: fs =>
    (Text.slice? ⟨start, f.range.start⟩ cs).getD [] ++ f.replacement.toList ++
      splice cs f.range.stop stop fs

theorem conflictsWith_comm (f g : Fix) : f.conflictsWith g = g.conflictsWith f := by
  simp only [conflictsWith, Bool.and_comm (decide (f.range.start < g.range.stop)), BEq.comm]

end Fix

end TemplateLint
