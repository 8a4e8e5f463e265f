import TemplateLint.Edit.Fix

namespace TemplateLint

/-- Edits that are to become one fix of `range`; they should lie in it and not overlap. -/
structure FixBuilder where
  source : String
  range : Span
  edits : List Fix

namespace FixBuilder

def new (source : String) (range : Span) : FixBuilder := ⟨source, range, []⟩

/-- The text of a range of the source. -/
def text (b : FixBuilder) (span : Span) : String := Text.slice span b.source

def replace (b : FixBuilder) (span : Span) (text : String) : FixBuilder :=
  { b with edits := b.edits ++ [⟨span, text⟩] }

/-- Exchanges the texts of two ranges. -/
def swap (b : FixBuilder) (first second : Span) : FixBuilder :=
  (b.replace first (b.text second)).replace second (b.text first)

/-- The whole range as a fix, with the edits put into its text in the order of their ranges. -/
def build (b : FixBuilder) : Fix :=
  ⟨b.range, String.ofList
    (Fix.splice b.source.toList b.range.start b.range.stop (Fix.sort b.edits))⟩

end FixBuilder

end TemplateLint
