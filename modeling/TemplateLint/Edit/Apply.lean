import TemplateLint.Edit.Fix

namespace TemplateLint

/-- What came of applying fixes: the new text, and which fixes are in it. -/
structure FixOutcome where
  output : String
  applied : List Fix
  skipped : List Fix
  deriving DecidableEq, Repr

def FixOutcome.isChanged (o : FixOutcome) : Bool := !o.applied.isEmpty

/-- A range that has no text in a source of `size` bytes. -/
structure Misfit where
  range : Span
  size : Nat
  deriving DecidableEq, Repr

def Misfit.message (m : Misfit) : String :=
  "fix range " ++ toString m.range.start ++ ".." ++ toString m.range.stop ++
    " is outside the source (" ++ toString m.size ++ " bytes)"

namespace Fix

/-- Splits fixes in order into those that are taken and those that conflict with the one taken just
before. -/
def choose (last : Option Fix) : List Fix → List Fix × List Fix
  | [] => ([], [])
  | f :: fs =>
    if last.any (conflictsWith · f) then
      let (applied, skipped) := choose last fs
      (applied, f :: skipped)
    else
      let (applied, skipped) := choose (some f) fs
      (f :: applied, skipped)

/-- Applies all fixes that do not conflict. It fails at the first fix in order that does not fit. -/
def applyAll (source : String) (fixes : List Fix) : Except Misfit FixOutcome :=
  let cs := source.toList
  let ordered := sort fixes
  match ordered.find? fun f => !f.fits cs with
  | some f => .error ⟨f.range, Text.size cs⟩
  | none =>
    let (applied, skipped) := choose none ordered
    .ok ⟨String.ofList (splice cs 0 (Text.size cs) applied), applied, skipped⟩

end Fix

end TemplateLint
