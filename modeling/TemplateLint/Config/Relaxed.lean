import TemplateLint.Config.Reader
import TemplateLint.Json.Relaxed.Reader

namespace TemplateLint.Configuration

open Json

namespace Relaxed

open Json.Relaxed (Piece Written text? memberValues?)

/-- The value of `$schema`. -/
def schema? : Written → Option (Option String)
  | .null => some none
  | .string pieces => (text? pieces).map some
  | _ => none

/-- The value of `rules`. -/
def rules? : Written → Option RuleValues
  | .object ms => (memberValues? ms).map .ofMembers
  | _ => none

/-- The fields of the object form, each at most once. -/
def fields? (f : Fields) : List (List Piece × Written) → Option Fields
  | [] => some f
  | (pieces, w) :: ms => do
    let key ← text? pieces
    if key = "$schema" && f.schema.isNone then
      fields? { f with schema := some (← schema? w) } ms
    else if key = "rules" && f.rules.isNone then
      fields? { f with rules := some (← rules? w) } ms
    else none

/-- The fields of the array form. What comes after them need not stand for a value. -/
def elements? : List Written → Option Fields
  | [] => some ⟨none, none⟩
  | [schema] => do some ⟨some (← schema? schema), none⟩
  | schema :: rules :: _ => do some ⟨some (← schema? schema), some (← rules? rules)⟩

def document? : Written → Option Fields
  | .object ms => fields? ⟨none, none⟩ ms
  | .array items => elements? items
  | _ => none

end Relaxed

/-- The configuration whose document is the whole of a text. -/
def readRelaxed? (text : String) : Option Configuration := do
  let fields ← Relaxed.document? (← Json.Relaxed.read? text)
  some fields.configuration

end TemplateLint.Configuration
