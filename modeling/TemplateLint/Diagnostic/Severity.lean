
namespace TemplateLint

/-- From the least severe to the most. -/
inductive Severity where
  | info
  | hint
  | warning
  | error
  deriving DecidableEq, Repr

namespace Severity

def all : List Severity := [.info, .hint, .warning, .error]

def rank : Severity → Nat
  | .info => 0
  | .hint => 1
  | .warning => 2
  | .error => 3

def le (a b : Severity) : Bool := a.rank ≤ b.rank

def name : Severity → String
  | .info => "info"
  | .hint => "hint"
  | .warning => "warning"
  | .error => "error"

def ofName? (name : String) : Option Severity := all.find? fun s => s.name == name

instance : Inhabited Severity := ⟨.error⟩

def sort (severities : List Severity) : List Severity := severities.mergeSort le

/-- The most severe of a list. -/
def max? (severities : List Severity) : Option Severity := (sort severities).getLast?

end Severity

end TemplateLint
