
namespace TemplateLint

/-- What a deprecated argument becomes. -/
inductive Migration where
  /-- The plain attribute of this name. -/
  | attribute (name : String)
  /-- An `on` modifier for this event. -/
  | event (name : String)
  deriving DecidableEq, Repr

structure Deprecation where
  message : String
  fix : Option Migration
  deriving DecidableEq, Repr

/-- `text` between double braces. -/
def inBraces (text : String) : String := "\x7b\x7b" ++ text ++ "\x7d\x7d"

/-- The message for a deprecated argument of a component. -/
def Deprecation.text (component argument : String) (fix : Option Migration) : String :=
  let passing := "Passing the \"@" ++ argument ++ "\" argument to <" ++ component ++
    " /> is deprecated."
  let instead := "\" instead of \"<" ++ component ++ " @" ++ argument ++ "=" ++ inBraces "..." ++
    " />\"."
  match fix with
  | none => passing
  | some (.attribute name) =>
    passing ++ "\nInstead, please pass the attribute directly, i.e. \"<" ++ component ++ " " ++
      name ++ "=" ++ inBraces "..." ++ " />" ++ instead
  | some (.event name) =>
    passing ++ "\nInstead, please use the " ++ inBraces "on" ++ " modifier, i.e. \"<" ++
      component ++ " " ++ inBraces ("on \"" ++ name ++ "\" ...") ++ " />" ++ instead

/-- Which arguments a built-in component takes, and how those that it no longer takes are to be
written. -/
structure ComponentSchema where
  name : String
  /-- The arguments that it takes, those that are suggested first in front. -/
  knownArguments : List String
  /-- Of each group at least one has to be passed. -/
  requiredOneOf : List (List String)
  /-- Of each group at most one may be passed. -/
  conflictGroups : List (List String)
  deprecatedArguments : List (String × Deprecation)
  deprecatedEvents : List (String × Deprecation)

namespace ComponentSchema

def isKnown (c : ComponentSchema) (argument : String) : Bool := c.knownArguments.contains argument

/-- How an argument or an event is deprecated, if it is. -/
def deprecation? (c : ComponentSchema) (argument : String) : Option Deprecation :=
  (c.deprecatedArguments.lookup argument).or (c.deprecatedEvents.lookup argument)

/-- Deprecations in the order of the names. -/
def byName (deprecations : List (String × Deprecation)) : List (String × Deprecation) :=
  deprecations.mergeSort fun a b => a.1 ≤ b.1

end ComponentSchema

end TemplateLint
