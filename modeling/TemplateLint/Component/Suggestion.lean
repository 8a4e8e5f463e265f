import TemplateLint.Component.Schema

namespace TemplateLint

/-- The distances of `c :: as` to every end of `bs`, the longest end first, from those of `as`. -/
def distanceRow (c : Char) : List Char → List Nat → List Nat
  | [], below => [below.headD 0 + 1]
  | b :: bs, below =>
    let right := distanceRow c bs below.tail
    min (min (below.headD 0 + 1) (right.headD 0 + 1))
      (below.tail.headD 0 + if c = b then 0 else 1) :: right

/-- The lengths of every end of a list, the longest end first. -/
def lengths : List Char → List Nat
  | [] => [0]
  | _ :: bs => (bs.length + 1) :: lengths bs

/-- The distances of a list to every end of `bs`. -/
def distances (bs : List Char) : List Char → List Nat
  | [] => lengths bs
  | a :: as => distanceRow a bs (distances bs as)

/-- The least number of insertions, deletions and replacements of one character that turn one text
into the other. -/
def editDistance (as bs : List Char) : Nat := (distances bs as).headD 0

/-- How far from an argument a suggestion may be. -/
def maxSuggestionDistance : Nat := 2

/-- The first of the candidates nearest to a name, if they are near enough, and how near it is. -/
def nearest (name : String) : List String → Option (String × Nat)
  | [] => none
  | c :: cs =>
    let distance := editDistance name.toList c.toList
    match nearest name cs with
    | some (other, d) => if distance ≤ d then some (c, distance) else some (other, d)
    | none => if distance ≤ maxSuggestionDistance then some (c, distance) else none

/-- The known argument to suggest for an unknown one. -/
def ComponentSchema.suggest? (c : ComponentSchema) (argument : String) : Option String :=
  (nearest argument c.knownArguments).map Prod.fst

end TemplateLint
