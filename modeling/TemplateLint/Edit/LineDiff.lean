
namespace TemplateLint

inductive Change (α : Type) where
  | kept (a : α)
  | deleted (a : α)
  | inserted (a : α)
  deriving DecidableEq, Repr

namespace Change

variable {α : Type} [DecidableEq α]

/-- The lengths of the longest common subsequences of `a :: as` with every end of `bs`, the longest
end first, from the same lengths for `as`. -/
def row (a : α) : List α → List Nat → List Nat
  | [], _ => [0]
  | b :: bs, below =>
    let right := row a bs below.tail
    (if a = b then below.tail.headD 0 + 1 else max (below.headD 0) (right.headD 0)) :: right

/-- The rows of every end of `as`, the longest end first. -/
def table (bs : List α) : List α → List (List Nat)
  | [] => [List.replicate (bs.length + 1) 0]
  | a :: as =>
    let rows := table bs as
    row a bs (rows.headD []) :: rows

/-- Changes that keep a longest common subsequence; `rows` is the table of the two lists. -/
def along : List α → List α → List (List Nat) → List (Change α)
  | [], bs, _ => bs.map .inserted
  | a :: as, [], _ => (a :: as).map .deleted
  | a :: as, b :: bs, rows =>
    if a = b then .kept a :: along as bs (rows.tail.map List.tail)
    else if (rows.headD []).tail.headD 0 ≤ (rows.tail.headD []).headD 0 then
      .deleted a :: along as (b :: bs) rows.tail
    else .inserted b :: along (a :: as) bs (rows.map List.tail)
termination_by as bs => as.length + bs.length

/-- Moves the insertions between two kept elements behind the deletions there. -/
def deletionsFirst (pending : List α) : List (Change α) → List (Change α)
  | [] => pending.map .inserted
  | .kept a :: cs => pending.map .inserted ++ .kept a :: deletionsFirst [] cs
  | .deleted a :: cs => .deleted a :: deletionsFirst pending cs
  | .inserted a :: cs => deletionsFirst (pending ++ [a]) cs

/-- How the first list becomes the second with as many elements kept as can be. -/
def between (as bs : List α) : List (Change α) :=
  deletionsFirst [] (along as bs (table bs as))

end Change

namespace Text

/-- The lines of a text with what ends them: a line feed, a carriage return or both. -/
def lines : List Char → List (List Char)
  | [] => []
  | '\r' :: '\n' :: cs => ['\r', '\n'] :: lines cs
  | c :: cs =>
    if c = '\n' || c = '\r' then [c] :: lines cs
    else match lines cs with
      | [] => [[c]]
      | l :: ls => (c :: l) :: ls

/-- The lines together are the text. -/
theorem flatten_lines (cs : List Char) : (lines cs).flatten = cs := by
  fun_induction lines cs <;> simp_all

end Text

/-- A text before and after it was fixed, with the difference of their lines. -/
structure FixPreview where
  source : String
  fixed : String
  diff : String
  deriving DecidableEq, Repr

namespace FixPreview

/-- A changed or kept line behind its sign. A line without an end is given one. -/
def line (sign : Char) (l : List Char) : List Char :=
  let ended := match l.getLast? with
    | some c => c == '\n' || c == '\r'
    | none => false
  sign :: (if ended then l else l ++ ['\n'])

def change : Change (List Char) → List Char
  | .kept l => line ' ' l
  | .deleted l => line '-' l
  | .inserted l => line '+' l

def new (source fixed : String) : FixPreview :=
  let changes := Change.between (Text.lines source.toList) (Text.lines fixed.toList)
  ⟨source, fixed, String.ofList (changes.flatMap change)⟩

def hasChanges (p : FixPreview) : Bool := p.source != p.fixed

end FixPreview

end TemplateLint
