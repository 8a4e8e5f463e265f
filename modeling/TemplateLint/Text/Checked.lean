import TemplateLint.Text.Position

namespace TemplateLint

/-- A step that cannot be made. -/
inductive Fault where
  /-- The range has no text: it is past the end, backwards, or begins or ends inside a character. -/
  | slice (range : Span)
  /-- The offset that a cursor would move to is past the end or inside a character. -/
  | move (offset : Nat)
  | underflow (a b : Nat)
  /-- The list has no entry of this number. -/
  | index (i : Nat)
  /-- A quoted value does not begin with a character. -/
  | noQuote
  deriving DecidableEq, Repr

namespace Text

def minus (a b : Nat) : Except Fault Nat := if b ≤ a then .ok (a - b) else .error (.underflow a b)

def cut (range : Span) (cs : List Char) : Except Fault (List Char) :=
  match slice? range cs with
  | some text => .ok text
  | none => .error (.slice range)

def entry (ns : List Nat) (i : Nat) : Except Fault Nat :=
  match ns[i]? with
  | some n => .ok n
  | none => .error (.index i)

/-- The offsets behind the line feeds of a text that begins at `k`. -/
def lineStartsFrom (k : Nat) : List Char → List Nat
  | [] => []
  | c :: cs =>
    if c = '\n' then (k + 1) :: lineStartsFrom (k + 1) cs else lineStartsFrom (k + c.utf8Size) cs

/-- The offsets at which the lines of a text start. -/
def lineStarts (cs : List Char) : List Nat := 0 :: lineStartsFrom 0 cs

/-- The place of a number in an increasing list, as a binary search gives it. -/
inductive Search where
  | found (i : Nat)
  /-- The number is not in the list; `i` numbers of the list are less. -/
  | missing (i : Nat)

def Search.of (n : Nat) (ns : List Nat) : Search :=
  match ns.idxOf? n with
  | some i => .found i
  | none => .missing (ns.countP (· < n))

/-- The number of the last entry that is not greater, counted from zero. -/
def Search.line : Search → Except Fault Nat
  | .found i => .ok i
  | .missing i => minus i 1

/-- The place of a byte offset, looked up in the list of the offsets at which lines start. -/
def lookup (starts : List Nat) (n : Nat) (cs : List Char) : Except Fault Position := do
  let n := min n (size cs)
  let line ← (Search.of n starts).line
  let start ← entry starts line
  let bytes ← minus n start
  .ok ⟨line + 1, match slice? ⟨start, n⟩ cs with
    | some text => text.length
    | none => bytes⟩

end Text

end TemplateLint
