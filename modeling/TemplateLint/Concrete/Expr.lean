import TemplateLint.Concrete.Token
import TemplateLint.Text.Span

namespace TemplateLint.Concrete

open Text (size)

mutual

/-- An expression as it is written, with every blank and quote kept. -/
inductive Expr where
  /-- A run of word characters: a path, a number, `true`. -/
  | word (chars : List Char)
  /-- A string between two equal quotes; `raw` keeps its backslashes. -/
  | quoted (mark : Char) (raw : List Char)
  /-- A call in parentheses. -/
  | group (call : Call)

/-- A callee and its arguments, with the blanks before the callee and after the last argument. -/
structure Call where
  lead : List Char
  callee : Expr
  args : List Arg
  trail : List Char

/-- An argument with the blanks before it; with a key it is a named one. -/
structure Arg where
  lead : List Char
  key : Option (List Char)
  value : Expr

end

/-- How the key of a named argument is written. -/
def keyChars : Option (List Char) → List Char
  | none => []
  | some key => key ++ ['=']

mutual

def Expr.chars : Expr → List Char
  | .word w => w
  | .quoted mark raw => mark :: (raw ++ [mark])
  | .group call => '(' :: (call.chars ++ [')'])

def Call.chars : Call → List Char
  | ⟨lead, callee, args, trail⟩ => lead ++ callee.chars ++ Arg.charsAll args ++ trail

def Arg.chars : Arg → List Char
  | ⟨lead, key, value⟩ => lead ++ keyChars key ++ value.chars

def Arg.charsAll : List Arg → List Char
  | [] => []
  | a :: as => a.chars ++ Arg.charsAll as

end

mutual

/-- The bytes that an expression takes, added up without writing it. -/
def Expr.width : Expr → Nat
  | .word w => size w
  | .quoted mark raw => mark.utf8Size + size raw + mark.utf8Size
  | .group call => 1 + call.width + 1

def Call.width : Call → Nat
  | ⟨lead, callee, args, trail⟩ => size lead + callee.width + Arg.widthAll args + size trail

def Arg.width : Arg → Nat
  | ⟨lead, key, value⟩ => size lead + size (keyChars key) + value.width

def Arg.widthAll : List Arg → Nat
  | [] => 0
  | a :: as => a.width + Arg.widthAll as

end

mutual

theorem Expr.width_eq : ∀ e : Expr, e.width = size e.chars
  | .word w => by simp [Expr.width, Expr.chars]
  | .quoted mark raw => by simp [Expr.width, Expr.chars, Nat.add_assoc]
  | .group call => by
    simp [Expr.width, Expr.chars, Call.width_eq call, Char.utf8Size, Nat.add_assoc]

theorem Call.width_eq : ∀ c : Call, c.width = size c.chars
  | ⟨lead, callee, args, trail⟩ => by
    simp [Call.width, Call.chars, Expr.width_eq callee, Arg.widthAll_eq args, Nat.add_assoc]

theorem Arg.width_eq : ∀ a : Arg, a.width = size a.chars
  | ⟨lead, key, value⟩ => by
    simp [Arg.width, Arg.chars, Expr.width_eq value, Nat.add_assoc]

theorem Arg.widthAll_eq : ∀ as : List Arg, Arg.widthAll as = size (Arg.charsAll as)
  | [] => rfl
  | a :: as => by simp [Arg.widthAll, Arg.charsAll, Arg.width_eq a, Arg.widthAll_eq as]

end

/-- The marks that end a word, as blanks do. -/
def wordStops : List Char := ['=', '(', ')', '{', '}', '|', '~', '"', '\'', '<', '>']

def isWordChar (c : Char) : Bool := !Text.isBlank c && !wordStops.contains c

/-- What a string between quotes says: a backslash stands for the character after it. -/
def unescape : List Char → List Char
  | '\\' :: c :: cs => c :: unescape cs
  | '\\' :: [] => []
  | c :: cs => c :: unescape cs
  | [] => []

end TemplateLint.Concrete
