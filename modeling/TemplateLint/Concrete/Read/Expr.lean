import TemplateLint.Concrete.Read.Scan

namespace TemplateLint.Concrete

open Text (isBlank after? eat run scanTo startsWith)

/-- The string after an opening quote up to the quote that closes it, and the text after that. -/
def quotedRaw (mark : Char) : List Char → Option (List Char × List Char)
  | [] => none
  | '\\' :: [] => none
  | '\\' :: c :: s => (quotedRaw mark s).map fun (raw, rest) => ('\\' :: c :: raw, rest)
  | c :: s =>
    if c = mark then some ([], s)
    else (quotedRaw mark s).map fun (raw, rest) => (c :: raw, rest)

/-- Whether the arguments of a call end here. -/
def argsEndAhead (bindsNames : Bool) (s : List Char) : Bool :=
  tagEndAhead s || startsWith Token.groupClose.chars s || (bindsNames && paramsAhead s)

/-- The key of a named argument, when a word and `=` stand here. -/
def key? (s : List Char) : Option (List Char × List Char) :=
  match run isWordChar s with
  | (c :: key, '=' :: rest) => some (c :: key, rest)
  | _ => none

/-- The arguments up to the end of a call, and the blanks after the last. `named` tells that a named
argument came before, after which no positional one may follow. -/
def argsWith (expr : List Char → Result (Expr × List Char)) (bindsNames : Bool) :
    Nat → Bool → List Char → Result ((List Arg × List Char) × List Char)
  | 0, _, s => .error ⟨.unclosedExpression, s⟩
  | n + 1, named, s => do
    let (lead, s) := run isBlank s
    if s.isEmpty then .error ⟨.unclosedExpression, s⟩
    else if argsEndAhead bindsNames s then .ok (([], lead), s)
    else match key? s with
      | some (key, s) =>
        let (value, s) ← expr s
        let ((args, trail), s) ← argsWith expr bindsNames n true s
        .ok ((⟨lead, some key, value⟩ :: args, trail), s)
      | none =>
        if named then .error ⟨.positionalAfterNamed, s⟩
        else
          let (value, s) ← expr s
          let ((args, trail), s) ← argsWith expr bindsNames n false s
          .ok ((⟨lead, none, value⟩ :: args, trail), s)

/-- The expression at the front of a text of at most `n` characters. Every expression takes a
character, so the bound is never what ends the reading of such a text. -/
def exprWithin : Nat → List Char → Result (Expr × List Char)
  | 0, s => .error ⟨.expectedExpression, s⟩
  | n + 1, s =>
    match s with
    | '(' :: _ => do
      let s ← expect .groupOpen s
      let (lead, s) := run isBlank s
      let (callee, s) ← exprWithin n s
      let ((args, trail), s) ← argsWith (exprWithin n) false s.length false s
      let s ← expect .groupClose s
      .ok (.group ⟨lead, callee, args, trail⟩, s)
    | c :: rest =>
      if c = '"' || c = '\'' then
        match quotedRaw c rest with
        | some (raw, rest) => .ok (.quoted c raw, rest)
        | none => .error ⟨.unterminatedString, s⟩
      else match run isWordChar s with
        | ([], _) => .error ⟨.expectedExpression, s⟩
        | (word, rest) => .ok (.word word, rest)
    | [] => .error ⟨.expectedExpression, s⟩

def Expr.read (s : List Char) : Result (Expr × List Char) := exprWithin s.length s

/-- The arguments of a call and the blanks after them. Where names can be bound, `as |` ends
them. -/
def Arg.readAll (bindsNames : Bool) (s : List Char) :
    Result ((List Arg × List Char) × List Char) :=
  argsWith Expr.read bindsNames s.length false s

end TemplateLint.Concrete
