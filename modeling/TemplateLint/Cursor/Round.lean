import TemplateLint.Cursor.Statement

namespace TemplateLint.Cursor

open Text (isBlank size startsWith)
open Concrete (Token)

variable {σ α : Type}

/-- How a round of a loop ends: the loop goes on with a state, or the round was its last. -/
inductive Round (σ α : Type) where
  | again (state : σ)
  | last (value : α)

/-- What a loop does after a round. -/
def Round.next (loop : σ → Cursor α) : Round σ α → Cursor α
  | .again x => loop x
  | .last a => return a

/-- Without rounds left the loop stops the run; else it makes one and does what that says. -/
structure IsLoop (loop : Nat → σ → Cursor α) (round : Nat → σ → Cursor (Round σ α)) : Prop where
  zero : ∀ x, loop 0 x = throw .rounds
  succ : ∀ k x, loop (k + 1) x = round k x >>= Round.next (loop k)

theorem fail_bind {β : Type} (cause : Concrete.ParseError) (n : Nat) (f : α → Cursor β) :
    fail cause n >>= f = fail cause n := by
  simp only [fail, bind_assoc]
  rfl

theorem ite_next {c : Prop} [Decidable c] (m m' : Cursor (Round σ α)) (loop : σ → Cursor α) :
    (if c then m else m') >>= Round.next loop =
      if c then m >>= Round.next loop else m' >>= Round.next loop := by
  split <;> rfl

def blanksRound : Cursor (Round Unit Unit) := do
  match ← peek with
  | some c =>
    if isBlank c then
      goto ((← get) + c.utf8Size)
      return .again ()
    else return .last ()
  | none => return .last ()

theorem isLoop_skipBlanks : IsLoop (fun k (_ : Unit) => skipBlanksWithin k) fun _ _ => blanksRound := by
  refine ⟨fun _ => rfl, fun k _ => ?_⟩
  simp only [skipBlanksWithin, blanksRound, bind_assoc]
  refine bind_congr fun c => ?_
  cases c with
  | none => simp only [pure_bind, Round.next]
  | some c => simp only [ite_next, bind_assoc, pure_bind, Round.next]

def bumpRound (stop : List Char → Bool) : Cursor (Round Unit Unit) := do
  if ← atEnd then return .last ()
  else if ← isAt stop then return .last ()
  else
    let _ ← bump
    return .again ()

theorem isLoop_bumpTo (stop : List Char → Bool) :
    IsLoop (fun k (_ : Unit) => bumpToWithin stop k) fun _ _ => bumpRound stop := by
  refine ⟨fun _ => rfl, fun k _ => ?_⟩
  simp only [bumpToWithin, bumpRound, bind_assoc, ite_next, pure_bind, Round.next]

def quotedRound (mark : Char) (start : Nat) (value : List Char) :
    Cursor (Round (List Char) (List Char)) := do
  match ← bump with
  | none => fail .unterminatedString start
  | some c =>
    if c = '\\' then
      match ← bump with
      | some escaped => return .again (value ++ [escaped])
      | none => return .again value
    else if c = mark then return .last value
    else return .again (value ++ [c])

theorem isLoop_quoted (mark : Char) (start : Nat) :
    IsLoop (quotedWithin mark start) fun _ => quotedRound mark start := by
  refine ⟨fun _ => rfl, fun k value => ?_⟩
  simp only [quotedWithin, quotedRound, bind_assoc]
  refine bind_congr fun c => ?_
  cases c with
  | none => exact (fail_bind ..).symm
  | some c =>
    simp only [ite_next, bind_assoc, pure_bind, Round.next]
    refine congrArg (fun m => ite _ m _) (bind_congr fun escaped => ?_)
    cases escaped <;> simp only [pure_bind, Round.next]

def argsRound (expr : Cursor Tree.Expr) (bindsNames : Bool)
    (found : List Tree.Expr × List Tree.HashPair) :
    Cursor (Round (List Tree.Expr × List Tree.HashPair) (List Tree.Expr × List Tree.HashPair)) := do
  skipBlanks
  if ← atEnd then fail .unclosedExpression (← get)
  else if ← isAt (Concrete.argsEndAhead bindsNames) then return .last found
  else
    let start ← get
    let stop ← wordEnd start
    if ← isKey start stop then
      let key ← slice start stop
      goto (stop + 1)
      let value ← expr
      return .again (found.1, found.2 ++ [⟨String.ofList key, value, ⟨start, value.span.stop⟩⟩])
    else if !found.2.isEmpty then fail .positionalAfterNamed (← get)
    else
      let value ← expr
      return .again (found.1 ++ [value], found.2)

theorem isLoop_args (expr : Cursor Tree.Expr) (bindsNames : Bool) :
    IsLoop (fun k found => argsWith expr bindsNames k found.1 found.2)
      fun _ => argsRound expr bindsNames := by
  refine ⟨fun _ => rfl, fun k found => ?_⟩
  simp only [argsWith, argsRound, bind_assoc, ite_next, pure_bind, Round.next, fail_bind]

def noteRound (start valueStart : Nat) (dashes : Bool) : Cursor (Round Unit Tree.Comment) := do
  if ← atEnd then fail .unclosedComment start
  else
    match noteEnd? dashes (← rest) with
    | some closing =>
      let value ← slice valueStart (← get)
      goto ((← check (Text.minus (size (← read)) (size closing))) + 2)
      return .last ⟨String.ofList value, ⟨start, ← get⟩⟩
    | none =>
      let _ ← bump
      return .again ()

theorem isLoop_note (start valueStart : Nat) (dashes : Bool) :
    IsLoop (fun k (_ : Unit) => noteWithin start valueStart dashes k)
      fun _ _ => noteRound start valueStart dashes := by
  refine ⟨fun _ => rfl, fun k _ => ?_⟩
  simp only [noteWithin, noteRound, bind_assoc, ite_next, fail_bind]
  refine bind_congr fun ended => congrArg _ (bind_congr fun s => ?_)
  cases noteEnd? dashes s <;> simp only [bind_assoc, pure_bind, Round.next]

def namesRound (found : List String) : Cursor (Round (List String) (List String)) := do
  skipBlanks
  if ← eat Token.bar.chars then return .last found
  else
    let start ← get
    let stop ← wordEnd start
    if stop = start then fail .invalidBlockParameter start
    else
      let name ← slice start stop
      goto stop
      return .again (found ++ [String.ofList name])

theorem isLoop_names : IsLoop namesWithin fun _ => namesRound := by
  refine ⟨fun _ => rfl, fun k found => ?_⟩
  simp only [namesWithin, namesRound, bind_assoc, ite_next, pure_bind, Round.next, fail_bind]

def quotedPartsRound (mark : Char) (start : Nat) (state : Nat × List Tree.ConcatPart × Bool) :
    Cursor (Round (Nat × List Tree.ConcatPart × Bool) (List Tree.ConcatPart × Bool)) := do
  let (textStart, parts, hasMustache) := state
  if ← atEnd then fail .unterminatedValue start
  else if ← isAt (fun s => startsWith [mark] s || startsWith Token.mustacheOpen.chars s) then
    let parts ← pushText textStart (← get) parts
    if ← eat [mark] then return .last (parts, hasMustache)
    else
      let m ← mustache
      return .again (← get, parts ++ [.mustache m], true)
  else
    let _ ← bump
    return .again (textStart, parts, hasMustache)

theorem isLoop_quotedParts (mark : Char) (start : Nat) :
    IsLoop (fun k state => quotedPartsWithin mark start k state.1 state.2.1 state.2.2)
      fun _ => quotedPartsRound mark start := by
  refine ⟨fun _ => rfl, fun k state => ?_⟩
  simp only [quotedPartsWithin, quotedPartsRound, bind_assoc, ite_next, pure_bind, Round.next,
    fail_bind]

def tagItemsRound (tag : List Char) (start : Nat) (items : TagItems) :
    Cursor (Round TagItems (TagItems × Bool)) := do
  skipBlanks
  if ← atEnd then fail (.unclosedOpeningTag tag) start
  else if ← eat ['/', '>'] then return .last (items, true)
  else if ← eat ['>'] then return .last (items, false)
  else if ← isAt (startsWith Token.mustacheOpen.chars) then
    match ← inBraces with
    | .note =>
      let c ← note
      return .again { items with comments := items.comments ++ [c] }
    | .mustache =>
      let m ← mustache
      return .again { items with modifiers := items.modifiers ++ [⟨m.call, m.span⟩] }
    | _ => fail .blockInOpeningTag (← get)
  else if ← isAt Concrete.paramsAhead then
    let bound ← blockParams
    return .again { items with blockParams := bound }
  else
    let a ← «attribute»
    return .again { items with attributes := items.attributes ++ [a] }

theorem isLoop_tagItems (tag : List Char) (start : Nat) :
    IsLoop (tagItemsWithin tag start) fun _ => tagItemsRound tag start := by
  refine ⟨fun _ => rfl, fun k items => ?_⟩
  simp only [tagItemsWithin, tagItemsRound, bind_assoc, ite_next, pure_bind, Round.next, fail_bind]
  refine bind_congr fun _ => bind_congr fun _ => congrArg _ (bind_congr fun _ => congrArg _
    (bind_congr fun _ => congrArg _ (bind_congr fun _ => ite_congr rfl (fun _ => ?_) fun _ => rfl)))
  refine bind_congr fun ahead => ?_
  cases ahead <;> simp only [bind_assoc, pure_bind, Round.next, fail_bind]

/-- What stands in a construct is read with the rounds that are left to the loop. -/
def contentRound (context : Context) (k : Nat) (found : List Tree.Statement) :
    Cursor (Round (List Tree.Statement) (List Tree.Statement)) := do
  if ← atEnd then return .last found
  else if ← isAt (startsWith Token.mustacheOpen.chars) then
    match ← inBraces with
    | .note =>
      let c ← note
      return .again (found ++ [.mustacheComment c])
    | .block =>
      let b ← block (contentWithin k .block [])
      return .again (found ++ [.block b])
    | .closeTag => if context = .top then fail .strayClose (← get) else return .last found
    | .elseTag => if context = .top then fail .strayElse (← get) else return .last found
    | _ =>
      let m ← mustache
      return .again (found ++ [.mustache m])
  else if ← isAt (startsWith Token.commentOpen.chars) then
    let c ← comment
    return .again (found ++ [.comment c])
  else if ← isAt (startsWith Token.closingTagOpen.chars) then
    if context = .top then fail .strayClosingTag (← get) else return .last found
  else if ← isAt Concrete.tagStartAhead then
    let e ← element (contentWithin k .element [])
    return .again (found ++ [.element e])
  else
    let t ← text
    return .again (found ++ [.text t])

theorem isLoop_content (context : Context) :
    IsLoop (fun k => contentWithin k context) (contentRound context) := by
  refine ⟨fun _ => rfl, fun k found => ?_⟩
  simp only [contentWithin, contentRound, bind_assoc, ite_next, pure_bind, Round.next, fail_bind]
  refine bind_congr fun _ => congrArg _ (bind_congr fun _ => ite_congr rfl (fun _ => ?_) fun _ => rfl)
  refine bind_congr fun ahead => ?_
  cases ahead <;> simp only [bind_assoc, ite_next, pure_bind, Round.next, fail_bind]

end TemplateLint.Cursor
