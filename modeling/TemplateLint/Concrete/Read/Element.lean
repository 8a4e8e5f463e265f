import TemplateLint.Concrete.Read.Tag

namespace TemplateLint.Concrete

open Text (isBlank after? eat run scanTo startsWith)

/-- The parts of a quoted value up to its closing quote; `start` is the text at the opening one. -/
def partsWithin (mark : Char) (start : List Char) :
    Nat → List Char → Result (List Part × List Char)
  | 0, _ => .error ⟨.unterminatedValue, start⟩
  | n + 1, s => do
    let (text, s) :=
      scanTo (fun s => startsWith [mark] s || startsWith Token.mustacheOpen.chars s) s
    let lead := if text.isEmpty then [] else [.text text]
    if s.isEmpty then .error ⟨.unterminatedValue, start⟩
    else match after? [mark] s with
      | some s => .ok (lead, s)
      | none =>
        let (m, s) ← Mustache.read s
        let (parts, s) ← partsWithin mark start n s
        .ok (lead ++ .mustache m :: parts, s)

/-- Whether what ends an unquoted value or the name of an element stands here. -/
def bareEndAhead (s : List Char) : Bool :=
  match s with
  | c :: _ => isBlank c || c == '>' || startsWith ['/', '>'] s
  | [] => false

/-- Whether what ends the name of an attribute stands here. -/
def attributeEndAhead (s : List Char) : Bool :=
  match s with
  | c :: _ =>
    isBlank c || ['=', '>', '"', '\''].contains c || startsWith ['/', '>'] s ||
      startsWith Token.mustacheOpen.chars s
  | [] => false

/-- The value after an `=`; nothing at the end of the text. -/
def AttrValue.read? (s : List Char) : Result (Option (AttrValue × List Char)) :=
  match s with
  | [] => .ok none
  | c :: rest =>
    if c = '"' || c = '\'' then do
      let (parts, s) ← partsWithin c s rest.length rest
      .ok (some (.quoted c parts, s))
    else if startsWith Token.mustacheOpen.chars s then do
      let (m, s) ← Mustache.read s
      .ok (some (.mustache m, s))
    else
      let (text, s) := scanTo bareEndAhead s
      .ok (some (.bare text, s))

def Attribute.read (start : List Char) : Result (Attribute × List Char) := do
  let (name, s) := scanTo attributeEndAhead start
  if name.isEmpty then .error ⟨.expectedAttributeName, start⟩
  else
    let (before, rest) := run isBlank s
    match after? ['='] rest with
    | none => .ok (⟨name, none⟩, s)
    | some rest =>
      let (after, rest) := run isBlank rest
      match ← AttrValue.read? rest with
      | some (value, rest) => .ok (⟨name, some ⟨before, after, value⟩⟩, rest)
      | none => .error ⟨.missingValue name, start⟩

def Item.read (s : List Char) : Result (Item × List Char) :=
  if startsWith Token.mustacheOpen.chars s then
    match Ahead.of s with
    | .note => do
      let (n, s) ← Note.read s
      .ok (.note n, s)
    | .mustache => do
      let (m, s) ← Mustache.read s
      .ok (.modifier m, s)
    | _ => .error ⟨.blockInOpeningTag, s⟩
  else if paramsAhead s then do
    let (p, s) ← BlockParams.read s
    .ok (.params p, s)
  else do
    let (a, s) ← Attribute.read s
    .ok (.attribute a, s)

/-- The end of an opening tag, when it stands here, and whether it closes the element. -/
def openingEnd? (s : List Char) : Option (Bool × List Char) :=
  match s with
  | '/' :: '>' :: s => some (true, s)
  | '>' :: s => some (false, s)
  | _ => none

/-- The items up to the end of an opening tag; `start` is the text at that tag. -/
def itemsWithin (tag start : List Char) :
    Nat → List Char → Result ((List Spaced × List Char × Bool) × List Char)
  | 0, _ => .error ⟨.unclosedOpeningTag tag, start⟩
  | n + 1, s => do
    let (lead, s) := run isBlank s
    if s.isEmpty then .error ⟨.unclosedOpeningTag tag, start⟩
    else match openingEnd? s with
      | some (selfClosing, s) => .ok (([], lead, selfClosing), s)
      | none =>
        let (item, s) ← Item.read s
        let ((items, trail, selfClosing), s) ← itemsWithin tag start n s
        .ok ((⟨lead, item⟩ :: items, trail, selfClosing), s)

def OpeningTag.read (start : List Char) : Result (OpeningTag × List Char) := do
  let s ← expect .tagOpen start
  let (tag, s) := scanTo bareEndAhead s
  let ((items, trail, selfClosing), s) ← itemsWithin tag start s.length s
  .ok (⟨tag, items, trail, selfClosing⟩, s)

end TemplateLint.Concrete
