import TemplateLint.Config.Basic
import TemplateLint.Json.Reader

namespace TemplateLint.Configuration

open Json

/-- The value of `$schema`: a string, or `null` for none. -/
def readSchema (s : List Char) : Result (Option String × List Char) :=
  match skip s with
  | [] => .error (.unfinished .value)
  | 'n' :: s => do
    let s ← readIdent ['u', 'l', 'l'] s
    .ok (none, s)
  | '"' :: s => do
    let (text, s) ← readString s
    .ok (some text, s)
  | s => .error (mismatch .string s)

/-- The value of `rules`: an object. It stands one level inside the document. -/
def readRules (s : List Char) : Result (RuleValues × List Char) :=
  match skip s with
  | [] => .error (.unfinished .value)
  | '{' :: s => do
    let (read, s) ← membersWith (valueWithin (maxDepth - 2)) s.length true s
    .ok (.ofMembers read, s)
  | s => .error (mismatch .map s)

/-- The fields of the document that have been read. -/
structure Fields where
  schema : Option (Option String)
  rules : Option RuleValues

def Fields.configuration (f : Fields) : Configuration := ⟨f.schema.join, f.rules.getD .empty⟩

/-- The fields of the object form, up to and with its brace. A key that is unknown or came before is
reported before its value is looked at. -/
def fieldsWithin : Nat → Bool → Fields → List Char → Result (Fields × List Char)
  | 0, _, _, _ => .error (.unfinished .object)
  | n + 1, first, f, s => do
    match ← nextKey? first s with
    | none => .ok (f, (skip s).drop 1)
    | some s =>
      let (key, s) ← readString s
      if key = "$schema" then
        if f.schema.isSome then .error (.duplicateField key)
        else
          let (schema, s) ← readSchema (← readColon s)
          fieldsWithin n false { f with schema := some schema } s
      else if key = "rules" then
        if f.rules.isSome then .error (.duplicateField key)
        else
          let (rules, s) ← readRules (← readColon s)
          fieldsWithin n false { f with rules := some rules } s
      else .error (.unknownField key)

/-- The end of the array form, after the values that belong to it. -/
def readArrayEnd (s : List Char) : Result (List Char) :=
  match skip s with
  | [] => .error (.unfinished .list)
  | ']' :: s => .ok s
  | ',' :: s => match skip s with
    | ']' :: _ => .error .trailingComma
    | _ => .error .trailingCharacters
  | _ => .error .trailingCharacters

/-- The values of the array form, up to and with its bracket. -/
def readArray (s : List Char) : Result (Fields × List Char) := do
  match ← nextElement? true s with
  | none => .ok (⟨none, none⟩, ← readArrayEnd s)
  | some s =>
    let (schema, s) ← readSchema s
    match ← nextElement? false s with
    | none => .ok (⟨some schema, none⟩, ← readArrayEnd s)
    | some s =>
      let (rules, s) ← readRules s
      .ok (⟨some schema, some rules⟩, ← readArrayEnd s)

/-- A document: an object with the two fields, or an array of their values. -/
def readDocument (s : List Char) : Result (Fields × List Char) :=
  match skip s with
  | [] => .error (.unfinished .value)
  | '[' :: s => readArray s
  | '{' :: s => fieldsWithin s.length true ⟨none, none⟩ s
  | s => .error (mismatch .configuration s)

/-- The configuration whose document is the whole of a text. -/
def read (text : String) : Result Configuration := do
  let (fields, rest) ← readDocument text.toList
  if (skip rest).isEmpty then .ok fields.configuration else .error .trailingCharacters

end TemplateLint.Configuration
