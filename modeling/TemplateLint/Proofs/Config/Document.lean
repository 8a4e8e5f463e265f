import TemplateLint.Config.Load
import TemplateLint.Proofs.Config.Calls
import TemplateLint.Proofs.Json.Values

namespace TemplateLint.Configuration

open Json

theorem readSchema_append (schema : String) (s : List Char) :
    readSchema ((Value.string schema).chars ++ s) = .ok (some schema, s) := by
  have htext : (Value.string schema).chars ++ s =
      '"' :: (schema.toList.flatMap escape ++ '"' :: s) := by
    simp [Value.chars, stringChars]
  have hquote (s : List Char) :
      readSchema ('"' :: s) = readString s >>= fun read => .ok (some read.1, read.2) := rfl
  rw [htext, hquote, readString_append, ok_bind]

/-- Rules are read from the object of their values. -/
theorem readRules_append {rules : RuleValues}
    (h : ∀ entry ∈ rules.entries, entry.2.Plain (maxDepth - 2)) (s : List Char) :
    readRules ((Value.object rules.entries).chars ++ s) = .ok (rules, s) := by
  have htext : (Value.object rules.entries).chars ++ s =
      '{' :: (commaSeparated (memberChars rules.entries) ++ '}' :: s) := by
    simp [Value.chars]
  have hbrace (s : List Char) : readRules ('{' :: s) =
      membersWith (valueWithin (maxDepth - 2)) s.length true s >>= fun read =>
        .ok (.ofMembers read.1, read.2) := rfl
  rw [htext, hbrace, membersWith_commaSeparated (fun m hm => (h m hm).readBy)
    (length_lt_members _ s), ok_bind, RuleValues.ofMembers_entries]

/-- The text of a field behind the quote of its key, with what follows. -/
def fieldChars (key : String) (value : Value) (after : List Char) : List Char :=
  key.toList.flatMap escape ++ '"' :: ':' :: (value.chars ++ after)

theorem two_le_fieldChars (key : String) (value : Value) (after : List Char) :
    2 ≤ (fieldChars key value after).length := by
  rw [fieldChars, List.length_append, List.length_cons, List.length_cons]
  omega

section

variable {n : Nat} {first : Bool} {f : Fields} {s after : List Char}

theorem fieldsWithin_schema {schema : String} (hf : f.schema = none)
    (hnext : nextKey? first s = .ok (some (fieldChars "$schema" (.string schema) after))) :
    fieldsWithin (n + 1) first f s =
      fieldsWithin n false { f with schema := some (some schema) } after := by
  simp only [fieldsWithin, hnext, ok_bind, fieldChars, readString_append, hf, readColon_colon,
    readSchema_append]
  rfl

theorem fieldsWithin_rules {rules : RuleValues} (hf : f.rules = none)
    (h : ∀ entry ∈ rules.entries, entry.2.Plain (maxDepth - 2))
    (hnext : nextKey? first s = .ok (some (fieldChars "rules" (.object rules.entries) after))) :
    fieldsWithin (n + 1) first f s =
      fieldsWithin n false { f with rules := some rules } after := by
  simp only [fieldsWithin, hnext, ok_bind, fieldChars, readString_append, hf, readColon_colon,
    readRules_append h]
  rfl

theorem fieldsWithin_end : fieldsWithin (n + 1) first f ('}' :: s) = .ok (f, s) := rfl

end

/-- The fields of a document are read from its text behind the brace. -/
theorem fieldsWithin_document (c : Configuration)
    (h : ∀ entry ∈ c.rules.entries, entry.2.Plain (maxDepth - 2)) :
    ∃ s, c.document.chars = '{' :: s ∧
      fieldsWithin s.length true ⟨none, none⟩ s = .ok (⟨c.schema.map some, some c.rules⟩, []) := by
  obtain ⟨schema, rules⟩ := c
  cases schema with
  | none =>
    refine ⟨'"' :: fieldChars "rules" (.object rules.entries) ['}'], ?_, ?_⟩
    · simp [document, Value.chars, memberChars, commaSeparated, afterCommas, stringChars, fieldChars]
    · have hlength := two_le_fieldChars "rules" (.object rules.entries) ['}']
      obtain ⟨n, hn⟩ := Nat.exists_eq_add_of_le' hlength
      rw [List.length_cons, hn, fieldsWithin_rules rfl h rfl, fieldsWithin_end]
      rfl
  | some schema =>
    refine ⟨'"' :: fieldChars "$schema" (.string schema)
      (',' :: '"' :: fieldChars "rules" (.object rules.entries) ['}']), ?_, ?_⟩
    · simp [document, Value.chars, memberChars, commaSeparated, afterCommas, stringChars, fieldChars]
    · have hlength := two_le_fieldChars "$schema" (.string schema)
        (',' :: '"' :: fieldChars "rules" (.object rules.entries) ['}'])
      obtain ⟨n, hn⟩ := Nat.exists_eq_add_of_le' hlength
      rw [List.length_cons, hn, fieldsWithin_schema rfl rfl, fieldsWithin_rules rfl h rfl,
        fieldsWithin_end]
      rfl

/-- The document of a configuration is read as this configuration. -/
theorem read_document (c : Configuration)
    (h : ∀ entry ∈ c.rules.entries, entry.2.Plain (maxDepth - 2)) :
    read c.document.compact = .ok c := by
  obtain ⟨s, hchars, hfields⟩ := fieldsWithin_document c h
  have hbrace (s : List Char) :
      readDocument ('{' :: s) = fieldsWithin s.length true ⟨none, none⟩ s := rfl
  have hconfig : (Fields.mk (c.schema.map some) (some c.rules)).configuration = c := by
    obtain ⟨schema, rules⟩ := c
    cases schema <;> rfl
  simp only [read, Value.compact, String.toList_ofList, hchars, hbrace, hfields, ok_bind, hconfig]
  rfl

/-- A configuration is its own after it was written and read, and is written the same again. -/
theorem ofJson_compact (c : Configuration)
    (h : ∀ entry ∈ c.rules.entries, entry.2.Plain (maxDepth - 2)) :
    ∃ c', ofJson c.document.compact = .ok c' ∧ c' = c ∧
      c'.document.compact = c.document.compact := by
  refine ⟨c, ?_, rfl, rfl⟩
  rw [ofJson, read_document c h]

/-- A configuration with the least and the greatest number, an escape and keys out of their order. -/
def nestedConfig : Configuration where
  schema := some "schema.json"
  rules := (RuleValues.empty.set "b" (.array [.int (-(maxSigned + 1)), .int maxUnsigned, .null])).set
    "a\n" (.object [("z", .string "\"\u0001"), ("a", .object []), ("m", .bool true)])

theorem ofJson_compact_nestedConfig :
    (∀ entry ∈ nestedConfig.rules.entries, entry.2.Plain (maxDepth - 2)) ∧
      ∃ c', ofJson nestedConfig.document.compact = .ok c' ∧ c' = nestedConfig ∧
        c'.document.compact = nestedConfig.document.compact := by
  have hplain : ∀ entry ∈ nestedConfig.rules.entries, entry.2.Plain 125 := by
    have hentries : nestedConfig.rules.entries =
        [("a\n", .object [("z", .string "\"\u0001"), ("a", .object []), ("m", .bool true)]),
          ("b", .array [.int (-(maxSigned + 1)), .int maxUnsigned, .null])] := by rfl
    simp only [hentries, List.forall_mem_cons, List.not_mem_nil, false_imp_iff, implies_true, and_true]
    refine ⟨.object (by decide) ?_, .array ?_⟩
    · simp only [List.forall_mem_cons, List.not_mem_nil, false_imp_iff, implies_true, and_true]
      exact ⟨.string _, .object .nil (fun _ h => absurd h List.not_mem_nil), .bool true⟩
    · simp only [List.forall_mem_cons, List.not_mem_nil, false_imp_iff, implies_true, and_true]
      exact ⟨.int (by decide) (by decide), .int (by decide) (by decide), .null⟩
  exact ⟨hplain, ofJson_compact nestedConfig hplain⟩

end TemplateLint.Configuration
