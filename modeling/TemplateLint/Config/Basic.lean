import TemplateLint.Json.Value

namespace TemplateLint

/-- Rule ids with their values, the ids in increasing order. -/
structure RuleValues where
  entries : List (String × Json.Value)
  ordered : entries.Pairwise fun a b => a.1 < b.1
  deriving Repr

namespace RuleValues

def empty : RuleValues := ⟨[], .nil⟩

instance : Inhabited RuleValues := ⟨empty⟩

/-- Sets the value of an id in a list that is ordered by id. -/
def setEntry (id : String) (value : Json.Value) :
    List (String × Json.Value) → List (String × Json.Value)
  | [] => [(id, value)]
  | (k, v) :: rules =>
    if id < k then (id, value) :: (k, v) :: rules
    else if id = k then (id, value) :: rules
    else (k, v) :: setEntry id value rules

theorem mem_setEntry {id : String} {value : Json.Value} {rules : List (String × Json.Value)}
    {e : String × Json.Value} (h : e ∈ setEntry id value rules) : e = (id, value) ∨ e ∈ rules := by
  induction rules with
  | nil => exact Or.inl (List.mem_singleton.1 h)
  | cons rule rules ih =>
    obtain ⟨k, v⟩ := rule
    unfold setEntry at h
    split at h
    · exact List.mem_cons.1 h
    · split at h
      · exact (List.mem_cons.1 h).imp_right (List.mem_cons_of_mem _)
      · rcases List.mem_cons.1 h with rfl | h
        · exact Or.inr List.mem_cons_self
        · exact (ih h).imp_right (List.mem_cons_of_mem _)

theorem setEntry_ordered (id : String) (value : Json.Value) {rules : List (String × Json.Value)}
    (h : rules.Pairwise fun a b => a.1 < b.1) :
    (setEntry id value rules).Pairwise fun a b => a.1 < b.1 := by
  induction rules with
  | nil => exact List.pairwise_singleton _ _
  | cons rule rules ih =>
    obtain ⟨k, v⟩ := rule
    obtain ⟨hk, hrules⟩ := List.pairwise_cons.1 h
    unfold setEntry
    split
    · next hlt =>
      refine List.pairwise_cons.2 ⟨fun e he => ?_, h⟩
      rcases List.mem_cons.1 he with rfl | he
      · exact hlt
      · exact String.lt_trans hlt (hk e he)
    · next hle =>
      split
      · next heq =>
        subst heq
        exact List.pairwise_cons.2 ⟨hk, hrules⟩
      · next hne =>
        refine List.pairwise_cons.2 ⟨fun e he => ?_, ih hrules⟩
        rcases mem_setEntry he with rfl | he
        · exact Std.lt_of_le_of_ne (String.not_lt.1 hle) (Ne.symm hne)
        · exact hk e he

def set (rules : RuleValues) (id : String) (value : Json.Value) : RuleValues :=
  ⟨setEntry id value rules.entries, setEntry_ordered id value rules.ordered⟩

/-- The rules, set one after the other; of a repeated id the last value counts. -/
def ofMembers (read : List (String × Json.Value)) : RuleValues :=
  read.foldl (fun rules m => rules.set m.1 m.2) empty

end RuleValues

structure Configuration where
  /-- Where a schema of the document is to be found. -/
  schema : Option String
  rules : RuleValues
  deriving Repr, Inhabited

namespace Configuration

def new : Configuration := ⟨none, .empty⟩

/-- The configuration with a value for a rule, in place of the one that it had. -/
def withRule (c : Configuration) (id : String) (value : Json.Value) : Configuration :=
  { c with rules := c.rules.set id value }

/-- The value that a rule was given. -/
def rule? (c : Configuration) (id : String) : Option Json.Value := c.rules.entries.lookup id

/-- The document of a configuration. -/
def document (c : Configuration) : Json.Value :=
  let rules := ("rules", .object c.rules.entries)
  .object (match c.schema with
    | some schema => [("$schema", .string schema), rules]
    | none => [rules])

end Configuration

end TemplateLint
