import TemplateLint.Proofs.Reading.Statement
import TemplateLint.Tree.Parse

namespace TemplateLint

open Concrete (Statement)

/-- The sources of templates are the texts of statements that stand. -/
theorem Tree.Template.parse_eq_ok {source : String} {t : Tree.Template} :
    Tree.Template.parse source = .ok t ↔
      ∃ ss, Statement.AllStand ss [] ∧ source = String.ofList (Statement.charsAll ss) ∧
        t = .ofConcrete ss := by
  unfold Tree.Template.parse
  constructor
  · intro h
    split at h
    · next ss hread =>
      cases h
      obtain ⟨hchars, hstand⟩ := Statement.eq_of_readAll hread
      exact ⟨ss, hstand, by rw [← hchars, String.ofList_toList], rfl⟩
    · cases h
  · rintro ⟨ss, hstand, rfl, rfl⟩
    rw [String.toList_ofList, hstand.readAll_eq]

/-- The statements of a source, none when it is no template. -/
def Concrete.Statement.ofSource (source : String) : List Statement :=
  match Statement.readAll source.toList with
  | .ok ss => ss
  | .error _ => []

/-- The source that statements are written as. -/
def Concrete.Statement.toSource (ss : List Statement) : String :=
  String.ofList (Statement.charsAll ss)

theorem Concrete.Statement.AllStand.ofSource_eq {ss : List Statement}
    (h : Statement.AllStand ss []) : Statement.ofSource (Statement.toSource ss) = ss := by
  rw [Statement.ofSource, Statement.toSource, String.toList_ofList, h.readAll_eq]

end TemplateLint
