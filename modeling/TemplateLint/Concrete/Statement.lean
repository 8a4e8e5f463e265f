import TemplateLint.Concrete.Tag

namespace TemplateLint.Concrete

open Text (size)

mutual

inductive Statement where
  | text (chars : List Char)
  /-- `<!-- value -->` -/
  | comment (value : List Char)
  | note (n : Note)
  | mustache (m : Mustache)
  | block (opening : BlockTag) (program : List Statement) (sections : List Section)
      (closing : CloseTag)
  /-- An element that is its opening tag alone. -/
  | whole (opening : OpeningTag)
  /-- An element with content; `closing` is what stands between `</` and `>`. -/
  | element (opening : OpeningTag) (children : List Statement) (closing : List Char)

/-- An `else` tag and the statements after it. -/
structure Section where
  tag : ElseTag
  body : List Statement

end

mutual

def Statement.chars : Statement → List Char
  | .text cs => cs
  | .comment value => Token.commentOpen.chars ++ value ++ ['-', '-', '>']
  | .note n => n.chars
  | .mustache m => m.chars
  | .block opening program sections closing =>
    opening.chars ++ Statement.charsAll program ++ Section.charsAll sections ++ closing.chars
  | .whole opening => opening.chars
  | .element opening children closing =>
    opening.chars ++ Statement.charsAll children ++ Token.closingTagOpen.chars ++ closing ++ ['>']

def Statement.charsAll : List Statement → List Char
  | [] => []
  | s :: ss => s.chars ++ Statement.charsAll ss

def Section.chars : Section → List Char
  | ⟨tag, body⟩ => tag.chars ++ Statement.charsAll body

def Section.charsAll : List Section → List Char
  | [] => []
  | s :: ss => s.chars ++ Section.charsAll ss

end

mutual

/-- The bytes that a statement takes, added up without writing it. -/
def Statement.width : Statement → Nat
  | .text cs => size cs
  | .comment value => size Token.commentOpen.chars + size value + 3
  | .note n => size n.chars
  | .mustache m => size m.chars
  | .block opening program sections closing =>
    size opening.chars + Statement.widthAll program + Section.widthAll sections + size closing.chars
  | .whole opening => size opening.chars
  | .element opening children closing =>
    size opening.chars + Statement.widthAll children + size Token.closingTagOpen.chars +
      size closing + 1

def Statement.widthAll : List Statement → Nat
  | [] => 0
  | s :: ss => s.width + Statement.widthAll ss

def Section.width : Section → Nat
  | ⟨tag, body⟩ => size tag.chars + Statement.widthAll body

def Section.widthAll : List Section → Nat
  | [] => 0
  | s :: ss => s.width + Section.widthAll ss

end

mutual

theorem Statement.width_eq : ∀ s : Statement, s.width = size s.chars
  | .text _ => rfl
  | .comment _ => by simp [Statement.width, Statement.chars, Char.utf8Size, Nat.add_assoc]
  | .note _ => rfl
  | .mustache _ => rfl
  | .block _ program sections _ => by
    simp [Statement.width, Statement.chars, Statement.widthAll_eq program,
      Section.widthAll_eq sections, Nat.add_assoc]
  | .whole _ => rfl
  | .element _ children _ => by
    simp [Statement.width, Statement.chars, Statement.widthAll_eq children, Char.utf8Size,
      Nat.add_assoc]

theorem Statement.widthAll_eq : ∀ ss, Statement.widthAll ss = size (Statement.charsAll ss)
  | [] => rfl
  | s :: ss => by
    simp [Statement.widthAll, Statement.charsAll, Statement.width_eq s, Statement.widthAll_eq ss]

theorem Section.width_eq : ∀ s : Section, s.width = size s.chars
  | ⟨_, body⟩ => by simp [Section.width, Section.chars, Statement.widthAll_eq body]

theorem Section.widthAll_eq : ∀ ss, Section.widthAll ss = size (Section.charsAll ss)
  | [] => rfl
  | s :: ss => by
    simp [Section.widthAll, Section.charsAll, Section.width_eq s, Section.widthAll_eq ss]

end

end TemplateLint.Concrete
