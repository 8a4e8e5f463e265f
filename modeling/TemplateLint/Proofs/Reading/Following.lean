import TemplateLint.Proofs.Reading.Statement

namespace TemplateLint.Concrete

open Text (opens startsWith Clear)

def Statement.isText : Statement → Bool
  | .text _ => true
  | _ => false

/-- What a statement that is no text begins with. -/
def Statement.mark : Statement → Char
  | .whole _ | .element _ _ _ | .comment _ => '<'
  | _ => '{'

theorem OpeningTag.head_chars (t : OpeningTag) (u : List Char) :
    (t.chars ++ u).head? = some '<' := by
  rw [OpeningTag.chars_append]
  rfl

theorem Statement.front_block (opening : BlockTag) (program : List Statement)
    (sections : List Section) (closing : CloseTag) (u : List Char) :
    ((Statement.block opening program sections closing).chars ++ u).head? = some '{' ∧
      textEndAhead ((Statement.block opening program sections closing).chars ++ u) = true := by
  refine ⟨rfl, ?_⟩
  simp only [Statement.chars, List.append_assoc]
  exact textEndAhead_of_ahead (opening.ahead_append _) (by decide)

/-- No text goes on where another statement begins. -/
theorem Statement.Stands.front {s : Statement} {rest : List Char} (h : s.Stands rest)
    (hs : s.isText = false) (u : List Char) :
    (s.chars ++ u).head? = some s.mark ∧ textEndAhead (s.chars ++ u) = true := by
  match s, h with
  | .comment value, _ => exact ⟨rfl, textEndAhead_of_ahead (comment_ahead value u) (by decide)⟩
  | .note n, _ => exact ⟨rfl, textEndAhead_of_ahead (n.ahead_append u) (by decide)⟩
  | .mustache m, hm =>
    refine ⟨rfl, textEndAhead_of_ahead (a := .mustache) ?_ (by decide)⟩
    exact (m.ahead_append u).trans hm.2
  | .block opening program sections closing, _ =>
    exact Statement.front_block opening program sections closing u
  | .whole opening, ho =>
    exact ⟨opening.head_chars u, textEndAhead_of_ahead (ho.1.ahead_append u) (by decide)⟩
  | .element opening children closing, ho =>
    simp only [Statement.chars, List.append_assoc]
    exact ⟨opening.head_chars _, textEndAhead_of_ahead (ho.1.ahead_append _) (by decide)⟩

/-- Where something else than text begins, it does so whatever follows. -/
theorem textEndAhead_grow {c : Char} {s : List Char} (h : textEndAhead (c :: s) = true)
    (t : List Char) : textEndAhead (c :: (s ++ t)) = true := by
  have hopens : ∀ p, opens p s = true → opens p (s ++ t) = true := by
    intro p hp
    cases s with
    | nil => cases hp
    | cons d s => exact hp
  rw [textEndAhead_cons] at h ⊢
  rcases h with ⟨hc, hs⟩ | ⟨hc, hs | hs⟩
  · exact .inl ⟨hc, hopens _ hs⟩
  · exact .inr ⟨hc, .inl (hopens _ hs)⟩
  · obtain ⟨u, rfl⟩ := Text.startsWith_iff.1 hs
    exact .inr ⟨hc, .inr (Text.startsWith_iff.2 ⟨u ++ t, by rw [List.append_assoc]⟩)⟩

/-- A text is all text without what follows it. -/
theorem clear_text_alone {cs rest : List Char} (h : Clear textEndAhead cs rest) :
    Clear textEndAhead cs [] := by
  induction cs with
  | nil => trivial
  | cons c cs ih =>
    obtain ⟨hc, hcs⟩ := h
    refine ⟨?_, ih hcs⟩
    rw [List.append_nil]
    cases hs : textEndAhead (c :: cs) with
    | false => rfl
    | true => rw [textEndAhead_grow hs rest] at hc; cases hc

theorem Statement.Stands.text_alone {cs rest : List Char} (h : (Statement.text cs).Stands rest) :
    (Statement.text cs).Stands [] := ⟨h.1, clear_text_alone h.2.1, rfl⟩

/-- Where a text would end no text begins. -/
theorem Statement.Stands.isText_eq_false {s : Statement} {rest : List Char} (h : s.Stands rest)
    (hend : textEndAhead (s.chars ++ rest) = true) : s.isText = false := by
  cases s with
  | text cs =>
    obtain ⟨hne, hclear, -⟩ := h
    obtain ⟨c, cs, rfl⟩ := List.exists_cons_of_ne_nil hne
    have hc : textEndAhead (c :: (cs ++ rest)) = false := hclear.1
    rw [show (Statement.text (c :: cs)).chars ++ rest = c :: (cs ++ rest) from rfl, hc] at hend
    cases hend
  | _ => rfl

theorem Statement.Stands.anywhere {s : Statement} {rest : List Char} (h : s.Stands rest)
    (hs : s.isText = false) (u : List Char) : s.Stands u := by
  cases s with
  | text cs => cases hs
  | _ => exact h

/-- Statements are read in the same way before another text, if a text at their end is. -/
theorem Statement.AllStand.follow {ss : List Statement} {rest u : List Char}
    (h : Statement.AllStand ss rest)
    (hlast : ∀ cs, ss.getLast? = some (.text cs) → (Statement.text cs).Stands rest →
      (Statement.text cs).Stands u) : Statement.AllStand ss u := by
  induction ss with
  | nil => trivial
  | cons s ss ih =>
    obtain ⟨hs, hss⟩ := h
    cases ss with
    | nil =>
      refine ⟨?_, trivial⟩
      cases s with
      | text cs => exact hlast cs rfl hs
      | _ => exact hs.anywhere rfl _
    | cons s' more =>
      refine ⟨?_, ih hss fun cs hcs => hlast cs (by rwa [List.getLast?_cons_cons])⟩
      cases s with
      | text cs =>
        have hend : textEndAhead (s'.chars ++ (Statement.charsAll more ++ rest)) = true := by
          simpa only [Statement.charsAll, List.append_assoc] using hs.2.2
        have hnext := hss.1.isText_eq_false hend
        have hbefore := hss.1.front hnext (Statement.charsAll more ++ rest)
        have hafter := hss.1.front hnext (Statement.charsAll more ++ u)
        simp only [Statement.charsAll, List.append_assoc] at hs ⊢
        exact hs.congr (hbefore.1.trans hafter.1.symm) fun _ => hafter.2
      | _ => exact hs.anywhere rfl _

/-- Statements are read in the same way at the end of a text. -/
theorem Statement.AllStand.alone {ss : List Statement} {rest : List Char}
    (h : Statement.AllStand ss rest) : Statement.AllStand ss [] :=
  h.follow fun _ _ => Statement.Stands.text_alone

theorem Statement.charsAll_append (ss ts : List Statement) :
    Statement.charsAll (ss ++ ts) = Statement.charsAll ss ++ Statement.charsAll ts := by
  induction ss with
  | nil => rfl
  | cons s ss ih => simp only [List.cons_append, Statement.charsAll, ih, List.append_assoc]

theorem Statement.AllStand.append {ss ts : List Statement} {rest : List Char}
    (hs : Statement.AllStand ss (Statement.charsAll ts ++ rest)) (ht : Statement.AllStand ts rest) :
    Statement.AllStand (ss ++ ts) rest := by
  induction ss with
  | nil => exact ht
  | cons s ss ih =>
    obtain ⟨hs, hss⟩ := hs
    refine ⟨?_, ih hss⟩
    rw [List.append_eq, Statement.charsAll_append, List.append_assoc]
    exact hs

end TemplateLint.Concrete
