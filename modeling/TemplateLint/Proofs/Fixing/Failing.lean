import TemplateLint.Proofs.Fixing.Statement
import TemplateLint.Proofs.Negation.Joined

namespace TemplateLint.Concrete

open Text (size)

/-- Reading statements at the front of a text comes to an error. -/
def Fails (s : List Char) : Prop := ∀ n, s.length ≤ n → ∃ e, statementsWithin n s = .error e

/-- Reading the sections of a block comes to an error, whatever the name of the block. -/
def SectionsFail (s : List Char) : Prop :=
  ∀ name start n, s.length ≤ n → ∃ e, sectionsWithin name start n s = .error e

theorem statementsWithin_block {opening : BlockTag} (h : opening.Stands) {name : List Char}
    (hname : opening.call.callee.path? = some name) (n : Nat) (s : List Char) :
    statementsWithin (n + 1) (opening.chars ++ s) = (do
      let (program, rest) ← statementsWithin n s
      let ((sections, closing), rest) ← sectionsWithin name (opening.chars ++ s) n rest
      let (more, rest) ← statementsWithin n rest
      .ok (.block opening program sections closing :: more, rest)) := by
  rw [statementsWithin]
  simp only [opening.ahead_append, h.read_eq hname, ok_bind]

theorem Statement.Stands.fails_cons {s : Statement} {rest : List Char} (h : s.Stands rest)
    (hr : Fails rest) : Fails (s.chars ++ rest) := by
  intro n hn
  cases n with
  | zero =>
    have hne := h.ne_nil
    simp [hne] at hn
  | succ n =>
    obtain ⟨e, he⟩ := hr n (length_of_append h.ne_nil hn)
    rw [Statement.Stands.within_cons s h hn, he]
    exact ⟨e, rfl⟩

theorem BlockTag.chars_ne_nil (t : BlockTag) : t.chars ≠ [] := by
  simp [BlockTag.chars, Token.chars]

theorem OpeningTag.chars_ne_nil (t : OpeningTag) : t.chars ≠ [] := by
  simp [OpeningTag.chars, Token.chars]

theorem ElseTag.chars_ne_nil (t : ElseTag) : t.chars ≠ [] := by
  simp [ElseTag.chars, Token.chars]

theorem BlockTag.Stands.fails_program {opening : BlockTag} (h : opening.Stands) {s : List Char}
    (hs : Fails s) : Fails (opening.chars ++ s) := by
  intro n hn
  obtain ⟨name, hname⟩ := Option.isSome_iff_exists.1 h.2.2
  cases n with
  | zero => simp [opening.chars_ne_nil] at hn
  | succ n =>
    obtain ⟨e, he⟩ := hs n (length_of_append opening.chars_ne_nil hn)
    rw [statementsWithin_block h hname, he]
    exact ⟨e, rfl⟩

theorem BlockTag.Stands.fails_sections {opening : BlockTag} (h : opening.Stands)
    {program : List Statement} {s : List Char} (hp : Statement.AllStand program s)
    (hend : endsContent s) (hs : SectionsFail s) :
    Fails (opening.chars ++ (Statement.charsAll program ++ s)) := by
  intro n hn
  obtain ⟨name, hname⟩ := Option.isSome_iff_exists.1 h.2.2
  cases n with
  | zero => simp [opening.chars_ne_nil] at hn
  | succ n =>
    have hlen := length_of_append opening.chars_ne_nil hn
    obtain ⟨e, he⟩ := hs name (opening.chars ++ (Statement.charsAll program ++ s)) n
      (by rw [List.length_append] at hlen; omega)
    rw [statementsWithin_block h hname, hp.within_eq program hend hlen, ok_bind]
    dsimp only
    rw [he]
    exact ⟨e, rfl⟩

theorem OpeningTag.Stands.fails_children {opening : OpeningTag} (h : opening.Stands)
    (hw : opening.isWhole = false) {s : List Char} (hs : Fails s) : Fails (opening.chars ++ s) := by
  intro n hn
  cases n with
  | zero => simp [opening.chars_ne_nil] at hn
  | succ n =>
    obtain ⟨e, he⟩ := hs n (length_of_append opening.chars_ne_nil hn)
    rw [statementsWithin]
    simp only [h.ahead_append, h.read_eq, ok_bind, hw, he]
    exact ⟨e, rfl⟩

theorem ElseTag.Stands.fails_body {tag : ElseTag} (h : tag.Stands) {s : List Char} (hs : Fails s) :
    SectionsFail (tag.chars ++ s) := by
  intro name start n hn
  cases n with
  | zero => simp [tag.chars_ne_nil] at hn
  | succ n =>
    obtain ⟨e, he⟩ := hs n (length_of_append tag.chars_ne_nil hn)
    rw [sectionsWithin]
    simp only [h.ahead_append, h.read_eq, ok_bind, he]
    exact ⟨e, rfl⟩

theorem ElseTag.Stands.fails_more {tag : ElseTag} (h : tag.Stands) {body : List Statement}
    {s : List Char} (hb : Statement.AllStand body s) (hend : endsContent s) (hs : SectionsFail s) :
    SectionsFail (tag.chars ++ (Statement.charsAll body ++ s)) := by
  intro name start n hn
  cases n with
  | zero => simp [tag.chars_ne_nil] at hn
  | succ n =>
    have hlen := length_of_append tag.chars_ne_nil hn
    obtain ⟨e, he⟩ := hs name start n (by rw [List.length_append] at hlen; omega)
    rw [sectionsWithin]
    simp only [h.ahead_append, h.read_eq, ok_bind, hb.within_eq body hend hlen]
    split
    · exact ⟨_, rfl⟩
    · simp only [he]
      exact ⟨e, rfl⟩

/-- A block whose condition was joined with a word is not read: its closing tag has another name than
its opening tag, if that has a name at all. -/
theorem Statement.Stands.fails_joined {s s' : Statement} {rest : List Char} (h : s.Stands rest)
    (hs : s.unnegated? = some s') (hj : s.joins = true) (u : List Char) : Fails (s'.chars ++ u) := by
  match s, h with
  | .block opening program sections closing, h =>
    obtain ⟨n, helper, program', sections', closing', hn, rfl, hprogram, hsections, hclosing⟩ :=
      h.unnegated_parts hs
    obtain ⟨hcall, -⟩ := eq_of_blockNegated? hn
    have hjoins : opening.joins n = true := by simpa [Statement.joins, hn, hs] using hj
    intro m hm
    have he : (Statement.block (opening.withCall (opening.call.freed n (helperWord helper)))
        program' sections' closing').chars ++ u =
          (opening.withCall (opening.call.freed n (helperWord helper))).chars ++
            (Statement.charsAll program' ++ (Section.charsAll sections' ++
              (closing'.chars ++ u))) := by
      simp [Statement.chars]
    rw [he] at hm ⊢
    cases m with
    | zero => simp [BlockTag.chars_ne_nil] at hm
    | succ m =>
      rw [statementsWithin]
      simp only [BlockTag.ahead_append]
      rcases h.1.read_joined hcall hjoins helper (Statement.charsAll program' ++
        (Section.charsAll sections' ++ (closing'.chars ++ u))) with ⟨e, hread⟩ | ⟨name, hname, hread⟩
      · rw [hread]
        exact ⟨e, rfl⟩
      · have hlen := length_of_append (BlockTag.chars_ne_nil _) hm
        have hword : IsWord helper.helper.toList := (helperWord_stands helper).1
        rw [hread, ok_bind]
        dsimp only
        rw [Statement.AllStand.within_eq program' ((hsections.before_close u).2 hprogram)
          (endsContent_sections hsections u) hlen, ok_bind]
        dsimp only
        rw [Section.AllStand.within_close sections' hsections
          (by rw [List.length_append] at hlen; omega), hclosing.read_other hword hname]
        exact ⟨_, rfl⟩

variable {f : Fixers} {g : Span → Bool}

theorem Section.endsContent_edit {ss : List Section} {closing : CloseTag} {k : Nat}
    (h : Section.AllStand ss closing.chars) (u : List Char) :
    endsContent (Section.charsAll (Section.editAll f g k ss) ++ (closing.chars ++ u)) := by
  cases ss with
  | nil => exact Or.inr (Or.inr (Or.inr (closing.ahead_append u)))
  | cons s ss =>
    obtain ⟨tag, body⟩ := s
    obtain ⟨htag, -⟩ := h
    simp only [Section.editAll, Section.charsAll, Section.chars, List.append_assoc]
    exact Or.inr (Or.inr (Or.inl ((htag.edit k).ahead_append _)))

mutual

/-- A statement with joined words in it is not read, at whatever depth they are. -/
theorem Statement.Stands.fails_edit : ∀ {s : Statement} {rest : List Char} {k : Nat},
    s.Stands rest → s.admits f g k = false → ∀ u : List Char, Fails ((s.edit f g k).chars ++ u)
  | .text _, _, _, _, h, _ => by cases h
  | .comment _, _, _, _, h, _ => by cases h
  | .note _, _, _, _, h, _ => by cases h
  | .mustache _, _, _, _, h, _ => by cases h
  | .block opening program sections closing, rest, k, hs, h, u => by
    rw [Statement.admits] at h
    rw [Statement.edit, pick_eq]
    split
    · next hplace =>
      rw [if_pos hplace, Bool.not_eq_false'] at h
      obtain ⟨s', hs'⟩ := Option.isSome_iff_exists.1 (Bool.and_eq_true_iff.1 hplace).2
      rw [hs']
      exact hs.fails_joined (Fixers.eq_of_unnegatedBlock? hs').2 h u
    · next hplace =>
      rw [if_neg hplace, Bool.and_eq_false_iff] at h
      obtain ⟨hopening, hprogram, hsections, -⟩ := hs
      obtain ⟨hhead, hend⟩ := hsections.front_edit (f := f) (g := g)
        (k := k + size opening.chars + size (Statement.charsAll program))
        (u := closing.chars ++ u) rfl (closing.textEnd u)
      have hprogram := hprogram.congr hhead (Section.textEnd hsections closing.textEnd_alone) hend
      simp only [Statement.chars, List.append_assoc]
      cases ha : Statement.admitsAll f g (k + size opening.chars) program with
      | false => exact (hopening.edit k).fails_program (Statement.AllStand.fails_edit hprogram ha)
      | true =>
        have hmore := Section.AllStand.fails_edit hsections
          (h.resolve_left (by simp [ha])) u
        exact (hopening.edit k).fails_sections (hprogram.edit ha)
          (Section.endsContent_edit hsections u) hmore
  | .whole _, _, _, _, h, _ => by cases h
  | .element opening children closing, rest, k, hs, h, u => by
    obtain ⟨hopening, hwhole, hchildren, -⟩ := hs
    have hfails := Statement.AllStand.fails_edit ((Statement.allStand_before_tag _ u).2 hchildren) h
    simp only [Statement.edit, Statement.chars, List.append_assoc]
    exact (hopening.edit k).fails_children hwhole hfails

theorem Statement.AllStand.fails_edit : ∀ {ss : List Statement} {rest : List Char} {k : Nat},
    Statement.AllStand ss rest → Statement.admitsAll f g k ss = false →
      Fails (Statement.charsAll (Statement.editAll f g k ss) ++ rest)
  | [], _, _, _, h => by cases h
  | s :: ss, rest, k, hs, h => by
    obtain ⟨hs, hss⟩ := hs
    simp only [Statement.editAll, Statement.charsAll, List.append_assoc]
    cases ha : s.admits f g k with
    | false => exact Statement.Stands.fails_edit hs ha _
    | true =>
      have h : Statement.admitsAll f g (k + size s.chars) ss = false := by
        simpa [Statement.admitsAll, ha] using h
      obtain ⟨hhead, hend⟩ := hss.front_edit (f := f) (g := g) (k := k + size s.chars)
      exact ((hs.edit ha).congr hhead hend).fails_cons (Statement.AllStand.fails_edit hss h)

theorem Section.AllStand.fails_edit : ∀ {ss : List Section} {closing : CloseTag} {k : Nat},
    Section.AllStand ss closing.chars → Section.admitsAll f g k ss = false → ∀ u : List Char,
      SectionsFail (Section.charsAll (Section.editAll f g k ss) ++ (closing.chars ++ u))
  | [], _, _, _, h, _ => by cases h
  | ⟨tag, body⟩ :: ss, closing, k, hs, h, u => by
    obtain ⟨htag, hbody, -, hss⟩ := hs
    rw [Section.admitsAll, Bool.and_eq_false_iff] at h
    obtain ⟨hhead, hend⟩ := hss.front_edit (f := f) (g := g)
      (k := k + size tag.chars + size (Statement.charsAll body))
      (u := closing.chars ++ u) rfl (closing.textEnd u)
    have hbody := hbody.congr hhead (Section.textEnd hss closing.textEnd_alone) hend
    simp only [Section.editAll, Section.charsAll, Section.chars, List.append_assoc]
    cases ha : Statement.admitsAll f g (k + size tag.chars) body with
    | false => exact (htag.edit k).fails_body (Statement.AllStand.fails_edit hbody ha)
    | true =>
      have hmore := Section.AllStand.fails_edit hss
        (h.resolve_left (by simp [ha])) u
      exact (htag.edit k).fails_more (hbody.edit ha) (Section.endsContent_edit hss u) hmore

end

/-- The text with the selected fixes is that of a template just when they leave all words apart. -/
theorem Statement.AllStand.readAll_edit {ss : List Statement} (h : Statement.AllStand ss [])
    (k : Nat) :
    (∃ ss', Statement.readAll (Statement.charsAll (Statement.editAll f g k ss)) = .ok ss') ↔
      Statement.admitsAll f g k ss = true := by
  constructor
  · rintro ⟨ss', hread⟩
    cases ha : Statement.admitsAll f g k ss with
    | true => rfl
    | false =>
      have hfails := h.fails_edit ha
      rw [List.append_nil] at hfails
      obtain ⟨e, he⟩ := hfails _ (Nat.le_refl _)
      rw [Statement.readAll, he] at hread
      cases hread
  · intro ha
    exact ⟨_, (h.edit ha).readAll_eq⟩

end TemplateLint.Concrete
