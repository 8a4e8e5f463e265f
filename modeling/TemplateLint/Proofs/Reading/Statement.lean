import TemplateLint.Concrete.Read.Statement
import TemplateLint.Proofs.Reading.Element

namespace TemplateLint.Concrete

open Text (isBlank after? eat run scanTo startsWith opens AllBlank Clear Near)

/-- Whether something else than text begins here, or nothing is left. -/
def textEndAhead (s : List Char) : Bool := Ahead.of s ≠ .text

theorem ahead_angle {d : Char} {s : List Char} (hd : d ≠ '/')
    (hc : startsWith ['!', '-', '-'] (d :: s) = false) :
    Ahead.of ('<' :: d :: s) = if startsTag d then .element else .text := by
  unfold Ahead.of
  split
  · simp_all
  · simp_all
  · next he =>
    simp only [List.cons.injEq, true_and] at he
    obtain ⟨rfl, rfl⟩ := he
    simp [startsWith, after?] at hc
  · simp_all
  · simp_all
  · next hx he =>
    obtain ⟨rfl, rfl⟩ := List.cons.inj he
    exact absurd rfl (hx d s rfl)

theorem textEndAhead_cons (c : Char) (s : List Char) :
    textEndAhead (c :: s) = true ↔
      (c = '{' ∧ opens (· == '{') s = true) ∨
        (c = '<' ∧ (opens (fun d => d == '/' || startsTag d) s = true ∨
          startsWith ['!', '-', '-'] s = true)) := by
  by_cases hb : c = '{'
  · subst hb
    cases s with
    | nil => simp [textEndAhead, Ahead.of]
    | cons d s =>
      by_cases hd : d = '{'
      · subst hd
        have hne : Ahead.inBraces s ≠ .text := by
          unfold Ahead.inBraces
          split <;> try split
          all_goals simp
        simp [textEndAhead, Ahead.of, hne]
      · simp [textEndAhead, Ahead.of, hd]
  · by_cases ha : c = '<'
    · subst ha
      cases s with
      | nil => simp [textEndAhead, Ahead.of, startsWith, after?]
      | cons d s =>
        by_cases hd : d = '/'
        · subst hd
          simp [textEndAhead, Ahead.of]
        · cases hc : startsWith ['!', '-', '-'] (d :: s) with
          | true =>
            obtain ⟨t, ht⟩ := Text.startsWith_iff.1 hc
            rw [ht]
            simp [textEndAhead, Ahead.of]
          | false =>
            have hof := ahead_angle hd hc
            simp only [textEndAhead, hof]
            cases ht : startsTag d <;> simp [ht, hd]
    · have hof : Ahead.of (c :: s) = .text := by
        unfold Ahead.of
        split <;> simp_all
      simp [textEndAhead, hof, hb, ha]

theorem opens_of_textEndAhead {s : List Char} (h : textEndAhead s = true) :
    opens (['!', '-'].contains ·) s = false := by
  cases s with
  | nil => rfl
  | cons c s =>
    rw [textEndAhead_cons] at h
    rcases h with ⟨rfl, -⟩ | ⟨rfl, -⟩ <;> rfl

/-- A mark none of whose characters comes first in the rest stands in front of the rest. -/
theorem startsWith_append_of_opens {mark s : List Char} (h : opens (mark.contains ·) s = false)
    (t : List Char) : startsWith mark (t ++ s) = startsWith mark t := by
  induction mark generalizing t with
  | nil => simp [startsWith, after?]
  | cons m mark ih =>
    cases t with
    | nil =>
      cases s with
      | nil => rfl
      | cons c s =>
        simp only [opens, List.contains_cons, Bool.or_eq_false_iff, beq_eq_false_iff_ne] at h
        have hm : m ≠ c := fun hm => h.1 hm.symm
        simp [startsWith, after?, hm]
    | cons c t =>
      have hs : opens (mark.contains ·) s = false := by
        cases s with
        | nil => rfl
        | cons d s =>
          simp only [opens, List.contains_cons, Bool.or_eq_false_iff] at h ⊢
          exact h.2
      have ht := ih hs t
      unfold startsWith at ht ⊢
      rw [List.cons_append, Text.after?_cons_cons, Text.after?_cons_cons]
      split
      · exact ht
      · rfl

theorem opens_of_head {p : Char → Bool} {s t : List Char} (h : s.head? = t.head?) (u : List Char) :
    opens p (u ++ s) = opens p (u ++ t) := by
  apply opens_append_congr
  cases s <;> cases t <;> simp_all

theorem textEndAhead_congr {s t : List Char} (hh : s.head? = t.head?) (hs : textEndAhead s = true)
    (ht : textEndAhead t = true) (c : Char) (u : List Char) :
    textEndAhead (c :: (u ++ s)) = textEndAhead (c :: (u ++ t)) := by
  have hm : ∀ {v}, textEndAhead v = true →
      startsWith ['!', '-', '-'] (u ++ v) = startsWith ['!', '-', '-'] u := by
    intro v hv
    apply startsWith_append_of_opens
    have ho := opens_of_textEndAhead hv
    cases v with
    | nil => rfl
    | cons d v => simpa using ho
  rw [Bool.eq_iff_iff, textEndAhead_cons, textEndAhead_cons, hm hs, hm ht,
    opens_of_head hh u, opens_of_head hh u]

theorem clear_text_congr {cs s t : List Char} (hh : s.head? = t.head?)
    (hs : textEndAhead s = true) (ht : textEndAhead t = true) (h : Clear textEndAhead cs s) :
    Clear textEndAhead cs t := by
  induction cs with
  | nil => trivial
  | cons c cs ih =>
    obtain ⟨hc, hcs⟩ := h
    rw [textEndAhead_congr hh hs ht] at hc
    exact ⟨hc, ih hcs⟩

mutual

/-- The statement is read back when `rest` follows it. -/
def Statement.Stands : Statement → List Char → Prop
  | .text cs, rest => cs ≠ [] ∧ Clear textEndAhead cs rest ∧ textEndAhead rest = true
  | .comment value, _ => CommentStands value
  | .note n, _ => n.Stands
  | .mustache m, _ => m.Stands ∧ Ahead.of m.chars = .mustache
  | .block opening program sections closing, _ =>
    opening.Stands ∧ Statement.AllStand program (Section.charsAll sections ++ closing.chars) ∧
      Section.AllStand sections closing.chars ∧
      ∃ name, opening.call.callee.path? = some name ∧ closing.Stands name
  | .whole opening, _ => opening.Stands ∧ opening.isWhole = true
  | .element opening children closing, _ =>
    opening.Stands ∧ opening.isWhole = false ∧
      Statement.AllStand children (Token.closingTagOpen.chars ++ (closing ++ ['>'])) ∧
      '>' ∉ closing ∧ Text.trim closing = opening.name

def Statement.AllStand : List Statement → List Char → Prop
  | [], _ => True
  | s :: ss, rest => s.Stands (Statement.charsAll ss ++ rest) ∧ Statement.AllStand ss rest

/-- A plain `else` section is the last one. -/
def Section.AllStand : List Section → List Char → Prop
  | [], _ => True
  | ⟨tag, body⟩ :: more, rest =>
    tag.Stands ∧ Statement.AllStand body (Section.charsAll more ++ rest) ∧
      (∀ trail tilde, tag.tail = .plain trail tilde → more = []) ∧ Section.AllStand more rest

end

theorem Statement.Stands.congr {st : Statement} {s t : List Char} (hh : s.head? = t.head?)
    (ht : textEndAhead s = true → textEndAhead t = true) (h : st.Stands s) : st.Stands t := by
  cases st with
  | text cs =>
    obtain ⟨hne, hclear, hend⟩ := h
    exact ⟨hne, clear_text_congr hh hend (ht hend) hclear, ht hend⟩
  | comment value => exact h
  | note n => exact h
  | mustache m => exact h
  | block opening program sections closing => exact h
  | whole opening => exact h
  | element opening children closing => exact h

theorem charsAll_head {ss : List Statement} {s t : List Char} (hh : s.head? = t.head?) :
    (Statement.charsAll ss ++ s).head? = (Statement.charsAll ss ++ t).head? := by
  cases hc : Statement.charsAll ss with
  | nil => exact hh
  | cons c cs => rfl

theorem textEndAhead_append {s t : List Char} (hh : s.head? = t.head?)
    (hs : textEndAhead s = true) (ht : textEndAhead t = true) (u : List Char)
    (h : textEndAhead (u ++ s) = true) : textEndAhead (u ++ t) = true := by
  cases u with
  | nil => exact ht
  | cons c u =>
    rw [List.cons_append, textEndAhead_congr hh hs ht] at h
    exact h

theorem Statement.AllStand.congr {ss : List Statement} {s t : List Char} (hh : s.head? = t.head?)
    (hs : textEndAhead s = true) (ht : textEndAhead t = true) (h : Statement.AllStand ss s) :
    Statement.AllStand ss t := by
  induction ss with
  | nil => trivial
  | cons st ss ih =>
    obtain ⟨hst, hss⟩ := h
    exact ⟨hst.congr (charsAll_head hh) (textEndAhead_append hh hs ht _), ih hss⟩

theorem BlockTag.ahead_append (t : BlockTag) (s : List Char) : Ahead.of (t.chars ++ s) = .block := by
  rw [BlockTag.chars_append]
  cases t.tilde <;> rfl

theorem CloseTag.ahead_append (t : CloseTag) (s : List Char) :
    Ahead.of (t.chars ++ s) = .closeTag := by
  rw [CloseTag.chars_append]
  cases t.tildeBefore <;> rfl

theorem ElseTag.Stands.ahead_append {t : ElseTag} (h : t.Stands) (s : List Char) :
    Ahead.of (t.chars ++ s) = .elseTag := by
  obtain ⟨hlead, htail⟩ := h
  have helse : elseAhead (t.lead ++ (Token.elseWord.chars ++ (t.tail.chars ++ s))) = true := by
    rw [elseAhead_eq hlead]
    exact htail.opens_afterElse s
  have htilde : eat '~' (flagged t.tilde ['~'] ++
      (t.lead ++ (Token.elseWord.chars ++ (t.tail.chars ++ s)))) =
        (t.tilde, t.lead ++ (Token.elseWord.chars ++ (t.tail.chars ++ s))) :=
    eat_flagged fun _ => opens_lead (fun c => beq_of_isBlank (by decide)) hlead rfl
  have hno : ∀ d, isBlank d = false → d ≠ 'e' → ∀ u,
      t.lead ++ (Token.elseWord.chars ++ (t.tail.chars ++ s)) ≠ d :: u := by
    intro d hd he u hu
    cases hl : t.lead with
    | nil =>
      rw [hl] at hu
      exact he (List.cons.inj hu).1.symm
    | cons c lead =>
      rw [hl] at hu
      have hc := hlead c (by simp [hl])
      rw [(List.cons.inj hu).1, hd] at hc
      cases hc
  rw [ElseTag.chars_append]
  show Ahead.inBraces (flagged t.tilde ['~'] ++
      (t.lead ++ (Token.elseWord.chars ++ (t.tail.chars ++ s)))) = .elseTag
  unfold Ahead.inBraces
  rw [htilde]
  split
  · next u hu => exact absurd hu (hno '!' (by decide) (by decide) u)
  · next u hu => exact absurd hu (hno '#' (by decide) (by decide) u)
  · next u hu => exact absurd hu (hno '/' (by decide) (by decide) u)
  · rw [helse]
    rfl

theorem OpeningTag.Stands.ahead_append {t : OpeningTag} (h : t.Stands) (s : List Char) :
    Ahead.of (t.chars ++ s) = .element := by
  obtain ⟨hname, -⟩ := h
  rw [OpeningTag.chars_append]
  cases hn : t.name with
  | nil =>
    rw [hn] at hname
    cases hname
  | cons c name =>
    rw [hn] at hname
    have hc : startsTag c = true := hname
    have hbang : '!' ≠ c := by
      rintro rfl
      cases hc
    have hslash : c ≠ '/' := by
      rintro rfl
      cases hc
    simp only [Token.chars, List.cons_append, List.nil_append]
    rw [ahead_angle hslash (by simp [startsWith, after?, hbang]), hc]
    rfl

theorem comment_ahead (value s : List Char) :
    Ahead.of ((Token.commentOpen.chars ++ value ++ ['-', '-', '>']) ++ s) = .comment := by
  rfl

theorem closingTag_ahead (s : List Char) :
    Ahead.of (Token.closingTagOpen.chars ++ s) = .closingTag := rfl

theorem not_mem_of_clear {c : Char} {s t : List Char} (h : Clear (startsWith [c]) s t) :
    c ∉ s :=
  h.not_mem fun s => by rw [Text.startsWith_singleton, opens, beq_self_eq_true]

theorem clear_of_not_mem {c : Char} {s : List Char} (h : c ∉ s) (t : List Char) :
    Clear (startsWith [c]) s t := by
  induction s with
  | nil => trivial
  | cons d s ih =>
    simp only [List.mem_cons, not_or] at h
    refine ⟨?_, ih h.2⟩
    rw [Text.startsWith_singleton, opens, beq_eq_false_iff_ne]
    exact fun hc => h.1 hc.symm

theorem eq_of_readClosingTag {tag start s closing rest : List Char}
    (h : readClosingTag tag start s = .ok (closing, rest)) :
    s = Token.closingTagOpen.chars ++ (closing ++ (['>'] ++ rest)) ∧ '>' ∉ closing ∧
      Text.trim closing = tag := by
  unfold readClosingTag at h
  split at h
  · cases h
  · next s₁ h₁ =>
    cases hc : scanTo (startsWith ['>']) s₁ with
    | mk closing' s₂ =>
      simp only [hc] at h
      split at h
      · cases h
      · next s₃ h₃ =>
        split at h
        · cases h
        · next htrim =>
          cases h
          obtain ⟨rfl, hclear, -⟩ := Text.eq_of_scanTo hc
          obtain rfl := Text.after?_eq_some_iff.1 h₁
          obtain rfl := Text.after?_eq_some_iff.1 h₃
          exact ⟨rfl, not_mem_of_clear hclear, by simpa using htrim⟩

theorem readClosingTag_eq {tag closing : List Char} (start rest : List Char) (hc : '>' ∉ closing)
    (ht : Text.trim closing = tag) :
    readClosingTag tag start (Token.closingTagOpen.chars ++ (closing ++ (['>'] ++ rest))) =
      .ok (closing, rest) := by
  have hscan : scanTo (startsWith ['>']) (closing ++ (['>'] ++ rest)) =
      (closing, ['>'] ++ rest) :=
    Text.scanTo_eq (clear_of_not_mem hc _) fun _ => Text.startsWith_append _ _
  unfold readClosingTag
  simp only [Text.after?_append, hscan, ht, ne_eq, not_true_eq_false, if_false]

theorem textEndAhead_of_ahead {s : List Char} {a : Ahead} (h : Ahead.of s = a) (ha : a ≠ .text) :
    textEndAhead s = true := by
  simp [textEndAhead, h, ha]

theorem CloseTag.textEnd (t : CloseTag) (s : List Char) : textEndAhead (t.chars ++ s) = true :=
  textEndAhead_of_ahead (t.ahead_append s) (by decide)

theorem Section.textEnd {ss : List Section} {s : List Char} (h : Section.AllStand ss s)
    (hs : textEndAhead s = true) : textEndAhead (Section.charsAll ss ++ s) = true := by
  cases ss with
  | nil => exact hs
  | cons x ss =>
    obtain ⟨tag, body⟩ := x
    obtain ⟨htag, -⟩ := h
    simp only [Section.charsAll, Section.chars, List.append_assoc]
    exact textEndAhead_of_ahead (htag.ahead_append _) (by decide)

theorem sections_head {s t : List Char} (hh : s.head? = t.head?) (ss : List Section) :
    (Section.charsAll ss ++ s).head? = (Section.charsAll ss ++ t).head? := by
  cases hc : Section.charsAll ss with
  | nil => exact hh
  | cons c cs => rfl

theorem Section.AllStand.congr {ss : List Section} {s t : List Char} (hh : s.head? = t.head?)
    (hs : textEndAhead s = true) (ht : textEndAhead t = true) (h : Section.AllStand ss s) :
    Section.AllStand ss t := by
  induction ss with
  | nil => trivial
  | cons x ss ih =>
    obtain ⟨tag, body⟩ := x
    obtain ⟨htag, hbody, hlast, hss⟩ := h
    exact ⟨htag, hbody.congr (sections_head hh ss) (Section.textEnd hss hs)
      (Section.textEnd (ih hss) ht), hlast, ih hss⟩

/-- What stands before the closing tag of a block stands there whatever follows the tag. -/
theorem Section.AllStand.before_close {body : List Statement} {sections : List Section}
    {closing : CloseTag} (h : Section.AllStand sections closing.chars) (rest : List Char) :
    Statement.AllStand body (Section.charsAll sections ++ (closing.chars ++ rest)) ↔
      Statement.AllStand body (Section.charsAll sections ++ closing.chars) := by
  have hend := closing.textEnd []
  rw [List.append_nil] at hend
  have hrestend := closing.textEnd rest
  have hh : closing.chars.head? = (closing.chars ++ rest).head? := rfl
  have hs := Section.textEnd h hend
  have hsrest := Section.textEnd (h.congr hh hend hrestend) hrestend
  exact ⟨fun hb => hb.congr (sections_head hh.symm sections) hsrest hs,
    fun hb => hb.congr (sections_head hh sections) hs hsrest⟩

/-- The same before the closing tag of an element. -/
theorem Statement.allStand_before_tag {children : List Statement} (closing rest : List Char) :
    Statement.AllStand children (Token.closingTagOpen.chars ++ (closing ++ (['>'] ++ rest))) ↔
      Statement.AllStand children (Token.closingTagOpen.chars ++ (closing ++ ['>'])) := by
  have hend : ∀ t, textEndAhead (Token.closingTagOpen.chars ++ t) = true := fun t =>
    textEndAhead_of_ahead (closingTag_ahead t) (by decide)
  have hh : (Token.closingTagOpen.chars ++ (closing ++ ['>'])).head? =
      (Token.closingTagOpen.chars ++ (closing ++ (['>'] ++ rest))).head? := rfl
  exact ⟨fun h => h.congr hh.symm (hend _) (hend _), fun h => h.congr hh (hend _) (hend _)⟩

/-- What a step of the two readers has to give. -/
def ReadsStatements (n : Nat) : Prop :=
  ∀ s ss rest, statementsWithin n s = .ok (ss, rest) →
    s = Statement.charsAll ss ++ rest ∧ Statement.AllStand ss rest

def ReadsSections (n : Nat) : Prop :=
  ∀ name start s ss closing rest, sectionsWithin name start n s = .ok ((ss, closing), rest) →
    s = Section.charsAll ss ++ (closing.chars ++ rest) ∧ Section.AllStand ss closing.chars ∧
      closing.Stands name ∧ (Ahead.of s ≠ .elseTag → ss = [])

theorem readsStatements_cons {n : Nat} (ih : ReadsStatements n) (st : Statement)
    {s rest pre : List Char} {ss : List Statement} (hst : ∀ t, st.Stands t)
    (h : (do
      let (more, s) ← statementsWithin n s
      .ok (st :: more, s)) = (.ok (ss, rest) : Result (List Statement × List Char)))
    (hpre : pre = st.chars ++ s) :
    pre = Statement.charsAll ss ++ rest ∧ Statement.AllStand ss rest := by
  obtain ⟨⟨more, s₁⟩, h₁, h₂⟩ := bind_eq_ok.1 h
  cases h₂
  obtain ⟨rfl, hmore⟩ := ih _ _ _ h₁
  exact ⟨by simp [hpre, Statement.charsAll], hst _, hmore⟩

theorem readsSections_succ {n : Nat} (hstatements : ReadsStatements n) (ih : ReadsSections n) :
    ReadsSections (n + 1) := by
  intro name start s ss closing rest h
  unfold sectionsWithin at h
  split at h
  · next hahead =>
    obtain ⟨⟨t, s₁⟩, h₁, h₂⟩ := bind_eq_ok.1 h
    cases h₂
    obtain ⟨rfl, ht⟩ := CloseTag.eq_of_read h₁
    exact ⟨rfl, trivial, ht, fun _ => rfl⟩
  · next hahead =>
    obtain ⟨⟨tag, s₁⟩, h₁, h₂⟩ := bind_eq_ok.1 h
    obtain ⟨⟨body, s₂⟩, h₃, h₄⟩ := bind_eq_ok.1 h₂
    obtain ⟨rfl, htag⟩ := ElseTag.eq_of_read hahead h₁
    obtain ⟨rfl, hbody⟩ := hstatements _ _ _ h₃
    dsimp only at h₄
    split at h₄
    · cases h₄
    · next hlast =>
      obtain ⟨⟨⟨more, t⟩, s₃⟩, h₅, h₆⟩ := bind_eq_ok.1 h₄
      cases h₆
      obtain ⟨rfl, hmore, hclosing, hnone⟩ := ih _ _ _ _ _ _ h₅
      refine ⟨by simp [Section.charsAll, Section.chars], ?_, hclosing,
        fun hno => absurd hahead hno⟩
      exact ⟨htag, (hmore.before_close s₃).1 hbody,
        fun trail tilde htail => hnone fun hs => hlast _ _ htail hs, hmore⟩
  · cases h

section

variable {n : Nat} {s rest : List Char} {ss : List Statement}

theorem readsStatements_text (ih : ReadsStatements n) (hahead : Ahead.of s = .text)
    (h : statementsWithin (n + 1) s = .ok (ss, rest)) :
    s = Statement.charsAll ss ++ rest ∧ Statement.AllStand ss rest := by
  unfold statementsWithin at h
  simp only [hahead] at h
  cases hscan : scanTo textEndAhead s with
  | mk text s₁ =>
    rw [show scanTo (fun s => decide (Ahead.of s ≠ .text)) s = (text, s₁) from hscan] at h
    obtain ⟨rfl, hclear, hend⟩ := Text.eq_of_scanTo hscan
    obtain ⟨⟨more, s₂⟩, h₁, h₂⟩ := bind_eq_ok.1 h
    cases h₂
    obtain ⟨rfl, hmore⟩ := ih _ _ _ h₁
    have hend : textEndAhead (Statement.charsAll more ++ s₂) = true := by
      by_cases hne : Statement.charsAll more ++ s₂ = []
      · rw [hne]
        rfl
      · exact hend hne
    refine ⟨by simp [Statement.charsAll, Statement.chars], ⟨?_, hclear, hend⟩, hmore⟩
    rintro rfl
    rw [List.nil_append] at hahead
    simp [textEndAhead, hahead] at hend

theorem readsStatements_block (ih : ReadsStatements n) (hsections : ReadsSections n)
    (hahead : Ahead.of s = .block) (h : statementsWithin (n + 1) s = .ok (ss, rest)) :
    s = Statement.charsAll ss ++ rest ∧ Statement.AllStand ss rest := by
  unfold statementsWithin at h
  simp only [hahead] at h
  obtain ⟨⟨⟨opening, name⟩, s₁⟩, h₁, h₂⟩ := bind_eq_ok.1 h
  obtain ⟨⟨program, s₂⟩, h₃, h₄⟩ := bind_eq_ok.1 h₂
  obtain ⟨⟨⟨sections, closing⟩, s₃⟩, h₅, h₆⟩ := bind_eq_ok.1 h₄
  dsimp only at h₃ h₅ h₆
  obtain ⟨hs, hopening, hname⟩ := BlockTag.eq_of_read h₁
  obtain ⟨hs₁, hprogram⟩ := ih _ _ _ h₃
  obtain ⟨hs₂, hss, hclosing, -⟩ := hsections _ _ _ _ _ _ h₅
  rw [hs₂, hss.before_close] at hprogram
  refine readsStatements_cons ih (.block opening program sections closing) (fun _ => ?_) h₆ ?_
  · exact ⟨hopening, hprogram, hss, name, hname, hclosing⟩
  · rw [hs, hs₁, hs₂]
    simp [Statement.chars]

theorem readsStatements_element (ih : ReadsStatements n) (hahead : Ahead.of s = .element)
    (h : statementsWithin (n + 1) s = .ok (ss, rest)) :
    s = Statement.charsAll ss ++ rest ∧ Statement.AllStand ss rest := by
  unfold statementsWithin at h
  simp only [hahead] at h
  obtain ⟨⟨opening, s₁⟩, h₁, h₂⟩ := bind_eq_ok.1 h
  obtain ⟨hs, hopening⟩ := OpeningTag.eq_of_read hahead h₁
  dsimp only at h₂
  split at h₂
  · next hwhole => exact readsStatements_cons ih (.whole opening) (fun _ => ⟨hopening, hwhole⟩) h₂ hs
  · next hwhole =>
    obtain ⟨⟨children, s₂⟩, h₃, h₄⟩ := bind_eq_ok.1 h₂
    obtain ⟨⟨closing, s₃⟩, h₅, h₆⟩ := bind_eq_ok.1 h₄
    dsimp only at h₃ h₅ h₆
    obtain ⟨hs₁, hchildren⟩ := ih _ _ _ h₃
    obtain ⟨hs₂, hclosing, htrim⟩ := eq_of_readClosingTag h₅
    rw [hs₂, Statement.allStand_before_tag] at hchildren
    refine readsStatements_cons ih (.element opening children closing) (fun _ => ?_) h₆ ?_
    · exact ⟨hopening, by simpa using hwhole, hchildren, hclosing, htrim⟩
    · rw [hs, hs₁, hs₂]
      simp [Statement.chars]

end

theorem readsStatements_succ {n : Nat} (ih : ReadsStatements n) (hsections : ReadsSections n) :
    ReadsStatements (n + 1) := by
  intro s ss rest h
  cases hahead : Ahead.of s with
  | text => exact readsStatements_text ih hahead h
  | block => exact readsStatements_block ih hsections hahead h
  | element => exact readsStatements_element ih hahead h
  | ending | closingTag | elseTag | closeTag =>
    simp only [statementsWithin, hahead] at h
    cases h
    exact ⟨rfl, trivial⟩
  | comment =>
    simp only [statementsWithin, hahead] at h
    obtain ⟨⟨value, s₁⟩, h₁, h₂⟩ := bind_eq_ok.1 h
    obtain ⟨hs, hvalue⟩ := eq_of_readComment h₁
    exact readsStatements_cons ih (.comment value) (fun _ => hvalue) h₂ hs
  | note =>
    simp only [statementsWithin, hahead] at h
    obtain ⟨⟨n', s₁⟩, h₁, h₂⟩ := bind_eq_ok.1 h
    obtain ⟨hs, hn⟩ := Note.eq_of_read h₁
    exact readsStatements_cons ih (.note n') (fun _ => hn) h₂ hs
  | mustache =>
    simp only [statementsWithin, hahead] at h
    obtain ⟨⟨m, s₁⟩, h₁, h₂⟩ := bind_eq_ok.1 h
    obtain ⟨rfl, hm⟩ := Mustache.eq_of_read h₁
    rw [Mustache.ahead_append] at hahead
    exact readsStatements_cons ih (.mustache m) (fun _ => ⟨hm, hahead⟩) h₂ rfl

theorem readsStatements (n : Nat) : ReadsStatements n ∧ ReadsSections n := by
  induction n with
  | zero =>
    constructor
    · intro s ss rest h
      cases h
      exact ⟨rfl, trivial⟩
    · intro name start s ss closing rest h
      cases h
  | succ n ih => exact ⟨readsStatements_succ ih.1 ih.2, readsSections_succ ih.1 ih.2⟩

/-- A text that is read as a template is the text of statements that stand. -/
theorem Statement.eq_of_readAll {s : List Char} {ss : List Statement}
    (h : Statement.readAll s = .ok ss) :
    s = Statement.charsAll ss ∧ Statement.AllStand ss [] := by
  unfold Statement.readAll at h
  obtain ⟨⟨ss', rest⟩, h₁, h₂⟩ := bind_eq_ok.1 h
  dsimp only at h₂
  split at h₂
  · next hrest =>
    cases h₂
    obtain rfl : rest = [] := by simpa using hrest
    have hread := (readsStatements s.length).1 _ _ _ h₁
    rw [List.append_nil] at hread
    exact hread
  · cases h₂

/-- Where a list of statements ends. -/
def endsContent (s : List Char) : Prop :=
  Ahead.of s = .ending ∨ Ahead.of s = .closingTag ∨ Ahead.of s = .elseTag ∨ Ahead.of s = .closeTag

theorem statementsWithin_end {s : List Char} (h : endsContent s) (n : Nat) :
    statementsWithin n s = .ok ([], s) := by
  cases n with
  | zero => rfl
  | succ n =>
    unfold statementsWithin
    rcases h with h | h | h | h <;> simp only [h]

theorem endsContent_sections {ss : List Section} {t : CloseTag} {s : List Char}
    (h : Section.AllStand ss s) (u : List Char) :
    endsContent (Section.charsAll ss ++ (t.chars ++ u)) := by
  cases ss with
  | nil => exact Or.inr (Or.inr (Or.inr (t.ahead_append u)))
  | cons x ss =>
    obtain ⟨tag, body⟩ := x
    obtain ⟨htag, -⟩ := h
    simp only [Section.charsAll, Section.chars, List.append_assoc]
    exact Or.inr (Or.inr (Or.inl (htag.ahead_append _)))

theorem BlockTag.Stands.isWord {t : BlockTag} (h : t.Stands) {name : List Char}
    (hn : t.call.callee.path? = some name) : IsWord name := by
  obtain ⟨hcall, -, -⟩ := h
  cases hc : t.call with
  | mk lead callee args trail =>
    rw [hc] at hcall hn
    obtain ⟨-, hcallee, -⟩ := hcall
    cases callee with
    | word w =>
      have hw := hcallee.1
      simp only [Expr.path?] at hn
      split at hn
      · cases hn
      · cases hn
        exact hw
    | quoted mark raw => cases hn
    | group call => cases hn

theorem Statement.Stands.ne_nil {st : Statement} {s : List Char} (h : st.Stands s) :
    st.chars ≠ [] := by
  cases st with
  | text cs => exact h.1
  | comment value => simp [Statement.chars, Token.chars]
  | note n => simp [Statement.chars, Note.chars, Token.chars]
  | mustache m => simp [Statement.chars, Mustache.chars, Token.chars]
  | block opening program sections closing =>
    simp [Statement.chars, BlockTag.chars, Token.chars]
  | whole opening => simp [Statement.chars, OpeningTag.chars, Token.chars]
  | element opening children closing => simp [Statement.chars, OpeningTag.chars, Token.chars]

theorem length_of_append {s t : List Char} {n : Nat} (h : s ≠ []) (hn : (s ++ t).length ≤ n + 1) :
    t.length ≤ n := by
  have hpos := List.length_pos_iff.2 h
  rw [List.length_append] at hn
  omega

theorem Statement.block_append (opening : BlockTag) (program : List Statement)
    (sections : List Section) (closing : CloseTag) (rest : List Char) :
    (Statement.block opening program sections closing).chars ++ rest =
      opening.chars ++ (Statement.charsAll program ++ (Section.charsAll sections ++
        (closing.chars ++ rest))) := by
  simp [Statement.chars]

theorem Statement.element_append (opening : OpeningTag) (children : List Statement)
    (closing rest : List Char) :
    (Statement.element opening children closing).chars ++ rest =
      opening.chars ++ (Statement.charsAll children ++ (Token.closingTagOpen.chars ++
        (closing ++ (['>'] ++ rest)))) := by
  simp [Statement.chars]

/-- A block whose bodies are read back is read back itself. -/
theorem BlockTag.Stands.within_block {opening : BlockTag} (h : opening.Stands)
    {program : List Statement} {sections : List Section} {closing : CloseTag}
    {name rest : List Char} (hname : opening.call.callee.path? = some name)
    (hclosing : closing.Stands name) {n : Nat}
    (hprogram : statementsWithin n (Statement.charsAll program ++ (Section.charsAll sections ++
      (closing.chars ++ rest))) = .ok (program, Section.charsAll sections ++ (closing.chars ++ rest)))
    (hsections : ∀ start, sectionsWithin name start n
      (Section.charsAll sections ++ (closing.chars ++ rest)) =
        (CloseTag.read name (closing.chars ++ rest)).bind fun (tag, left) =>
          .ok ((sections, tag), left)) :
    statementsWithin (n + 1) ((Statement.block opening program sections closing).chars ++ rest) =
      (statementsWithin n rest).bind fun (more, left) =>
        .ok (.block opening program sections closing :: more, left) := by
  rw [Statement.block_append, statementsWithin]
  simp only [opening.ahead_append, h.read_eq hname, ok_bind, hprogram, hsections,
    hclosing.read_eq (h.isWord hname)]
  rfl

/-- An element whose children are read back is read back itself. -/
theorem OpeningTag.Stands.within_element {opening : OpeningTag} (h : opening.Stands)
    (hwhole : opening.isWhole = false) {children : List Statement} {closing rest : List Char}
    (hclosing : '>' ∉ closing) (htrim : Text.trim closing = opening.name) {n : Nat}
    (hchildren : statementsWithin n (Statement.charsAll children ++ (Token.closingTagOpen.chars ++
      (closing ++ (['>'] ++ rest)))) =
        .ok (children, Token.closingTagOpen.chars ++ (closing ++ (['>'] ++ rest)))) :
    statementsWithin (n + 1) ((Statement.element opening children closing).chars ++ rest) =
      (statementsWithin n rest).bind fun (more, left) =>
        .ok (.element opening children closing :: more, left) := by
  have hahead := h.ahead_append (Statement.charsAll children ++
    (Token.closingTagOpen.chars ++ (closing ++ (['>'] ++ rest))))
  rw [Statement.element_append, statementsWithin]
  simp only [hahead, h.read_eq, ok_bind, hwhole, hchildren, readClosingTag_eq _ _ hclosing htrim]
  rfl

mutual

/-- A statement that stands is read first, and what follows it after it. -/
theorem Statement.Stands.within_cons : ∀ (s : Statement) {rest : List Char} {n : Nat},
    s.Stands rest → (s.chars ++ rest).length ≤ n + 1 →
      statementsWithin (n + 1) (s.chars ++ rest) =
        (statementsWithin n rest).bind fun (more, left) => .ok (s :: more, left)
  | .text cs, rest, n, h, _ => by
    obtain ⟨hne, hclear, hend⟩ := h
    have hscan : scanTo (fun s => decide (Ahead.of s ≠ .text)) (cs ++ rest) = (cs, rest) :=
      Text.scanTo_eq hclear fun _ => hend
    have hahead : Ahead.of (cs ++ rest) = .text := by
      cases cs with
      | nil => exact absurd rfl hne
      | cons c cs => simpa [textEndAhead] using hclear.1
    rw [Statement.chars, statementsWithin]
    simp only [hahead, hscan]
    rfl
  | .comment value, rest, n, h, _ => by
    have hvalue : CommentStands value := h
    have hahead := comment_ahead value rest
    rw [Statement.chars, statementsWithin]
    simp only [hahead, hvalue.read_eq, ok_bind]
    rfl
  | .note note, rest, n, h, _ => by
    have hnote : note.Stands := h
    have hahead := note.ahead_append rest
    rw [Statement.chars, statementsWithin]
    simp only [hahead, hnote.read_eq, ok_bind]
    rfl
  | .mustache m, rest, n, h, _ => by
    obtain ⟨hm, hahead⟩ := h
    rw [← Mustache.ahead_append m rest] at hahead
    rw [Statement.chars, statementsWithin]
    simp only [hahead, hm.read_eq, ok_bind]
    rfl
  | .block opening program sections closing, rest, n, h, hn => by
    obtain ⟨hopening, hprogram, hsections, name, hname, hclosing⟩ := h
    rw [Statement.block_append] at hn
    have hp : (Statement.charsAll program ++ (Section.charsAll sections ++
        (closing.chars ++ rest))).length ≤ n :=
      length_of_append (by simp [BlockTag.chars, Token.chars]) hn
    have hs : (Section.charsAll sections ++ (closing.chars ++ rest)).length ≤ n := by
      rw [List.length_append] at hp
      omega
    exact hopening.within_block hname hclosing
      (Statement.AllStand.within_eq program ((hsections.before_close rest).2 hprogram)
        (endsContent_sections hsections rest) hp)
      (fun start => Section.AllStand.within_close sections hsections hs)
  | .whole opening, rest, n, h, _ => by
    obtain ⟨hopening, hwhole⟩ := h
    have hahead := hopening.ahead_append rest
    rw [Statement.chars, statementsWithin]
    simp only [hahead, hopening.read_eq, hwhole, if_true, ok_bind]
    rfl
  | .element opening children closing, rest, n, h, hn => by
    obtain ⟨hopening, hwhole, hchildren, hclosing, htrim⟩ := h
    rw [Statement.element_append] at hn
    have hc : (Statement.charsAll children ++ (Token.closingTagOpen.chars ++
        (closing ++ (['>'] ++ rest)))).length ≤ n :=
      length_of_append (by simp [OpeningTag.chars, Token.chars]) hn
    exact hopening.within_element hwhole hclosing htrim
      (Statement.AllStand.within_eq children ((Statement.allStand_before_tag closing rest).2 hchildren)
        (Or.inr (Or.inl rfl)) hc)

theorem Statement.AllStand.within_eq : ∀ (ss : List Statement) {rest : List Char} {n : Nat},
    Statement.AllStand ss rest → endsContent rest → (Statement.charsAll ss ++ rest).length ≤ n →
      statementsWithin n (Statement.charsAll ss ++ rest) = .ok (ss, rest)
  | [], rest, n, _, hrest, _ => statementsWithin_end hrest n
  | s :: ss, rest, 0, h, _, hn => by
    have hne := h.1.ne_nil
    simp [Statement.charsAll, hne] at hn
  | s :: ss, rest, n + 1, h, hrest, hn => by
    obtain ⟨hs, hss⟩ := h
    rw [Statement.charsAll, List.append_assoc] at hn ⊢
    have hlen := length_of_append hs.ne_nil hn
    rw [Statement.Stands.within_cons s hs hn, Statement.AllStand.within_eq ss hss hrest hlen]
    rfl

/-- Sections that stand are read up to the closing tag, and it is for that to have the right name. -/
theorem Section.AllStand.within_close : ∀ (ss : List Section) {closing : CloseTag}
    {name start rest : List Char} {n : Nat}, Section.AllStand ss closing.chars →
    (Section.charsAll ss ++ (closing.chars ++ rest)).length ≤ n →
      sectionsWithin name start n (Section.charsAll ss ++ (closing.chars ++ rest)) =
        (CloseTag.read name (closing.chars ++ rest)).bind fun (tag, left) => .ok ((ss, tag), left)
  | [], closing, name, start, rest, n, _, hn => by
    have hpos : 0 < closing.chars.length := by
      simp [CloseTag.chars, Token.chars]
    simp only [Section.charsAll, List.nil_append] at hn ⊢
    cases n with
    | zero =>
      simp only [List.length_append] at hn
      omega
    | succ n =>
      rw [sectionsWithin]
      simp only [closing.ahead_append]
      rfl
  | ⟨tag, body⟩ :: more, closing, name, start, rest, n, h, hn => by
    obtain ⟨htag, hbody, hlast, hmore⟩ := h
    have he : Section.charsAll (⟨tag, body⟩ :: more) ++ (closing.chars ++ rest) =
        tag.chars ++ (Statement.charsAll body ++ (Section.charsAll more ++
          (closing.chars ++ rest))) := by
      simp [Section.charsAll, Section.chars]
    have htagNe : tag.chars ≠ [] := by
      simp [ElseTag.chars, Token.chars]
    have hends := endsContent_sections hmore (t := closing) rest
    have hbody := (hmore.before_close rest).2 hbody
    rw [he] at hn ⊢
    cases n with
    | zero => simp [htagNe] at hn
    | succ n =>
      have hb : (Statement.charsAll body ++ (Section.charsAll more ++
          (closing.chars ++ rest))).length ≤ n := length_of_append htagNe hn
      have hm : (Section.charsAll more ++ (closing.chars ++ rest)).length ≤ n := by
        rw [List.length_append] at hb
        omega
      rw [sectionsWithin]
      simp only [htag.ahead_append, htag.read_eq, ok_bind,
        Statement.AllStand.within_eq body hbody hends hb]
      split
      · next trail tilde htail hahead =>
        rw [hlast trail tilde htail] at hahead
        simp [Section.charsAll, closing.ahead_append] at hahead
      · simp only [Section.AllStand.within_close more hmore hm]
        cases CloseTag.read name (closing.chars ++ rest) <;> rfl

end

/-- The text of statements that stand is read back as those statements. -/
theorem Statement.AllStand.readAll_eq {ss : List Statement} (h : Statement.AllStand ss []) :
    Statement.readAll (Statement.charsAll ss) = .ok ss := by
  have hread := Statement.AllStand.within_eq ss h (Or.inl rfl) (Nat.le_refl _)
  rw [List.append_nil] at hread
  unfold Statement.readAll
  simp only [hread, ok_bind]
  rfl

end TemplateLint.Concrete
