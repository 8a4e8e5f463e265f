import TemplateLint.Concrete.Read.Element
import TemplateLint.Proofs.Reading.Tag

namespace TemplateLint.Concrete

open Text (isBlank after? eat run scanTo startsWith opens AllBlank Clear Near)

/-- Whether the closing quote or a mustache ends the text of a quoted value here. -/
def partEndAhead (mark : Char) (s : List Char) : Bool :=
  startsWith [mark] s || startsWith Token.mustacheOpen.chars s

theorem near_partEndAhead (mark : Char) : Near 2 (partEndAhead mark) := by
  intro s t hlen
  have hmark := Text.near_startsWith [mark] s t (Nat.le_of_succ_le hlen)
  have hopen := Text.near_startsWith Token.mustacheOpen.chars s t hlen
  rw [partEndAhead, partEndAhead, hmark, hopen]

/-- The parts are read back before the closing quote: no text is empty, and what ends a text does
not stand inside of it. -/
def Part.AllStand (mark : Char) : List Part → Prop
  | [] => True
  | .text cs :: ps =>
    cs ≠ [] ∧ Clear (partEndAhead mark) cs (ps.flatMap Part.chars ++ [mark]) ∧
      partEndAhead mark (ps.flatMap Part.chars ++ [mark]) = true ∧ Part.AllStand mark ps
  | .mustache m :: ps => m.Stands ∧ Part.AllStand mark ps

theorem Mustache.chars_eq_cons (m : Mustache) :
    ∃ s, m.chars = '{' :: '{' :: s := by
  exact ⟨_, rfl⟩

theorem partEndAhead_mustache (mark : Char) (m : Mustache) (s : List Char) :
    partEndAhead mark (m.chars ++ s) = true := by
  obtain ⟨t, ht⟩ := m.chars_eq_cons
  rw [ht]
  simp [partEndAhead, startsWith, Token.chars, after?]

theorem partEndAhead_mark (mark : Char) (s : List Char) :
    partEndAhead mark (mark :: s) = true := by
  simp [partEndAhead]

/-- Whether a text ends does not depend on what follows the closing quote. -/
theorem clear_parts {mark : Char} {cs u : List Char} (s : List Char) :
    Clear (partEndAhead mark) cs (u ++ mark :: s) ↔ Clear (partEndAhead mark) cs (u ++ [mark]) := by
  have h := (near_partEndAhead mark).clear (s := cs) (u := u ++ [mark]) (by simp) s
  rwa [List.append_assoc] at h

theorem partEndAhead_append {mark : Char} {ps : List Part} (h : Part.AllStand mark ps)
    (s : List Char) :
    partEndAhead mark (ps.flatMap Part.chars ++ mark :: s) =
      partEndAhead mark (ps.flatMap Part.chars ++ [mark]) := by
  cases ps with
  | nil => simp [partEndAhead_mark]
  | cons p ps =>
    cases p with
    | mustache m =>
      rw [List.flatMap_cons, List.append_assoc, List.append_assoc]
      rw [show Part.chars (.mustache m) = m.chars from rfl, partEndAhead_mustache,
        partEndAhead_mustache]
    | text cs =>
      obtain ⟨hne, -, -, -⟩ := h
      cases cs with
      | nil => exact absurd rfl hne
      | cons c cs =>
        have hn := near_partEndAhead mark ((c :: cs) ++ (ps.flatMap Part.chars ++ [mark])) s
          (by simp; omega)
        simpa [Part.chars] using hn

theorem eq_of_partsWithin {mark : Char} {start : List Char} {n : Nat} {s rest : List Char}
    {ps : List Part} (h : partsWithin mark start n s = .ok (ps, rest)) :
    s = ps.flatMap Part.chars ++ mark :: rest ∧ Part.AllStand mark ps := by
  induction n generalizing s ps with
  | zero => cases h
  | succ n ih =>
    unfold partsWithin at h
    cases hv : scanTo (partEndAhead mark) s with
    | mk text s₁ =>
      have hv' : scanTo (fun s => startsWith [mark] s || startsWith Token.mustacheOpen.chars s) s =
        (text, s₁) := hv
      simp only [hv'] at h
      obtain ⟨rfl, hclear, hstop⟩ := Text.eq_of_scanTo hv
      have hlead : ∀ (qs : List Part) {t : List Char}, s₁ = qs.flatMap Part.chars ++ mark :: t →
          s₁ ≠ [] → Part.AllStand mark qs →
          text ++ s₁ = ((if text.isEmpty then [] else [Part.text text]) ++ qs).flatMap Part.chars ++
              mark :: t ∧
            Part.AllStand mark ((if text.isEmpty then [] else [Part.text text]) ++ qs) := by
        intro qs t hs hne hqs
        subst hs
        cases text with
        | nil => exact ⟨rfl, hqs⟩
        | cons c text =>
          have hend := partEndAhead_append hqs t
          rw [hstop hne] at hend
          exact ⟨by simp [Part.chars], by simp, (clear_parts t).1 hclear, hend.symm, hqs⟩
      split at h
      · cases h
      · next hne =>
        have hne : s₁ ≠ [] := by simpa using hne
        split at h
        · next s₂ h₂ =>
          cases h
          have hs₁ : s₁ = [mark] ++ rest := Text.after?_eq_some_iff.1 h₂
          have hread := hlead [] hs₁ hne trivial
          rw [List.append_nil] at hread
          exact hread
        · next h₂ =>
          obtain ⟨⟨m, s₃⟩, h₃, h₄⟩ := bind_eq_ok.1 h
          obtain ⟨⟨qs, s₅⟩, h₅, h₆⟩ := bind_eq_ok.1 h₄
          cases h₆
          obtain ⟨hs₁, hm⟩ := Mustache.eq_of_read h₃
          obtain ⟨rfl, hqs⟩ := ih h₅
          exact hlead (.mustache m :: qs) (by simpa [Part.chars] using hs₁) hne ⟨hm, hqs⟩

/-- A step of the reader takes a text, which may be empty, and the mark or the mustache after it. -/
theorem partsWithin_step (mark : Char) (start : List Char) (n : Nat) (cs : List Char) {s : List Char}
    (hc : Clear (partEndAhead mark) cs s) (hs : partEndAhead mark s = true) :
    partsWithin mark start (n + 1) (cs ++ s) =
      (match after? [mark] s with
      | some s => .ok (if cs.isEmpty then [] else [.text cs], s)
      | none => do
        let (m, s) ← Mustache.read s
        let (parts, s) ← partsWithin mark start n s
        .ok ((if cs.isEmpty then [] else [.text cs]) ++ .mustache m :: parts, s)) := by
  have hscan : scanTo (fun s => startsWith [mark] s || startsWith Token.mustacheOpen.chars s)
      (cs ++ s) = (cs, s) := Text.scanTo_eq hc fun _ => hs
  have hne : s.isEmpty = false := by
    cases s with
    | nil => simp [partEndAhead, startsWith, Token.chars, after?] at hs
    | cons c s => rfl
  rw [partsWithin, hscan]
  simp only [hne]
  rfl

theorem after?_quote {mark : Char} (hm : IsQuote mark) (m : Mustache) (s : List Char) :
    after? [mark] (m.chars ++ s) = none := by
  obtain ⟨t, ht⟩ := m.chars_eq_cons
  rw [ht]
  rcases hm with rfl | rfl <;> rfl

/-- At the mark that ends a value its last text is read. -/
theorem partsWithin_end (mark : Char) (start : List Char) (n : Nat) {cs rest : List Char}
    (hc : Clear (partEndAhead mark) cs (mark :: rest)) :
    partsWithin mark start (n + 1) (cs ++ mark :: rest) =
      .ok (if cs.isEmpty then [] else [.text cs], rest) := by
  rw [partsWithin_step mark start n cs hc (partEndAhead_mark mark rest),
    show after? [mark] (mark :: rest) = some rest from Text.after?_append [mark] rest]

/-- Before a mustache a text, the mustache and what comes after it are read. -/
theorem partsWithin_mustache {mark : Char} (hm : IsQuote mark) (start : List Char) (n : Nat)
    {cs s rest : List Char} {m : Mustache} {ps : List Part}
    (hc : Clear (partEndAhead mark) cs (m.chars ++ s)) (hstands : m.Stands)
    (hs : partsWithin mark start n s = .ok (ps, rest)) :
    partsWithin mark start (n + 1) (cs ++ (m.chars ++ s)) =
      .ok ((if cs.isEmpty then [] else [.text cs]) ++ .mustache m :: ps, rest) := by
  rw [partsWithin_step mark start n cs hc (partEndAhead_mustache mark m _), after?_quote hm]
  simp only [hstands.read_eq, ok_bind, hs]

/-- A text is not followed by another one. -/
theorem Part.not_allStand_text_text {mark : Char} {cs ds : List Char} {ps : List Part} :
    ¬ Part.AllStand mark (.text cs :: .text ds :: ps) := by
  rintro ⟨-, -, hend, hne, hd, -⟩
  cases ds with
  | nil => exact hne rfl
  | cons d ds =>
    have hd := hd.1
    simp only [List.flatMap_cons, Part.chars, List.append_assoc, List.cons_append] at hend
    rw [hend] at hd
    cases hd

theorem Part.AllStand.partsWithin_eq {mark : Char} (hm : IsQuote mark) (start : List Char)
    {ps : List Part} (h : Part.AllStand mark ps) {n : Nat} (rest : List Char)
    (hn : (ps.flatMap Part.chars ++ mark :: rest).length ≤ n) :
    partsWithin mark start n (ps.flatMap Part.chars ++ mark :: rest) = .ok (ps, rest) := by
  induction n generalizing ps with
  | zero => simp at hn
  | succ n ih =>
    have hlen : ∀ (m : Mustache), 0 < m.chars.length := by
      intro m
      obtain ⟨t, ht⟩ := m.chars_eq_cons
      simp [ht]
    match ps, h with
    | [], _ => exact partsWithin_end mark start n (Text.clear_nil _ _)
    | .mustache m :: ps, h =>
      have hm' := hlen m
      rw [List.flatMap_cons, List.append_assoc] at hn ⊢
      refine partsWithin_mustache hm start n (Text.clear_nil _ _) h.1 (ih h.2 ?_)
      simp only [Part.chars, List.length_append] at hn ⊢
      omega
    | [.text cs], h =>
      have hcs : cs.isEmpty = false := by simpa using h.1
      have hread := partsWithin_end mark start n ((clear_parts (u := []) rest).2 h.2.1)
      simpa [Part.chars, hcs] using hread
    | .text cs :: .text ds :: ps, h => exact absurd h Part.not_allStand_text_text
    | .text cs :: .mustache m :: ps, h =>
      have hm' := hlen m
      have hcs : cs.isEmpty = false := by simpa using h.1
      have hc := (clear_parts rest).2 h.2.1
      rw [List.flatMap_cons, List.append_assoc] at hc
      rw [List.flatMap_cons, List.flatMap_cons, List.append_assoc, List.append_assoc] at hn ⊢
      have hread := partsWithin_mustache hm start n hc h.2.2.2.1 (ih h.2.2.2.2 (by
        simp only [Part.chars, List.length_append] at hn ⊢
        omega))
      rw [hcs] at hread
      exact hread

theorem near_bareEndAhead : Near 2 bareEndAhead := by
  intro s t hlen
  cases s with
  | nil => simp at hlen
  | cons c s =>
    have h := Text.near_startsWith ['/', '>'] (c :: s) t hlen
    simp only [List.cons_append] at h ⊢
    simp only [bareEndAhead, h]

theorem near_attributeEndAhead : Near 2 attributeEndAhead := by
  intro s t hlen
  cases s with
  | nil => simp at hlen
  | cons c s =>
    have hslash := Text.near_startsWith ['/', '>'] (c :: s) t hlen
    have hopen := Text.near_startsWith Token.mustacheOpen.chars (c :: s) t hlen
    simp only [List.cons_append] at hslash hopen ⊢
    simp only [attributeEndAhead, hslash, hopen]

/-- The characters that an unquoted value does not begin with. -/
def isValueMark (c : Char) : Bool := isBlank c || c == '"' || c == '\''

/-- A value without quotes ends where the text after it says so. -/
def AttrValue.Stands : AttrValue → List Char → Prop
  | .quoted mark parts, _ => IsQuote mark ∧ Part.AllStand mark parts
  | .mustache m, _ => m.Stands
  | .bare cs, rest =>
    Clear bareEndAhead cs rest ∧ bareEndAhead rest = true ∧
      opens isValueMark (cs ++ rest) = false ∧ startsWith Token.mustacheOpen.chars cs = false

/-- A value stands behind its sign, and a name without a value has no sign behind it. Such a name is
not `as` with a bar behind it either, which would bind names. -/
def Attribute.Stands (a : Attribute) (rest : List Char) : Prop :=
  a.name ≠ [] ∧
    match a.assigned with
    | none =>
      Clear attributeEndAhead a.name rest ∧ attributeEndAhead rest = true ∧
        opens (· == '=') (rest.dropWhile isBlank) = false ∧
        (a.name = Token.asWord.chars → opens (· == '|') (rest.dropWhile isBlank) = false)
    | some v =>
      Clear attributeEndAhead a.name (v.before ++ ['=']) ∧ AllBlank v.before ∧ AllBlank v.after ∧
        v.value.Stands rest

theorem bareEndAhead_open {s : List Char} (h : bareEndAhead s = true) :
    opens (· == '{') s = false := by
  cases s with
  | nil => rfl
  | cons c s =>
    rw [opens, beq_eq_false_iff_ne]
    rintro rfl
    simp [bareEndAhead, startsWith, after?, show isBlank '{' = false by decide] at h

theorem startsWith_open_bare {cs rest : List Char} (hr : bareEndAhead rest = true) :
    startsWith Token.mustacheOpen.chars (cs ++ rest) = startsWith Token.mustacheOpen.chars cs := by
  have ho := bareEndAhead_open hr
  have hrest : ∀ mark : List Char, startsWith ('{' :: mark) rest = false := by
    intro mark
    cases rest with
    | nil => rfl
    | cons d rest =>
      have hd : '{' ≠ d := by
        rintro rfl
        cases ho
      simp [startsWith, after?, hd]
  cases cs with
  | nil => exact hrest _
  | cons c cs =>
    cases cs with
    | nil =>
      have h1 := hrest []
      simp only [startsWith, Token.chars, List.cons_append, List.nil_append,
        Text.after?_cons_cons] at h1 ⊢
      split
      · rw [h1]
        rfl
      · rfl
    | cons d cs =>
      exact Text.near_startsWith Token.mustacheOpen.chars (c :: d :: cs) rest
        (by simp [Token.chars])

theorem AttrValue.eq_of_read? {s : List Char} {v : AttrValue} {rest : List Char} (hne : rest ≠ [])
    (hs : opens isBlank s = false) (h : AttrValue.read? s = .ok (some (v, rest))) :
    s = v.chars ++ rest ∧ v.Stands rest := by
  unfold AttrValue.read? at h
  cases s with
  | nil => cases h
  | cons c s =>
    simp only at h
    split at h
    · next hq =>
      obtain ⟨⟨parts, s₁⟩, h₁, h₂⟩ := bind_eq_ok.1 h
      cases h₂
      obtain ⟨rfl, hp⟩ := eq_of_partsWithin h₁
      exact ⟨by simp [AttrValue.chars], by simpa [IsQuote] using hq, hp⟩
    · next hq =>
      split at h
      · obtain ⟨⟨m, s₁⟩, h₁, h₂⟩ := bind_eq_ok.1 h
        cases h₂
        exact Mustache.eq_of_read h₁
      · next hopen =>
        cases hv : scanTo bareEndAhead (c :: s) with
        | mk text s₁ =>
          simp only [hv] at h
          cases h
          obtain ⟨he, hclear, hend⟩ := Text.eq_of_scanTo hv
          have hend := hend hne
          refine ⟨he, hclear, hend, ?_, ?_⟩
          · rw [← he]
            have hb : isBlank c = false := hs
            simpa [isValueMark, hb] using hq
          · rw [← startsWith_open_bare hend, ← he]
            simpa using hopen

theorem AttrValue.Stands.read?_eq {v : AttrValue} {rest : List Char} (h : v.Stands rest) :
    AttrValue.read? (v.chars ++ rest) = .ok (some (v, rest)) := by
  cases v with
  | quoted mark parts =>
    obtain ⟨hm, hp⟩ := h
    have hread := hp.partsWithin_eq hm (mark :: (parts.flatMap Part.chars ++ mark :: rest)) rest
      (Nat.le_refl _)
    have he : (AttrValue.quoted mark parts).chars ++ rest =
        mark :: (parts.flatMap Part.chars ++ mark :: rest) := by
      simp [AttrValue.chars]
    rw [he, AttrValue.read?, if_pos (by simpa [IsQuote] using hm), hread]
    rfl
  | mustache m =>
    have hm : m.Stands := h
    have hread := hm.read_eq rest
    obtain ⟨t, ht⟩ := m.chars_eq_cons
    rw [ht] at hread
    simp only [AttrValue.chars, ht, List.cons_append] at hread ⊢
    have hopen : startsWith Token.mustacheOpen.chars ('{' :: '{' :: (t ++ rest)) = true := rfl
    rw [AttrValue.read?, if_neg (by decide), if_pos hopen, hread]
    rfl
  | bare cs =>
    obtain ⟨hclear, hend, hmark, hopen⟩ := h
    have hscan := Text.scanTo_eq hclear fun _ => hend
    rw [← startsWith_open_bare hend] at hopen
    simp only [AttrValue.chars]
    cases hs : cs ++ rest with
    | nil =>
      have : rest = [] := (List.append_eq_nil_iff.1 hs).2
      rw [this] at hend
      cases hend
    | cons c s =>
      rw [hs] at hscan hopen hmark
      have hq : ¬ (c = '"' ∨ c = '\'') := by
        simp only [opens, isValueMark, Bool.or_eq_false_iff, beq_eq_false_iff_ne] at hmark
        rintro (h | h)
        · exact hmark.1.2 h
        · exact hmark.2 h
      rw [AttrValue.read?, if_neg (by simpa using hq), if_neg (by simp [hopen]), hscan]

theorem AttrValue.Stands.opens_blank {v : AttrValue} {rest : List Char} (h : v.Stands rest) :
    opens isBlank (v.chars ++ rest) = false := by
  cases v with
  | quoted mark parts =>
    obtain ⟨hm, -⟩ := h
    rcases hm with rfl | rfl <;> rfl
  | mustache m =>
    obtain ⟨t, ht⟩ := m.chars_eq_cons
    simp only [AttrValue.chars, ht]
    rfl
  | bare cs =>
    obtain ⟨-, -, hmark, -⟩ := h
    simp only [AttrValue.chars]
    cases hs : cs ++ rest with
    | nil => rfl
    | cons c s =>
      rw [hs] at hmark
      simp only [opens, isValueMark, Bool.or_eq_false_iff] at hmark
      exact hmark.1.1

theorem AttrValue.Stands.ne_nil {v : AttrValue} {rest : List Char} (h : v.Stands rest) :
    v.chars ++ rest ≠ [] := by
  cases v with
  | quoted mark parts => simp [AttrValue.chars]
  | mustache m =>
    obtain ⟨t, ht⟩ := m.chars_eq_cons
    simp [AttrValue.chars, ht]
  | bare cs =>
    obtain ⟨-, hend, -, -⟩ := h
    intro he
    rw [(List.append_eq_nil_iff.1 he).2] at hend
    cases hend

/-- No character that ends a name comes first in an attribute. -/
theorem Attribute.Stands.front {a : Attribute} {rest : List Char} (h : a.Stands rest) :
    attributeEndAhead (a.chars ++ rest) = false := by
  obtain ⟨hne, ha⟩ := h
  rw [Attribute.chars]
  cases hn : a.name with
  | nil => exact absurd hn hne
  | cons c name =>
    rw [hn] at ha
    cases hv : a.assigned with
    | none =>
      simp only [hv] at ha
      have hc := ha.1.1
      simpa using hc
    | some v =>
      simp only [hv] at ha
      have hc := ha.1.1
      have hclear : Clear attributeEndAhead [c] ((name ++ v.before) ++ ['=']) := by
        refine ⟨?_, trivial⟩
        simpa using hc
      have hclear := (near_attributeEndAhead.clear (by simp; omega)
        (v.after ++ (v.value.chars ++ rest))).2 hclear
      simpa [Assigned.chars] using hclear.1

theorem Attribute.Stands.ne_nil {a : Attribute} {rest : List Char} (h : a.Stands rest) :
    a.chars ≠ [] := by
  intro he
  have hname : a.name = [] := (List.append_eq_nil_iff.1 he).1
  exact h.1 hname

theorem not_open_of_attributeEndAhead {s : List Char} (hs : attributeEndAhead s = false) :
    startsWith Token.mustacheOpen.chars s = false ∧ openingEnd? s = none ∧
      opens isBlank s = false := by
  cases s with
  | nil => exact ⟨rfl, rfl, rfl⟩
  | cons c s =>
    simp only [attributeEndAhead, Bool.or_eq_false_iff] at hs
    obtain ⟨⟨⟨hb, hc⟩, hslash⟩, hopen⟩ := hs
    refine ⟨hopen, ?_, hb⟩
    unfold openingEnd?
    split
    · next he =>
      obtain ⟨rfl, rfl⟩ := List.cons.inj he
      simp [startsWith, after?] at hslash
    · next he =>
      obtain ⟨rfl, rfl⟩ := List.cons.inj he
      simp at hc
    · rfl

/-- After a name that is the word `as` and no block parameters, no bar comes next. -/
theorem opens_bar_of_asWord {before s : List Char} (hbefore : AllBlank before)
    (hblank : opens isBlank s = false)
    (hs : paramsAhead (Token.asWord.chars ++ (before ++ s)) = false)
    (hend : attributeEndAhead (before ++ s) = true) : opens (· == '|') s = false := by
  cases before with
  | nil =>
    cases s with
    | nil => rfl
    | cons c s =>
      rw [opens, beq_eq_false_iff_ne]
      rintro rfl
      simp [attributeEndAhead, startsWith, after?, Token.chars,
        show isBlank '|' = false by decide] at hend
  | cons c before =>
    have hdrop := Text.dropWhile_blank hbefore hblank
    unfold paramsAhead at hs
    rw [Text.after?_append] at hs
    simp only [List.cons_append, hbefore c (by simp), Bool.true_and] at hs hdrop
    rw [hdrop] at hs
    simpa [Token.chars] using hs

theorem Attribute.eq_of_read {s rest : List Char} {a : Attribute} (hne : rest ≠ [])
    (hs : paramsAhead s = false) (h : Attribute.read s = .ok (a, rest)) :
    s = a.chars ++ rest ∧ a.Stands rest := by
  unfold Attribute.read at h
  cases hn : scanTo attributeEndAhead s with
  | mk name s₁ =>
    simp only [hn] at h
    obtain ⟨rfl, hclear, hend⟩ := Text.eq_of_scanTo hn
    split at h
    · cases h
    · next hname =>
      have hname : name ≠ [] := by simpa using hname
      cases hb : run isBlank s₁ with
      | mk before s₂ =>
        simp only [hb] at h
        obtain ⟨rfl, hbefore, hs₂⟩ := Text.eq_of_run hb
        have hdrop := Text.dropWhile_blank hbefore hs₂
        cases hsign : after? ['='] s₂ with
        | none =>
          simp only [hsign] at h
          cases h
          refine ⟨by simp [Attribute.chars], hname, hclear, hend hne, ?_, ?_⟩
          · rw [hdrop, ← Text.startsWith_singleton]
            exact Text.startsWith_eq_false_iff.2 hsign
          · rintro rfl
            rw [hdrop]
            exact opens_bar_of_asWord hbefore hs₂ hs (hend hne)
        | some s₃ =>
          simp only [hsign] at h
          obtain rfl := Text.after?_eq_some_iff.1 hsign
          cases ha : run isBlank s₃ with
          | mk after s₄ =>
            simp only [ha] at h
            obtain ⟨rfl, hafter, hs₄⟩ := Text.eq_of_run ha
            obtain ⟨read, h₁, h₂⟩ := bind_eq_ok.1 h
            cases read with
            | none => cases h₂
            | some read =>
              obtain ⟨v, s₅⟩ := read
              cases h₂
              obtain ⟨rfl, hv⟩ := AttrValue.eq_of_read? hne hs₄ h₁
              refine ⟨by simp [Attribute.chars, Assigned.chars], hname, ?_, hbefore, hafter, hv⟩
              have hnear := near_attributeEndAhead.clear (s := name) (u := before ++ ['='])
                (by simp) (after ++ (v.chars ++ rest))
              rw [List.append_assoc] at hnear
              exact hnear.1 hclear

theorem Attribute.Stands.read_eq {a : Attribute} {rest : List Char} (h : a.Stands rest) :
    Attribute.read (a.chars ++ rest) = .ok (a, rest) := by
  obtain ⟨name, assigned⟩ := a
  obtain ⟨hne, ha⟩ := h
  have hname : name.isEmpty = false := by simpa using hne
  cases assigned with
  | none =>
    obtain ⟨hclear, hend, hsign, -⟩ := ha
    have hscan := Text.scanTo_eq hclear fun _ => hend
    have hafter : after? ['='] (run isBlank rest).2 = none := by
      rw [← Text.startsWith_eq_false_iff, Text.startsWith_singleton]
      exact hsign
    have he : (Attribute.mk name none).chars ++ rest = name ++ rest := by simp [Attribute.chars]
    rw [he, Attribute.read, hscan]
    simp only [hname, hafter]
    rfl
  | some v =>
    obtain ⟨before, after, value⟩ := v
    obtain ⟨hclear, hbefore, hafter, hv⟩ := ha
    have hnear := near_attributeEndAhead.clear (s := name) (u := before ++ ['='])
      (by simp) (after ++ (value.chars ++ rest))
    rw [List.append_assoc] at hnear
    have hend : attributeEndAhead (before ++ (['='] ++ (after ++ (value.chars ++ rest)))) = true := by
      cases before with
      | nil => rfl
      | cons c before => simp [attributeEndAhead, hbefore c (by simp)]
    have hscan := Text.scanTo_eq (hnear.2 hclear) fun _ => hend
    have hb : run isBlank (before ++ (['='] ++ (after ++ (value.chars ++ rest)))) =
        (before, ['='] ++ (after ++ (value.chars ++ rest))) := Text.run_eq hbefore rfl
    have ha : run isBlank (after ++ (value.chars ++ rest)) = (after, value.chars ++ rest) :=
      Text.run_eq hafter hv.opens_blank
    have he : (Attribute.mk name (some ⟨before, after, value⟩)).chars ++ rest =
        name ++ (before ++ (['='] ++ (after ++ (value.chars ++ rest)))) := by
      simp [Attribute.chars, Assigned.chars]
    rw [he, Attribute.read, hscan]
    simp only [hname, hb, Text.after?_append, ha, hv.read?_eq, ok_bind]
    rfl

/-- The braces that begin a modifier open no other construct. -/
def Item.Stands : Item → List Char → Prop
  | .attribute a, rest => a.Stands rest
  | .modifier m, _ => m.Stands ∧ Ahead.of m.chars = .mustache
  | .note n, _ => n.Stands
  | .params p, _ => p.Stands

/-- What stands up to a mark that cannot be part of the word decides whether the word stands
there. -/
theorem after?_mark {word : List Char} {d : Char} (hd : d ∉ word) (s t : List Char) :
    after? word (s ++ d :: t) = (after? word s).map (· ++ d :: t) := by
  induction word generalizing s with
  | nil => simp [after?]
  | cons w word ih =>
    simp only [List.mem_cons, not_or] at hd
    cases s with
    | nil =>
      have hw : w ≠ d := fun h => hd.1 h.symm
      simp [after?, hw]
    | cons c s =>
      by_cases hc : w = c
      · simpa [after?, hc] using ih hd.2 s
      · simp [after?, hc]

theorem dropWhile_blank_mark {d : Char} (hd : isBlank d = false) (s t : List Char) :
    (s ++ d :: t).dropWhile isBlank = s.dropWhile isBlank ++ d :: t := by
  induction s with
  | nil => simp [hd]
  | cons c s ih =>
    by_cases hc : isBlank c
    · simp [hc, ih]
    · simp [hc]

theorem elseAhead_brace (s t : List Char) :
    elseAhead (s ++ '}' :: t) = elseAhead (s ++ ['}']) := by
  unfold elseAhead
  rw [dropWhile_blank_mark (by decide), dropWhile_blank_mark (by decide),
    after?_mark (by decide), after?_mark (by decide)]
  cases after? Token.elseWord.chars (s.dropWhile isBlank) with
  | none => rfl
  | some u => cases u <;> rfl

theorem eat_brace (c : Char) (hc : c ≠ '}') (s t : List Char) :
    eat c (s ++ '}' :: t) = ((eat c s).1, (eat c s).2 ++ '}' :: t) := by
  cases s with
  | nil => simp [eat, hc.symm]
  | cons d s =>
    by_cases hd : d = c
    · simp [eat, hd]
    · simp [eat, hd]

theorem inBraces_brace (s t : List Char) :
    Ahead.inBraces (s ++ '}' :: t) = Ahead.inBraces (s ++ ['}']) := by
  have helse := elseAhead_brace (eat '~' s).2 t
  unfold Ahead.inBraces
  rw [eat_brace '~' (by decide), eat_brace '~' (by decide)]
  cases hs : (eat '~' s).2 with
  | nil => rfl
  | cons c u =>
    rw [hs] at helse
    simp only [List.cons_append] at helse ⊢
    split <;> simp_all

theorem Mustache.ahead_append (m : Mustache) (s : List Char) :
    Ahead.of (m.chars ++ s) = Ahead.of m.chars := by
  have he : ∃ u v, m.chars = '{' :: '{' :: (u ++ '}' :: v) := by
    cases hm : m.trusting with
    | false =>
      refine ⟨flagged m.tildeBefore ['~'] ++ m.call.chars ++ flagged m.tildeAfter ['~'], ['}'], ?_⟩
      simp [Mustache.chars, hm, flagged, Token.chars]
    | true =>
      refine ⟨'{' :: (flagged m.tildeBefore ['~'] ++ m.call.chars ++ flagged m.tildeAfter ['~']),
        ['}', '}'], ?_⟩
      simp [Mustache.chars, hm, flagged, Token.chars]
  obtain ⟨u, v, hm⟩ := he
  rw [hm]
  simp only [List.cons_append, List.append_assoc, Ahead.of]
  rw [inBraces_brace, inBraces_brace u v]

theorem Note.ahead_append (n : Note) (s : List Char) : Ahead.of (n.chars ++ s) = .note := by
  rw [Note.chars_append]
  cases n.tildeBefore <;> rfl

theorem Item.eq_of_read {s rest : List Char} {i : Item} (hne : rest ≠ [])
    (h : Item.read s = .ok (i, rest)) : s = i.chars ++ rest ∧ i.Stands rest := by
  unfold Item.read at h
  split at h
  · split at h
    · obtain ⟨⟨n, s₁⟩, h₁, h₂⟩ := bind_eq_ok.1 h
      cases h₂
      exact Note.eq_of_read h₁
    · next hahead =>
      obtain ⟨⟨m, s₁⟩, h₁, h₂⟩ := bind_eq_ok.1 h
      cases h₂
      obtain ⟨rfl, hm⟩ := Mustache.eq_of_read h₁
      rw [Mustache.ahead_append] at hahead
      exact ⟨rfl, hm, hahead⟩
    · cases h
  · split at h
    · next hparams =>
      obtain ⟨⟨p, s₁⟩, h₁, h₂⟩ := bind_eq_ok.1 h
      cases h₂
      exact BlockParams.eq_of_read hparams h₁
    · next hparams =>
      obtain ⟨⟨a, s₁⟩, h₁, h₂⟩ := bind_eq_ok.1 h
      cases h₂
      exact Attribute.eq_of_read hne (by simpa using hparams) h₁

theorem paramsAhead_iff {s : List Char} :
    paramsAhead s = true ↔ ∃ t, s = Token.asWord.chars ++ t ∧ opens isBlank t = true ∧
      opens (· == '|') (t.dropWhile isBlank) = true := by
  unfold paramsAhead
  constructor
  · intro h
    split at h
    · next c t ha =>
      rw [Bool.and_eq_true] at h
      refine ⟨c :: t, Text.after?_eq_some_iff.1 ha, h.1, ?_⟩
      rw [← Text.startsWith_singleton]
      exact h.2
    · cases h
  · rintro ⟨t, rfl, hb, hbar⟩
    rw [Text.after?_append]
    cases t with
    | nil => cases hb
    | cons c t =>
      have hbar' : startsWith Token.bar.chars ((c :: t).dropWhile isBlank) = true := by
        rw [Token.chars, Text.startsWith_singleton]
        exact hbar
      have hb : isBlank c = true := hb
      simp only [hb, hbar', Bool.and_self]

/-- A name before which blanks and a bar could follow is the word `as` itself. -/
theorem eq_asWord {name s t : List Char} (hc : Clear attributeEndAhead name s) (hne : name ≠ [])
    (hs : attributeEndAhead s = true) (he : name ++ s = Token.asWord.chars ++ t)
    (ht : opens isBlank t = true) : name = Token.asWord.chars ∧ s = t := by
  simp only [Token.chars, List.cons_append, List.nil_append] at he ⊢
  cases name with
  | nil => exact absurd rfl hne
  | cons c name =>
    rw [List.cons_append, List.cons.injEq] at he
    obtain ⟨rfl, h₁⟩ := he
    cases name with
    | nil =>
      rw [List.nil_append] at h₁
      rw [h₁] at hs
      simp [attributeEndAhead, startsWith, after?, Token.chars,
        show isBlank 's' = false by decide] at hs
    | cons d name =>
      rw [List.cons_append, List.cons.injEq] at h₁
      obtain ⟨rfl, h₂⟩ := h₁
      cases name with
      | nil => exact ⟨rfl, h₂⟩
      | cons e name =>
        have hd := (not_open_of_attributeEndAhead hc.2.2.1).2.2
        rw [← List.cons_append, h₂, ht] at hd
        cases hd

theorem Attribute.Stands.paramsAhead_eq_false {a : Attribute} {rest : List Char}
    (h : a.Stands rest) : paramsAhead (a.chars ++ rest) = false := by
  obtain ⟨name, assigned⟩ := a
  obtain ⟨hne, ha⟩ := h
  rw [Bool.eq_false_iff]
  intro hp
  obtain ⟨t, he, hb, hbar⟩ := paramsAhead_iff.1 hp
  cases assigned with
  | none =>
    obtain ⟨hclear, hend, -, has⟩ := ha
    have he : name ++ rest = Token.asWord.chars ++ t := by simpa [Attribute.chars] using he
    obtain ⟨hname, rfl⟩ := eq_asWord hclear hne hend he hb
    rw [has hname] at hbar
    cases hbar
  | some v =>
    obtain ⟨before, after, value⟩ := v
    obtain ⟨hclear, hbefore, -, -⟩ := ha
    have hnear := near_attributeEndAhead.clear (s := name) (u := before ++ ['='])
      (by simp) (after ++ (value.chars ++ rest))
    have hend : attributeEndAhead (before ++ ['='] ++ (after ++ (value.chars ++ rest))) = true := by
      cases before with
      | nil => rfl
      | cons c before => simp [attributeEndAhead, hbefore c (by simp)]
    have he : name ++ (before ++ ['='] ++ (after ++ (value.chars ++ rest))) =
        Token.asWord.chars ++ t := by
      simpa [Attribute.chars, Assigned.chars] using he
    obtain ⟨-, rfl⟩ := eq_asWord (hnear.2 hclear) hne hend he hb
    rw [List.append_assoc, Text.dropWhile_blank hbefore rfl] at hbar
    cases hbar

theorem Item.Stands.read_eq {i : Item} {rest : List Char} (h : i.Stands rest) :
    Item.read (i.chars ++ rest) = .ok (i, rest) := by
  match i, h with
  | .attribute a, ha =>
    have ha : a.Stands rest := ha
    obtain ⟨hopen, -, -⟩ := not_open_of_attributeEndAhead ha.front
    unfold Item.read
    simp only [Item.chars, hopen, ha.paramsAhead_eq_false, ha.read_eq]
    rfl
  | .modifier m, ⟨hm, hahead⟩ =>
    rw [← Mustache.ahead_append m rest] at hahead
    obtain ⟨t, ht⟩ := m.chars_eq_cons
    have hopen : startsWith Token.mustacheOpen.chars (m.chars ++ rest) = true := by
      rw [ht]
      rfl
    unfold Item.read
    simp only [Item.chars, hopen, hahead, hm.read_eq]
    rfl
  | .note n, hn =>
    have hn : n.Stands := hn
    have hopen : startsWith Token.mustacheOpen.chars (n.chars ++ rest) = true := by
      rw [Note.chars_append]
      exact Text.startsWith_append _ _
    unfold Item.read
    simp only [Item.chars, hopen, Note.ahead_append, hn.read_eq]
    rfl
  | .params p, hp =>
    have hp : p.Stands := hp
    have hopen : startsWith Token.mustacheOpen.chars (p.chars ++ rest) = false := by
      rw [BlockParams.chars_append]
      rfl
    unfold Item.read
    simp only [Item.chars, hopen, hp.paramsAhead_eq, hp.read_eq]
    rfl

/-- What an item sees of the text after it is the same in two texts. -/
structure Follows (s t : List Char) : Prop where
  head : s.head? = t.head?
  name : attributeEndAhead s = true → attributeEndAhead t = true
  value : bareEndAhead s = true → bareEndAhead t = true
  sign : ∀ c ∈ ['=', '|'], opens (· == c) (s.dropWhile isBlank) = false →
    opens (· == c) (t.dropWhile isBlank) = false

theorem Follows.opens {s t : List Char} (h : Follows s t) (p : Char → Bool) :
    opens p s = opens p t := by
  have hh := h.head
  cases s <;> cases t <;> simp_all

/-- Where a name or a value without quotes ends depends on one character of what follows. -/
theorem clear_of_head {stop : List Char → Bool} (hn : Near 2 stop) {cs s t : List Char}
    (h : s.head? = t.head?) (hc : Clear stop cs s) : Clear stop cs t := by
  cases s with
  | nil =>
    cases t with
    | nil => exact hc
    | cons d t => cases h
  | cons c s =>
    cases t with
    | nil => cases h
    | cons d t =>
      obtain rfl : c = d := by simpa using h
      have hc := (hn.clear (s := cs) (u := [c]) (by simp) s).1 hc
      exact (hn.clear (s := cs) (u := [c]) (by simp) t).2 hc

theorem AttrValue.Stands.congr {v : AttrValue} {s t : List Char} (hv : v.Stands s)
    (h : Follows s t) : v.Stands t := by
  cases v with
  | quoted mark parts => exact hv
  | mustache m => exact hv
  | bare cs =>
    obtain ⟨hclear, hend, hmark, hopen⟩ := hv
    refine ⟨clear_of_head near_bareEndAhead h.head hclear, h.value hend, ?_, hopen⟩
    rw [← opens_append_congr cs (h.opens isValueMark)]
    exact hmark

theorem Attribute.Stands.congr {a : Attribute} {s t : List Char} (ha : a.Stands s)
    (h : Follows s t) : a.Stands t := by
  obtain ⟨name, assigned⟩ := a
  obtain ⟨hne, ha⟩ := ha
  cases assigned with
  | none =>
    obtain ⟨hclear, hend, hsign, has⟩ := ha
    exact ⟨hne, clear_of_head near_attributeEndAhead h.head hclear, h.name hend,
      h.sign '=' (by simp) hsign, fun hname => h.sign '|' (by simp) (has hname)⟩
  | some v =>
    obtain ⟨hclear, hbefore, hafter, hv⟩ := ha
    exact ⟨hne, hclear, hbefore, hafter, hv.congr h⟩

theorem Item.Stands.congr {i : Item} {s t : List Char} (hi : i.Stands s) (h : Follows s t) :
    i.Stands t := by
  match i, hi with
  | .attribute a, ha => exact Attribute.Stands.congr ha h
  | .modifier m, hm => exact hm
  | .note n, hn => exact hn
  | .params p, hp => exact hp

/-- The items are read back when `rest` follows the last of them. -/
def Spaced.AllStand : List Spaced → List Char → Prop
  | [], _ => True
  | s :: ss, rest =>
    AllBlank s.lead ∧ s.item.Stands (ss.flatMap Spaced.chars ++ rest) ∧ Spaced.AllStand ss rest

/-- The mark that ends an opening tag. -/
def tagClosing (single : Bool) : List Char := if single then ['/', '>'] else ['>']

theorem tagClosing_eq (single : Bool) : ∃ s, tagClosing single = s ++ ['>'] := by
  cases single with
  | false => exact ⟨[], rfl⟩
  | true => exact ⟨['/'], rfl⟩

theorem openingEnd?_eq_some {s rest : List Char} {single : Bool}
    (h : openingEnd? s = some (single, rest)) :
    s = tagClosing single ++ rest := by
  unfold openingEnd? at h
  split at h
  · cases h
    rfl
  · cases h
    rfl
  · cases h

theorem eq_of_itemsWithin {tag start : List Char} {n : Nat} {s rest trail : List Char}
    {items : List Spaced} {single : Bool}
    (h : itemsWithin tag start n s = .ok ((items, trail, single), rest)) :
    s = items.flatMap Spaced.chars ++ (trail ++ (tagClosing single ++ rest)) ∧
      Spaced.AllStand items (trail ++ (tagClosing single ++ rest)) ∧
      AllBlank trail := by
  induction n generalizing s items with
  | zero => cases h
  | succ n ih =>
    unfold itemsWithin at h
    cases hl : run isBlank s with
    | mk lead s₁ =>
      simp only [hl] at h
      obtain ⟨rfl, hlead, -⟩ := Text.eq_of_run hl
      split at h
      · cases h
      · cases hend : openingEnd? s₁ with
        | some read =>
          obtain ⟨single', s₂⟩ := read
          simp only [hend] at h
          cases h
          obtain rfl := openingEnd?_eq_some hend
          exact ⟨rfl, trivial, hlead⟩
        | none =>
          simp only [hend] at h
          obtain ⟨⟨item, s₂⟩, h₁, h₂⟩ := bind_eq_ok.1 h
          obtain ⟨⟨⟨items', trail', single'⟩, s₃⟩, h₃, h₄⟩ := bind_eq_ok.1 h₂
          cases h₄
          obtain ⟨rfl, hitems, htrail⟩ := ih h₃
          have hne : items'.flatMap Spaced.chars ++
              (trail' ++ (tagClosing single' ++ s₃)) ≠ [] := by
            obtain ⟨u, hu⟩ := tagClosing_eq single'
            simp [hu]
          obtain ⟨rfl, hitem⟩ := Item.eq_of_read hne h₁
          exact ⟨by simp [Spaced.chars], ⟨hlead, hitem, hitems⟩, htrail⟩

/-- An item begins with what neither ends the tag nor is a blank. -/
theorem Item.Stands.front {i : Item} {rest : List Char} (h : i.Stands rest) :
    openingEnd? (i.chars ++ rest) = none ∧ opens isBlank (i.chars ++ rest) = false ∧
      i.chars ≠ [] := by
  match i, h with
  | .attribute a, ha =>
    have ha : a.Stands rest := ha
    obtain ⟨-, hend, hb⟩ := not_open_of_attributeEndAhead ha.front
    exact ⟨hend, hb, ha.ne_nil⟩
  | .modifier m, _ =>
    obtain ⟨t, ht⟩ := m.chars_eq_cons
    simp only [Item.chars, ht]
    exact ⟨rfl, rfl, by simp⟩
  | .note n, _ => exact ⟨rfl, rfl, by simp [Item.chars, Note.chars, Token.chars]⟩
  | .params p, _ => exact ⟨rfl, rfl, by simp [Item.chars, BlockParams.chars, Token.chars]⟩

theorem openingEnd?_append (single : Bool) (rest : List Char) :
    openingEnd? (tagClosing single ++ rest) = some (single, rest) := by
  cases single <;> rfl

theorem Spaced.AllStand.itemsWithin_eq {tag start : List Char} {n : Nat} {rest trail : List Char}
    {items : List Spaced} {single : Bool}
    (h : Spaced.AllStand items (trail ++ (tagClosing single ++ rest)))
    (ht : AllBlank trail)
    (hn : (items.flatMap Spaced.chars ++
      (trail ++ (tagClosing single ++ rest))).length ≤ n) :
    itemsWithin tag start n (items.flatMap Spaced.chars ++
        (trail ++ (tagClosing single ++ rest))) =
      .ok ((items, trail, single), rest) := by
  induction items generalizing n with
  | nil =>
    have hrun : run isBlank (trail ++ (tagClosing single ++ rest)) =
        (trail, tagClosing single ++ rest) :=
      Text.run_eq ht (by cases single <;> rfl)
    have hne : (tagClosing single ++ rest).isEmpty = false := by
      cases single <;> rfl
    cases n with
    | zero => cases single <;> simp [tagClosing] at hn
    | succ n =>
      rw [List.flatMap_nil, List.nil_append, itemsWithin, hrun]
      simp only [hne, openingEnd?_append]
      rfl
  | cons s ss ih =>
    obtain ⟨lead, item⟩ := s
    obtain ⟨hlead, hitem, hss⟩ := h
    obtain ⟨hend, hb, hne⟩ := hitem.front
    have hrun := Text.run_eq hlead hb
    have hpos : 0 < item.chars.length := List.length_pos_iff.2 hne
    have he : (⟨lead, item⟩ :: ss : List Spaced).flatMap Spaced.chars ++
        (trail ++ (tagClosing single ++ rest)) =
          lead ++ (item.chars ++ (ss.flatMap Spaced.chars ++
            (trail ++ (tagClosing single ++ rest)))) := by
      simp [Spaced.chars]
    rw [he] at hn ⊢
    cases n with
    | zero =>
      simp only [List.length_append] at hn
      omega
    | succ n =>
      have hlen : (ss.flatMap Spaced.chars ++
          (trail ++ (tagClosing single ++ rest))).length ≤ n := by
        simp only [List.length_append] at hn ⊢
        omega
      have hne : (item.chars ++ (ss.flatMap Spaced.chars ++
          (trail ++ (tagClosing single ++ rest)))).isEmpty = false := by
        cases hc : item.chars with
        | nil => exact absurd hc hne
        | cons c cs => rfl
      rw [itemsWithin, hrun]
      simp only [hne, hend, hitem.read_eq, ok_bind, ih hss hlen]
      rfl

def OpeningTag.Stands (t : OpeningTag) : Prop :=
  opens startsTag t.name = true ∧
    Clear bareEndAhead t.name (t.items.flatMap Spaced.chars ++ (t.trail ++ tagClosing t.selfClosing)) ∧
    bareEndAhead (t.items.flatMap Spaced.chars ++ (t.trail ++ tagClosing t.selfClosing)) = true ∧
    Spaced.AllStand t.items (t.trail ++ tagClosing t.selfClosing) ∧ AllBlank t.trail

theorem OpeningTag.chars_append (t : OpeningTag) (s : List Char) :
    t.chars ++ s = Token.tagOpen.chars ++ (t.name ++ (t.items.flatMap Spaced.chars ++
      (t.trail ++ (tagClosing t.selfClosing ++ s)))) := by
  simp [OpeningTag.chars, tagClosing]

/-- What comes after the mark that ends the tag does not matter. -/
theorem follows_angle (s t u : List Char) : Follows (s ++ '>' :: t) (s ++ '>' :: u) := by
  have hnear : ∀ stop : List Char → Bool, Near 2 stop → (∀ v, stop ('>' :: v) = true) →
      stop (s ++ '>' :: t) = true → stop (s ++ '>' :: u) = true := by
    intro stop hn hstop h
    cases s with
    | nil => exact hstop u
    | cons c s =>
      have ht := hn (c :: (s ++ ['>'])) t (by simp)
      have hu := hn (c :: (s ++ ['>'])) u (by simp)
      simp only [List.cons_append, List.append_assoc, List.nil_append] at ht hu h ⊢
      rw [hu, ← ht]
      exact h
  constructor
  · cases s <;> rfl
  · exact hnear attributeEndAhead near_attributeEndAhead fun v => rfl
  · exact hnear bareEndAhead near_bareEndAhead fun v => rfl
  · intro c _ h
    rw [dropWhile_blank_mark (by decide)] at h ⊢
    cases hd : s.dropWhile isBlank with
    | nil =>
      rw [hd] at h
      exact h
    | cons d s =>
      rw [hd] at h
      exact h

theorem Spaced.AllStand.congr {items : List Spaced} {s t : List Char}
    (h : Spaced.AllStand items s)
    (hf : ∀ ss : List Spaced, Follows (ss.flatMap Spaced.chars ++ s) (ss.flatMap Spaced.chars ++ t)) :
    Spaced.AllStand items t := by
  induction items with
  | nil => trivial
  | cons i items ih =>
    obtain ⟨hlead, hi, hitems⟩ := h
    exact ⟨hlead, hi.congr (hf items), ih hitems⟩

/-- The end of an opening tag is seen as it is, whatever follows it. -/
theorem OpeningTag.follows_closing (t : OpeningTag) (u s s' : List Char) :
    Follows (u ++ (t.trail ++ (tagClosing t.selfClosing ++ s)))
      (u ++ (t.trail ++ (tagClosing t.selfClosing ++ s'))) := by
  obtain ⟨v, hv⟩ := tagClosing_eq t.selfClosing
  have h := follows_angle (u ++ (t.trail ++ v)) s s'
  rw [hv]
  simpa using h

theorem opens_of_element {s : List Char} (h : Ahead.of (Token.tagOpen.chars ++ s) = .element) :
    opens startsTag s = true := by
  cases s with
  | nil => cases h
  | cons c s =>
    simp only [Token.chars, List.cons_append, List.nil_append] at h
    unfold Ahead.of at h
    split at h <;> simp_all [opens]

theorem toNat_of_isAlpha {c : Char} (h : c.isAlpha = true) :
    (65 ≤ c.toNat ∧ c.toNat ≤ 90) ∨ (97 ≤ c.toNat ∧ c.toNat ≤ 122) := by
  have h : (decide ('A'.val ≤ c.val ∧ c.val ≤ 'Z'.val) ||
      (decide ('a'.val ≤ c.val) && decide (c.val ≤ 'z'.val))) = true := h
  simp only [Bool.or_eq_true, Bool.and_eq_true, decide_eq_true_eq, UInt32.le_iff_toNat_le] at h
  exact h

theorem isBlank_of_startsTag {c : Char} (h : startsTag c = true) : isBlank c = false := by
  cases hb : isBlank c with
  | false => rfl
  | true =>
    simp only [isBlank, Bool.or_eq_true, Bool.and_eq_true, decide_eq_true_eq, beq_iff_eq] at hb
    simp only [startsTag, Bool.or_eq_true, beq_iff_eq] at h
    rcases h with (h | rfl) | rfl
    · have hletter := toNat_of_isAlpha h
      omega
    · revert hb
      decide
    · revert hb
      decide

theorem opens_bareEnd {s : List Char} (h : bareEndAhead s = true) :
    opens startsTag s = false := by
  cases s with
  | nil => rfl
  | cons c s =>
    cases hc : startsTag c with
    | false => exact hc
    | true =>
      have hb := isBlank_of_startsTag hc
      have hg : c ≠ '>' := by
        rintro rfl
        cases hc
      have hs : '/' ≠ c := by
        rintro rfl
        cases hc
      simp [bareEndAhead, startsWith, after?, hb, hg, hs] at h

theorem OpeningTag.eq_of_read {s rest : List Char} {t : OpeningTag} (hs : Ahead.of s = .element)
    (h : OpeningTag.read s = .ok (t, rest)) : s = t.chars ++ rest ∧ t.Stands := by
  unfold OpeningTag.read at h
  obtain ⟨s₁, h₁, h₂⟩ := bind_eq_ok.1 h
  cases hn : scanTo bareEndAhead s₁ with
  | mk name s₂ =>
    simp only [hn] at h₂
    obtain ⟨⟨⟨items, trail, single⟩, s₃⟩, h₃, h₄⟩ := bind_eq_ok.1 h₂
    cases h₄
    obtain ⟨rfl, hitems, htrail⟩ := eq_of_itemsWithin h₃
    obtain ⟨rfl, hclear, hend⟩ := Text.eq_of_scanTo hn
    obtain rfl := eq_of_expect h₁
    let t : OpeningTag := ⟨name, items, trail, single⟩
    have hfollow := fun u => t.follows_closing u s₃ []
    simp only [List.append_nil] at hfollow
    have hne : items.flatMap Spaced.chars ++ (trail ++ (tagClosing single ++ s₃)) ≠ [] := by
      obtain ⟨u, hu⟩ := tagClosing_eq single
      simp [hu]
    have hend := hend hne
    have hname : opens startsTag name = true := by
      have hopen := opens_of_element hs
      cases name with
      | nil =>
        rw [List.nil_append, opens_bareEnd hend] at hopen
        cases hopen
      | cons c name => exact hopen
    exact ⟨by simp [OpeningTag.chars, tagClosing], hname,
      clear_of_head near_bareEndAhead (hfollow _).head hclear, (hfollow _).value hend,
      hitems.congr fun ss => hfollow _, htrail⟩

theorem OpeningTag.Stands.read_eq {t : OpeningTag} (h : t.Stands) (rest : List Char) :
    OpeningTag.read (t.chars ++ rest) = .ok (t, rest) := by
  obtain ⟨-, hclear, hend, hitems, htrail⟩ := h
  have hfollow := fun u => t.follows_closing u [] rest
  simp only [List.append_nil] at hfollow
  have hclear := clear_of_head near_bareEndAhead (hfollow _).head hclear
  have hscan := Text.scanTo_eq hclear fun _ => (hfollow _).value hend
  have hitems := hitems.congr fun ss => hfollow (ss.flatMap Spaced.chars)
  rw [OpeningTag.chars_append, OpeningTag.read]
  simp only [expect_append, ok_bind, hscan]
  rw [hitems.itemsWithin_eq htrail (Nat.le_refl _)]
  rfl

end TemplateLint.Concrete
