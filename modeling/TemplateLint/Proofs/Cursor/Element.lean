import TemplateLint.Cursor.Element
import TemplateLint.Proofs.Cursor.Expr
import TemplateLint.Proofs.Reading.Element

namespace TemplateLint.Cursor

open Text (isBlank size after? scanTo startsWith opens minus)
open Concrete (Token Part AttrValue Attribute Item Spaced OpeningTag IsQuote partEndAhead
  attributesAt modifiersAt notesAt boundBy tagClosing)

variable {source s : List Char} {n : Nat}

/-- What a scan that stops before the next part has found. -/
def textPart (text : List Char) : List Part := if text.isEmpty then [] else [.text text]

theorem textPart_chars (text : List Char) : (textPart text).flatMap Part.chars = text := by
  cases text <;> simp [textPart, Part.chars]

theorem textPart_isMustache (text : List Char) : (textPart text).any Part.isMustache = false := by
  cases text <;> simp [textPart, Part.isMustache]

theorem textPart_atAll (k : Nat) (text : List Char) (ps : List Part) :
    Part.atAll k (textPart text ++ ps) =
      Part.atAll k (textPart text) ++ Part.atAll (k + size text) ps := by
  cases text <;> simp [textPart, Part.atAll]

theorem pushText_run {text : List Char} (h : Left source n (text ++ s)) (k : Nat)
    (parts : List Tree.ConcatPart) :
    runAt source k (pushText n (n + size text) parts) =
      done (parts ++ Part.atAll n (textPart text)) k := by
  cases text with
  | nil =>
    rw [pushText, Text.size_nil, Nat.add_zero, if_neg (Nat.lt_irrefl n)]
    simp [textPart, Part.atAll, runAt_pure]
  | cons c text =>
    have hpos := c.utf8Size_pos
    have hlt : n < n + size (c :: text) := by
      rw [Text.size_cons]
      omega
    rw [pushText, if_pos hlt, runAt_bind_done (slice_run h k)]
    rfl

/-- The loop goes on from the place where the scan for the next part stops, with a round less for every
character that it passed. -/
theorem quotedParts_scan {mark : Char} (start : Nat) {textStart : Nat} (front : List Char)
    {text t : List Char} (h : Left source textStart (front ++ s))
    (hs : scanTo (partEndAhead mark) s = (text, t)) (k : Nat) (parts : List Tree.ConcatPart)
    (hasMustache : Bool) :
    runAt source (textStart + size front)
        (quotedPartsWithin mark start (text.length + k) textStart parts hasMustache) =
      runAt source (textStart + size (front ++ text))
        (quotedPartsWithin mark start k textStart parts hasMustache) := by
  induction s generalizing front text with
  | nil =>
    obtain ⟨rfl, rfl⟩ := Prod.mk.inj hs
    rw [List.append_nil, List.length_nil, Nat.zero_add]
  | cons c s ih =>
    rw [scanTo] at hs
    cases hstop : partEndAhead mark (c :: s) with
    | true =>
      rw [hstop, if_pos rfl] at hs
      obtain ⟨rfl, rfl⟩ := Prod.mk.inj hs
      rw [List.append_nil, List.length_nil, Nat.zero_add]
    | false =>
      have hnext : Left source textStart ((front ++ [c]) ++ s) := by simpa using h
      cases hscan : scanTo (partEndAhead mark) s with
      | mk text' t' =>
        rw [hstop, if_neg Bool.false_ne_true, hscan] at hs
        obtain ⟨rfl, rfl⟩ := Prod.mk.inj hs
        have hrun := ih (front ++ [c]) hnext hscan
        rw [Text.size_append front [c], ← Nat.add_assoc, List.append_assoc] at hrun
        refine Eq.trans ?_ hrun
        rw [List.length_cons, Nat.add_right_comm, quotedPartsWithin,
          runAt_bind_done (atEnd_run h.drop), List.isEmpty_cons, if_neg Bool.false_ne_true,
          runAt_bind_done (isAt_run h.drop _)]
        rw [show (startsWith [mark] (c :: s) || startsWith Token.mustacheOpen.chars (c :: s)) = false
          from hstop, if_neg Bool.false_ne_true, runAt_bind_done (bump_cons h.drop)]
        rfl

theorem quotedParts_agrees {mark : Char} {start : Nat} {s₀ : List Char} (h₀ : Left source start s₀)
    {bound k : Nat} (h : Left source n s) (hbound : s.length ≤ bound) (hk : s.length < k)
    (parts : List Tree.ConcatPart) (hasMustache : Bool) :
    Agrees source n s (runAt source n (quotedPartsWithin mark start k n parts hasMustache))
      (Concrete.partsWithin mark s₀ bound s) (fun ps => ps.flatMap Part.chars ++ [mark])
      (fun ps => (parts ++ Part.atAll n ps, hasMustache || ps.any Part.isMustache)) := by
  induction bound generalizing n s k parts hasMustache with
  | zero =>
    obtain ⟨k, rfl⟩ := Nat.exists_eq_add_one_of_ne_zero (Nat.ne_zero_of_lt hk)
    obtain rfl := List.length_eq_zero_iff.1 (Nat.le_zero.1 hbound)
    rw [quotedPartsWithin, runAt_bind_done (atEnd_run h), List.isEmpty_nil, if_pos rfl]
    exact .fail h₀ _
  | succ bound ih =>
    cases hscan : scanTo (partEndAhead mark) s with
    | mk text s₁ =>
      obtain ⟨hs, -, hstop⟩ := Text.eq_of_scanTo hscan
      obtain ⟨k, rfl⟩ : ∃ j, k = text.length + (j + 1) := by
        rw [hs, List.length_append] at hk
        exact ⟨k - text.length - 1, by omega⟩
      have hloop := quotedParts_scan start [] h hscan (k + 1) parts hasMustache
      subst hs
      have h₁ := h.drop
      rw [Text.size_nil, Nat.add_zero, List.nil_append] at hloop
      rw [hloop, quotedPartsWithin, runAt_bind_done (atEnd_run h₁), Concrete.partsWithin]
      simp only [show scanTo (fun s => startsWith [mark] s || startsWith Token.mustacheOpen.chars s)
        (text ++ s₁) = (text, s₁) from hscan]
      by_cases hempty : s₁.isEmpty = true
      · rw [if_pos hempty, if_pos hempty]
        exact .fail h₀ _
      have hend : partEndAhead mark s₁ = true := hstop (by simpa using hempty)
      rw [if_neg hempty, if_neg hempty, runAt_bind_done (isAt_run h₁ _)]
      rw [show (startsWith [mark] s₁ || startsWith Token.mustacheOpen.chars s₁) = true from hend,
        if_pos rfl, runAt_bind_done runAt_get, runAt_bind_done (pushText_run h _ _)]
      cases ha : after? [mark] s₁ with
      | some s₂ =>
        obtain rfl := Text.after?_eq_some_iff.1 ha
        rw [runAt_bind_done (eat_mark h₁)]
        rw [show (if text.isEmpty then [] else [Part.text text]) = textPart text from rfl]
        refine .ok (by rw [textPart_chars, List.append_assoc]) ?_
        rw [textPart_chars, textPart_isMustache, Bool.or_false, Text.size_append, ← Nat.add_assoc]
        rfl
      | none =>
        rw [runAt_bind_done (eat_other h₁ (by rw [startsWith, ha]; rfl)), if_neg Bool.false_ne_true]
        refine (mustache_agrees h₁).bind h₁ fun m s₂ _ hm h₂ => ?_
        have hs₂ : s₂.length ≤ bound ∧ s₂.length < k := by
          obtain ⟨u, hu⟩ := Concrete.Mustache.chars_eq_cons m
          rw [hm, hu] at hbound hk
          simp only [List.length_append, List.length_cons] at hbound hk
          omega
        rw [runAt_bind_done runAt_get]
        refine (ih h₂ hs₂.1 hs₂.2 _ _).last fun ps s₃ _ hps => .ok ?_ ?_
        all_goals rw [show (if text.isEmpty then [] else [Part.text text]) = textPart text from rfl]
        · rw [hm, hps, List.flatMap_append, textPart_chars]
          simp [Part.chars]
        · rw [List.flatMap_append, textPart_chars, textPart_atAll, List.any_append,
            textPart_isMustache]
          simp [Part.atAll, Part.chars, Part.isMustache, Nat.add_assoc]

theorem quotedValue_agrees {mark : Char} (hm : IsQuote mark) (h : Left source n (mark :: s)) :
    Agrees source n (mark :: s) (runAt source n quotedValue) (do
        let (parts, rest) ← Concrete.partsWithin mark (mark :: s) s.length s
        .ok (AttrValue.quoted mark parts, rest)) AttrValue.chars (AttrValue.at n) := by
  have hsize : mark.utf8Size = 1 := by
    obtain rfl | rfl := hm <;> rfl
  have h₁ := h.next
  unfold quotedValue
  rw [runAt_bind_done runAt_get, runAt_bind_done (bump_cons h)]
  simp only []
  rw [runAt_rounds, runAt_bind_done runAt_get]
  refine (quotedParts_agrees h h₁ (Nat.le_refl _) h₁.length_lt [] false).bind h₁
    fun parts rest _ hs h₂ => ?_
  dsimp only
  rw [runAt_bind_done runAt_get, Bool.false_or, List.nil_append]
  cases hany : parts.any Part.isMustache with
  | true =>
    refine .ok (by rw [hs]; simp [AttrValue.chars]) ?_
    simp [runAt_pure, AttrValue.at, AttrValue.chars, Span.over, hany, hsize, Nat.add_assoc]
  | false =>
    have hstop : n + mark.utf8Size + size (parts.flatMap Part.chars ++ [mark]) =
        (n + 1 + size (parts.flatMap Part.chars)) + 1 := by
      simp [hsize, Nat.add_assoc]
    rw [hs, List.append_assoc] at h₁
    rw [hsize] at h₁
    rw [hstop, if_neg Bool.false_ne_true, Text.minus, if_pos (Nat.le_add_left _ _),
      Nat.add_sub_cancel, runAt_bind_done (a := n + 1 + size (parts.flatMap Part.chars)) rfl,
      runAt_bind_done (slice_run h₁ _)]
    refine .ok (by rw [hs]; simp [AttrValue.chars]) ?_
    simp [runAt_pure, AttrValue.at, AttrValue.chars, Span.over, hany, hsize, Nat.add_assoc]

/-- A value, which has to be there for the attribute `name` at `start`. -/
def valueOr (name start : List Char) :
    Option (AttrValue × List Char) → Concrete.Result (AttrValue × List Char)
  | some p => .ok p
  | none => .error ⟨.missingValue name, start⟩

theorem read?_bind {α : Type} (name start s : List Char)
    (f : AttrValue → List Char → Concrete.Result α) :
    (do
      match ← AttrValue.read? s with
      | some (value, rest) => f value rest
      | none => .error ⟨.missingValue name, start⟩) =
        (AttrValue.read? s >>= valueOr name start) >>= fun p => f p.1 p.2 := by
  rcases AttrValue.read? s with _ | _ | _ <;> rfl

theorem attrValue_agrees (name : List Char) {start : Nat} {s₀ : List Char}
    (h₀ : Left source start s₀) (h : Left source n s) :
    Agrees source n s (runAt source n (attrValue name start))
      (AttrValue.read? s >>= valueOr name s₀) AttrValue.chars (AttrValue.at n) := by
  rw [attrValue, runAt_bind_done (peek_run h)]
  cases s with
  | nil => exact .fail h₀ _
  | cons c s =>
    simp only [List.head?_cons, AttrValue.read?]
    by_cases hmark : c = '"' ∨ c = '\''
    · rw [if_pos hmark, if_pos (by simpa using hmark), bind_assoc]
      exact quotedValue_agrees hmark h
    · rw [if_neg hmark, if_neg (by simpa using hmark), runAt_bind_done (isAt_run h _)]
      by_cases hopen : startsWith Token.mustacheOpen.chars (c :: s) = true
      · rw [if_pos hopen, if_pos hopen, bind_assoc]
        refine (mustache_agrees h).bind h fun m rest _ hm _ => ?_
        exact .ok hm rfl
      · rw [if_neg hopen, if_neg hopen]
        cases hscan : scanTo Concrete.bareEndAhead (c :: s) with
        | mk text rest =>
          rw [runAt_bind_done runAt_get, runAt_bind_done (bumpTo_run h hscan),
            runAt_bind_done runAt_get]
          obtain ⟨hs, -, -⟩ := Text.eq_of_scanTo hscan
          rw [hs] at h ⊢
          rw [runAt_bind_done (slice_run h _)]
          exact .ok rfl rfl

theorem attribute_agrees (h : Left source n s) :
    Agrees source n s (runAt source n «attribute») (Attribute.read s) Attribute.chars
      (Attribute.at n) := by
  unfold «attribute» Attribute.read
  cases hscan : scanTo Concrete.attributeEndAhead s with
  | mk name s₁ =>
    rw [runAt_bind_done runAt_get, runAt_bind_done (bumpTo_run h hscan), runAt_bind_done runAt_get]
    obtain ⟨rfl, -, -⟩ := Text.eq_of_scanTo hscan
    have h₁ := h.drop
    cases name with
    | nil =>
      rw [if_pos (show n + size [] = n from rfl)]
      exact .fail h _
    | cons c name =>
      have hpos := c.utf8Size_pos
      have hne : n + size (c :: name) ≠ n := by
        rw [Text.size_cons]
        omega
      rw [if_neg hne, runAt_bind_done (slice_run h _)]
      simp only [List.isEmpty_cons, if_neg Bool.false_ne_true]
      obtain ⟨before, s₂, hr, hs₁, hrun, h₂⟩ := skipBlanks_lead h₁
      rw [runAt_bind_done hrun]
      simp only [hr]
      cases ha : after? ['='] s₂ with
      | none =>
        rw [runAt_bind_done (eat_other h₂ (by rw [startsWith, ha]; rfl)), if_neg Bool.false_ne_true,
          runAt_bind_done (goto_run h₁)]
        refine .ok (by simp [Attribute.chars]) ?_
        simp [runAt_pure, Attribute.at, Attribute.chars, Span.over]
      | some s₃ =>
        obtain rfl := Text.after?_eq_some_iff.1 ha
        rw [runAt_bind_done (eat_mark h₂), if_pos rfl]
        obtain ⟨after, s₄, hr, hs₃, hrun, h₄⟩ := skipBlanks_lead h₂.drop
        rw [runAt_bind_done hrun]
        simp only [hr]
        rw [show (AttrValue.read? s₄ >>= _) = (AttrValue.read? s₄ >>= valueOr (c :: name)
          (c :: name ++ s₁)) >>= fun p => .ok (⟨c :: name, some ⟨before, after, p.1⟩⟩, p.2) from
          read?_bind ..]
        refine (attrValue_agrees (c :: name) h h₄).bind h₄ fun v rest _ hv _ => ?_
        rw [runAt_bind_done runAt_get]
        have hsign : '='.utf8Size = 1 := rfl
        refine .ok (by rw [hs₁, hs₃, hv]; simp [Attribute.chars, Concrete.Assigned.chars]) ?_
        simp [runAt_pure, Attribute.at, Attribute.chars, Concrete.Assigned.chars, Span.over, hsign,
          Nat.add_assoc]

theorem ne_nil_of_attribute {a : Attribute} {rest : List Char}
    (h : Attribute.read s = .ok (a, rest)) : a.chars ≠ [] := by
  unfold Attribute.read at h
  cases hscan : scanTo Concrete.attributeEndAhead s with
  | mk name s₁ =>
    simp only [hscan] at h
    cases name with
    | nil => cases h
    | cons c name =>
      simp only [List.isEmpty_cons, if_neg Bool.false_ne_true] at h
      cases ha : after? ['='] (Text.run isBlank s₁).2 with
      | none =>
        rw [ha] at h
        cases h
        exact List.cons_ne_nil c _
      | some s₂ =>
        rw [ha] at h
        obtain ⟨_ | p, -, h⟩ := Concrete.bind_eq_ok.1 h
        · cases h
        · cases h
          exact List.cons_ne_nil c _

/-- The items with one more that stands at `k`. -/
def TagItems.add (items : TagItems) (k : Nat) : Item → TagItems
  | .attribute a => { items with attributes := items.attributes ++ [a.at k] }
  | .modifier m => { items with modifiers := items.modifiers ++ [⟨(m.at k).call, (m.at k).span⟩] }
  | .note c => { items with comments := items.comments ++ [c.at k] }
  | .params p => { items with blockParams := p.bound }

/-- The items with more behind them, the blanks before the first at `k`. -/
def TagItems.behind (items : TagItems) (k : Nat) (more : List Spaced) : TagItems :=
  ⟨items.attributes ++ attributesAt k more, items.modifiers ++ modifiersAt k more,
    items.comments ++ notesAt k more, boundBy items.blockParams more⟩

theorem TagItems.behind_nil (items : TagItems) (k : Nat) : items.behind k [] = items := by
  obtain ⟨attributes, modifiers, comments, bound⟩ := items
  simp [TagItems.behind, attributesAt, modifiersAt, notesAt, boundBy, Concrete.Spaced.offsets]

theorem TagItems.behind_cons (items : TagItems) (k : Nat) (x : Spaced) (more : List Spaced) :
    items.behind k (x :: more) = (items.add (k + size x.lead) x.item).behind (k + size x.chars) more := by
  obtain ⟨lead, item⟩ := x
  cases item <;>
    simp [TagItems.behind, TagItems.add, Concrete.attributesAt_cons, Concrete.modifiersAt_cons,
      Concrete.notesAt_cons, boundBy]

theorem startsWith_tagClosing (h : Concrete.openingEnd? s = none) (single : Bool) :
    startsWith (tagClosing single) s = false := by
  refine Text.startsWith_none fun t ht => ?_
  subst ht
  cases single <;> cases h

/-- In front of an item the loop goes past it and on behind it. -/
theorem item_bind {β : Type} {tag : List Char} {start k : Nat} {items : TagItems}
    (h : Left source n s) (hblank : opens isBlank s = false) (hempty : s.isEmpty = false)
    (hend : Concrete.openingEnd? s = none) {n₀ : Nat} {s₀ : List Char}
    {g : Item × List Char → Concrete.Result (β × List Char)} {chars : β → List Char}
    {out : β → TagItems × Bool}
    (hg : ∀ i rest, s = i.chars ++ rest → i.chars ≠ [] → Left source (n + size i.chars) rest →
      Agrees source n₀ s₀
        (runAt source (n + size i.chars) (tagItemsWithin tag start k (items.add n i))) (g (i, rest))
        chars out) :
    Agrees source n₀ s₀ (runAt source n (tagItemsWithin tag start (k + 1) items)) (Item.read s >>= g)
      chars out := by
  have hpair : startsWith ['/', '>'] s = false := startsWith_tagClosing hend true
  have hsingle : startsWith ['>'] s = false := startsWith_tagClosing hend false
  rw [tagItemsWithin, runAt_bind_done (skipBlanks_none h hblank), runAt_bind_done (atEnd_run h), hempty,
    if_neg Bool.false_ne_true, runAt_bind_done (eat_other h hpair), if_neg Bool.false_ne_true,
    runAt_bind_done (eat_other h hsingle), if_neg Bool.false_ne_true, runAt_bind_done (isAt_run h _),
    Item.read]
  by_cases hopen : startsWith Token.mustacheOpen.chars s = true
  · rw [if_pos hopen, if_pos hopen]
    obtain ⟨t, rfl⟩ := Text.startsWith_iff.1 hopen
    rw [runAt_bind_done (inBraces_run h), show Concrete.Ahead.of (Token.mustacheOpen.chars ++ t) =
      Concrete.Ahead.inBraces t from rfl]
    cases Concrete.Ahead.inBraces t with
    | note =>
      simp only [bind_assoc]
      refine (note_agrees h).bind h fun c rest _ hc h' => hg (.note c) rest hc ?_ h'
      simp [Item.chars, Concrete.Note.chars, Token.chars]
    | mustache =>
      simp only [bind_assoc]
      refine (mustache_agrees h).bind h fun m rest _ hm h' => hg (.modifier m) rest hm ?_ h'
      simp [Item.chars, Concrete.Mustache.chars, Token.chars]
    | _ =>
      simp only []
      rw [runAt_bind_done runAt_get]
      exact .fail h _
  rw [if_neg hopen, if_neg hopen, runAt_bind_done (isAt_run h _)]
  by_cases hparams : Concrete.paramsAhead s = true
  · rw [if_pos hparams, if_pos hparams, bind_assoc]
    refine (blockParams_agrees h hparams).bind h fun p rest _ hp h' => hg (.params p) rest hp ?_ h'
    simp [Item.chars, Concrete.BlockParams.chars, Token.chars]
  · rw [if_neg hparams, if_neg hparams, bind_assoc]
    refine (attribute_agrees h).bind h fun a rest hok ha h' => hg (.attribute a) rest ha ?_ h'
    exact ne_nil_of_attribute hok

theorem tagItems_agrees (tag : List Char) {start : Nat} {s₀ : List Char} (h₀ : Left source start s₀)
    {bound k : Nat} (h : Left source n s) (hbound : s.length ≤ bound) (hk : s.length < k)
    (items : TagItems) :
    Agrees source n s (runAt source n (tagItemsWithin tag start k items))
      (Concrete.itemsWithin tag s₀ bound s)
      (fun p => p.1.flatMap Spaced.chars ++ (p.2.1 ++ tagClosing p.2.2))
      (fun p => (items.behind n p.1, p.2.2)) := by
  induction bound generalizing n s k items with
  | zero =>
    obtain ⟨k, rfl⟩ := Nat.exists_eq_add_one_of_ne_zero (Nat.ne_zero_of_lt hk)
    obtain rfl := List.length_eq_zero_iff.1 (Nat.le_zero.1 hbound)
    rw [tagItemsWithin, runAt_bind_done (skipBlanks_none h rfl), runAt_bind_done (atEnd_run h),
      List.isEmpty_nil, if_pos rfl]
    exact .fail h₀ _
  | succ bound ih =>
    obtain ⟨k, rfl⟩ := Nat.exists_eq_add_one_of_ne_zero (Nat.ne_zero_of_lt hk)
    obtain ⟨lead, s₁, hr, rfl, hrun, h₁⟩ := skipBlanks_lead h
    obtain ⟨-, -, hblank⟩ := Text.eq_of_run hr
    have hskip : runAt source n (tagItemsWithin tag start (k + 1) items) =
        runAt source (n + size lead) (tagItemsWithin tag start (k + 1) items) := by
      rw [tagItemsWithin, runAt_bind_done hrun, runAt_bind_done (skipBlanks_none h₁ hblank)]
    rw [hskip, Concrete.itemsWithin]
    simp only [hr]
    by_cases hempty : s₁.isEmpty = true
    · rw [if_pos hempty, tagItemsWithin, runAt_bind_done (skipBlanks_none h₁ hblank),
        runAt_bind_done (atEnd_run h₁), if_pos hempty]
      exact .fail h₀ _
    rw [if_neg hempty]
    cases hend : Concrete.openingEnd? s₁ with
    | some p =>
      obtain ⟨single, rest⟩ := p
      obtain rfl := Concrete.openingEnd?_eq_some hend
      rw [tagItemsWithin, runAt_bind_done (skipBlanks_none h₁ hblank), runAt_bind_done (atEnd_run h₁),
        if_neg hempty]
      refine .ok (by simp) ?_
      simp only [List.flatMap_nil, List.nil_append, Text.size_append, ← Nat.add_assoc]
      cases single with
      | true =>
        have hpair : Left source (n + size lead) (['/', '>'] ++ rest) := h₁
        rw [runAt_bind_done (eat_mark hpair), if_pos rfl, TagItems.behind_nil]
        rfl
      | false =>
        have hsingle : Left source (n + size lead) (['>'] ++ rest) := h₁
        have hpair : startsWith ['/', '>'] (tagClosing false ++ rest) = false := rfl
        rw [runAt_bind_done (eat_other h₁ hpair), if_neg Bool.false_ne_true,
          runAt_bind_done (eat_mark hsingle), if_pos rfl, TagItems.behind_nil]
        rfl
    | none =>
      refine item_bind h₁ hblank (Bool.eq_false_iff.2 hempty) hend fun i rest hs₁ hne h₂ => ?_
      have hlength : rest.length ≤ bound ∧ rest.length < k := by
        have hpos := List.length_pos_iff.2 hne
        rw [hs₁] at hbound hk
        simp only [List.length_append] at hbound hk
        omega
      refine (ih h₂ hlength.1 hlength.2 _).last fun p rest' _ hp => .ok ?_ ?_
      · rw [hs₁, hp]
        simp [Spaced.chars]
      · rw [TagItems.behind_cons]
        simp [Spaced.chars, Nat.add_assoc]

theorem openingTag_agrees (h : Left source n s) :
    Agrees source n s (runAt source n openingTag) (OpeningTag.read s) OpeningTag.chars
      (OpeningTag.at n) := by
  unfold openingTag OpeningTag.read
  rw [runAt_bind_done runAt_get]
  refine .expect h fun s₁ hs₁ h₁ => ?_
  cases hscan : scanTo Concrete.bareEndAhead s₁ with
  | mk tag s₂ =>
    rw [runAt_bind_done runAt_get, runAt_bind_done (bumpTo_run h₁ hscan), runAt_bind_done runAt_get]
    obtain ⟨rfl, -, -⟩ := Text.eq_of_scanTo hscan
    have h₂ := h₁.drop
    rw [runAt_bind_done (slice_run h₁ _), runAt_rounds]
    refine (tagItems_agrees tag h h₂ (Nat.le_refl _) h₂.length_lt
      ⟨[], [], [], []⟩).bind h₂ fun p s₃ _ hp _ => ?_
    obtain ⟨items, trail, selfClosing⟩ := p
    rw [runAt_bind_done runAt_get]
    have hstop : n + size Token.tagOpen.chars + size tag +
        size (items.flatMap Spaced.chars ++ (trail ++ tagClosing selfClosing)) =
        n + size (OpeningTag.mk tag items trail selfClosing).chars := by
      simp [OpeningTag.chars, tagClosing, Nat.add_assoc]
    refine .ok (by rw [hs₁, hp]; simp [OpeningTag.chars, tagClosing]) ?_
    dsimp only
    rw [runAt_pure, hstop]
    simp only [OpeningTag.at, TagItems.behind, List.nil_append,
      ← Concrete.foldl_offsets items [] (n + size Token.tagOpen.chars + size tag)]
    rfl

end TemplateLint.Cursor
