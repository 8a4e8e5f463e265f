import TemplateLint.Proofs.Progress.Expr

namespace TemplateLint.Cursor

open Text (isBlank size startsWith)
open Concrete (Token Ahead)

variable {source s : List Char} {n : Nat} {short : Prop}

theorem pushText_ends (h : Left source n s) (start stop : Nat) (parts : List Tree.ConcatPart) :
    Ends source short (runAt source n (pushText start stop parts)) fun _ m => m = n :=
  .ite (fun _ => (slice_ends h start stop).bind fun _ _ _ ht hm => .pure ht hm) fun _ => .pure h rfl

theorem quotedPartsRound_ends (mark : Char) (start : Nat)
    (state : Nat × List Tree.ConcatPart × Bool) (h : Left source n s) :
    Ends source short (runAt source n (quotedPartsRound mark start state))
      (Round.Past n fun _ m => n ≤ m) := by
  obtain ⟨textStart, parts, hasMustache⟩ := state
  rw [quotedPartsRound, runAt_bind_done (atEnd_run h)]
  refine .ite (fun _ => fail_ends start (by simp)) fun hend => ?_
  rw [runAt_bind_done (isAt_run h _)]
  refine .ite (fun hstop => ?_) fun _ => ?_
  · rw [runAt_bind_done runAt_get]
    refine (pushText_ends h _ _ _).bind fun parts m t ht hm => ?_
    obtain rfl := hm
    obtain rfl := h.eq ht
    cases hmark : startsWith [mark] s with
    | true =>
      obtain ⟨t, rfl⟩ := Text.startsWith_iff.1 hmark
      rw [runAt_bind_done (eat_mark h)]
      exact .last h.drop (Nat.le_add_right _ _)
    | false =>
      rw [hmark, Bool.false_or] at hstop
      rw [runAt_bind_done (eat_other h hmark)]
      refine (mustache_ends h hstop).bind fun m n₁ t₁ h₁ hn₁ => ?_
      rw [runAt_bind_done runAt_get]
      exact .again h₁ hn₁
  · exact (bump_moves h hend).bind fun _ m t ht hm => .again ht hm

theorem quotedPartsWithin_ends (mark : Char) (start : Nat) (h : Left source n s) {k : Nat}
    (hk : short ∨ s.length < k) (textStart : Nat) (parts : List Tree.ConcatPart)
    (hasMustache : Bool) :
    Ends source short (runAt source n (quotedPartsWithin mark start k textStart parts hasMustache))
      fun _ m => n ≤ m :=
  .loop (isLoop_quotedParts mark start)
    (fun state _ _ ht => quotedPartsRound_ends mark start state ht) h hk
    (textStart, parts, hasMustache)

theorem quotedValue_ends (h : Left source n s) :
    Ends source short (runAt source n quotedValue) fun _ m => n ≤ m := by
  rw [quotedValue, runAt_bind_done runAt_get]
  refine (bump_ends h).bind fun c m₁ t₁ h₁ hm₁ => ?_
  cases c with
  | none => exact id
  | some mark =>
    dsimp only
    rw [runAt_rounds, runAt_bind_done runAt_get]
    refine (quotedPartsWithin_ends mark n h₁ (.inr h₁.length_lt) _ _ _).bind
      fun p m₂ t₂ h₂ hm₂ => ?_
    rw [runAt_bind_done runAt_get]
    refine .ite (fun _ => .pure h₂ (by omega)) fun _ => ?_
    refine (check_ends h₂ _).bind fun stop m₃ t₃ h₃ hm₃ => ?_
    exact (slice_ends h₃ _ _).bind fun text m₄ t₄ h₄ hm₄ => .pure h₄ (by omega)

theorem attrValue_ends (name : List Char) (start : Nat) (h : Left source n s) :
    Ends source short (runAt source n (attrValue name start)) fun _ m => n ≤ m := by
  rw [attrValue, runAt_bind_done (peek_run h)]
  cases s with
  | nil => exact fail_ends start (by simp)
  | cons c s =>
    refine .ite (fun _ => quotedValue_ends h) fun _ => ?_
    rw [runAt_bind_done (isAt_run h _)]
    refine .ite (fun hs => ?_) fun _ => ?_
    · exact (mustache_ends h hs).bind fun m n₁ t₁ h₁ hn₁ => .pure h₁ (Nat.le_of_lt hn₁)
    · rw [runAt_bind_done runAt_get]
      refine (bumpTo_ends h _).bind fun _ m₁ t₁ h₁ hm₁ => ?_
      rw [runAt_bind_done runAt_get]
      exact (slice_ends h₁ _ _).bind fun text m₂ t₂ h₂ hm₂ => .pure h₂ (by omega)

/-- An attribute has a name, so the cursor moves, also where it goes back to the end of that. -/
theorem attribute_ends (h : Left source n s) :
    Ends source short (runAt source n «attribute») fun _ m => n < m := by
  rw [«attribute», runAt_bind_done runAt_get]
  refine (bumpTo_ends h _).bind fun _ nameStop t₁ h₁ hm₁ => ?_
  rw [runAt_bind_done runAt_get]
  refine .ite (fun _ => fail_ends n (by simp)) fun hne => ?_
  refine (slice_ends h₁ _ _).bind fun name m₂ t₂ h₂ hm₂ => ?_
  refine (skipBlanks_ends h₂).bind fun _ m₃ t₃ h₃ hm₃ => ?_
  refine (eat_ends h₃ _).bind fun _ m₄ t₄ h₄ hm₄ => ?_
  refine .ite (fun _ => ?_) fun _ => ?_
  · refine (skipBlanks_ends h₄).bind fun _ m₅ t₅ h₅ hm₅ => ?_
    refine (attrValue_ends name n h₅).bind fun value m₆ t₆ h₆ hm₆ => ?_
    rw [runAt_bind_done runAt_get]
    exact .pure h₆ (by omega)
  · exact (goto_ends nameStop).bind fun _ m₅ t₅ h₅ hm₅ => .pure h₅ (by omega)

theorem tagItemsRound_ends (tag : List Char) (start : Nat) (items : TagItems)
    (h : Left source n s) :
    Ends source short (runAt source n (tagItemsRound tag start items))
      (Round.Past n fun _ m => n ≤ m) := by
  refine (skipBlanks_ends h).bind fun _ m₁ t₁ h₁ hm₁ => ?_
  rw [runAt_bind_done (atEnd_run h₁)]
  refine .ite (fun _ => fail_ends start (by simp)) fun _ => ?_
  refine (eat_ends h₁ _).bind fun _ m₂ t₂ h₂ hm₂ => .ite (fun _ => .last h₂ (by omega)) fun _ => ?_
  refine (eat_ends h₂ _).bind fun _ m₃ t₃ h₃ hm₃ => .ite (fun _ => .last h₃ (by omega)) fun _ => ?_
  rw [runAt_bind_done (isAt_run h₃ _)]
  refine .ite (fun hopen => ?_) fun _ => ?_
  · obtain ⟨t, rfl⟩ := Text.startsWith_iff.1 hopen
    rw [runAt_bind_done (inBraces_run h₃)]
    cases hin : Ahead.inBraces t with
    | note => exact (note_ends h₃ hin).bind fun c m₄ t₄ h₄ hm₄ => .again h₄ (by omega)
    | mustache => exact (mustache_ends h₃ hopen).bind fun m m₄ t₄ h₄ hm₄ => .again h₄ (by omega)
    | _ => exact fail_ends m₃ (by simp)
  rw [runAt_bind_done (isAt_run h₃ _)]
  refine .ite (fun hparams => ?_) fun _ => ?_
  · refine (blockParams_ends h₃).bind fun bound m₄ t₄ h₄ hm₄ => .again h₄ ?_
    have hmoved := hm₄.2 hparams
    omega
  · exact (attribute_ends h₃).bind fun a m₄ t₄ h₄ hm₄ => .again h₄ (by omega)

theorem tagItemsWithin_ends (tag : List Char) (start : Nat) (h : Left source n s) {k : Nat}
    (hk : short ∨ s.length < k) (items : TagItems) :
    Ends source short (runAt source n (tagItemsWithin tag start k items)) fun _ m => n ≤ m :=
  .loop (isLoop_tagItems tag start) (fun items _ _ ht => tagItemsRound_ends tag start items ht) h hk
    items

theorem openingTag_ends (h : Left source n s) (hs : startsWith Token.tagOpen.chars s = true) :
    Ends source short (runAt source n openingTag) fun _ m => n < m := by
  rw [openingTag, runAt_bind_done runAt_get]
  refine (expect_ends h fun _ => hs).bind fun _ m₁ t₁ h₁ hm₁ => ?_
  rw [runAt_bind_done runAt_get]
  refine (bumpTo_ends h₁ _).bind fun _ m₂ t₂ h₂ hm₂ => ?_
  rw [runAt_bind_done runAt_get]
  refine (slice_ends h₂ _ _).bind fun tag m₃ t₃ h₃ hm₃ => ?_
  rw [runAt_rounds]
  refine (tagItemsWithin_ends tag n h₃ (.inr h₃.length_lt) _).bind fun p m₄ t₄ h₄ hm₄ => ?_
  rw [runAt_bind_done runAt_get]
  exact .pure h₄ (by omega)

end TemplateLint.Cursor
