import TemplateLint.Cursor.Inside
import TemplateLint.Proofs.Cursor.Expr
import TemplateLint.Proofs.Progress.Basic

namespace TemplateLint

namespace Concrete

open Text (isBlank eat startsWith)

variable {s : List Char}

/-- The mark behind the braces of a comment, a block and a closing tag, by what is found in them. -/
def Ahead.mark? : Ahead → Option Token
  | .note => some .bang
  | .block => some .hash
  | .closeTag => some .slash
  | _ => none

theorem startsWith_mark {t : Token} (h : (Ahead.inBraces s).mark? = some t) :
    startsWith t.chars (eat '~' s).2 = true := by
  unfold Ahead.inBraces at h
  split at h
  · next hs =>
    cases h
    rw [hs]
    rfl
  · next hs =>
    cases h
    rw [hs]
    rfl
  · next hs =>
    cases h
    rw [hs]
    rfl
  · split at h <;> cases h

theorem startsWith_elseWord (h : Ahead.inBraces s = .elseTag) :
    startsWith Token.elseWord.chars ((eat '~' s).2.dropWhile isBlank) = true := by
  unfold Ahead.inBraces at h
  split at h
  · cases h
  · cases h
  · cases h
  · next rest _ _ _ =>
    split at h
    · next helse =>
      unfold elseAhead at helse
      split at helse
      · next ha =>
        rw [startsWith, ha]
        rfl
      · cases helse
    · cases h

end Concrete

namespace Cursor

open Text (isBlank size startsWith)
open Concrete (Token Ahead)

variable {source s : List Char} {n : Nat} {short : Prop}

theorem quotedRound_ends (mark : Char) (start : Nat) (value : List Char) (h : Left source n s) :
    Ends source short (runAt source n (quotedRound mark start value))
      (Round.Past n fun _ m => n ≤ m) := by
  refine (bump_ends h).bind fun c m t ht hm => ?_
  obtain ⟨hle, hlt⟩ := hm
  cases c with
  | none => exact fail_ends start (by simp)
  | some c =>
    refine .ite (fun _ => ?_) fun _ => .ite (fun _ => .last ht hle) fun _ => .again ht (hlt rfl)
    refine (bump_ends ht).bind fun d m' t' ht' hm' => ?_
    have hpast : n < m' := Nat.lt_of_lt_of_le (hlt rfl) hm'.1
    cases d <;> exact .again ht' hpast

theorem quotedWithin_ends (mark : Char) (start : Nat) (h : Left source n s) {k : Nat}
    (hk : short ∨ s.length < k) (value : List Char) :
    Ends source short (runAt source n (quotedWithin mark start k value)) fun _ m => n ≤ m :=
  .loop (isLoop_quoted mark start) (fun value _ _ ht => quotedRound_ends mark start value ht) h hk value

theorem quoted_ends (mark : Char) (start : Nat) (h : Left source n s) :
    Ends source short (runAt source n (quoted mark start)) fun _ m => n ≤ m := by
  rw [quoted, runAt_rounds]
  exact quotedWithin_ends mark start h (.inr h.length_lt) []

theorem word_ends (h : Left source n s) :
    Ends source short (runAt source n word) fun _ m => n < m := by
  rw [word, runAt_bind_done runAt_get]
  refine (wordEnd_ends h).bind fun stop m t ht hm => ?_
  obtain ⟨hstop, rfl⟩ := hm
  refine .ite (fun _ => fail_ends _ (by simp)) fun hne => ?_
  refine (goto_ends stop).bind fun _ m' t' ht' hm' => ?_
  refine (slice_ends ht' _ _).bind fun text m'' t'' ht'' hm'' => .pure ht'' ?_
  omega

theorem isKey_ends (h : Left source n s) (start stop : Nat) :
    Ends source short (runAt source n (isKey start stop)) fun _ m => m = n := by
  refine .ite (fun _ => ?_) fun _ => .pure h rfl
  rw [sliceFrom, bind_assoc, runAt_bind_done runAt_read]
  exact (slice_ends h _ _).bind fun _ m t ht hm => .pure ht hm

section Args

variable {expr other : Cursor Tree.Expr}

theorem argsRound_alike (bindsNames : Bool) (found : List Tree.Expr × List Tree.HashPair)
    (hexpr : AlikeFrom source short n expr other fun k _ m => k < m) (h : Left source n s) :
    EndAlike source short (runAt source n (argsRound expr bindsNames found))
      (runAt source n (argsRound other bindsNames found)) (Round.Past n fun _ m => n ≤ m) := by
  refine .step (skipBlanks_ends h) fun _ start t₁ h₁ hstart => ?_
  refine .known (atEnd_run h₁) (.ite (fun _ => (fail_ends start (by simp)).alike) fun _ => ?_)
  refine .known (isAt_run h₁ _) (.ite (fun _ => Ends.alike (.last h₁ hstart)) fun _ => ?_)
  refine .known runAt_get (.step (wordEnd_ends h₁) fun stop m t₂ h₂ hm => ?_)
  obtain ⟨hstop, rfl⟩ := hm
  refine .step (isKey_ends h₂ _ _) fun named m' t₃ h₃ hm => ?_
  obtain rfl := hm
  refine .ite (fun _ => ?_) fun _ => .ite (fun _ => (fail_ends m' (by simp)).alike) fun _ => ?_
  · refine .step (slice_ends h₃ _ _) fun key m₄ t₄ h₄ _ => ?_
    refine .step (goto_ends (stop + 1)) fun _ m₅ t₅ h₅ hm₅ => ?_
    refine (hexpr m₅ t₅ h₅ (by omega)).bind fun value m₆ t₆ h₆ hm₆ => ?_
    exact Ends.alike (.again h₆ (by omega))
  · refine (hexpr m' t₃ h₃ hstart).bind fun value m₄ t₄ h₄ hm₄ => ?_
    exact Ends.alike (.again h₄ (by omega))

theorem argsWith_alike (bindsNames : Bool)
    (hexpr : AlikeFrom source short n expr other fun k _ m => k < m) (h : Left source n s) {k : Nat}
    (hk : short ∨ s.length < k) (params : List Tree.Expr) (hash : List Tree.HashPair) :
    EndAlike source short (runAt source n (argsWith expr bindsNames k params hash))
      (runAt source n (argsWith other bindsNames k params hash)) fun _ m => n ≤ m :=
  .loop (isLoop_args expr bindsNames) (isLoop_args other bindsNames)
    (fun found _ _ ht hm => argsRound_alike bindsNames found
      (fun m' t' ht' hm' => hexpr m' t' ht' (Nat.le_trans hm hm')) ht) h hk (params, hash)

/-- In parentheses all is read from behind the first of them on. -/
theorem group_alike (hexpr : AlikeFrom source short (n + 1) expr other fun k _ m => k < m)
    (h : Left source n s) (hs : startsWith Token.groupOpen.chars s = true) :
    EndAlike source short (runAt source n (group expr)) (runAt source n (group other))
      fun _ m => n < m := by
  refine .known runAt_get (.step (expect_ends h fun _ => hs) fun _ m₁ t₁ h₁ hm₁ => ?_)
  refine .step (skipBlanks_ends h₁) fun _ m₂ t₂ h₂ hm₂ => ?_
  refine (hexpr m₂ t₂ h₂ (by omega)).bind fun callee m₃ t₃ h₃ hm₃ => ?_
  have hargs := argsWith_alike false (fun m t ht hm => hexpr m t ht (by omega)) h₃
    (.inr h₃.length_lt) [] []
  refine .known rounds_run (hargs.bind fun p m₄ t₄ h₄ hm₄ => ?_)
  refine .step (skipBlanks_ends h₄) fun _ m₅ t₅ h₅ hm₅ => ?_
  refine .step (expect_ends h₅ (by simp [Token.isForeseen])) fun _ m₆ t₆ h₆ hm₆ => ?_
  exact .known runAt_get (.pure h₆ (by omega))

end Args

/-- A group takes its parentheses, so one round for each of them is enough. -/
theorem exprWithin_ends (h : Left source n s) {k : Nat} (hk : short ∨ s.length < k) :
    Ends source short (runAt source n (exprWithin k)) fun _ m => n < m := by
  induction k generalizing n s with
  | zero => exact hk.resolve_right (Nat.not_lt_zero _)
  | succ k ih =>
    rw [exprWithin, runAt_bind_done runAt_get, runAt_bind_done (peek_run h)]
    cases s with
    | nil => exact word_ends h
    | cons c s =>
      refine .ite (fun hc => ?_) fun _ => .ite (fun _ => ?_) fun _ => word_ends h
      · subst hc
        have hexpr : AlikeFrom source short (n + 1) (exprWithin k) (exprWithin k)
            fun k _ m => k < m := fun m t ht hm =>
          have hlength := h.length_lt_of_lt ht hm
          (ih ht (hk.imp_right fun hk => by omega)).alike
        exact (group_alike hexpr h rfl).ends
      · refine (bump_moves h (by simp)).bind fun _ m₁ t₁ h₁ hm₁ => ?_
        refine (quoted_ends c n h₁).bind fun value m₂ t₂ h₂ hm₂ => ?_
        rw [runAt_bind_done runAt_get]
        exact .pure h₂ (by omega)

/-- A group may be read with any number of rounds. -/
theorem exprWithin_alike (k : Nat) :
    AlikeFrom source True n (exprWithin k) (exprWithin k) fun k _ m => k < m :=
  fun _ _ ht _ => (exprWithin_ends ht (.inl trivial)).alike

theorem expr_ends (h : Left source n s) :
    Ends source short (runAt source n expr) fun _ m => n < m := by
  rw [expr, runAt_rounds]
  exact exprWithin_ends h (.inr h.length_lt)

theorem expr_alike : AlikeFrom source short n expr expr fun k _ m => k < m :=
  fun _ _ ht _ => (expr_ends ht).alike

theorem mustacheWith_alike {expr other : Cursor Tree.Expr}
    (hexpr : AlikeFrom source short (n + 1) expr other fun k _ m => k < m) (h : Left source n s)
    (hs : startsWith Token.mustacheOpen.chars s = true) :
    EndAlike source short (runAt source n (mustacheWith expr)) (runAt source n (mustacheWith other))
      fun _ m => n < m := by
  refine .known runAt_get (.step (expect_ends h fun _ => hs) fun _ m₁ t₁ h₁ hm₁ => ?_)
  refine .step (eat_ends h₁ _) fun trusting m₂ t₂ h₂ hm₂ => ?_
  refine .step (eat_ends h₂ _) fun _ m₃ t₃ h₃ hm₃ => ?_
  refine .step (skipBlanks_ends h₃) fun _ m₄ t₄ h₄ hm₄ => ?_
  refine (hexpr m₄ t₄ h₄ (by omega)).bind fun callee m₅ t₅ h₅ hm₅ => ?_
  have hargs := argsWith_alike false (fun m t ht hm => hexpr m t ht (by omega)) h₅
    (.inr h₅.length_lt) [] []
  refine .known rounds_run (hargs.bind fun p m₆ t₆ h₆ hm₆ => ?_)
  refine .step (skipBlanks_ends h₆) fun _ m₇ t₇ h₇ hm₇ => ?_
  refine .step (eat_ends h₇ _) fun _ m₈ t₈ h₈ hm₈ => ?_
  refine .step (expect_ends h₈ ?_) fun _ m₉ t₉ h₉ hm₉ => ?_
  · cases trusting <;> simp [Token.isForeseen]
  exact .known runAt_get (.pure h₉ (by omega))

theorem mustache_ends (h : Left source n s)
    (hs : startsWith Token.mustacheOpen.chars s = true) :
    Ends source short (runAt source n mustache) fun _ m => n < m :=
  (mustacheWith_alike expr_alike h hs).ends

theorem noteRound_ends (start valueStart : Nat) (dashes : Bool) (h : Left source n s) :
    Ends source short (runAt source n (noteRound start valueStart dashes))
      (Round.Past n fun _ m => n ≤ m) := by
  rw [noteRound, runAt_bind_done (atEnd_run h)]
  refine .ite (fun _ => fail_ends start (by simp)) fun hend => ?_
  rw [runAt_bind_done (rest_run h)]
  cases hclosing : noteEnd? dashes s with
  | none => exact (bump_moves h hend).bind fun _ m t ht hm => .again ht hm
  | some closing =>
    obtain ⟨b, t, hs, -, -⟩ := eq_of_noteEnd? hclosing
    have hle : size closing ≤ size s := by
      rw [hs]
      simp only [Text.size_append]
      omega
    have hsize := h.size_eq
    dsimp only
    rw [runAt_bind_done runAt_get]
    refine (slice_ends h _ _).bind fun value m₁ t₁ h₁ hm₁ => ?_
    rw [runAt_bind_done runAt_read]
    refine (check_ends h₁ _).bind fun k m₂ t₂ h₂ hm₂ => ?_
    refine (goto_ends _).bind fun _ m₃ t₃ h₃ hm₃ => ?_
    rw [runAt_bind_done runAt_get]
    refine .last h₃ ?_
    obtain ⟨hk, -⟩ := hm₂
    rw [Text.minus, if_pos (by omega)] at hk
    cases hk
    omega

theorem noteWithin_ends (start valueStart : Nat) (dashes : Bool) (h : Left source n s) {k : Nat}
    (hk : short ∨ s.length < k) :
    Ends source short (runAt source n (noteWithin start valueStart dashes k)) fun _ m => n ≤ m :=
  .loop (isLoop_note start valueStart dashes)
    (fun _ _ _ ht => noteRound_ends start valueStart dashes ht) h hk ()

theorem note_ends (h : Left source n (Token.mustacheOpen.chars ++ s))
    (hs : Ahead.inBraces s = .note) :
    Ends source short (runAt source n note) fun _ m => n < m := by
  rw [note, runAt_bind_done runAt_get, runAt_bind_done (expect_run h)]
  obtain ⟨tilde, t, heat, -, hrun, ht⟩ := eat_flag h.drop '~'
  have hbang := Concrete.startsWith_mark (congrArg Ahead.mark? hs)
  rw [heat] at hbang
  rw [runAt_bind_done hrun]
  refine (expect_ends ht fun _ => hbang).bind fun _ m₁ t₁ h₁ hm₁ => ?_
  refine (eat_ends h₁ _).bind fun dashes m₂ t₂ h₂ hm₂ => ?_
  rw [runAt_bind_done runAt_get, runAt_rounds]
  exact (noteWithin_ends n m₂ dashes h₂ (.inr h₂.length_lt)).imp fun _ _ _ => by omega

theorem comment_ends (h : Left source n s) (hs : startsWith Token.commentOpen.chars s = true) :
    Ends source short (runAt source n comment) fun _ m => n < m := by
  rw [comment, runAt_bind_done runAt_get]
  refine (expect_ends h fun _ => hs).bind fun _ m₁ t₁ h₁ hm₁ => ?_
  rw [runAt_bind_done (rest_run h₁)]
  cases Text.find? ['-', '-', '>'] t₁ with
  | none => exact fail_ends n (by simp)
  | some length =>
    dsimp only
    rw [runAt_bind_done (rest_run h₁)]
    refine (check_ends h₁ _).bind fun value m₂ t₂ h₂ hm₂ => ?_
    rw [runAt_bind_done runAt_get]
    refine (goto_ends _).bind fun _ m₃ t₃ h₃ hm₃ => ?_
    rw [runAt_bind_done runAt_get]
    exact .pure h₃ (by omega)

theorem namesRound_ends (found : List String) (h : Left source n s) :
    Ends source short (runAt source n (namesRound found)) (Round.Past n fun _ m => n ≤ m) := by
  refine (skipBlanks_ends h).bind fun _ m₁ t₁ h₁ hm₁ => ?_
  refine (eat_ends h₁ _).bind fun _ m₂ t₂ h₂ hm₂ => ?_
  refine .ite (fun _ => .last h₂ (by omega)) fun _ => ?_
  rw [runAt_bind_done runAt_get]
  refine (wordEnd_ends h₂).bind fun stop m₃ t₃ h₃ hm₃ => ?_
  refine .ite (fun _ => fail_ends _ (by simp)) fun hne => ?_
  refine (slice_ends h₃ _ _).bind fun name m₄ t₄ h₄ hm₄ => ?_
  exact (goto_ends stop).bind fun _ m₅ t₅ h₅ hm₅ => .again h₅ (by omega)

theorem namesWithin_ends (h : Left source n s) {k : Nat} (hk : short ∨ s.length < k)
    (found : List String) :
    Ends source short (runAt source n (namesWithin k found)) fun _ m => n ≤ m :=
  .loop isLoop_names (fun found _ _ ht => namesRound_ends found ht) h hk found

/-- What stands at `as` is tested behind the blanks, where the marks are then taken. -/
theorem blockParams_ends (h : Left source n s) :
    Ends source short (runAt source n blockParams) fun _ m =>
      n ≤ m ∧ (Concrete.paramsAhead s = true → n < m) := by
  rw [blockParams, runAt_bind_done runAt_get]
  obtain ⟨lead, s₁, hlead, rfl, hrun, h₁⟩ := skipBlanks_lead h
  rw [runAt_bind_done hrun, runAt_bind_done (isAt_run h₁ _)]
  refine .ite (fun hs => ?_) fun hs => ?_
  · obtain ⟨t, rfl, -, hbar⟩ := Concrete.paramsAhead_iff.1 hs
    rw [runAt_bind_done (expect_run h₁)]
    obtain ⟨gap, t₁, hgap, rfl, hrun, h₂⟩ := skipBlanks_lead h₁.drop
    rw [runAt_bind_done hrun]
    have hmark : startsWith Token.bar.chars t₁ = true := by
      rw [show (gap ++ t₁).dropWhile isBlank = t₁ from congrArg Prod.snd hgap] at hbar
      rwa [Token.chars, Text.startsWith_singleton]
    refine (expect_ends h₂ fun _ => hmark).bind fun _ m₂ t₂ h₂ hm₂ => ?_
    rw [runAt_rounds]
    exact (namesWithin_ends h₂ (.inr h₂.length_lt) []).imp fun _ _ _ => by omega
  · refine (goto_ends n).bind fun _ m₂ t₂ h₂ hm₂ => .pure h₂ ⟨by omega, fun hahead => ?_⟩
    obtain ⟨-, hblank, -⟩ := Text.eq_of_run hlead
    cases lead with
    | nil => exact absurd hahead hs
    | cons c lead =>
      obtain ⟨t, ht, -⟩ := Concrete.paramsAhead_iff.1 hahead
      obtain rfl : c = 'a' := (List.cons.inj ht).1
      cases hblank 'a' List.mem_cons_self

theorem tagEnd_ends (h : Left source n s) :
    Ends source short (runAt source n tagEnd) fun _ m => n < m := by
  refine (blockParams_ends h).bind fun bound m₁ t₁ h₁ hm₁ => ?_
  refine (skipBlanks_ends h₁).bind fun _ m₂ t₂ h₂ hm₂ => ?_
  refine (eat_ends h₂ _).bind fun _ m₃ t₃ h₃ hm₃ => ?_
  refine (expect_ends h₃ (by simp [Token.isForeseen])).bind fun _ m₄ t₄ h₄ hm₄ => ?_
  exact .pure h₄ (by omega)

theorem closeTag_ends (name : List Char) (h : Left source n (Token.mustacheOpen.chars ++ s))
    (hs : Ahead.inBraces s = .closeTag) :
    Ends source short (runAt source n (closeTag name)) fun _ m => n < m := by
  rw [closeTag, runAt_bind_done runAt_get, runAt_bind_done (expect_run h)]
  obtain ⟨tilde, t, heat, -, hrun, ht⟩ := eat_flag h.drop '~'
  have hslash := Concrete.startsWith_mark (congrArg Ahead.mark? hs)
  rw [heat] at hslash
  rw [runAt_bind_done hrun]
  refine (expect_ends ht fun _ => hslash).bind fun _ m₁ t₁ h₁ hm₁ => ?_
  refine (skipBlanks_ends h₁).bind fun _ m₂ t₂ h₂ hm₂ => ?_
  rw [runAt_bind_done runAt_get]
  refine (wordEnd_ends h₂).bind fun stop m₃ t₃ h₃ hm₃ => ?_
  refine (slice_ends h₃ _ _).bind fun found m₄ t₄ h₄ hm₄ => ?_
  refine .ite (fun _ => fail_ends _ (by simp)) fun _ => ?_
  refine (goto_ends stop).bind fun _ m₅ t₅ h₅ hm₅ => ?_
  refine (skipBlanks_ends h₅).bind fun _ m₆ t₆ h₆ hm₆ => ?_
  refine (eat_ends h₆ _).bind fun _ m₇ t₇ h₇ hm₇ => ?_
  refine (expect_ends h₇ (by simp [Token.isForeseen])).bind fun _ m₈ t₈ h₈ hm₈ => ?_
  rw [runAt_bind_done runAt_get]
  exact .pure h₈ (by omega)

end Cursor

end TemplateLint
