import TemplateLint.Proofs.Cursor.Statement
import TemplateLint.Proofs.Progress.Element

namespace TemplateLint

/-- Braces at which content ends are those of an `else` tag or of a closing tag. -/
theorem Concrete.inBraces_of_endsContent {s : List Char}
    (h : endsContent (Token.mustacheOpen.chars ++ s)) :
    Ahead.inBraces s = .elseTag ∨ Ahead.inBraces s = .closeTag := by
  rcases endsContent_cases h with ⟨hs, -⟩ | ⟨t, ht, hin⟩ | ⟨t, ht, hin⟩
  · rw [Text.startsWith_append] at hs
    cases hs
  · obtain rfl := List.append_cancel_left ht
    exact .inl hin
  · obtain rfl := List.append_cancel_left ht
    exact .inr hin

theorem Concrete.startsWith_tagOpen {s : List Char} (h : tagStartAhead s = true) :
    Text.startsWith Token.tagOpen.chars s = true := by
  unfold tagStartAhead at h
  split at h
  · rfl
  · cases h

namespace Cursor

open Text (size startsWith)
open Concrete (Token Ahead endsContent)

variable {source s : List Char} {n : Nat} {short : Prop}

/-- Statements that start at `n` stop where something closes them, if they are in a construct. -/
def ContentStops (source : List Char) (context : Context) (n : Nat) (_ : List Tree.Statement)
    (m : Nat) : Prop :=
  n ≤ m ∧ (context ≠ .top → ∀ t, Left source m t → endsContent t)

theorem text_ends (h : Left source n s) (hs : ¬ s.isEmpty = true) :
    Ends source short (runAt source n text) fun _ m => n < m := by
  rw [text, runAt_bind_done runAt_get]
  refine (bump_moves h hs).bind fun _ m₁ t₁ h₁ hm₁ => ?_
  refine (bumpTo_ends h₁ _).bind fun _ m₂ t₂ h₂ hm₂ => ?_
  rw [runAt_bind_done runAt_get]
  exact (slice_ends h₂ _ _).bind fun text m₃ t₃ h₃ hm₃ => .pure h₃ (by omega)

theorem closingTag_ends (tag : List Char) (start : Nat) (h : Left source n s) :
    Ends source short (runAt source n (closingTag tag start)) fun _ m => n < m := by
  rw [closingTag, runAt_bind_done runAt_get, runAt_bind_done (isAt_run h _)]
  refine .ite (fun hs => ?_) fun _ => fail_ends start (by simp)
  refine (expect_ends h fun _ => hs).bind fun _ m₁ t₁ h₁ hm₁ => ?_
  rw [runAt_bind_done (rest_run h₁)]
  cases Text.find? ['>'] t₁ with
  | none => exact fail_ends start (by simp)
  | some length =>
    dsimp only
    rw [runAt_bind_done (rest_run h₁)]
    refine (check_ends h₁ _).bind fun found m₂ t₂ h₂ hm₂ => ?_
    refine .ite (fun _ => fail_ends n (by simp)) fun _ => ?_
    rw [runAt_bind_done runAt_get]
    refine (goto_ends _).bind fun _ m₃ t₃ h₃ hm₃ => ?_
    rw [runAt_bind_done runAt_get]
    exact .pure h₃ (by omega)

theorem lastClose_ends (name : List Char) (opener : Nat) (h : Left source n s) :
    Ends source short (runAt source n (lastClose name opener)) fun _ m => n < m := by
  rw [lastClose, runAt_bind_done (isAt_run h _)]
  refine .ite (fun hopen => ?_) fun _ => fail_ends opener (by simp)
  obtain ⟨t, rfl⟩ := Text.startsWith_iff.1 hopen
  rw [runAt_bind_done (inBraces_run h)]
  refine .ite (fun hin => closeTag_ends name h hin) fun _ => ?_
  rw [runAt_bind_done runAt_get]
  exact fail_ends n (by simp)

section Rest

variable {expr expr' : Cursor Tree.Expr} {content other : Cursor (List Tree.Statement)}
  {rest rest' : Cursor (Tree.Body × Tree.ElsePart × Tree.CloseTag)}

theorem body_alike (hcontent : AlikeFrom source short n content other (ContentStops source .block))
    (h : Left source n s) :
    EndAlike source short (runAt source n (body content)) (runAt source n (body other))
      fun _ m => n ≤ m ∧ ∀ t, Left source m t → endsContent t := by
  refine .known runAt_get ((hcontent n s h (Nat.le_refl n)).bind fun found m t ht hm => ?_)
  exact .known runAt_get (.pure ht ⟨hm.1, hm.2 (by simp)⟩)

theorem finalElse_alike (name : List Char) (opener start : Nat)
    (hcontent : AlikeFrom source short n content other (ContentStops source .block))
    (h : Left source n s) :
    EndAlike source short (runAt source n (finalElse content name opener start))
      (runAt source n (finalElse other name opener start)) fun _ m => n < m := by
  refine .step (eat_ends h _) fun _ m₁ t₁ h₁ hm₁ => ?_
  refine .step (expect_ends h₁ (by simp [Token.isForeseen])) fun _ m₂ t₂ h₂ hm₂ => ?_
  have hbody := body_alike (fun m t ht hm => hcontent m t ht (by omega)) h₂
  refine .known runAt_get (hbody.bind fun last m₃ t₃ h₃ hm₃ => ?_)
  exact .step (lastClose_ends name opener h₃) fun close m₄ t₄ h₄ hm₄ => .pure h₄ (by omega)

theorem chainedElseWith_alike (start : Nat)
    (hexpr : AlikeFrom source short n expr expr' fun k _ m => k < m)
    (hrest : AlikeFrom source short n rest rest' fun k _ m => k ≤ m) (h : Left source n s) :
    EndAlike source short (runAt source n (chainedElseWith expr rest start))
      (runAt source n (chainedElseWith expr' rest' start)) fun _ m => n < m := by
  refine (hexpr n s h (Nat.le_refl n)).bind fun callee m₁ t₁ h₁ hm₁ => ?_
  have hargs := argsWith_alike true (fun m t ht hm => hexpr m t ht (by omega)) h₁
    (.inr h₁.length_lt) [] []
  refine .known rounds_run (hargs.bind fun p m₂ t₂ h₂ hm₂ => ?_)
  refine .step (tagEnd_ends h₂) fun bound m₃ t₃ h₃ hm₃ => ?_
  refine .known runAt_get ((hrest m₃ t₃ h₃ (by omega)).bind fun q m₄ t₄ h₄ hm₄ => ?_)
  exact .pure h₄ (by omega)

theorem elseRestWith_alike (name : List Char) (opener : Nat)
    (hexpr : AlikeFrom source short (n + 1) expr expr' fun k _ m => k < m)
    (hcontent : AlikeFrom source short (n + 1) content other (ContentStops source .block))
    (hrest : AlikeFrom source short (n + 1) rest rest' fun k _ m => k ≤ m)
    (h : Left source n (Token.mustacheOpen.chars ++ s))
    (helse : startsWith Token.elseWord.chars ((Text.eat '~' s).2.dropWhile Text.isBlank) = true) :
    EndAlike source short (runAt source n (elseRestWith expr content rest name opener))
      (runAt source n (elseRestWith expr' other rest' name opener)) fun _ m => n < m := by
  obtain ⟨tilde, t₁, heat, rfl, hrun₁, h₁⟩ := eat_flag h.drop '~'
  rw [heat] at helse
  obtain ⟨lead, t₂, hlead, rfl, hrun₂, h₂⟩ := skipBlanks_lead h₁
  rw [show (lead ++ t₂).dropWhile Text.isBlank = t₂ from congrArg Prod.snd hlead] at helse
  have hbraces : size Token.mustacheOpen.chars = 2 := rfl
  refine .known runAt_get (.known (expect_run h) (.known hrun₁ (.known hrun₂ ?_)))
  refine .step (expect_ends h₂ fun _ => helse) fun _ m₃ t₃ h₃ hm₃ => ?_
  refine .step (skipBlanks_ends h₃) fun _ m₄ t₄ h₄ hm₄ => ?_
  refine .known (isAt_run h₄ _) (.ite (fun _ => ?_) fun _ => ?_)
  · exact (finalElse_alike name opener n (fun m t ht hm => hcontent m t ht (by omega)) h₄).imp
      fun _ _ _ => by omega
  · exact (chainedElseWith_alike n (fun m t ht hm => hexpr m t ht (by omega))
      (fun m t ht hm => hrest m t ht (by omega)) h₄).imp fun _ _ _ => by omega

/-- A body stops at no braces, at a closing tag or at an `else` tag, and each segment takes its tag. -/
theorem blockRestWith_alike (name : List Char) (opener : Nat)
    (hcontent : AlikeFrom source short n content other (ContentStops source .block))
    (h : Left source n s) {k : Nat} (hk : short ∨ s.length < k) :
    EndAlike source short (runAt source n (blockRestWith content name opener k))
      (runAt source n (blockRestWith other name opener k)) fun _ m => n < m := by
  induction k generalizing n s with
  | zero => exact ⟨rfl, hk.resolve_right (Nat.not_lt_zero _)⟩
  | succ k ih =>
    refine (body_alike hcontent h).bind fun program m₁ t₁ h₁ hm₁ => ?_
    obtain ⟨hle, hstops⟩ := hm₁
    refine .known (isAt_run h₁ _) (.ite (fun hopen => ?_) fun _ => (fail_ends opener (by simp)).alike)
    obtain ⟨t, rfl⟩ := Text.startsWith_iff.1 hopen
    refine .known (inBraces_run h₁) (.ite (fun hin => ?_) fun hin => ?_)
    · exact .step (closeTag_ends name h₁ hin) fun close m₂ t₂ h₂ hm₂ => .pure h₂ (by omega)
    · have helse := Concrete.startsWith_elseWord
        ((Concrete.inBraces_of_endsContent (hstops _ h₁)).resolve_right hin)
      have hrest : AlikeFrom source short (m₁ + 1) (blockRestWith content name opener k)
          (blockRestWith other name opener k) fun k _ m => k ≤ m := fun m t ht hm =>
        have hlength := h.length_lt_of_lt ht (by omega)
        (ih (fun m' t' ht' hm' => hcontent m' t' ht' (by omega)) ht
          (hk.imp_right fun hk => by omega)).imp fun _ _ _ => by omega
      refine (elseRestWith_alike name opener expr_alike
        (fun m' t' ht' hm' => hcontent m' t' ht' (by omega)) hrest h₁ helse).bind
          fun p m₂ t₂ h₂ hm₂ => ?_
      exact .pure h₂ (by omega)

end Rest

section Constructs

variable {expr expr' : Cursor Tree.Expr} {content other : Cursor (List Tree.Statement)}

/-- What a block holds is read from behind its opening braces on. -/
theorem blockWith_alike (hexpr : AlikeFrom source short (n + 1) expr expr' fun k _ m => k < m)
    (hcontent : AlikeFrom source short (n + 1) content other (ContentStops source .block))
    (h : Left source n (Token.mustacheOpen.chars ++ s))
    (hhash : startsWith Token.hash.chars (Text.eat '~' s).2 = true) :
    EndAlike source short (runAt source n (blockWith expr content))
      (runAt source n (blockWith expr' other)) fun _ m => n < m := by
  obtain ⟨tilde, t₁, heat, -, hrun, h₁⟩ := eat_flag h.drop '~'
  rw [heat] at hhash
  refine .known runAt_get (.known (expect_run h) (.known hrun ?_))
  refine .step (expect_ends h₁ fun _ => hhash) fun _ m₂ t₂ h₂ hm₂ => ?_
  refine .step (skipBlanks_ends h₂) fun _ m₃ t₃ h₃ hm₃ => ?_
  refine (hexpr m₃ t₃ h₃ (by omega)).bind fun callee m₄ t₄ h₄ hm₄ => ?_
  cases callee.path? with
  | none => exact (fail_ends _ (by simp)).alike
  | some path =>
    have hargs := argsWith_alike true (fun m t ht hm => hexpr m t ht (by omega)) h₄
      (.inr h₄.length_lt) [] []
    refine .known rounds_run (hargs.bind fun p m₅ t₅ h₅ hm₅ => ?_)
    refine .step (tagEnd_ends h₅) fun bound m₆ t₆ h₆ hm₆ => ?_
    have hrest := blockRestWith_alike path.text.toList n
      (fun m t ht hm => hcontent m t ht (by omega)) h₆ (.inr h₆.length_lt)
    refine .known runAt_get (.known rounds_run (hrest.bind fun q m₇ t₇ h₇ hm₇ => ?_))
    exact .pure h₇ (by omega)

/-- What an element holds is read from behind its opening tag on. -/
theorem element_alike
    (hcontent : AlikeFrom source short (n + 1) content other (ContentStops source .element))
    (h : Left source n s) (hs : startsWith Token.tagOpen.chars s = true) :
    EndAlike source short (runAt source n (element content)) (runAt source n (element other))
      fun _ m => n < m := by
  refine .known runAt_get (.step (openingTag_ends h hs) fun e m₁ t₁ h₁ hm₁ => ?_)
  refine .ite (fun _ => .pure h₁ hm₁) fun _ => ?_
  refine (hcontent m₁ t₁ h₁ hm₁).bind fun children m₂ t₂ h₂ hm₂ => ?_
  have hle := hm₂.1
  exact .step (closingTag_ends _ n h₂) fun close m₃ t₃ h₃ hm₃ => .pure h₃ (by omega)

end Constructs

/-- At a tag that closes something content ends, or fails at the top. -/
theorem stray_ends (context : Context) (found : List Tree.Statement) {cause : Concrete.ParseError}
    (hcause : ∀ t atEnd, cause ≠ .expected t atEnd) (h : Left source n s) (hs : endsContent s) :
    Ends source short
      (runAt source n (if context = .top then (do fail cause (← get)) else return .last found :
        Cursor (Round (List Tree.Statement) (List Tree.Statement))))
      (Round.Past n (ContentStops source context n)) := by
  refine .ite (fun _ => ?_) fun _ => .last h ⟨Nat.le_refl n, fun _ t ht => h.eq ht ▸ hs⟩
  rw [runAt_bind_done runAt_get]
  exact fail_ends n hcause

theorem contentRound_ends (context : Context) (k : Nat) (found : List Tree.Statement)
    (hcontent : ∀ context, AlikeFrom source short (n + 1) (contentWithin k context [])
      (contentWithin k context []) (ContentStops source context)) (h : Left source n s) :
    Ends source short (runAt source n (contentRound context k found))
      (Round.Past n (ContentStops source context n)) := by
  have hof := Concrete.ahead_eq s
  rw [contentRound, runAt_bind_done (atEnd_run h)]
  refine .ite (fun hempty => ?_) fun hempty => ?_
  · rw [if_pos hempty] at hof
    exact .last h ⟨Nat.le_refl n, fun _ t ht => h.eq ht ▸ .inl hof⟩
  rw [if_neg hempty] at hof
  rw [runAt_bind_done (isAt_run h _)]
  refine .ite (fun hopen => ?_) fun hopen => ?_
  · obtain ⟨t, rfl⟩ := Text.startsWith_iff.1 hopen
    rw [runAt_bind_done (inBraces_run h)]
    replace hof : Ahead.of (Token.mustacheOpen.chars ++ t) = Ahead.inBraces t := rfl
    cases hin : Ahead.inBraces t with
    | note => exact (note_ends h hin).bind fun c m t ht hm => .again ht hm
    | block =>
      have hhash := Concrete.startsWith_mark (congrArg Ahead.mark? hin)
      exact (blockWith_alike expr_alike (hcontent .block) h hhash).ends.bind
        fun b m t ht hm => .again ht hm
    | closeTag => exact stray_ends context found (by simp) h (by simp [endsContent, hof, hin])
    | elseTag => exact stray_ends context found (by simp) h (by simp [endsContent, hof, hin])
    | _ => exact (mustache_ends h hopen).bind fun x m t ht hm => .again ht hm
  rw [if_neg hopen] at hof
  rw [runAt_bind_done (isAt_run h _)]
  refine .ite (fun hcomment => ?_) fun hcomment => ?_
  · exact (comment_ends h hcomment).bind fun c m t ht hm => .again ht hm
  rw [if_neg hcomment] at hof
  rw [runAt_bind_done (isAt_run h _)]
  refine .ite (fun hclosing => ?_) fun hclosing => ?_
  · rw [if_pos hclosing] at hof
    exact stray_ends context found (by simp) h (by simp [endsContent, hof])
  rw [runAt_bind_done (isAt_run h _)]
  refine .ite (fun hstart => ?_) fun _ => ?_
  · have htag := Concrete.startsWith_tagOpen hstart
    exact (element_alike (hcontent .element) h htag).ends.bind fun e m t ht hm => .again ht hm
  · exact (text_ends h hempty).bind fun x m t ht hm => .again ht hm

/-- A round takes one from what the constructs in it are read with, and a character from what is
left. -/
theorem contentWithin_ends (context : Context) (h : Left source n s) {k : Nat}
    (hk : short ∨ s.length < k) (found : List Tree.Statement) :
    Ends source short (runAt source n (contentWithin k context found))
      (ContentStops source context n) := by
  induction k generalizing n s context found with
  | zero => exact hk.resolve_right (Nat.not_lt_zero _)
  | succ k ih =>
    have hmore : ∀ m t, Left source m t → n < m → short ∨ t.length < k := fun m t ht hm =>
      have hlength := h.length_lt_of_lt ht hm
      hk.imp_right fun hk => by omega
    have hround := contentRound_ends context k found
      (fun context m t ht hm => (ih context ht (hmore m t ht hm) []).alike) h
    rw [(isLoop_content context).succ]
    refine hround.round fun found m t ht hm => ?_
    refine (ih context ht (hmore m t ht hm) found).imp fun _ m' hm' => ?_
    exact ⟨Nat.le_trans (Nat.le_of_lt hm) hm'.1, hm'.2⟩

/-- What a construct holds is read with any number of rounds. -/
theorem content_alike (context : Context) (k : Nat) :
    AlikeFrom source True n (contentWithin k context []) (contentWithin k context [])
      (ContentStops source context) :=
  fun _ _ ht _ => (contentWithin_ends context ht (.inl trivial) []).alike

theorem chainRest_alike (name : List Char) (opener j k : Nat) :
    AlikeFrom source True n (chainRest j k name opener) (chainRest j k name opener)
      fun k _ m => k ≤ m :=
  fun _ _ ht _ => (blockRestWith_alike name opener (content_alike .block k) ht (.inl trivial)).imp
    fun _ _ hm => Nat.le_of_lt hm

theorem template_ends (source : List Char) :
    Ends source short (runAt source 0 template) fun _ _ => True := by
  have h := Left.start source
  rw [template, runAt_rounds]
  refine (contentWithin_ends .top h (.inr h.length_lt) []).bind fun found m t ht _ => ?_
  rw [runAt_bind_done runAt_read]
  exact .pure ht trivial

theorem runAt_of_parse_error {source : String} {e : Stop} (h : parse source = .error e) :
    runAt source.toList 0 template = .error e := by
  rw [parse] at h
  cases hrun : runAt source.toList 0 template with
  | error e' =>
    rw [hrun] at h
    exact congrArg _ (Except.error.inj h)
  | ok p =>
    rw [hrun] at h
    cases h

end Cursor

end TemplateLint
