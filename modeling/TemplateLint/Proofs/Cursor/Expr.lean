import TemplateLint.Cursor.Expr
import TemplateLint.Proofs.Cursor.Basic
import TemplateLint.Proofs.Layout.Range

namespace TemplateLint.Cursor

open Text (isBlank size isBoundary slice? after? scanTo startsWith opens opens_cons minus cut)
open Concrete (Token Failure Result Arg flagged isWordChar quotedRaw unescape ReadsExpr argsEndAhead)

variable {source s : List Char} {n : Nat}

theorem quotedWithin_run (mark : Char) {start k : Nat} {s₀ : List Char} (h₀ : Left source start s₀)
    (h : Left source n s) (hk : s.length < k) (value : List Char) :
    runAt source n (quotedWithin mark start k value) = match quotedRaw mark s with
      | some (raw, _) => done (value ++ unescape raw) (n + (size raw + mark.utf8Size))
      | none => failed source ⟨.unterminatedString, s₀⟩ := by
  obtain ⟨k, rfl⟩ := Nat.exists_eq_add_one_of_ne_zero (Nat.ne_zero_of_lt hk)
  fun_induction quotedRaw mark s generalizing n k value with
  | case1 =>
    rw [quotedWithin, runAt_bind_done (bump_nil h)]
    exact fail_run h₀ _
  | case2 =>
    replace hk := Nat.lt_of_succ_lt_succ hk
    obtain ⟨k, rfl⟩ := Nat.exists_eq_add_one_of_ne_zero (Nat.ne_zero_of_lt hk)
    rw [quotedWithin, runAt_bind_done (bump_cons h)]
    simp only [if_true]
    rw [runAt_bind_done (bump_nil h.next), quotedWithin, runAt_bind_done (bump_nil h.next)]
    exact fail_run h₀ _
  | case3 c s ih =>
    replace hk := Nat.lt_of_succ_lt_succ hk
    obtain ⟨k, rfl⟩ := Nat.exists_eq_add_one_of_ne_zero (Nat.ne_zero_of_lt hk)
    rw [quotedWithin, runAt_bind_done (bump_cons h)]
    simp only [if_true]
    rw [runAt_bind_done (bump_cons h.next), ih h.next.next (value ++ [c]) k
      (Nat.lt_of_succ_lt hk)]
    cases quotedRaw mark s with
    | none => rfl
    | some p => simp [unescape, Nat.add_assoc]
  | case4 s hne hne' =>
    have hb : mark ≠ '\\' := by
      rintro rfl
      cases s with
      | nil => exact hne rfl rfl
      | cons d s => exact hne' d s rfl rfl
    rw [quotedWithin, runAt_bind_done (bump_cons h)]
    simp [hb, unescape, runAt_pure]
  | case5 c s hne hne' hc ih =>
    have hb : c ≠ '\\' := by
      rintro rfl
      cases s with
      | nil => exact hne rfl rfl
      | cons d s => exact hne' d s rfl rfl
    replace hk := Nat.lt_of_succ_lt_succ hk
    obtain ⟨k, rfl⟩ := Nat.exists_eq_add_one_of_ne_zero (Nat.ne_zero_of_lt hk)
    rw [quotedWithin, runAt_bind_done (bump_cons h)]
    simp only [hb, hc, if_false]
    rw [ih h.next (value ++ [c]) k hk]
    cases quotedRaw mark s with
    | none => rfl
    | some p => simp [Concrete.unescape_cons hb, Nat.add_assoc]

theorem quoted_run (mark : Char) {start : Nat} {s₀ : List Char} (h₀ : Left source start s₀)
    (h : Left source n s) :
    runAt source n (quoted mark start) = match quotedRaw mark s with
      | some (raw, _) => done (unescape raw) (n + (size raw + mark.utf8Size))
      | none => failed source ⟨.unterminatedString, s₀⟩ := by
  rw [quoted, runAt_rounds]
  exact quotedWithin_run mark h₀ h h.length_lt []

theorem word_agrees (h : Left source n s) :
    Agrees source n s (runAt source n word) (match Text.run isWordChar s with
      | ([], _) => .error ⟨.expectedExpression, s⟩
      | (w, rest) => .ok (.word w, rest)) Concrete.Expr.chars (Concrete.Expr.at n) := by
  cases hr : Text.run isWordChar s with
  | mk w rest =>
    obtain ⟨rfl, -, -⟩ := Text.eq_of_run hr
    rw [word, runAt_bind_done runAt_get, runAt_bind_done (wordEnd_run h hr n)]
    cases w with
    | nil =>
      rw [if_pos (show n + size [] = n from rfl)]
      exact .fail h _
    | cons c w =>
      have hpos := c.utf8Size_pos
      have hne : n + size (c :: w) ≠ n := by
        rw [Text.size_cons]
        omega
      rw [if_neg hne, runAt_bind_done (goto_run h.drop), runAt_bind_done (slice_run h _)]
      exact .ok rfl rfl

theorem isKey_run {w t : List Char} (h : Left source n s) (hs : Text.run isWordChar s = (w, t))
    (k : Nat) : runAt source k (isKey n (n + size w)) = done (Concrete.key? s).isSome k := by
  obtain ⟨rfl, -, -⟩ := Text.eq_of_run hs
  cases w with
  | nil =>
    rw [isKey, Text.size_nil, Nat.add_zero, if_neg (Nat.lt_irrefl n), Concrete.key?, hs]
    rfl
  | cons c w =>
    have hpos := c.utf8Size_pos
    have hlt : n < n + size (c :: w) := by
      rw [Text.size_cons]
      omega
    rw [isKey, if_pos hlt, runAt_bind_done (sliceFrom_run h.drop k), runAt_pure, Concrete.key?, hs,
      Text.startsWith_singleton]
    cases t with
    | nil => rfl
    | cons d t =>
      by_cases hd : d = '='
      · subst hd
        rfl
      · rw [Text.opens_cons, beq_eq_false_iff_ne.2 hd]
        simp [hd]

/-- In texts of at most `m` characters the routine reads expressions as `read` does. -/
def ExprAgrees (source : List Char) (m : Nat) (routine : Cursor Tree.Expr)
    (read : List Char → Result (Concrete.Expr × List Char)) : Prop :=
  ∀ n s, s.length ≤ m → Left source n s →
    Agrees source n s (runAt source n routine) (read s) Concrete.Expr.chars (Concrete.Expr.at n)

/-- In texts of at most `bound` characters the routine reads arguments as the reader does, whatever
was read before. -/
def ArgsAgree (source : List Char) (routine : Cursor Tree.Expr)
    (read : List Char → Result (Concrete.Expr × List Char)) (binds : Bool) (m bound : Nat) : Prop :=
  ∀ {n : Nat} {s : List Char} {k : Nat}, Left source n s → s.length ≤ bound → s.length < k →
    s.length ≤ m → ∀ (params : List Tree.Expr) (hash : List Tree.HashPair),
      Agrees source n s (runAt source n (argsWith routine binds k params hash))
        (Concrete.argsWith read binds bound (!hash.isEmpty) s) (fun p => Arg.charsAll p.1 ++ p.2)
        (fun p => (params ++ Arg.paramsAt n p.1, hash ++ Arg.hashAt n p.1))

section

variable {read : List Char → Result (Concrete.Expr × List Char)} {m bound k : Nat}
  {routine : Cursor Tree.Expr} {binds : Bool} {lead : List Char}

/-- After the key of a named argument, its value and the arguments that follow are read. -/
theorem named_agrees (hexpr : ExprAgrees source m routine read)
    (ih : ArgsAgree source routine read binds m bound) {key : List Char}
    (h : Left source (n + size lead + size key + 1) s) (hbound : s.length ≤ bound)
    (hk : s.length < k) (hm : s.length ≤ m) (params : List Tree.Expr) (hash : List Tree.HashPair) :
    Agrees source n (lead ++ (Concrete.keyChars (some key) ++ s))
      (runAt source (n + size lead + size key + 1) do
        let value ← routine
        argsWith routine binds k params
          (hash ++ [⟨String.ofList key, value, ⟨n + size lead, value.span.stop⟩⟩]))
      (do
        let (value, s) ← read s
        let ((args, trail), s) ← Concrete.argsWith read binds bound true s
        .ok ((⟨lead, some key, value⟩ :: args, trail), s))
      (fun p => Arg.charsAll p.1 ++ p.2)
      (fun p => (params ++ Arg.paramsAt n p.1, hash ++ Arg.hashAt n p.1)) := by
  refine (hexpr _ _ hm h).bind h fun value s₁ _ hvalue h₁ => ?_
  have hs₁ : s₁.length ≤ s.length := by
    rw [hvalue, List.length_append]
    omega
  have hargs := ih (k := k) h₁ (by omega) (by omega) (by omega) params (hash ++ [⟨String.ofList key,
    value.at (n + size lead + size key + 1), ⟨n + size lead,
      (value.at (n + size lead + size key + 1)).span.stop⟩⟩])
  rw [List.isEmpty_eq_false_iff.2 (by simp)] at hargs
  refine hargs.last fun p rest _ hp => .ok ?_ ?_
  · rw [hvalue, hp]
    simp [Arg.charsAll, Arg.chars]
  · have hsign : '='.utf8Size = 1 := rfl
    simp [Arg.paramsAt, Arg.hashAt, Arg.charsAll, Arg.chars, Concrete.keyChars, hsign,
      Concrete.Expr.width_eq, Concrete.Expr.at_span, Span.over, Nat.add_assoc]

/-- A positional argument and those that follow, where none was named before. -/
theorem positional_agrees (hread : ReadsExpr read) (hexpr : ExprAgrees source m routine read)
    (ih : ArgsAgree source routine read binds m bound) (h : Left source (n + size lead) s)
    (hbound : s.length ≤ bound + 1) (hk : s.length < k + 1) (hm : s.length ≤ m)
    (params : List Tree.Expr) {hash : List Tree.HashPair} (hhash : (!hash.isEmpty) = false) :
    Agrees source n (lead ++ s)
      (runAt source (n + size lead) do
        let value ← routine
        argsWith routine binds k (params ++ [value]) hash)
      (do
        let (value, s) ← read s
        let ((args, trail), s) ← Concrete.argsWith read binds bound false s
        .ok ((⟨lead, none, value⟩ :: args, trail), s))
      (fun p => Arg.charsAll p.1 ++ p.2)
      (fun p => (params ++ Arg.paramsAt n p.1, hash ++ Arg.hashAt n p.1)) := by
  refine (hexpr _ _ hm h).bind h fun value s₁ hok hvalue h₁ => ?_
  have hs₁ : s₁.length < s.length := by
    have hpos := List.length_pos_iff.2 (hread _ _ _ hok).2.ne_nil
    rw [hvalue, List.length_append]
    omega
  have hargs := ih (k := k) h₁ (by omega) (by omega) (by omega)
    (params ++ [value.at (n + size lead)]) hash
  rw [hhash] at hargs
  refine hargs.last fun p rest _ hp => .ok ?_ ?_
  · rw [hvalue, hp]
    simp [Arg.charsAll, Arg.chars, Concrete.keyChars]
  · simp [Arg.paramsAt, Arg.hashAt, Arg.charsAll, Arg.chars, Concrete.keyChars,
      Concrete.Expr.width_eq, Nat.add_assoc]

theorem argsWith_agrees (hread : ReadsExpr read) (hexpr : ExprAgrees source m routine read)
    (binds : Bool) (bound : Nat) : ArgsAgree source routine read binds m bound := by
  induction bound with
  | zero =>
    intro n s k h hbound hk _ params hash
    obtain ⟨k, rfl⟩ := Nat.exists_eq_add_one_of_ne_zero (Nat.ne_zero_of_lt hk)
    obtain rfl := List.length_eq_zero_iff.1 (Nat.le_zero.1 hbound)
    rw [argsWith, runAt_bind_done (skipBlanks_none h rfl), runAt_bind_done (atEnd_run h),
      List.isEmpty_nil, if_pos rfl, runAt_bind_done runAt_get]
    exact .fail h _
  | succ bound ih =>
    intro n s k h hbound hk hm params hash
    obtain ⟨k, rfl⟩ := Nat.exists_eq_add_one_of_ne_zero (Nat.ne_zero_of_lt hk)
    obtain ⟨lead, s₁, hr, rfl, hrun, h₁⟩ := skipBlanks_lead h
    have hlength : s₁.length ≤ bound + 1 ∧ s₁.length < k + 1 ∧ s₁.length ≤ m := by
      rw [List.length_append] at hbound hk hm
      omega
    rw [argsWith, runAt_bind_done hrun, runAt_bind_done (atEnd_run h₁), Concrete.argsWith]
    simp only [hr]
    by_cases hempty : s₁.isEmpty = true
    · rw [if_pos hempty, if_pos hempty, runAt_bind_done runAt_get]
      exact .fail h₁ _
    rw [if_neg hempty, if_neg hempty, runAt_bind_done (isAt_run h₁ _)]
    by_cases hend : argsEndAhead binds s₁ = true
    · rw [if_pos hend, if_pos hend]
      refine .ok rfl ?_
      simp [Arg.charsAll, Arg.paramsAt, Arg.hashAt, runAt_pure]
    rw [if_neg hend, if_neg hend, runAt_bind_done runAt_get]
    cases hw : Text.run isWordChar s₁ with
    | mk w s₂ =>
      rw [runAt_bind_done (wordEnd_run h₁ hw _), runAt_bind_done (isKey_run h₁ hw _)]
      cases hkey : Concrete.key? s₁ with
      | some p =>
        obtain ⟨key, s₃⟩ := p
        obtain ⟨rfl, hword⟩ := Concrete.eq_of_key? hkey
        have hrun : Text.run isWordChar (Concrete.keyChars (some key) ++ s₃) = (key, '=' :: s₃) := by
          rw [Concrete.keyChars, List.append_assoc]
          exact Text.run_eq hword.2 rfl
        rw [hrun] at hw
        obtain ⟨rfl, rfl⟩ := Prod.mk.inj hw
        have hs₃ : s₃.length ≤ bound ∧ s₃.length < k ∧ s₃.length ≤ m := by
          simp only [Concrete.keyChars, List.length_append, List.length_singleton] at hlength
          omega
        rw [Concrete.keyChars, List.append_assoc] at h₁
        have h₃ : Left source (n + size lead + size key + 1) s₃ := h₁.drop.next
        rw [Option.isSome_some, if_pos rfl, runAt_bind_done (slice_run h₁ _),
          runAt_bind_done (goto_run h₃)]
        exact named_agrees hexpr ih h₃ hs₃.1 hs₃.2.1 hs₃.2.2 params hash
      | none =>
        rw [Option.isSome_none, if_neg Bool.false_ne_true]
        by_cases hnamed : (!hash.isEmpty) = true
        · rw [if_pos hnamed, if_pos hnamed, runAt_bind_done runAt_get]
          exact .fail h₁ _
        rw [if_neg hnamed, if_neg hnamed]
        exact positional_agrees hread hexpr ih h₁ hlength.1 hlength.2.1 hlength.2.2 params
          (Bool.eq_false_iff.2 hnamed)

end

/-- In parentheses, what the cursor reads of the callee and the arguments it reads of the group. -/
theorem group_agrees {read : List Char → Result (Concrete.Expr × List Char)} (hread : ReadsExpr read)
    {m : Nat} {routine : Cursor Tree.Expr} (hexpr : ExprAgrees source m routine read)
    (h : Left source n s) (hm : s.length ≤ m + 1) :
    Agrees source n s (runAt source n (group routine)) (do
        let s ← Concrete.expect .groupOpen s
        let (lead, s) := Text.run isBlank s
        let (callee, s) ← read s
        let ((args, trail), s) ← Concrete.argsWith read false s.length false s
        let s ← Concrete.expect .groupClose s
        .ok (.group ⟨lead, callee, args, trail⟩, s)) Concrete.Expr.chars (Concrete.Expr.at n) := by
  rw [group, runAt_bind_done runAt_get]
  refine .expect h fun s₁ hs₁ h₁ => ?_
  obtain ⟨lead, s₂, hr, rfl, hrun, h₂⟩ := skipBlanks_lead h₁
  have hlength : s₂.length ≤ m := by
    rw [hs₁] at hm
    simp only [Token.chars, List.length_append, List.length_singleton] at hm
    omega
  rw [runAt_bind_done hrun]
  simp only [hr]
  refine (hexpr _ _ hlength h₂).bind h₂ fun callee s₃ _ hcallee h₃ => ?_
  have hlength₃ : s₃.length ≤ m := by
    rw [hcallee, List.length_append] at hlength
    omega
  have hargs := argsWith_agrees hread hexpr false _ h₃ (Nat.le_refl _)
    h₃.length_lt hlength₃ [] []
  rw [runAt_rounds]
  refine hargs.bind h₃ fun p s₄ hok hp h₄ => ?_
  obtain ⟨-, -, -, hend⟩ := Concrete.eq_of_argsWith hread hok
  have hblank := Concrete.opens_isBlank_of_argsEndAhead hend
  dsimp only
  rw [runAt_bind_done (skipBlanks_none h₄ hblank)]
  refine .expect h₄ fun s₅ hs₅ h₅ => ?_
  rw [runAt_bind_done runAt_get]
  refine .ok ?_ ?_
  · rw [hs₁, hcallee, hp, hs₅]
    simp [Concrete.Expr.chars, Concrete.Call.chars, Token.chars]
  · have hopen : '('.utf8Size = 1 := rfl
    have hclose : ')'.utf8Size = 1 := rfl
    simp [runAt_pure, Concrete.Expr.at, Concrete.Call.at, Concrete.Expr.width_eq,
      Concrete.Expr.chars, Concrete.Call.chars, Token.chars, hopen, hclose, Nat.add_assoc]

theorem exprWithin_agrees {m k : Nat} (hk : m < k) :
    ExprAgrees source m (exprWithin k) (Concrete.exprWithin m) := by
  induction m generalizing k with
  | zero =>
    obtain ⟨k, rfl⟩ := Nat.exists_eq_add_one_of_ne_zero (Nat.ne_zero_of_lt hk)
    intro n s hm h
    obtain rfl := List.length_eq_zero_iff.1 (Nat.le_zero.1 hm)
    rw [exprWithin, runAt_bind_done runAt_get, runAt_bind_done (peek_run h)]
    exact word_agrees h
  | succ m ih =>
    obtain ⟨k, rfl⟩ := Nat.exists_eq_add_one_of_ne_zero (Nat.ne_zero_of_lt hk)
    intro n s hm h
    rw [exprWithin, runAt_bind_done runAt_get, runAt_bind_done (peek_run h)]
    cases s with
    | nil => exact word_agrees h
    | cons c rest =>
      simp only [List.head?_cons]
      by_cases hc : c = '('
      · subst hc
        rw [if_pos rfl]
        exact group_agrees (Concrete.readsExpr_exprWithin m) (ih (Nat.lt_of_succ_lt_succ hk)) h hm
      rw [if_neg hc, Concrete.exprWithin]
      case x_2 => exact hc
      by_cases hmark : c = '"' ∨ c = '\''
      · rw [if_pos hmark, if_pos (by simpa using hmark), runAt_bind_done (bump_cons h)]
        have hrun := quoted_run c h h.next
        cases hraw : quotedRaw c rest with
        | none =>
          rw [hraw] at hrun
          rw [runAt_bind_failed hrun]
          exact ⟨rfl, n, h⟩
        | some p =>
          obtain ⟨raw, rest'⟩ := p
          obtain ⟨rfl, -⟩ := Concrete.eq_of_quotedRaw hraw
          rw [hraw] at hrun
          rw [runAt_bind_done hrun, runAt_bind_done runAt_get]
          refine .ok (by simp [Concrete.Expr.chars]) ?_
          simp [runAt_pure, Concrete.Expr.at, Concrete.Expr.width, Concrete.Expr.chars,
            Nat.add_assoc]
      · rw [if_neg hmark, if_neg (by simpa using hmark)]
        exact word_agrees h

theorem expr_agrees (h : Left source n s) :
    Agrees source n s (runAt source n expr) (Concrete.Expr.read s) Concrete.Expr.chars
      (Concrete.Expr.at n) := by
  rw [expr, runAt_rounds, Concrete.Expr.read]
  exact exprWithin_agrees h.length_lt n s (Nat.le_refl _) h

theorem args_agrees (h : Left source n s) (binds : Bool) :
    Agrees source n s (runAt source n (args binds)) (Arg.readAll binds s)
      (fun p => Arg.charsAll p.1 ++ p.2) (fun p => (Arg.paramsAt n p.1, Arg.hashAt n p.1)) := by
  have hexpr : ExprAgrees source s.length expr Concrete.Expr.read := fun _ _ _ h => expr_agrees h
  rw [args, runAt_rounds, Arg.readAll]
  exact argsWith_agrees (fun _ _ _ h => Concrete.Expr.eq_of_read h) hexpr binds _ h (Nat.le_refl _)
    h.length_lt (Nat.le_refl _) [] []

theorem mustache_agrees (h : Left source n s) :
    Agrees source n s (runAt source n mustache) (Concrete.Mustache.read s) Concrete.Mustache.chars
      (Concrete.Mustache.at n) := by
  unfold mustache Concrete.Mustache.read
  rw [runAt_bind_done runAt_get]
  refine .expect h fun s₁ hs₁ h₁ => ?_
  obtain ⟨trusting, s₂, htrusting, rfl, hrun, h₂⟩ := eat_flag h₁ '{'
  rw [runAt_bind_done hrun]
  simp only [htrusting]
  obtain ⟨before, s₃, hbefore, rfl, hrun, h₃⟩ := eat_flag h₂ '~'
  rw [runAt_bind_done hrun]
  simp only [hbefore]
  obtain ⟨lead, s₄, hr, rfl, hrun, h₄⟩ := skipBlanks_lead h₃
  rw [runAt_bind_done hrun]
  simp only [hr]
  refine (expr_agrees h₄).bind h₄ fun callee s₅ _ hcallee h₅ => ?_
  refine (args_agrees h₅ false).bind h₅ fun p s₆ hok hp h₆ => ?_
  obtain ⟨-, -, -, hend⟩ := Concrete.Arg.eq_of_readAll hok
  have hblank := Concrete.opens_isBlank_of_argsEndAhead hend
  dsimp only
  rw [runAt_bind_done (skipBlanks_none h₆ hblank)]
  obtain ⟨after, s₇, hafter, rfl, hrun, h₇⟩ := eat_flag h₆ '~'
  rw [runAt_bind_done hrun]
  simp only [hafter]
  refine .expect h₇ fun s₈ hs₈ h₈ => ?_
  rw [runAt_bind_done runAt_get]
  refine .ok ?_ ?_
  · rw [hs₁, hcallee, hp, hs₈]
    cases trusting <;> simp [Concrete.Mustache.chars, Concrete.Call.chars]
  · cases trusting <;>
      simp [runAt_pure, Concrete.Mustache.at, Concrete.Mustache.opening, Concrete.Mustache.chars,
        Concrete.Call.at, Concrete.Call.chars, Span.over, Concrete.Expr.width_eq, Nat.add_assoc]

theorem isSome_noteEnd? (dashes : Bool) (s : List Char) :
    (noteEnd? dashes s).isSome = Concrete.noteEndAhead dashes s := by
  unfold noteEnd? Concrete.noteEndAhead
  cases after? (flagged dashes ['-', '-']) s with
  | none => rfl
  | some rest =>
    simp only [Concrete.tagEndAhead]
    cases startsWith Token.mustacheClose.chars (Text.eat '~' rest).2 <;> rfl

theorem eq_of_noteEnd? {dashes : Bool} {s closing : List Char} (h : noteEnd? dashes s = some closing) :
    ∃ b t, s = flagged dashes ['-', '-'] ++ (flagged b ['~'] ++ closing) ∧
      Text.eat '~' (s.drop (flagged dashes ['-', '-']).length) = (b, closing) ∧
        closing = Token.mustacheClose.chars ++ t := by
  unfold noteEnd? at h
  cases ha : after? (flagged dashes ['-', '-']) s with
  | none =>
    rw [ha] at h
    cases h
  | some rest =>
    obtain rfl := Text.after?_eq_some_iff.1 ha
    rw [ha] at h
    cases he : Text.eat '~' rest with
    | mk b closing' =>
      simp only [he] at h
      split at h
      · next hclose =>
        cases h
        obtain ⟨t, ht⟩ := Text.startsWith_iff.1 hclose
        rw [Concrete.drop_flagged]
        exact ⟨b, t, by rw [← Concrete.eq_of_eat he], he, ht⟩
      · cases h

/-- The loop takes what the scan of the reading takes, behind the part of the value that it passed
before. -/
theorem noteWithin_run {start : Nat} {s₀ : List Char} (h₀ : Left source start s₀) {dashes : Bool}
    {valueStart k : Nat} {front value t : List Char} (h : Left source valueStart (front ++ s))
    (hk : s.length < k) (hs : scanTo (Concrete.noteEndAhead dashes) s = (value, t)) :
    runAt source (valueStart + size front) (noteWithin start valueStart dashes k) =
      match noteEnd? dashes t with
      | some closing =>
        let stop := size source - size closing + 2
        done ⟨String.ofList (front ++ value), ⟨start, stop⟩⟩ stop
      | none => failed source ⟨.unclosedComment, s₀⟩ := by
  obtain ⟨k, rfl⟩ := Nat.exists_eq_add_one_of_ne_zero (Nat.ne_zero_of_lt hk)
  induction s generalizing front value k with
  | nil =>
    obtain ⟨rfl, rfl⟩ := Prod.mk.inj hs
    have hnone : noteEnd? dashes [] = none := by cases dashes <;> rfl
    rw [noteWithin, runAt_bind_done (atEnd_run h.drop), List.isEmpty_nil, if_pos rfl, hnone]
    exact fail_run h₀ _
  | cons c s ih =>
    rw [noteWithin, runAt_bind_done (atEnd_run h.drop), List.isEmpty_cons, if_neg Bool.false_ne_true,
      runAt_bind_done (rest_run h.drop)]
    rw [scanTo, ← isSome_noteEnd?] at hs
    cases hend : noteEnd? dashes (c :: s) with
    | none =>
      have hnext : Left source valueStart ((front ++ [c]) ++ s) := by simpa using h
      replace hk := Nat.lt_of_succ_lt_succ hk
      obtain ⟨k, rfl⟩ := Nat.exists_eq_add_one_of_ne_zero (Nat.ne_zero_of_lt hk)
      cases hscan : scanTo (Concrete.noteEndAhead dashes) s with
      | mk value' t' =>
        rw [hend, hscan] at hs
        obtain ⟨rfl, rfl⟩ := Prod.mk.inj hs
        have hrun := ih hnext hscan k hk
        rw [Text.size_append, ← Nat.add_assoc, List.append_assoc] at hrun
        simp only []
        rw [runAt_bind_done (bump_cons h.drop)]
        exact hrun
    | some closing =>
      rw [hend] at hs
      obtain ⟨rfl, rfl⟩ := Prod.mk.inj hs
      obtain ⟨b, t, hcs, -, hclosing⟩ := eq_of_noteEnd? hend
      have hleft : ∃ k, Left source k closing := by
        have h' := h.drop
        rw [hcs] at h'
        exact ⟨_, h'.drop.drop⟩
      obtain ⟨k, hk⟩ := hleft
      have hstop : size source - size closing = k := by
        rw [hk.size_eq, Nat.add_sub_cancel]
      have hnext : Left source (k + 2) t := by
        rw [hclosing] at hk
        exact hk.drop
      simp only [hend, hstop, List.append_nil]
      rw [runAt_bind_done runAt_get, runAt_bind_done (slice_run h _), runAt_bind_done runAt_read,
        runAt_bind_done (minus_run hk _), runAt_bind_done (goto_run hnext),
        runAt_bind_done runAt_get]
      rfl

theorem note_agrees (h : Left source n s) :
    Agrees source n s (runAt source n note) (Concrete.Note.read s) Concrete.Note.chars
      (Concrete.Note.at n) := by
  unfold note Concrete.Note.read
  rw [runAt_bind_done runAt_get]
  refine .expect h fun s₁ hs₁ h₁ => ?_
  obtain ⟨before, s₂, hbefore, rfl, hrun, h₂⟩ := eat_flag h₁ '~'
  rw [runAt_bind_done hrun]
  simp only [hbefore]
  refine .expect h₂ fun s₃ hs₃ h₃ => ?_
  obtain ⟨hrun, hdashes⟩ := eat_run h₃ ['-', '-']
  rw [runAt_bind_done hrun, runAt_bind_done runAt_get, runAt_rounds]
  generalize startsWith ['-', '-'] s₃ = dashes at *
  generalize s₃.drop (flagged dashes ['-', '-']).length = s₄ at *
  rw [hdashes] at h₃
  have h₄ : Left source _ ([] ++ s₄) := h₃.drop
  cases hscan : scanTo (Concrete.noteEndAhead dashes) s₄ with
  | mk value s₅ =>
    obtain ⟨rfl, -, hstop⟩ := Text.eq_of_scanTo hscan
    have hrun := noteWithin_run h h₄ h₄.length_lt hscan
    rw [Text.size_nil, Nat.add_zero] at hrun
    rw [hrun]
    cases hend : noteEnd? dashes s₅ with
    | none =>
      cases s₅ with
      | nil => exact ⟨rfl, n, h⟩
      | cons c t =>
        have hsome := hstop (List.cons_ne_nil c t)
        rw [← isSome_noteEnd?, hend] at hsome
        cases hsome
    | some closing =>
      obtain ⟨after, t, hs₅, hafter, hclosing⟩ := eq_of_noteEnd? hend
      have hne : ¬ s₅.isEmpty = true := by
        intro hempty
        rw [List.isEmpty_iff.1 hempty] at hend
        cases dashes <;> cases hend
      simp only [if_neg hne, hafter, hclosing, Concrete.expect_append, Concrete.ok_bind]
      have hs : s = Concrete.Note.chars ⟨before, dashes, value, after⟩ ++ t := by
        rw [hs₁, hs₃, hdashes, hs₅, hclosing]
        simp [Concrete.Note.chars]
      have hend : size source - size (Token.mustacheClose.chars ++ t) + 2 =
          n + size (Concrete.Note.chars ⟨before, dashes, value, after⟩) := by
        have hbraces : size Token.mustacheClose.chars = 2 := rfl
        have hle : 2 ≤ size (Concrete.Note.chars ⟨before, dashes, value, after⟩) := by
          rw [Concrete.Note.chars, Text.size_append, hbraces]
          exact Nat.le_add_left _ _
        rw [h.size_eq, hs, Text.size_append, Text.size_append, hbraces]
        omega
      rw [hend]
      exact .ok hs rfl

theorem comment_agrees (h : Left source n s) :
    Agrees source n s (runAt source n comment) (Concrete.readComment s)
      (fun value => (Concrete.Statement.comment value).chars)
      (fun value => ⟨String.ofList value, .over n (Concrete.Statement.comment value).chars⟩) := by
  unfold comment Concrete.readComment
  rw [runAt_bind_done runAt_get]
  refine .expect h fun s₁ hs₁ h₁ => ?_
  rw [runAt_bind_done (rest_run h₁)]
  rcases find?_cases ['-', '-', '>'] s₁ with
    ⟨front, hscan, hfind⟩ | ⟨value, t, rfl, hscan, hfind⟩
  · simp only [hscan, hfind]
    exact .fail h _
  · have hnext : Left source (n + size Token.commentOpen.chars + (size value + 3)) t := by
      rw [← Nat.add_assoc]
      exact h₁.drop.drop
    simp only [hscan, hfind, Text.after?_append]
    rw [runAt_bind_done (rest_run h₁), runAt_bind_done (front_run _ _ _), runAt_bind_done runAt_get,
      runAt_bind_done (goto_run hnext), runAt_bind_done runAt_get]
    have hsize : size ['-', '-', '>'] = 3 := rfl
    refine .ok (by rw [hs₁]; simp [Concrete.Statement.chars]) ?_
    rw [runAt_pure, Span.over, Concrete.Statement.chars, Text.size_append, Text.size_append, hsize,
      Nat.add_assoc (size Token.commentOpen.chars), Nat.add_assoc n]

/-- Where no name begins, the names end with the blanks. -/
theorem names_nil {lead : List Char} (hlead : ∀ c ∈ lead, isBlank c = true)
    (hblank : opens isBlank s = false) (hword : opens isWordChar s = false) :
    Text.run (fun c => isBlank c || isWordChar c) (lead ++ s) = (lead, s) ∧ Text.words lead = [] := by
  constructor
  · refine Text.run_eq (fun c hc => by rw [hlead c hc]; rfl) ?_
    cases s with
    | nil => rfl
    | cons c s => exact Bool.or_eq_false_iff.2 ⟨hblank, hword⟩
  · rw [← List.append_nil lead, Text.words_blank hlead]
    rfl

/-- A name is the first of the names that it begins. -/
theorem names_cons {lead w front t : List Char} (hlead : ∀ c ∈ lead, isBlank c = true) (hw : w ≠ [])
    (hword : ∀ c ∈ w, isWordChar c = true) (hend : opens isWordChar s = false)
    (hs : Text.run (fun c => isBlank c || isWordChar c) s = (front, t)) :
    Text.run (fun c => isBlank c || isWordChar c) (lead ++ (w ++ s)) = (lead ++ (w ++ front), t) ∧
      Text.words (lead ++ (w ++ front)) = w :: Text.words front := by
  obtain ⟨rfl, hfront, hstop⟩ := Text.eq_of_run hs
  constructor
  · have hall : ∀ c ∈ lead ++ (w ++ front), (isBlank c || isWordChar c) = true := by
      intro c hc
      rcases List.mem_append.1 hc with hc | hc
      · rw [hlead c hc]
        rfl
      · rcases List.mem_append.1 hc with hc | hc
        · rw [hword c hc, Bool.or_true]
        · exact hfront c hc
    have hrun := Text.run_eq hall hstop
    rwa [List.append_assoc, List.append_assoc] at hrun
  · have hblank : front = [] ∨ opens isBlank front = true := by
      cases front with
      | nil => exact .inl rfl
      | cons c front =>
        have hc := hfront c List.mem_cons_self
        rw [show isWordChar c = false from hend, Bool.or_false] at hc
        exact .inr hc
    rw [Text.words_blank hlead,
      Text.words_word hw (fun c hc => Concrete.isBlank_of_isWordChar (hword c hc)) hblank]

/-- The loop takes words and the blanks between them; what it gives are the words. -/
theorem namesWithin_run {front t : List Char} {k : Nat} (h : Left source n s) (hk : s.length < k)
    (hs : Text.run (fun c => isBlank c || isWordChar c) s = (front, t)) (found : List String) :
    runAt source n (namesWithin k found) = match after? Token.bar.chars t with
      | some _ => done (found ++ (Text.words front).map String.ofList) (n + (size front + 1))
      | none => failed source ⟨.invalidBlockParameter, t⟩ := by
  induction k generalizing n s front found with
  | zero => cases hk
  | succ k ih =>
    obtain ⟨lead, s₁, hr, rfl, hrun, h₁⟩ := skipBlanks_lead h
    obtain ⟨-, hlead, hafter⟩ := Text.eq_of_run hr
    rw [namesWithin, runAt_bind_done hrun]
    cases hw : Text.run isWordChar s₁ with
    | mk w s₂ =>
      obtain ⟨rfl, hword, hend⟩ := Text.eq_of_run hw
      cases w with
      | nil =>
        rw [List.nil_append] at h₁ hw hs
        obtain ⟨hnames, hwords⟩ := names_nil hlead hafter hend
        obtain ⟨rfl, rfl⟩ := Prod.mk.inj (hs.symm.trans hnames)
        cases ha : after? Token.bar.chars t with
        | some u =>
          obtain rfl := Text.after?_eq_some_iff.1 ha
          rw [runAt_bind_done (eat_mark h₁), if_pos rfl, hwords, List.map_nil, List.append_nil,
            Nat.add_assoc]
          rfl
        | none =>
          rw [runAt_bind_done (eat_other h₁ (by rw [startsWith, ha]; rfl)),
            if_neg Bool.false_ne_true, runAt_bind_done runAt_get,
            runAt_bind_done (wordEnd_run h₁ hw _), Text.size_nil, Nat.add_zero, if_pos rfl]
          exact fail_run h₁ _
      | cons c w =>
        have hbar : startsWith Token.bar.chars (c :: w ++ s₂) = false := by
          have hne := Concrete.ne_of_isWordChar (hword c List.mem_cons_self) (d := '|') rfl
          simpa [Token.chars] using hne
        have hpos := c.utf8Size_pos
        have hne : n + size lead + size (c :: w) ≠ n + size lead := by
          rw [Text.size_cons]
          omega
        rw [runAt_bind_done (eat_other h₁ hbar), if_neg Bool.false_ne_true,
          runAt_bind_done runAt_get, runAt_bind_done (wordEnd_run h₁ hw _), if_neg hne,
          runAt_bind_done (slice_run h₁ _), runAt_bind_done (goto_run h₁.drop)]
        cases hs₂ : Text.run (fun c => isBlank c || isWordChar c) s₂ with
        | mk front₂ t₂ =>
          obtain ⟨hnames, hwords⟩ := names_cons hlead (List.cons_ne_nil c w) hword hend hs₂
          obtain ⟨rfl, rfl⟩ := Prod.mk.inj (hs.symm.trans hnames)
          have hlt : s₂.length < k := by
            simp only [List.length_append, List.length_cons] at hk
            omega
          rw [ih h₁.drop hlt hs₂, hwords]
          simp [Nat.add_assoc]

theorem blockParams_agrees (h : Left source n s) (hs : Concrete.paramsAhead s = true) :
    Agrees source n s (runAt source n blockParams) (Concrete.BlockParams.read s)
      Concrete.BlockParams.chars Concrete.BlockParams.bound := by
  have hblank : opens isBlank s = false := by
    obtain ⟨t, rfl, -, -⟩ := Concrete.paramsAhead_iff.1 hs
    rfl
  unfold blockParams Concrete.BlockParams.read
  rw [runAt_bind_done runAt_get, runAt_bind_done (skipBlanks_none h hblank),
    runAt_bind_done (isAt_run h _), hs, if_pos rfl]
  refine .expect h fun s₁ hs₁ h₁ => ?_
  obtain ⟨gap, s₂, hr, rfl, hrun, h₂⟩ := skipBlanks_lead h₁
  rw [runAt_bind_done hrun]
  simp only [hr]
  refine .expect h₂ fun s₃ hs₃ h₃ => ?_
  cases hnames : Text.run (fun c => isBlank c || isWordChar c) s₃ with
  | mk front s₄ =>
    obtain ⟨rfl, -, -⟩ := Text.eq_of_run hnames
    have hrun := namesWithin_run h₃ h₃.length_lt hnames []
    rw [runAt_rounds]
    cases ha : after? Token.bar.chars s₄ with
    | none =>
      rw [ha] at hrun
      exact ⟨hrun, _, h₃.drop⟩
    | some t =>
      obtain rfl := Text.after?_eq_some_iff.1 ha
      rw [ha] at hrun
      simp only []
      rw [hrun]
      have hbar : size Token.bar.chars = 1 := rfl
      refine .ok (by rw [hs₁, hs₃]; simp [Concrete.BlockParams.chars]) ?_
      simp [Concrete.BlockParams.chars, Concrete.BlockParams.bound, hbar, Nat.add_assoc]

theorem blockParams_none (h : Left source n s) (hblank : opens isBlank s = false)
    (hs : Concrete.paramsAhead s = false) : runAt source n blockParams = done [] n := by
  rw [blockParams, runAt_bind_done runAt_get, runAt_bind_done (skipBlanks_none h hblank),
    runAt_bind_done (isAt_run h _), hs, if_neg Bool.false_ne_true, runAt_bind_done (goto_run h)]
  rfl

theorem tagEnd_agrees (h : Left source n s) (hblank : opens isBlank s = false) :
    Agrees source n s (runAt source n tagEnd) (Concrete.TagEnd.read s) Concrete.TagEnd.chars
      Concrete.TagEnd.bound := by
  have hparams : Agrees source n s (runAt source n blockParams) (Concrete.BlockParams.read? s)
      (fun p => (p.map Concrete.BlockParams.chars).getD [])
      (fun p => (p.map Concrete.BlockParams.bound).getD []) := by
    unfold Concrete.BlockParams.read?
    by_cases hs : Concrete.paramsAhead s = true
    · rw [if_pos hs]
      exact (blockParams_agrees h hs).last fun p rest _ hp => .ok hp rfl
    · rw [if_neg hs]
      exact .ok rfl (blockParams_none h hblank (Bool.eq_false_iff.2 hs))
  unfold tagEnd Concrete.TagEnd.read
  refine hparams.bind h fun params s₁ _ hparams h₁ => ?_
  dsimp only
  obtain ⟨trail, s₂, hr, rfl, hrun, h₂⟩ := skipBlanks_lead h₁
  rw [runAt_bind_done hrun]
  simp only [hr]
  obtain ⟨tilde, s₃, htilde, rfl, hrun, h₃⟩ := eat_flag h₂ '~'
  rw [runAt_bind_done hrun]
  simp only [htilde]
  refine .expect h₃ fun s₄ hs₄ h₄ => ?_
  refine .ok (by rw [hparams, hs₄]; simp [Concrete.TagEnd.chars]) ?_
  simp [runAt_pure, Concrete.TagEnd.chars, Concrete.TagEnd.bound, Nat.add_assoc]

theorem closeTag_agrees (name : List Char) (h : Left source n s) :
    Agrees source n s (runAt source n (closeTag name)) (Concrete.CloseTag.read name s)
      Concrete.CloseTag.chars (Concrete.CloseTag.at n) := by
  unfold closeTag Concrete.CloseTag.read
  rw [runAt_bind_done runAt_get]
  refine .expect h fun s₁ hs₁ h₁ => ?_
  obtain ⟨before, s₂, hbefore, rfl, hrun, h₂⟩ := eat_flag h₁ '~'
  rw [runAt_bind_done hrun]
  simp only [hbefore]
  refine .expect h₂ fun s₃ hs₃ h₃ => ?_
  obtain ⟨lead, s₄, hr, rfl, hrun, h₄⟩ := skipBlanks_lead h₃
  rw [runAt_bind_done hrun]
  simp only [hr]
  cases hw : Text.run isWordChar s₄ with
  | mk found s₅ =>
    obtain ⟨rfl, -, -⟩ := Text.eq_of_run hw
    have h₅ := h₄.drop
    rw [runAt_bind_done runAt_get, runAt_bind_done (wordEnd_run h₄ hw _),
      runAt_bind_done (slice_run h₄ _)]
    simp only []
    by_cases hfound : found ≠ name
    · rw [if_pos hfound, if_pos hfound]
      exact .fail h _
    rw [if_neg hfound, if_neg hfound, runAt_bind_done (goto_run h₅)]
    obtain ⟨trail, s₆, hr, rfl, hrun, h₆⟩ := skipBlanks_lead h₅
    rw [runAt_bind_done hrun]
    simp only [hr]
    obtain ⟨after, s₇, hafter, rfl, hrun, h₇⟩ := eat_flag h₆ '~'
    rw [runAt_bind_done hrun]
    simp only [hafter]
    refine .expect h₇ fun s₈ hs₈ h₈ => ?_
    rw [runAt_bind_done runAt_get]
    refine .ok (by rw [hs₁, hs₃, hs₈]; simp [Concrete.CloseTag.chars]) ?_
    simp [runAt_pure, Concrete.CloseTag.chars, Concrete.CloseTag.at, Concrete.CloseTag.nameOffset,
      Span.over, Nat.add_assoc]

end TemplateLint.Cursor
