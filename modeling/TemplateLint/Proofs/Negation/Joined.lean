import TemplateLint.Proofs.Negation.Block

namespace TemplateLint.Concrete

open Text (isBlank eat opens run AllBlank)
open NegatedCondition (Conditional)

/-- No arguments begin, after blanks, with a character that none of them begins with. -/
theorem argsWith_foreign {d : Char} (hd : Foreign (· == d)) {s : List Char}
    (h : opens (· == d) (s.dropWhile isBlank) = true) (binds : Bool) (m : Nat) (named : Bool) :
    ∃ e, argsWith Expr.read binds m named s = .error e := by
  cases hr : argsWith Expr.read binds m named s with
  | error e => exact ⟨e, rfl⟩
  | ok r =>
    obtain ⟨⟨args, trail⟩, rest⟩ := r
    obtain ⟨rfl, hargs, htrail, hend⟩ := eq_of_argsWith (fun _ _ _ h => Expr.eq_of_read h) hr
    rw [(hargs.foreign hd htrail hend).2] at h
    cases h

theorem foreign_sign : Foreign (· == '=') :=
  foreign_of_ne (by decide) (by decide) (by decide)

theorem foreign_bar : Foreign (· == '|') :=
  foreign_of_ne (by decide) (by decide) (by decide)

/-- What is read after the front of an opening tag and the blanks before its callee. -/
theorem BlockTag.read_front (t : BlockTag) {lead s : List Char} (hl : AllBlank lead)
    (hs : opens isBlank s = false) :
    BlockTag.read (t.front ++ (lead ++ s)) = (do
      let (callee, rest) ← Expr.read s
      match callee.path? with
      | none => .error ⟨.blockNameNotPath, s⟩
      | some name =>
        let ((args, trail), u) ← Arg.readAll true rest
        let (ending, u) ← TagEnd.read u
        .ok ((⟨t.tilde, ⟨lead, callee, args, trail⟩, ending⟩, name), u)) := by
  have htilde : ∀ u, eat '~' (flagged t.tilde ['~'] ++ (Token.hash.chars ++ u)) =
      (t.tilde, Token.hash.chars ++ u) := fun u => eat_flagged fun _ => rfl
  unfold BlockTag.read BlockTag.front
  simp only [List.append_assoc, expect_append, ok_bind, htilde]
  rewrite [Text.run_eq hl hs]
  rfl

/-- A word for a callee, with arguments after it that cannot be read, makes no opening tag. -/
theorem BlockTag.read_word_error (t : BlockTag) {lead w s : List Char} (hl : AllBlank lead)
    (hw : IsWord w) (hs : opens isWordChar s = false)
    (hargs : ∃ e, Arg.readAll true s = .error e) :
    ∃ e, BlockTag.read (t.front ++ (lead ++ (w ++ s))) = .error e := by
  have hcallee : Expr.read (w ++ s) = .ok (.word w, s) :=
    Expr.Stands.read_eq (e := .word w) ⟨hw, hs⟩
  have hblank : opens isBlank (w ++ s) = false := by
    obtain ⟨hne, hall⟩ := hw
    cases w with
    | nil => exact absurd rfl hne
    | cons c w => exact isBlank_of_isWordChar (hall c (by simp))
  obtain ⟨e, he⟩ := hargs
  rw [t.read_front hl hblank, hcallee, ok_bind]
  dsimp only
  cases (Expr.word w).path? with
  | none => exact ⟨_, rfl⟩
  | some name =>
    dsimp only
    rw [he]
    exact ⟨e, rfl⟩

/-- The same with a word for a first argument. -/
theorem readAll_word_error {gap w s : List Char} (hg : AllBlank gap) (hw : IsWord w)
    (has : w ≠ Token.asWord.chars) (hs : opens isWordChar s = false)
    (hsign : opens (· == '=') s = false) {d : Char} (hd : Foreign (· == d))
    (h : opens (· == d) (s.dropWhile isBlank) = true) :
    ∃ e, Arg.readAll true (gap ++ (w ++ s)) = .error e := by
  have harg : Arg.AllStand false [⟨gap, none, .word w⟩] s := ⟨hg, rfl, ⟨hw, hs⟩, trivial⟩
  have hopens : opens startsExpr (w ++ s) = true := by
    obtain ⟨hne, hall⟩ := hw
    cases w with
    | nil => exact absurd rfl hne
    | cons c w => exact startsExpr_of_isWordChar (hall c (by simp))
  have hend : argsEndAhead true (w ++ s) = false := by
    simp [argsEndAhead, tagEndAhead_expr hopens, groupClose_expr hopens, paramsAhead_word hw.2 hs,
      has]
  have hread : Expr.read (w ++ s) = .ok (.word w, s) :=
    Expr.Stands.read_eq (e := .word w) ⟨hw, hs⟩
  unfold Arg.readAll
  cases (gap ++ (w ++ s)).length with
  | zero => exact ⟨_, rfl⟩
  | succ m =>
    have hstep := argsWith_positional Expr.read m harg hsign hend
    simp only [Arg.charsAll, Arg.chars, keyChars, Expr.chars, List.nil_append, List.append_nil,
      List.append_assoc] at hstep
    obtain ⟨e, he⟩ := argsWith_foreign hd h true m false
    rw [hstep, hread, ok_bind]
    dsimp only
    rw [he]
    exact ⟨e, rfl⟩

/-- The callee of a freed call whose condition is a word right after the helper. -/
theorem Call.freed_callee {c : Call} {n : Negated} {w : List Char} (hw : n.operand = .word w)
    (hg : n.gap = []) (helper : Conditional)
    (hkey : ∀ key value args, n.rest ≠ ⟨[], some key, value⟩ :: args) :
    ∃ v, (c.freed n (helperWord helper)).callee = .word (helper.helper.toList ++ (w ++ v)) := by
  unfold Call.freed Arg.join
  rw [hw, hg]
  split
  · next v u args hv hrest =>
    cases hv
    exact ⟨u, rfl⟩
  · next v key value args hv hrest => exact absurd hrest (hkey key value args)
  · exact ⟨[], by rw [List.append_nil]; rfl⟩

/-- An opening tag with the condition in place of its negation, up to what stands after it. -/
theorem BlockTag.freed_chars (t : BlockTag) {n : Negated} {w : List Char}
    (hw : n.operand = .word w) (helper : Conditional) (s : List Char) :
    (t.withCall (t.call.freed n (helperWord helper))).chars ++ s =
      t.front ++ (t.call.lead ++ (helper.helper.toList ++ (n.gap ++ (w ++
        (Arg.charsAll n.rest ++ (t.call.trail ++ (t.ending.chars ++ s))))))) := by
  rw [BlockTag.chars_eq]
  show t.front ++ ((t.call.freed n (helperWord helper)).chars ++ t.ending.chars) ++ s = _
  rw [Call.freed, Call.chars_join, Arg.charsAll_join, hw]
  simp [helperWord, Expr.chars]

/-- With nothing before the block parameters the condition goes on with their `as`, so that a bar
is left. -/
theorem BlockTag.Stands.read_params_joined {t : BlockTag} (h : t.Stands) {n : Negated}
    (hn : t.call.negated? = some n) {w : List Char} (hw : n.operand = .word w) (hword : IsWord w)
    (hrest : n.rest = []) (htrail : t.call.trail = []) {p : BlockParams}
    (hp : t.ending.params = some p) (helper : Conditional) (s : List Char) :
    ∃ e, BlockTag.read ((t.withCall (t.call.freed n (helperWord helper))).chars ++ s) =
      .error e := by
  obtain ⟨hcall, hending, -⟩ := h
  obtain ⟨hlead, hgap, -⟩ := hcall.negated hn
  have hhelper : IsWord helper.helper.toList := (helperWord_stands helper).1
  have hstand : p.Stands := by
    unfold TagEnd.Stands at hending
    rw [hp] at hending
    exact hending.1
  obtain ⟨hne, hblank, -⟩ := hstand
  let left := p.gap ++ (Token.bar.chars ++ (p.names ++ (Token.bar.chars ++ (t.ending.trail ++
    (flagged t.ending.tilde ['~'] ++ (Token.mustacheClose.chars ++ s))))))
  have hleft : t.ending.chars ++ s = Token.asWord.chars ++ left := by
    rw [TagEnd.chars_some hp, BlockParams.chars_append]
  have hopens : opens isWordChar left = false := by
    obtain ⟨c, gap, hgap⟩ := List.exists_cons_of_ne_nil hne
    have hc := hblank c (by simp [hgap])
    simp [left, hgap, isWordChar, hc]
  have hsign : opens (· == '=') left = false := by
    obtain ⟨c, gap, hgap⟩ := List.exists_cons_of_ne_nil hne
    have hc := beq_of_isBlank (d := '=') (by decide) (hblank c (by simp [hgap]))
    simpa [left, hgap] using hc
  have hbar : opens (· == '|') (left.dropWhile isBlank) = true := by
    rw [Text.dropWhile_blank hblank rfl]
    rfl
  have hjoined : IsWord (w ++ Token.asWord.chars) := hword.append isWord_asWord.2
  rw [t.freed_chars hw, hrest, htrail, hleft]
  simp only [Arg.charsAll, List.nil_append]
  by_cases hg : n.gap = []
  · rw [hg, List.nil_append, ← List.append_assoc w, ← List.append_assoc helper.helper.toList]
    exact t.read_word_error hlead (hhelper.append hjoined.2) hopens
      (argsWith_foreign foreign_bar hbar _ _ _)
  · rw [← List.append_assoc w]
    refine t.read_word_error hlead hhelper (opens_word_blank hgap hg _) ?_
    refine readAll_word_error hgap hjoined ?_ hopens hsign foreign_bar hbar
    intro he
    exact hword.1 (List.append_left_eq_self.1 he)

/-- A condition between the helper and a key goes on with the key, so that a sign is left. -/
theorem BlockTag.Stands.read_key_joined {t : BlockTag} (h : t.Stands) {n : Negated}
    (hn : t.call.negated? = some n) {w : List Char} (hw : n.operand = .word w) (hword : IsWord w)
    (hg : n.gap = []) {key : List Char} {value : Expr} {args : List Arg}
    (hrest : n.rest = ⟨[], some key, value⟩ :: args) (helper : Conditional) (s : List Char) :
    ∃ e, BlockTag.read ((t.withCall (t.call.freed n (helperWord helper))).chars ++ s) =
      .error e := by
  obtain ⟨hlead, -, -, -, hargs⟩ := h.1.negated hn
  have hhelper : IsWord helper.helper.toList := (helperWord_stands helper).1
  rw [hrest] at hargs
  obtain ⟨-, hkey, -⟩ := hargs
  have hjoined : IsWord (w ++ key) := hword.append hkey.2
  rw [t.freed_chars hw, hg, hrest]
  simp only [Arg.charsAll, Arg.chars, keyChars, List.nil_append, List.append_assoc]
  rw [← List.append_assoc w, ← List.append_assoc helper.helper.toList]
  exact t.read_word_error hlead (hhelper.append hjoined.2) rfl
    (argsWith_foreign foreign_sign rfl _ _ _)

/-- Where neither is the case the helper goes on with the condition, so that the tag has another
name, or a callee that is not a path. -/
theorem BlockTag.Stands.read_helper_joined {t : BlockTag} (h : t.Stands) {n : Negated}
    (hn : t.call.negated? = some n) {w : List Char} (hw : n.operand = .word w) (hword : IsWord w)
    (hg : n.gap = []) (has : ¬(n.rest = [] ∧ t.call.trail = [] ∧ t.ending.params.isSome))
    (hkey : ∀ key value args, n.rest ≠ ⟨[], some key, value⟩ :: args) (helper : Conditional)
    (s : List Char) :
    (∃ e, BlockTag.read ((t.withCall (t.call.freed n (helperWord helper))).chars ++ s) =
        .error e) ∨
      ∃ name, name ≠ helper.helper.toList ∧
        BlockTag.read ((t.withCall (t.call.freed n (helperWord helper))).chars ++ s) =
          .ok ((t.withCall (t.call.freed n (helperWord helper)), name), s) := by
  obtain ⟨hcall, hending, -⟩ := h
  obtain ⟨-, -, htrail, -⟩ := hcall.negated hn
  have hfreed : (t.call.freed n (helperWord helper)).Stands t.ending.chars := by
    apply hcall.freed hn (helperWord_stands helper)
    · intro hrest _ _
      cases hp : t.ending.params with
      | none => exact opens_word_lead htrail (hending.opens_isWordChar hp)
      | some p =>
        exact opens_word_blank htrail (fun ht => has ⟨hrest, ht, by rw [hp]; rfl⟩) _
    · exact fun _ _ _ => hkey
  obtain ⟨v, hcallee⟩ := Call.freed_callee (c := t.call) hw hg helper hkey
  cases hp : (t.call.freed n (helperWord helper)).callee.path? with
  | none =>
    left
    have hcall : (t.call.freed n (helperWord helper)).Stands (t.ending.chars ++ s) :=
      (Call.stands_congr _ (hending.opens_append isWordChar s)).2 hfreed
    have hopens := Foreign.opens_false (fun c hc => isBlank_of_startsExpr hc)
      (hcall.opens_callee (Arg.charsAll (t.call.freed n (helperWord helper)).args ++
        ((t.call.freed n (helperWord helper)).trail ++ (t.ending.chars ++ s))))
    rw [BlockTag.chars_eq, List.append_assoc, List.append_assoc]
    show ∃ e, BlockTag.read (t.front ++ ((t.call.freed n (helperWord helper)).chars ++
      (t.ending.chars ++ s))) = _
    rw [Call.chars_append, t.read_front hcall.allBlank_lead hopens, hcall.read_callee, ok_bind]
    dsimp only
    rw [hp]
    exact ⟨_, rfl⟩
  | some name =>
    right
    have hname : name = helper.helper.toList ++ (w ++ v) := by
      rw [hcallee] at hp
      simp only [Expr.path?] at hp
      split at hp
      · cases hp
      · exact (Option.some.inj hp).symm
    have hstands : (t.withCall (t.call.freed n (helperWord helper))).Stands :=
      ⟨hfreed, hending, by rw [Option.isSome_iff_exists]; exact ⟨name, hp⟩⟩
    refine ⟨name, ?_, hstands.read_eq hp s⟩
    rw [hname]
    intro he
    exact hword.1 (List.append_eq_nil_iff.1 (List.append_right_eq_self.1 he)).1

/-- What is read of an opening tag with joined words: nothing, or a tag with another name. -/
theorem BlockTag.Stands.read_joined {t : BlockTag} (h : t.Stands) {n : Negated}
    (hn : t.call.negated? = some n) (hj : t.joins n = true) (helper : Conditional)
    (s : List Char) :
    (∃ e, BlockTag.read ((t.withCall (t.call.freed n (helperWord helper))).chars ++ s) =
        .error e) ∨
      ∃ name, name ≠ helper.helper.toList ∧
        BlockTag.read ((t.withCall (t.call.freed n (helperWord helper))).chars ++ s) =
          .ok ((t.withCall (t.call.freed n (helperWord helper)), name), s) := by
  have hoperand := (h.1.negated hn).2.2.2.1
  obtain ⟨w, hw⟩ : ∃ w, n.operand = .word w := by
    cases ho : n.operand with
    | word w => exact ⟨w, rfl⟩
    | quoted mark raw => simp [BlockTag.joins, ho, Expr.isWord] at hj
    | group call => simp [BlockTag.joins, ho, Expr.isWord] at hj
  rw [hw] at hoperand
  obtain ⟨hword, -⟩ := hoperand
  by_cases has : n.rest = [] ∧ t.call.trail = [] ∧ t.ending.params.isSome
  · obtain ⟨hrest, htrail, hparams⟩ := has
    obtain ⟨p, hp⟩ := Option.isSome_iff_exists.1 hparams
    exact .inl (h.read_params_joined hn hw hword hrest htrail hp helper s)
  · have hg : n.gap = [] := by
      simp only [BlockTag.joins, Bool.and_eq_true, Bool.or_eq_true, List.isEmpty_iff] at hj
      rcases hj.2 with hg | ⟨⟨hrest, htrail⟩, hparams⟩
      · exact hg
      · exact absurd ⟨hrest, htrail, hparams⟩ has
    by_cases hkey : ∃ key value args, n.rest = ⟨[], some key, value⟩ :: args
    · obtain ⟨key, value, args, hrest⟩ := hkey
      exact .inl (h.read_key_joined hn hw hword hg hrest helper s)
    · exact h.read_helper_joined hn hw hword hg has
        (fun key value args hrest => hkey ⟨key, value, args, hrest⟩) helper s

end TemplateLint.Concrete
