import TemplateLint.Proofs.Progress.Statement

namespace TemplateLint

theorem Text.length_le_size (s : List Char) : s.length ≤ size s := by
  induction s with
  | nil => exact Nat.le_refl 0
  | cons c s ih =>
    have hpos := c.utf8Size_pos
    rw [List.length_cons, size_cons]
    omega

namespace Cursor

open Text (isBlank size isBoundary startsWith)
open Concrete (Token)

variable {σ α β : Type} {source s : List Char} {n : Nat} {short : Prop}

/-- `loop` consists of rounds, and a round at `n` that it goes on after has moved the cursor. -/
structure Moves (source : List Char) (n : Nat) (loop : Nat → σ → Cursor α)
    (round : Nat → σ → Cursor (Round σ α)) : Prop extends IsLoop loop round where
  moves : ∀ k x y m, runAt source n (round k x) = done (.again y) m → n < m

/-- The loop moves, and with more rounds than there are bytes from `n` on it ends in them. -/
structure Advances (source : List Char) (n : Nat) (loop : Nat → σ → Cursor α)
    (round : Nat → σ → Cursor (Round σ α)) : Prop extends Moves source n loop round where
  ends : ∀ k x, size source < n + k → runAt source n (loop k x) ≠ .error .rounds

/-- The routine reads its inside from behind `n` on only: what else could stand for `inner` up to there
makes no difference. -/
structure EntersPast (source : List Char) (n : Nat) (routine : Cursor β) (outer : Cursor α → Cursor β)
    (inner : Cursor α) : Prop where
  eq_outer : routine = outer inner
  enters : ∀ other, (∀ m, n < m → runAt source m other = runAt source m inner) →
    runAt source n (outer other) = runAt source n routine

/-- The loops of the cursor at `n`. The arguments of a group are read with any number of rounds for the
groups in them. The rounds of content are also those of the content that stands in it, so they bound how
deep that can go. -/
structure LoopsAdvance (source : List Char) (n : Nat) : Prop where
  blanks : Advances source n (fun k (_ : Unit) => skipBlanksWithin k) fun _ _ => blanksRound
  scan : ∀ stop, Advances source n (fun k (_ : Unit) => bumpToWithin stop k) fun _ _ => bumpRound stop
  quoted : ∀ mark start, Advances source n (quotedWithin mark start) fun _ => quotedRound mark start
  args : ∀ binds, Advances source n (fun k found => argsWith expr binds k found.1 found.2)
    fun _ => argsRound expr binds
  groupArgs : ∀ j binds,
    Moves source n (fun k found => argsWith (exprWithin j) binds k found.1 found.2)
      fun _ => argsRound (exprWithin j) binds
  note : ∀ start valueStart dashes,
    Advances source n (fun k (_ : Unit) => noteWithin start valueStart dashes k)
      fun _ _ => noteRound start valueStart dashes
  names : Advances source n namesWithin fun _ => namesRound
  quotedParts : ∀ mark start,
    Advances source n (fun k state => quotedPartsWithin mark start k state.1 state.2.1 state.2.2)
      fun _ => quotedPartsRound mark start
  tagItems : ∀ tag start, Advances source n (tagItemsWithin tag start) fun _ => tagItemsRound tag start
  content : ∀ context, Advances source n (fun k => contentWithin k context) (contentRound context)

/-- The constructs of the cursor at `n`: the call of a mustache, a group, a block or a segment, what
blocks, elements and segments hold, and what a chain goes on with. Groups in each other and the segments
of a chain are no more than bytes are left. -/
structure NestsAdvance (source : List Char) (n : Nat) : Prop where
  mustacheExpr : EntersPast source n mustache mustacheWith expr
  groupExpr : ∀ k, EntersPast source n (group (exprWithin k)) group (exprWithin k)
  blockExpr : ∀ k, EntersPast source n (block (contentWithin k .block []))
    (fun inner => blockWith inner (contentWithin k .block [])) expr
  blockContent : ∀ k, EntersPast source n (block (contentWithin k .block [])) block
    (contentWithin k .block [])
  elementContent : ∀ k, EntersPast source n (element (contentWithin k .element [])) element
    (contentWithin k .element [])
  segmentExpr : ∀ j k name opener,
    EntersPast source n (elseRest (contentWithin k .block []) (chainRest j k name opener) name opener)
      (fun inner => elseRestWith inner (contentWithin k .block []) (chainRest j k name opener) name
        opener) expr
  segmentContent : ∀ j k name opener,
    EntersPast source n (elseRest (contentWithin k .block []) (chainRest j k name opener) name opener)
      (fun inner => elseRest inner (chainRest j k name opener) name opener) (contentWithin k .block [])
  segmentRest : ∀ j k name opener,
    EntersPast source n (elseRest (contentWithin k .block []) (chainRest j k name opener) name opener)
      (fun inner => elseRest (contentWithin k .block []) inner name opener) (chainRest j k name opener)
  group_ends : ∀ k, size source < n + k → runAt source n (exprWithin k) ≠ .error .rounds
  chain_ends : ∀ j k name opener, size source < n + j → size source < n + k →
    runAt source n (chainRest j k name opener) ≠ .error .rounds

theorem Left.length_lt_of_size_lt (h : Left source n s) {k : Nat} (hk : size source < n + k) :
    s.length < k := by
  have hsize := h.size_eq
  have hlength := Text.length_le_size s
  omega

theorem Moves.of_ends {loop : Nat → σ → Cursor α} {round : Nat → σ → Cursor (Round σ α)}
    {Q : α → Nat → Prop} (hloop : IsLoop loop round)
    (hround : ∀ k x, Ends source short (runAt source n (round k x)) (Round.Past n Q)) :
    Moves source n loop round :=
  ⟨hloop, fun k x _ _ hrun => ((hround k x).of_done hrun).2⟩

/-- A loop whose rounds do not know how many are left. -/
theorem Advances.of_rounds {loop : Nat → σ → Cursor α} {round : σ → Cursor (Round σ α)}
    (hloop : IsLoop loop fun _ => round)
    (hround : ∀ x m s, Left source m s →
      Ends source False (runAt source m (round x)) (Round.Past m fun _ k => m ≤ k))
    (h : Left source n s) : Advances source n loop fun _ => round where
  toMoves := .of_ends hloop fun _ x => hround x n s h
  ends _ x hk := (Ends.loop hloop hround h (.inr (h.length_lt_of_size_lt hk)) x).ne_rounds

theorem blanksRound_ends (h : Left source n s) :
    Ends source short (runAt source n blanksRound) (Round.Past n fun _ m => n ≤ m) := by
  rw [blanksRound, runAt_bind_done (peek_run h)]
  cases s with
  | nil => exact .last h (Nat.le_refl n)
  | cons c s =>
    have hpos := c.utf8Size_pos
    refine .ite (fun _ => ?_) fun _ => .last h (Nat.le_refl n)
    rw [runAt_bind_done runAt_get, runAt_bind_done (goto_run h.next)]
    exact .again h.next (by omega)

theorem bumpRound_ends (stop : List Char → Bool) (h : Left source n s) :
    Ends source short (runAt source n (bumpRound stop)) (Round.Past n fun _ m => n ≤ m) := by
  rw [bumpRound, runAt_bind_done (atEnd_run h)]
  refine .ite (fun _ => .last h (Nat.le_refl n)) fun hend => ?_
  rw [runAt_bind_done (isAt_run h _)]
  refine .ite (fun _ => .last h (Nat.le_refl n)) fun _ => ?_
  exact (bump_moves h hend).bind fun _ m t ht hm => .again ht hm

theorem loopsAdvance (h : Left source n s) : LoopsAdvance source n where
  blanks := .of_rounds isLoop_skipBlanks (fun _ _ _ => blanksRound_ends) h
  scan stop := .of_rounds (isLoop_bumpTo stop) (fun _ _ _ => bumpRound_ends stop) h
  quoted mark start :=
    .of_rounds (isLoop_quoted mark start) (fun value _ _ => quotedRound_ends mark start value) h
  args binds := .of_rounds (isLoop_args expr binds)
    (fun found _ _ ht => (argsRound_alike binds found expr_alike ht).ends) h
  groupArgs j binds := .of_ends (isLoop_args (exprWithin j) binds)
    fun _ found => (argsRound_alike binds found (exprWithin_alike j) h).ends
  note start valueStart dashes := .of_rounds (isLoop_note start valueStart dashes)
    (fun _ _ _ => noteRound_ends start valueStart dashes) h
  names := .of_rounds isLoop_names (fun found _ _ => namesRound_ends found) h
  quotedParts mark start := .of_rounds (isLoop_quotedParts mark start)
    (fun state _ _ => quotedPartsRound_ends mark start state) h
  tagItems tag start :=
    .of_rounds (isLoop_tagItems tag start) (fun items _ _ => tagItemsRound_ends tag start items) h
  content context := {
    toMoves := .of_ends (isLoop_content context) fun k found =>
      contentRound_ends context k found (fun context => content_alike context k) h
    ends := fun _ found hk =>
      (contentWithin_ends context h (.inr (h.length_lt_of_size_lt hk)) found).ne_rounds }

section Same

variable {m : Cursor α} {f f' : α → Cursor β}

theorem bind_same_of_done {a : α} {k : Nat} (hm : runAt source n m = done a k)
    (hf : runAt source k (f a) = runAt source k (f' a)) :
    runAt source n (m >>= f) = runAt source n (m >>= f') := by
  rwa [runAt_bind_done hm, runAt_bind_done hm]

theorem bind_same_of_failed {e : Concrete.Failure} (hm : runAt source n m = failed source e) :
    runAt source n (m >>= f) = runAt source n (m >>= f') := by
  rw [runAt_bind_failed hm, runAt_bind_failed hm]

end Same

section Constructs

variable {expr expr' : Cursor Tree.Expr} {content content' : Cursor (List Tree.Statement)}
  {rest rest' : Cursor (Tree.Body × Tree.ElsePart × Tree.CloseTag)}

theorem mustacheWith_same (hexpr : AlikeFrom source short (n + 1) expr expr' fun k _ m => k < m)
    (h : Left source n s) :
    runAt source n (mustacheWith expr) = runAt source n (mustacheWith expr') := by
  cases hopen : startsWith Token.mustacheOpen.chars s with
  | true => exact (mustacheWith_alike hexpr h hopen).same
  | false => exact bind_same_of_done runAt_get (bind_same_of_failed (expect_absent h hopen))

theorem group_same (hexpr : AlikeFrom source short (n + 1) expr expr' fun k _ m => k < m)
    (h : Left source n s) : runAt source n (group expr) = runAt source n (group expr') := by
  cases hopen : startsWith Token.groupOpen.chars s with
  | true => exact (group_alike hexpr h hopen).same
  | false => exact bind_same_of_done runAt_get (bind_same_of_failed (expect_absent h hopen))

theorem blockWith_same (hexpr : AlikeFrom source short (n + 1) expr expr' fun k _ m => k < m)
    (hcontent : AlikeFrom source short (n + 1) content content' (ContentStops source .block))
    (h : Left source n s) :
    runAt source n (blockWith expr content) = runAt source n (blockWith expr' content') := by
  cases hopen : startsWith Token.mustacheOpen.chars s with
  | false => exact bind_same_of_done runAt_get (bind_same_of_failed (expect_absent h hopen))
  | true =>
    obtain ⟨t, rfl⟩ := Text.startsWith_iff.1 hopen
    cases hhash : startsWith Token.hash.chars (Text.eat '~' t).2 with
    | true => exact (blockWith_alike hexpr hcontent h hhash).same
    | false =>
      obtain ⟨tilde, t₁, heat, -, hrun, h₁⟩ := eat_flag h.drop '~'
      rw [heat] at hhash
      exact bind_same_of_done runAt_get (bind_same_of_done (expect_run h)
        (bind_same_of_done hrun (bind_same_of_failed (expect_absent h₁ hhash))))

theorem element_same
    (hcontent : AlikeFrom source short (n + 1) content content' (ContentStops source .element))
    (h : Left source n s) : runAt source n (element content) = runAt source n (element content') := by
  cases hopen : startsWith Token.tagOpen.chars s with
  | true => exact (element_alike hcontent h hopen).same
  | false =>
    have htag : runAt source n openingTag = failed source ⟨.expected .tagOpen s.isEmpty, s⟩ := by
      rw [openingTag, runAt_bind_done runAt_get]
      exact runAt_bind_failed (expect_absent h hopen)
    exact bind_same_of_done runAt_get (bind_same_of_failed htag)

theorem elseRestWith_same (name : List Char) (opener : Nat)
    (hexpr : AlikeFrom source short (n + 1) expr expr' fun k _ m => k < m)
    (hcontent : AlikeFrom source short (n + 1) content content' (ContentStops source .block))
    (hrest : AlikeFrom source short (n + 1) rest rest' fun k _ m => k ≤ m) (h : Left source n s) :
    runAt source n (elseRestWith expr content rest name opener) =
      runAt source n (elseRestWith expr' content' rest' name opener) := by
  cases hopen : startsWith Token.mustacheOpen.chars s with
  | false => exact bind_same_of_done runAt_get (bind_same_of_failed (expect_absent h hopen))
  | true =>
    obtain ⟨t, rfl⟩ := Text.startsWith_iff.1 hopen
    cases helse : startsWith Token.elseWord.chars ((Text.eat '~' t).2.dropWhile isBlank) with
    | true => exact (elseRestWith_alike name opener hexpr hcontent hrest h helse).same
    | false =>
      obtain ⟨tilde, t₁, heat, rfl, hrun₁, h₁⟩ := eat_flag h.drop '~'
      rw [heat] at helse
      obtain ⟨lead, t₂, hlead, rfl, hrun₂, h₂⟩ := skipBlanks_lead h₁
      rw [show (lead ++ t₂).dropWhile isBlank = t₂ from congrArg Prod.snd hlead] at helse
      exact bind_same_of_done runAt_get (bind_same_of_done (expect_run h)
        (bind_same_of_done hrun₁ (bind_same_of_done hrun₂
          (bind_same_of_failed (expect_absent h₂ helse)))))

end Constructs

theorem AlikeFrom.of_same {inner other : Cursor α} {Q : Nat → α → Nat → Prop}
    (hinner : AlikeFrom source short (n + 1) inner inner Q)
    (hother : ∀ m, n < m → runAt source m other = runAt source m inner) :
    AlikeFrom source short (n + 1) other inner Q :=
  fun m s hs hm => ⟨hother m hm, hother m hm ▸ (hinner m s hs hm).ends⟩

theorem nestsAdvance (h : Left source n s) : NestsAdvance source n where
  mustacheExpr :=
    have hexpr : AlikeFrom source True (n + 1) expr expr fun k _ m => k < m := expr_alike
    ⟨mustache_eq, fun _ hother => mustacheWith_same (hexpr.of_same hother) h⟩
  groupExpr k := ⟨rfl, fun _ hother => group_same ((exprWithin_alike k).of_same hother) h⟩
  blockExpr k := ⟨block_eq _, fun _ hother =>
    blockWith_same (expr_alike.of_same hother) (content_alike .block k) h⟩
  blockContent k := ⟨rfl, fun _ hother =>
    blockWith_same expr_alike ((content_alike .block k).of_same hother) h⟩
  elementContent k := ⟨rfl, fun _ hother => element_same ((content_alike .element k).of_same hother) h⟩
  segmentExpr j k name opener := ⟨elseRest_eq _ _ name opener, fun _ hother =>
    elseRestWith_same name opener (expr_alike.of_same hother) (content_alike .block k)
      (chainRest_alike name opener j k) h⟩
  segmentContent j k name opener := ⟨rfl, fun _ hother =>
    elseRestWith_same name opener expr_alike ((content_alike .block k).of_same hother)
      (chainRest_alike name opener j k) h⟩
  segmentRest j k name opener := ⟨rfl, fun _ hother =>
    elseRestWith_same name opener expr_alike (content_alike .block k)
      ((chainRest_alike name opener j k).of_same hother) h⟩
  group_ends k hk := (exprWithin_ends h (.inr (h.length_lt_of_size_lt hk))).ne_rounds
  chain_ends j k name opener hj hk := by
    have hcontent : AlikeFrom source False n (contentWithin k .block []) (contentWithin k .block [])
        (ContentStops source .block) := fun m t ht hm =>
      have hleft := Nat.lt_of_le_of_lt (h.length_le ht hm) (h.length_lt_of_size_lt hk)
      (contentWithin_ends .block ht (.inr hleft) []).alike
    exact (blockRestWith_alike name opener hcontent h
      (.inr (h.length_lt_of_size_lt hj))).ends.ne_rounds

/-- On every source the cursor comes to an end: no loop takes all its rounds, because at every place a
round that is not the last moves the cursor, and each construct reads its inside from behind its start
on. -/
theorem parse_advances (source : String) :
    parse source ≠ .error .rounds ∧
      ∀ n, isBoundary n source.toList = true →
        LoopsAdvance source.toList n ∧ NestsAdvance source.toList n := by
  refine ⟨fun hparse => ?_, fun n hn => ?_⟩
  · exact (template_ends source.toList).ne_rounds (runAt_of_parse_error hparse)
  · obtain ⟨s, h⟩ := Left.of_isBoundary hn
    exact ⟨loopsAdvance h, nestsAdvance h⟩

/-- A mustache of five bytes behind one byte of text. It takes a round from its first byte to the end of
the source, six rounds are enough from there on, and nothing in it is read at its first byte. -/
theorem parse_advances_mustache :
    let source := "a\x7b\x7bb\x7d\x7d".toList
    let later : Cursor Tree.Expr := do if (← get) ≤ 1 then throw .rounds else expr
    isBoundary 1 source = true ∧
      (∃ found, runAt source 1 (contentRound .top 0 []) = done (.again found) 6 ∧ 1 < 6) ∧
      (size source < 1 + 6 ∧ runAt source 1 (contentWithin 6 .top []) ≠ .error .rounds) ∧
      ((∀ m, 1 < m → runAt source m later = runAt source m expr) ∧
        runAt source 1 (mustacheWith later) = runAt source 1 mustache) := by
  have hplace : isBoundary 1 "a\x7b\x7bb\x7d\x7d".toList = true := by decide
  obtain ⟨hloops, hnests⟩ := (parse_advances "a\x7b\x7bb\x7d\x7d").2 1 hplace
  obtain ⟨found, hround⟩ : ∃ found, runAt "a\x7b\x7bb\x7d\x7d".toList 1 (contentRound .top 0 []) =
      done (.again found) 6 := ⟨_, rfl⟩
  refine ⟨hplace, ⟨found, hround, (hloops.content .top).moves 0 [] found 6 hround⟩, ?_, ?_⟩
  · have hsize : size "a\x7b\x7bb\x7d\x7d".toList < 1 + 6 := by decide
    exact ⟨hsize, (hloops.content .top).ends 6 [] hsize⟩
  · have hlater : ∀ m, 1 < m → runAt "a\x7b\x7bb\x7d\x7d".toList m
        (do if (← get) ≤ 1 then throw .rounds else expr : Cursor Tree.Expr) =
          runAt "a\x7b\x7bb\x7d\x7d".toList m expr := by
      intro m hm
      rw [runAt_bind_done runAt_get, if_neg (by omega)]
    exact ⟨hlater, hnests.mustacheExpr.enters _ hlater⟩

end Cursor

end TemplateLint
