import TemplateLint.Proofs.Progress.Statement

namespace TemplateLint.Cursor

open Text (isBoundary startsWith)
open Concrete (Token Ahead)

variable {α : Type} {source s : List Char} {n : Nat}

/-- A test gives this answer at `n`, and the cursor stays there. -/
def Finds (source : List Char) (n : Nat) (test : Cursor α) (answer : α) : Prop :=
  runAt source n test = done answer n

/-- Braces stand at `n`, and this is what they open. -/
def FindsBraces (source : List Char) (n : Nat) (a : Ahead) : Prop :=
  Finds source n (isAt (startsWith Token.mustacheOpen.chars)) true ∧ Finds source n inBraces a

/-- From `n` on the routine misses no mark that a test finds before the cursor takes it. -/
def Takes (source : List Char) (n : Nat) (routine : Cursor α) : Prop :=
  ∀ e, runAt source n routine = .error e → ¬ e.Unforeseen

/-- What a test at `n` chooses takes its marks, and so do the routines that make their own tests. All
of it holds with any number of rounds for what stands in a construct. -/
structure Foresees (source : List Char) (n : Nat) : Prop where
  mustache : Finds source n (isAt (startsWith Token.mustacheOpen.chars)) true →
    Takes source n Cursor.mustache
  note : FindsBraces source n .note → Takes source n Cursor.note
  block : FindsBraces source n .block → ∀ k, Takes source n (Cursor.block (contentWithin k .block []))
  closeTag : FindsBraces source n .closeTag → ∀ name, Takes source n (Cursor.closeTag name)
  elseTag : FindsBraces source n .elseTag → ∀ j k name opener,
    Takes source n (elseRest (contentWithin k .block [])
      (chainRest j k name opener) name opener)
  comment : Finds source n (isAt (startsWith Token.commentOpen.chars)) true →
    Takes source n Cursor.comment
  element : Finds source n (isAt Concrete.tagStartAhead) true →
    ∀ k, Takes source n (Cursor.element (contentWithin k .element []))
  group : Finds source n peek (some '(') → ∀ k, Takes source n (Cursor.group (exprWithin k))
  blockParams : Takes source n Cursor.blockParams
  closingTag : ∀ tag start, Takes source n (Cursor.closingTag tag start)
  lastClose : ∀ name opener, Takes source n (Cursor.lastClose name opener)
  chainRest : ∀ j k name opener, Takes source n (Cursor.chainRest j k name opener)
  content : ∀ k context found, Takes source n (contentWithin k context found)
  /-- Where the body of a block stops at braces, a closing tag or an `else` tag stands. -/
  body_stops : ∀ k b m, runAt source n (body (contentWithin k .block [])) = done b m →
    Finds source m (isAt (startsWith Token.mustacheOpen.chars)) true →
      Finds source m inBraces .closeTag ∨ Finds source m inBraces .elseTag

theorem done_inj {a b : α} {m : Nat} (h : done a n = done b m) : a = b :=
  congrArg Prod.fst (Except.ok.inj h)

theorem finds_isAt_iff (h : Left source n s) (test : List Char → Bool) :
    Finds source n (isAt test) true ↔ test s = true := by
  rw [Finds, isAt_run h]
  exact ⟨done_inj, fun hs => by rw [hs]⟩

theorem finds_inBraces_iff (h : Left source n (Token.mustacheOpen.chars ++ s)) (a : Ahead) :
    Finds source n inBraces a ↔ Ahead.inBraces s = a := by
  rw [Finds, inBraces_run h]
  exact ⟨done_inj, fun hs => by rw [hs]⟩

theorem left_of_findsBraces {a : Ahead} (h : Left source n s) (hfinds : FindsBraces source n a) :
    ∃ t, Left source n (Token.mustacheOpen.chars ++ t) ∧ Ahead.inBraces t = a := by
  obtain ⟨hopen, ha⟩ := hfinds
  obtain ⟨t, rfl⟩ := Text.startsWith_iff.1 ((finds_isAt_iff h _).1 hopen)
  exact ⟨t, h, (finds_inBraces_iff h a).1 ha⟩

theorem Ends.takes {routine : Cursor α} {Q : α → Nat → Prop}
    (h : Ends source True (runAt source n routine) Q) : Takes source n routine :=
  fun _ hrun => h.not_unforeseen hrun

theorem group_takes (h : Left source n s) (hs : s.head? = some '(') (k : Nat) :
    Takes source n (group (exprWithin k)) := by
  obtain ⟨t, rfl⟩ := List.head?_eq_some_iff.1 hs
  exact (group_alike (exprWithin_alike k) h rfl).ends.takes

theorem body_stops_at_tag (h : Left source n s) {k m : Nat} {b : Tree.Body}
    (hbody : runAt source n (body (contentWithin k .block [])) = done b m)
    (hopen : Finds source m (isAt (startsWith Token.mustacheOpen.chars)) true) :
    Finds source m inBraces .closeTag ∨ Finds source m inBraces .elseTag := by
  obtain ⟨⟨t, ht⟩, -, hstops⟩ := (body_alike (content_alike .block k) h).ends.of_done hbody
  obtain ⟨t, rfl⟩ := Text.startsWith_iff.1 ((finds_isAt_iff ht _).1 hopen)
  rcases Concrete.inBraces_of_endsContent (hstops _ ht) with hin | hin
  · exact .inr ((finds_inBraces_iff ht _).2 hin)
  · exact .inl ((finds_inBraces_iff ht _).2 hin)

theorem foresees (h : Left source n s) : Foresees source n where
  mustache hopen := (mustache_ends h ((finds_isAt_iff h _).1 hopen)).takes
  note hfinds := by
    obtain ⟨t, ht, hin⟩ := left_of_findsBraces h hfinds
    exact (note_ends ht hin).takes
  block hfinds k := by
    obtain ⟨t, ht, hin⟩ := left_of_findsBraces h hfinds
    have hhash := Concrete.startsWith_mark (congrArg Ahead.mark? hin)
    exact (blockWith_alike expr_alike (content_alike .block k) ht hhash).ends.takes
  closeTag hfinds name := by
    obtain ⟨t, ht, hin⟩ := left_of_findsBraces h hfinds
    exact (closeTag_ends name ht hin).takes
  elseTag hfinds j k name opener := by
    obtain ⟨t, ht, hin⟩ := left_of_findsBraces h hfinds
    have helse := Concrete.startsWith_elseWord hin
    exact (elseRestWith_alike name opener expr_alike (content_alike .block k)
      (chainRest_alike name opener j k) ht helse).ends.takes
  comment hopen := (comment_ends h ((finds_isAt_iff h _).1 hopen)).takes
  element hstart k := by
    have htag := Concrete.startsWith_tagOpen ((finds_isAt_iff h _).1 hstart)
    exact (element_alike (content_alike .element k) h htag).ends.takes
  group hpeek k := by
    rw [Finds, peek_run h] at hpeek
    exact group_takes h (done_inj hpeek) k
  blockParams := (blockParams_ends h).takes
  closingTag tag start := (closingTag_ends tag start h).takes
  lastClose name opener := (lastClose_ends name opener h).takes
  chainRest j k name opener := (chainRest_alike name opener j k n s h (Nat.le_refl n)).ends.takes
  content k context found := (contentWithin_ends context h (.inl trivial) found).takes
  body_stops _ _ _ := body_stops_at_tag h

theorem close_of_not_isForeseen {t : Token} (h : ¬ t.isForeseen = true) :
    t = .mustacheClose ∨ t = .tripleClose ∨ t = .groupClose := by
  cases t <;> simp [Token.isForeseen] at h ⊢

/-- In every source a mark is missed only where a call, a tag or a group should end, and at every place
where a routine can start what the tests choose takes its marks. -/
theorem parse_foresees (source : String) :
    (∀ t atEnd place, parse source = .error (.failure ⟨.expected t atEnd, place⟩) →
      t = .mustacheClose ∨ t = .tripleClose ∨ t = .groupClose) ∧
    ∀ n, isBoundary n source.toList = true → Foresees source.toList n := by
  refine ⟨fun t atEnd place hparse => ?_, fun n hn => ?_⟩
  · have hends : Ends source.toList True (runAt source.toList 0 template) fun _ _ => True :=
      template_ends source.toList
    exact close_of_not_isForeseen (hends.not_unforeseen (runAt_of_parse_error hparse))
  · obtain ⟨s, h⟩ := Left.of_isBoundary hn
    exact foresees h

/-- A body that stops at an `else` tag with tildes and a blank, and a call that ends with the mark of a
group. -/
theorem parse_foresees_else :
    let source := "aü\x7b\x7b~ else~".toList
    let found : Tree.Body := ⟨[.text ⟨"ü", ⟨1, 3⟩⟩], ⟨1, 3⟩⟩
    (isBoundary 1 source = true ∧ runAt source 1 (body (contentWithin 2 .block [])) = done found 3 ∧
      Finds source 3 (isAt (startsWith Token.mustacheOpen.chars)) true ∧
      (Finds source 3 inBraces .closeTag ∨ Finds source 3 inBraces .elseTag)) ∧
    parse "\x7b\x7ba)" = .error (.failure ⟨.expected .mustacheClose false, ⟨1, 3⟩⟩) ∧
      (Token.mustacheClose = .mustacheClose ∨ Token.mustacheClose = .tripleClose ∨
        Token.mustacheClose = .groupClose) := by
  have hplace : isBoundary 1 "aü\x7b\x7b~ else~".toList = true := by decide
  have hparse : parse "\x7b\x7ba)" = .error (.failure ⟨.expected .mustacheClose false, ⟨1, 3⟩⟩) := by
    rfl
  obtain ⟨-, hforesees⟩ := parse_foresees "aü\x7b\x7b~ else~"
  exact ⟨⟨hplace, rfl, rfl, (hforesees 1 hplace).body_stops 2 _ 3 rfl rfl⟩, hparse,
    (parse_foresees _).1 _ _ _ hparse⟩

end TemplateLint.Cursor
