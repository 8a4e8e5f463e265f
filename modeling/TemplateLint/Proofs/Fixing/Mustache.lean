import TemplateLint.Proofs.Fixing.Expr

namespace TemplateLint

open Text (size opens isBlank AllBlank startsWith after? eat)

namespace Concrete

open NegatedCondition (Conditional)

variable (f : Fixers) (g : Span → Bool)

def Mustache.withCall (m : Mustache) (c : Call) : Mustache :=
  ⟨m.trusting, m.tildeBefore, c, m.tildeAfter⟩

/-- A mustache whose call is no place itself. -/
def Mustache.innerDraft (m : Mustache) : Draft :=
  .append (.text m.opening) (.append (m.call.draft f) (.text m.closing))

def Mustache.draft (m : Mustache) : Draft :=
  (m.innerDraft f).placed ((f.unnegated? m.call).map fun c => (m.withCall c).chars)

def Mustache.editInner (k : Nat) (m : Mustache) : Mustache :=
  m.withCall (m.call.edit f g (k + size m.opening))

def Mustache.edit (k : Nat) (m : Mustache) : Mustache :=
  pick (g (.over k m.chars)) ((f.unnegated? m.call).map m.withCall) (m.editInner f g k)

theorem Mustache.chars_withCall (m : Mustache) (c : Call) :
    (m.withCall c).chars = m.opening ++ (c.chars ++ m.closing) := (m.withCall c).chars_eq

@[simp] theorem Mustache.chars_innerDraft (m : Mustache) : (m.innerDraft f).chars = m.chars := by
  simp [Mustache.innerDraft, Draft.chars, Mustache.chars_eq]

@[simp] theorem Mustache.chars_draft (m : Mustache) : (m.draft f).chars = m.chars := by
  simp [Mustache.draft]

theorem Mustache.chars_editInner (m : Mustache) (k : Nat) :
    (m.editInner f g k).chars = (m.innerDraft f).edited g k := by
  rw [Mustache.editInner, Mustache.chars_withCall, Call.chars_edit]
  rfl

theorem Mustache.chars_edit (m : Mustache) (k : Nat) :
    (m.edit f g k).chars = (m.draft f).edited g k := by
  rw [Mustache.edit, Mustache.draft, Draft.edited_placed, apply_pick Mustache.chars,
    Mustache.chars_editInner, Mustache.chars_innerDraft, Option.map_map]
  rfl

variable {f g}

theorem Mustache.Stands.soundInner {m : Mustache} (h : m.Stands) : (m.innerDraft f).Sound :=
  ⟨trivial, Call.Stands.sound f h, trivial⟩

theorem Mustache.Stands.sound {m : Mustache} (h : m.Stands) : (m.draft f).Sound := by
  apply Draft.sound_placed h.soundInner rfl
  intro cs hcs
  obtain ⟨c', hc', rfl⟩ := Option.map_eq_some_iff.1 hcs
  obtain ⟨-, hc'⟩ := Fixers.eq_of_unnegated? hc'
  have hd := ((Call.Stands.differ h hc').append m.closing m.closing).append_left m.opening
  rw [Mustache.chars_innerDraft, Mustache.chars_eq, Mustache.chars_withCall]
  exact hd

theorem Mustache.Stands.fixes_permInner {m : Mustache} (h : m.Stands) (u v : List Char)
    (src : String) (hsrc : src = String.ofList (u ++ (m.chars ++ v))) {k : Nat} (hk : k = size u) :
    (f.fixesIn src (m.at k).call.nodes).Perm ((m.innerDraft f).fixes k) := by
  have hcall := Call.Stands.fixes_perm f h (u ++ m.opening) (m.closing ++ v) src
    (by rw [hsrc, Mustache.chars_eq]; simp) (k := k + size m.opening)
    (by rw [hk, Text.size_append])
  simp only [Mustache.innerDraft, Draft.fixes, Draft.chars, List.nil_append, List.append_nil]
  exact hcall

theorem Fixers.fixesAt_mustache (f : Fixers) (source : String) (m : Tree.Mustache) :
    f.fixesAt source (.mustache m) = if f.conditions then
      ((NegatedCondition.inlineFinding? source m.call m.span .mustache).bind
        Finding.fix).toList else [] := by
  cases hc : f.conditions with
  | false => simp [Fixers.fixesAt, hc, Rule.visit, ComponentArguments.rule, Tree.Node.kind]
  | true =>
    simp only [Fixers.fixesAt, hc, Rule.visit, ComponentArguments.rule, NegatedCondition.rule,
      Tree.Node.kind, NegatedCondition.findings]
    cases NegatedCondition.inlineFinding? source m.call m.span .mustache with
    | none => simp
    | some finding => cases hf : finding.fix <;> simp [hf]

theorem Mustache.Stands.fixes_perm {m : Mustache} (h : m.Stands) (u v : List Char)
    (src : String) (hsrc : src = String.ofList (u ++ (m.chars ++ v))) {k : Nat} (hk : k = size u) :
    (f.fixesIn src (m.at k).nodes).Perm ((m.draft f).fixes k) := by
  have hinner := h.fixes_permInner (f := f) u v src hsrc hk
  have hfix := inlineFinding?_fix h u m.opening m.closing v src
    (by rw [hsrc, Mustache.chars_eq]; simp) .mustache
  have hplace : f.fixesAt src (.mustache (m.at k)) =
      (((f.unnegated? m.call).map fun c => (m.withCall c).chars).map fun cs =>
        (⟨.over k m.chars, String.ofList cs⟩ : Fix)).toList := by
    subst hk
    rw [← Mustache.chars_eq] at hfix
    have hspan : (m.at (size u)).span = ⟨size u, size u + size m.chars⟩ := rfl
    rw [Fixers.fixesAt_mustache, hspan,
      show (m.at (size u)).call = m.call.at (size u + size m.opening) from rfl, hfix]
    unfold Fixers.unnegated?
    cases f.conditions with
    | false => rfl
    | true => simp [Span.over, Mustache.chars_withCall, Function.comp_def]
  rw [Tree.Mustache.nodes, Fixers.fixesIn_cons, hplace, Mustache.draft, Draft.fixes_placed,
    Mustache.chars_innerDraft]
  exact hinner.append_left _

theorem Mustache.opens_closing (m : Mustache) : opens isWordChar m.closing = false := by
  cases h : m.trusting <;> cases ht : m.tildeAfter <;> simp [Mustache.closing, h, ht] <;> rfl

theorem Mustache.Stands.editInner {m : Mustache} (h : m.Stands) (k : Nat) :
    (m.editInner f g k).Stands := Call.Stands.edit f g h _

theorem Mustache.Stands.edit {m : Mustache} (h : m.Stands) (k : Nat) :
    (m.edit f g k).Stands := by
  apply pick_induction (p := fun m : Mustache => m.Stands)
  · intro a ha
    obtain ⟨c, hc, rfl⟩ := Option.map_eq_some_iff.1 ha
    obtain ⟨-, hc⟩ := Fixers.eq_of_unnegated? hc
    exact Call.Stands.unnegated h (m.opens_closing) hc
  · exact h.editInner k

theorem Mustache.ahead_iff (m : Mustache)
    (ht : opens (· == '~') (m.call.chars ++ m.closing) = false) :
    Ahead.of m.chars = .mustache ↔ m.trusting = true ∨
      (opens (['!', '#', '/'].contains ·) (m.call.chars ++ m.closing) = false ∧
        elseAhead (m.call.chars ++ m.closing) = false) := by
  have heat : eat '~' (flagged m.tildeBefore ['~'] ++ (m.call.chars ++ m.closing)) =
      (m.tildeBefore, m.call.chars ++ m.closing) := eat_flagged fun _ => ht
  rw [Mustache.chars_eq, Mustache.opening]
  cases hm : m.trusting with
  | true =>
    simp only [true_or, iff_true]
    rfl
  | false =>
    have hof : Ahead.of (Token.mustacheOpen.chars ++ flagged false ['{'] ++
        flagged m.tildeBefore ['~'] ++ (m.call.chars ++ m.closing)) =
          Ahead.inBraces (flagged m.tildeBefore ['~'] ++ (m.call.chars ++ m.closing)) := by
      simp [Token.chars, flagged, Ahead.of]
    rw [hof]
    unfold Ahead.inBraces
    rw [heat]
    generalize m.call.chars ++ m.closing = s
    simp only [Bool.false_eq_true, false_or]
    split
    · simp
    · simp
    · simp
    · next h₁ h₂ h₃ =>
      have hfirst : opens (['!', '#', '/'].contains ·) s = false := by
        cases s with
        | nil => rfl
        | cons c s =>
          have hbang : c ≠ '!' := fun hc => h₁ s (by rw [hc])
          have hhash : c ≠ '#' := fun hc => h₂ s (by rw [hc])
          have hslash : c ≠ '/' := fun hc => h₃ s (by rw [hc])
          simp [hbang, hhash, hslash]
      rw [hfirst]
      cases elseAhead s <;> simp

theorem elseAhead_cons {lead : List Char} (hl : AllBlank lead) {c : Char} (hb : isBlank c = false)
    (hc : c ≠ 'e') (s : List Char) : elseAhead (lead ++ c :: s) = false := by
  unfold elseAhead
  rw [Text.dropWhile_blank hl (show opens isBlank (c :: s) = false from hb)]
  simp [Token.chars, after?, hc.symm]

/-- What comes after the first word of a call has no part in whether it is `else`, but for one
character. -/
theorem elseAhead_congr {lead w : List Char} (hl : AllBlank lead) (hw : IsWord w)
    {s t : List Char} (hs : opens isWordChar s = false) (hh : s.head? = t.head?) :
    elseAhead (lead ++ (w ++ s)) = elseAhead (lead ++ (w ++ t)) := by
  cases s with
  | nil =>
    cases t with
    | nil => rfl
    | cons d t => cases hh
  | cons c s =>
    cases t with
    | nil => cases hh
    | cons d t =>
      obtain rfl : c = d := by simpa using hh
      have hc : c ∉ Token.elseWord.chars := by
        intro hc
        have hword := isWord_elseWord.2
        rw [opens, hword c hc] at hs
        cases hs
      have hopens : ∀ u, opens isBlank (w ++ u) = false := by
        intro u
        obtain ⟨hne, hw⟩ := hw
        cases w with
        | nil => exact absurd rfl hne
        | cons d w => exact isBlank_of_isWordChar (hw d (by simp))
      unfold elseAhead
      rw [Text.dropWhile_blank hl (hopens _), Text.dropWhile_blank hl (hopens _),
        after?_mark hc, after?_mark hc]
      cases after? Token.elseWord.chars w with
      | none => rfl
      | some u => cases u <;> rfl

/-- The call of a mustache begins with no mark that would make it something else. -/
theorem Call.Stands.opens_tilde {c : Call} {s : List Char} (h : c.Stands s) (t : List Char) :
    opens (· == '~') (c.chars ++ t) = false := by
  obtain ⟨lead, callee, args, trail⟩ := c
  obtain ⟨hlead, hcallee, -, -⟩ := h
  rw [Call.chars, List.append_assoc, List.append_assoc, List.append_assoc]
  apply opens_lead (fun c hc => beq_of_isBlank (by decide) hc) hlead
  have ho := hcallee.opens (Arg.charsAll args ++ (trail ++ t))
  cases hs : callee.chars ++ (Arg.charsAll args ++ (trail ++ t)) with
  | nil => rfl
  | cons c s =>
    rw [hs] at ho
    simpa using ne_of_startsExpr ho (by decide)

theorem Call.head_edit (c : Call) (k : Nat) (s : List Char) :
    ((c.edit f g k).chars ++ s).head? = (c.chars ++ s).head? := by
  obtain ⟨lead, callee, args, trail⟩ := c
  simp only [Call.edit, Call.chars, List.append_assoc]
  apply head_append_congr
  rw [Expr.head_edit]
  exact head_append_congr (Arg.head_editAll f g args _ _) callee.chars

theorem Call.Stands.elseAhead_edit {c : Call} {s : List Char} (h : c.Stands s) (k : Nat) :
    elseAhead ((c.edit f g k).chars ++ s) = elseAhead (c.chars ++ s) := by
  obtain ⟨lead, callee, args, trail⟩ := c
  obtain ⟨hlead, hcallee, hargs, htrail⟩ := h
  simp only [Call.edit, Call.chars, List.append_assoc]
  cases callee with
  | word w =>
    have hhead := Arg.head_editAll f g args (k + size lead + size (Expr.word w).chars)
      (trail ++ s)
    exact (elseAhead_congr hlead hcallee.1 hcallee.2 hhead.symm).symm
  | quoted mark raw =>
    obtain ⟨hm, -⟩ := hcallee
    simp only [Expr.edit, Expr.chars, List.cons_append]
    rcases hm with rfl | rfl
    · rw [elseAhead_cons hlead (by decide) (by decide), elseAhead_cons hlead (by decide) (by decide)]
    · rw [elseAhead_cons hlead (by decide) (by decide), elseAhead_cons hlead (by decide) (by decide)]
  | group call =>
    have hgroup : ∀ (e : Expr) (u : List Char),
        e = .group call ∨ e = (Expr.group call).edit f g (k + size lead) →
        elseAhead (lead ++ (e.chars ++ u)) = false := by
      intro e u he
      have hfirst : (e.chars ++ u).head? = some '(' := by
        rcases he with rfl | rfl
        · rfl
        · rw [Expr.head_edit]
          rfl
      cases hs : e.chars ++ u with
      | nil =>
        rw [hs] at hfirst
        cases hfirst
      | cons c t =>
        rw [hs] at hfirst
        obtain rfl : c = '(' := by simpa using hfirst
        exact elseAhead_cons hlead (by decide) (by decide) t
    rw [hgroup _ _ (Or.inr rfl), hgroup _ _ (Or.inl rfl)]

/-- A mustache with fixes inside of its call is read as a mustache. -/
theorem Mustache.Stands.ahead_editInner {m : Mustache} (h : m.Stands)
    (ha : Ahead.of m.chars = .mustache) (k : Nat) :
    Ahead.of (m.editInner f g k).chars = .mustache := by
  have hedit := Call.Stands.edit f g h (k + size m.opening)
  rw [Mustache.ahead_iff _ (Call.Stands.opens_tilde h m.closing)] at ha
  rw [Mustache.ahead_iff _ (Call.Stands.opens_tilde hedit _)]
  have hhead := Call.head_edit (f := f) (g := g) m.call (k + size m.opening) m.closing
  have helse := Call.Stands.elseAhead_edit (f := f) (g := g) h (k + size m.opening)
  rcases ha with ha | ⟨hfirst, ha⟩
  · exact Or.inl ha
  · refine Or.inr ⟨?_, helse.trans ha⟩
    exact (opens_of_head hhead []).trans hfirst

/-- Without its negation a call still begins with the name of a conditional. -/
theorem chars_of_unnegated? {c c' : Call} (h : c.unnegated? = some c') :
    ∃ d s, (d = 'i' ∨ d = 'u') ∧ c'.chars = c.lead ++ d :: s := by
  have hhelper : ∀ (helper : Conditional) (s : List Char),
      ∃ d t, (d = 'i' ∨ d = 'u') ∧ helper.helper.toList ++ s = d :: t := by
    intro helper s
    cases helper with
    | whenTrue => exact ⟨'i', 'f' :: s, Or.inl rfl, rfl⟩
    | whenFalse => exact ⟨'u', _, Or.inr rfl, rfl⟩
  obtain ⟨n, hn, ⟨v₁, v₂, -, -, rfl⟩ | ⟨v, vs, -, -, rfl⟩⟩ := eq_of_unnegated? h
  · obtain ⟨-, -, hh, -⟩ := eq_of_negated? hn
    rw [Call.flipped, Call.chars_join, eq_of_helper? hh]
    obtain ⟨d, t, hd, ht⟩ := hhelper n.helper (Arg.charsAll (Arg.join n.gap n.operand
      (Arg.join v₁.lead v₂.value (Arg.join v₂.lead v₁.value (Arg.named n.rest)))) ++ c.trail)
    exact ⟨d, t, hd, congrArg (c.lead ++ ·) ht⟩
  · rw [Call.freed, Call.chars_join]
    obtain ⟨d, t, hd, ht⟩ := hhelper n.helper.flip
      (Arg.charsAll (Arg.join n.gap n.operand n.rest) ++ c.trail)
    exact ⟨d, t, hd, congrArg (c.lead ++ ·) ht⟩

theorem Mustache.Stands.ahead_unnegated {m : Mustache} (h : m.Stands) {c : Call}
    (hc : m.call.unnegated? = some c) : Ahead.of (m.withCall c).chars = .mustache := by
  have hstands : c.Stands m.closing := Call.Stands.unnegated h m.opens_closing hc
  obtain ⟨n, hn, -⟩ := eq_of_unnegated? hc
  obtain ⟨hlead, -⟩ := Call.Stands.negated h hn
  obtain ⟨d, s, hd, hs⟩ := chars_of_unnegated? hc
  rw [Mustache.ahead_iff _ (hstands.opens_tilde _)]
  right
  have hcall : (m.withCall c).call.chars ++ (m.withCall c).closing =
      m.call.lead ++ d :: (s ++ (m.withCall c).closing) := by
    rw [show (m.withCall c).call = c from rfl, hs, List.append_assoc, List.cons_append]
  rw [hcall]
  constructor
  · apply opens_lead _ hlead
    · rcases hd with rfl | rfl <;> rfl
    · intro c hc
      have hbang := beq_of_isBlank (c := c) (d := '!') (by decide) hc
      have hhash := beq_of_isBlank (c := c) (d := '#') (by decide) hc
      have hslash := beq_of_isBlank (c := c) (d := '/') (by decide) hc
      simp only [List.contains_cons, hbang, hhash, hslash]
      rfl
  · rcases hd with rfl | rfl
    · exact elseAhead_cons hlead (by decide) (by decide) _
    · exact elseAhead_cons hlead (by decide) (by decide) _

theorem Mustache.Stands.ahead_edit {m : Mustache} (h : m.Stands)
    (ha : Ahead.of m.chars = .mustache) (k : Nat) :
    Ahead.of (m.edit f g k).chars = .mustache := by
  apply pick_induction (p := fun m : Mustache => Ahead.of m.chars = .mustache)
  · intro a hm
    obtain ⟨c, hc, rfl⟩ := Option.map_eq_some_iff.1 hm
    obtain ⟨-, hc⟩ := Fixers.eq_of_unnegated? hc
    exact h.ahead_unnegated hc
  · exact h.ahead_editInner ha k

end Concrete

end TemplateLint
