import TemplateLint.Proofs.Fixing.Element
import TemplateLint.Proofs.Negation.Block
import TemplateLint.Proofs.Reading.Following

namespace TemplateLint

open Text (size opens)

namespace Fixers

/-- A block without its negation, when the rule for that is on. -/
def unnegatedBlock? (f : Fixers) (s : Concrete.Statement) : Option Concrete.Statement :=
  if f.conditions then s.unnegated? else none

/-- The rule for arguments alone, if it is on. -/
def onlyArguments (f : Fixers) : Fixers := ⟨false, f.arguments⟩

/-- The rule for negated conditions alone, if it is on. -/
def onlyConditions (f : Fixers) : Fixers := ⟨f.conditions, false⟩

/-- The rules that are on here are on there. -/
structure Le (f f' : Fixers) : Prop where
  conditions : f.conditions = true → f'.conditions = true
  arguments : f.arguments = true → f'.arguments = true

theorem onlyArguments_le (f : Fixers) : f.onlyArguments.Le f :=
  ⟨fun h => absurd h Bool.false_ne_true, id⟩

theorem onlyConditions_le (f : Fixers) : f.onlyConditions.Le f :=
  ⟨id, fun h => absurd h Bool.false_ne_true⟩

theorem eq_of_unnegatedBlock? {f : Fixers} {s s' : Concrete.Statement}
    (h : f.unnegatedBlock? s = some s') : f.conditions = true ∧ s.unnegated? = some s' := by
  unfold unnegatedBlock? at h
  split at h
  · next hc => exact ⟨hc, h⟩
  · cases h

end Fixers

namespace Concrete

open NegatedCondition (Conditional)

variable (f : Fixers) (g : Span → Bool)

def BlockTag.draft (t : BlockTag) : Draft :=
  .append (.text t.front) (.append (t.call.draft f) (.text t.ending.chars))

def BlockTag.edit (k : Nat) (t : BlockTag) : BlockTag :=
  t.withCall (t.call.edit f g (k + size t.front))

/-- What stands before the call or the blanks at the end of an `else` tag. -/
def ElseTag.front (t : ElseTag) : List Char :=
  Token.mustacheOpen.chars ++ flagged t.tilde ['~'] ++ t.lead ++ Token.elseWord.chars

def ElseTag.draft (t : ElseTag) : Draft :=
  match t.tail with
  | .plain _ _ => .text t.chars
  | .chained call ending =>
    .append (.text t.front) (.append (call.draft f) (.text ending.chars))

def ElseTag.edit (k : Nat) (t : ElseTag) : ElseTag :=
  match t.tail with
  | .plain _ _ => t
  | .chained call ending => ⟨t.tilde, t.lead, .chained (call.edit f g (k + size t.front)) ending⟩

@[simp] theorem BlockTag.chars_draft (t : BlockTag) : (t.draft f).chars = t.chars := by
  simp [BlockTag.draft, Draft.chars, BlockTag.chars_eq]

theorem BlockTag.chars_withCall (t : BlockTag) (c : Call) :
    (t.withCall c).chars = t.front ++ (c.chars ++ t.ending.chars) := (t.withCall c).chars_eq

theorem BlockTag.chars_edit (t : BlockTag) (k : Nat) :
    (t.edit f g k).chars = (t.draft f).edited g k := by
  rw [BlockTag.edit, BlockTag.chars_withCall, Call.chars_edit]
  rfl

theorem ElseTag.chars_eq (t : ElseTag) : t.chars = t.front ++ t.tail.chars := rfl

@[simp] theorem ElseTag.chars_draft (t : ElseTag) : (t.draft f).chars = t.chars := by
  obtain ⟨tilde, lead, tail⟩ := t
  cases tail with
  | plain trail after => rfl
  | chained call ending => simp [ElseTag.draft, Draft.chars, ElseTag.chars_eq, ElseTail.chars]

theorem ElseTag.chars_edit (t : ElseTag) (k : Nat) :
    (t.edit f g k).chars = (t.draft f).edited g k := by
  obtain ⟨tilde, lead, tail⟩ := t
  cases tail with
  | plain trail after => rfl
  | chained call ending =>
    simp [ElseTag.edit, ElseTag.draft, Draft.edited, Draft.chars, ElseTag.chars_eq,
      ElseTail.chars, Call.chars_edit, ElseTag.front]

variable {f g}

theorem BlockTag.Stands.sound {t : BlockTag} (h : t.Stands) : (t.draft f).Sound :=
  ⟨trivial, Call.Stands.sound f h.1, trivial⟩

theorem ElseTag.Stands.sound {t : ElseTag} (h : t.Stands) : (t.draft f).Sound := by
  obtain ⟨tilde, lead, tail⟩ := t
  cases tail with
  | plain trail after => trivial
  | chained call ending =>
    obtain ⟨-, -, hcall, -⟩ := h
    exact ⟨trivial, Call.Stands.sound f hcall, trivial⟩

theorem BlockTag.Stands.fixes_perm {t : BlockTag} (h : t.Stands) (u v : List Char) (src : String)
    (hsrc : src = String.ofList (u ++ (t.chars ++ v))) {k : Nat} (hk : k = size u) :
    (f.fixesIn src (t.call.at (k + t.callOffset)).nodes).Perm ((t.draft f).fixes k) := by
  have hcall := Call.Stands.fixes_perm f h.1 (u ++ t.front) (t.ending.chars ++ v) src
    (by rw [hsrc, BlockTag.chars_eq]; simp) (k := k + t.callOffset)
    (by rw [hk, Text.size_append]; rfl)
  simp only [BlockTag.draft, Draft.fixes, Draft.chars, List.nil_append, List.append_nil]
  exact hcall

theorem Call.at_callee_edit (c : Call) (k : Nat) (hc : c.callee.path?.isSome) :
    (c.edit f g k).callee = c.callee := by
  obtain ⟨lead, callee, args, trail⟩ := c
  cases callee with
  | word w => rfl
  | quoted mark raw => cases hc
  | group call => cases hc

theorem BlockTag.path?_edit (t : BlockTag) (k : Nat) {name : List Char}
    (hname : t.call.callee.path? = some name) : (t.edit f g k).call.callee.path? = some name := by
  show (t.call.edit f g (k + size t.front)).callee.path? = some name
  rw [Call.at_callee_edit t.call _ (by rw [hname]; rfl)]
  exact hname

theorem BlockTag.Stands.edit {t : BlockTag} (h : t.Stands) (k : Nat) : (t.edit f g k).Stands := by
  obtain ⟨hcall, hending, hpath⟩ := h
  obtain ⟨name, hname⟩ := Option.isSome_iff_exists.1 hpath
  exact ⟨Call.Stands.edit f g hcall _, hending, by rw [t.path?_edit k hname]; rfl⟩

theorem ElseTag.Stands.edit {t : ElseTag} (h : t.Stands) (k : Nat) : (t.edit f g k).Stands := by
  obtain ⟨tilde, lead, tail⟩ := t
  cases tail with
  | plain trail after => exact h
  | chained call ending =>
    obtain ⟨hlead, hne, hcall, hending⟩ := h
    refine ⟨hlead, ?_, Call.Stands.edit f g hcall _, hending⟩
    cases call
    exact hne

variable (f g)

mutual

def Statement.draft : Statement → Draft
  | .text cs => .text cs
  | .comment value => .text (Statement.comment value).chars
  | .note n => .text n.chars
  | .mustache m => m.draft f
  | .block opening program sections closing =>
    (Draft.append (opening.draft f) (.append (Statement.draftAll program)
      (.append (Section.draftAll sections) (.text closing.chars)))).placed
        ((f.unnegatedBlock? (.block opening program sections closing)).map Statement.chars)
  | .whole opening => opening.draft f
  | .element opening children closing =>
    .append (opening.draft f) (.append (Statement.draftAll children)
      (.text (Token.closingTagOpen.chars ++ (closing ++ ['>']))))

def Statement.draftAll : List Statement → Draft
  | [] => .text []
  | s :: ss => .append (Statement.draft s) (Statement.draftAll ss)

def Section.draftAll : List Section → Draft
  | [] => .text []
  | ⟨tag, body⟩ :: ss =>
    .append (tag.draft f) (.append (Statement.draftAll body) (Section.draftAll ss))

end

mutual

/-- What a statement at `k` becomes when the selected fixes are applied to it. -/
def Statement.edit (k : Nat) : Statement → Statement
  | .text cs => .text cs
  | .comment value => .comment value
  | .note n => .note n
  | .mustache m => .mustache (m.edit f g k)
  | .block opening program sections closing =>
    pick (g (.over k (Statement.block opening program sections closing).chars))
      (f.unnegatedBlock? (.block opening program sections closing))
      (.block (opening.edit f g k) (Statement.editAll (k + size opening.chars) program)
        (Section.editAll (k + size opening.chars + size (Statement.charsAll program)) sections)
        closing)
  | .whole opening => .whole (opening.edit f g k)
  | .element opening children closing =>
    .element (opening.edit f g k) (Statement.editAll (k + size opening.chars) children) closing

def Statement.editAll (k : Nat) : List Statement → List Statement
  | [] => []
  | s :: ss => Statement.edit k s :: Statement.editAll (k + size s.chars) ss

def Section.editAll (k : Nat) : List Section → List Section
  | [] => []
  | ⟨tag, body⟩ :: ss =>
    ⟨tag.edit f g k, Statement.editAll (k + size tag.chars) body⟩ ::
      Section.editAll (k + size tag.chars + size (Statement.charsAll body)) ss

end

mutual

/-- Whether the fixes of a statement leave a text that is read as it is meant: no condition of a
block is joined with the words beside it, and every argument that becomes a modifier is one. -/
def Statement.reads : Statement → Bool
  | .block opening program sections closing =>
    !(f.conditions && (Statement.block opening program sections closing).joins) &&
      Statement.readsAll program && Section.readsAll sections
  | .whole opening => opening.reads f
  | .element opening children _ => opening.reads f && Statement.readsAll children
  | _ => true

def Statement.readsAll : List Statement → Bool
  | [] => true
  | s :: ss => Statement.reads s && Statement.readsAll ss

def Section.readsAll : List Section → Bool
  | [] => true
  | ⟨_, body⟩ :: ss => Statement.readsAll body && Section.readsAll ss

end

mutual

/-- Whether no condition of a block is joined with the words beside it, of those that the selected
fixes free. -/
def Statement.admits (k : Nat) : Statement → Bool
  | .block opening program sections closing =>
    if g (.over k (Statement.block opening program sections closing).chars) &&
        (f.unnegatedBlock? (.block opening program sections closing)).isSome then
      !(Statement.block opening program sections closing).joins
    else
      Statement.admitsAll (k + size opening.chars) program &&
        Section.admitsAll (k + size opening.chars + size (Statement.charsAll program)) sections
  | .element opening children _ => Statement.admitsAll (k + size opening.chars) children
  | _ => true

def Statement.admitsAll (k : Nat) : List Statement → Bool
  | [] => true
  | s :: ss => Statement.admits k s && Statement.admitsAll (k + size s.chars) ss

def Section.admitsAll (k : Nat) : List Section → Bool
  | [] => true
  | ⟨tag, body⟩ :: ss =>
    Statement.admitsAll (k + size tag.chars) body &&
      Section.admitsAll (k + size tag.chars + size (Statement.charsAll body)) ss

end

variable {f g}

mutual

/-- Where all fixes are read as they are meant, the selected ones leave all words apart. -/
theorem Statement.admits_of_reads : ∀ {s : Statement}, s.reads f = true → ∀ k : Nat,
    s.admits f g k = true
  | .text _, _, _ => rfl
  | .comment _, _, _ => rfl
  | .note _, _, _ => rfl
  | .mustache _, _, _ => rfl
  | .block opening program sections closing, h, k => by
    simp only [Statement.reads, Bool.and_eq_true, Bool.not_eq_true'] at h
    obtain ⟨⟨hjoins, hprogram⟩, hsections⟩ := h
    have h₂ := Statement.admitsAll_of_reads hprogram (k + size opening.chars)
    have h₃ := Section.admitsAll_of_reads hsections
      (k + size opening.chars + size (Statement.charsAll program))
    rw [Statement.admits]
    split
    · next hplace =>
      obtain ⟨s', hs'⟩ := Option.isSome_iff_exists.1 (Bool.and_eq_true_iff.1 hplace).2
      rw [(Fixers.eq_of_unnegatedBlock? hs').1, Bool.true_and] at hjoins
      rw [hjoins, Bool.not_false]
    · rw [h₂, h₃, Bool.true_and]
  | .whole _, _, _ => rfl
  | .element opening _ _, h, k => by
    simp only [Statement.reads, Bool.and_eq_true] at h
    exact Statement.admitsAll_of_reads h.2 (k + size opening.chars)

theorem Statement.admitsAll_of_reads : ∀ {ss : List Statement}, Statement.readsAll f ss = true →
    ∀ k : Nat, Statement.admitsAll f g k ss = true
  | [], _, _ => rfl
  | s :: ss, h, k => by
    simp only [Statement.readsAll, Bool.and_eq_true] at h
    simp [Statement.admitsAll, Statement.admits_of_reads h.1 k,
      Statement.admitsAll_of_reads h.2 (k + size s.chars)]

theorem Section.admitsAll_of_reads : ∀ {ss : List Section}, Section.readsAll f ss = true →
    ∀ k : Nat, Section.admitsAll f g k ss = true
  | [], _, _ => rfl
  | ⟨tag, body⟩ :: ss, h, k => by
    simp only [Section.readsAll, Bool.and_eq_true] at h
    simp [Section.admitsAll, Statement.admitsAll_of_reads h.1 (k + size tag.chars),
      Section.admitsAll_of_reads h.2 (k + size tag.chars + size (Statement.charsAll body))]

end

section

/-- Without the rule for arguments no tag has a fix to read. -/
theorem OpeningTag.reads_onlyConditions (f : Fixers) (t : OpeningTag) :
    t.reads f.onlyConditions = true := by
  unfold OpeningTag.reads
  rw [List.all_eq_true]
  intro s _
  cases s.item <;> rfl

variable {f' : Fixers}

/-- Fewer rules have fewer fixes to read. -/
theorem OpeningTag.reads_mono (hf : f'.Le f) {t : OpeningTag} (h : t.reads f = true) :
    t.reads f' = true := by
  have hchange : ∀ a, f'.change? t a = none ∨ f'.change? t a = f.change? t a := by
    intro a
    unfold Fixers.change?
    cases ha : f'.arguments with
    | false => exact .inl rfl
    | true => exact .inr (by rw [hf.arguments ha])
  refine List.all_eq_true.2 fun s hs => ?_
  have hread := List.all_eq_true.1 h s hs
  cases hitem : s.item with
  | «attribute» a =>
    rw [hitem, Item.reads] at hread
    rw [Item.reads]
    rcases hchange a with hnone | hsame
    · rw [hnone]
      rfl
    · rw [hsame]
      exact hread
  | modifier m => rfl
  | note n => rfl
  | params p => rfl

mutual

theorem Statement.reads_mono (hf : f'.Le f) : ∀ {s : Statement}, s.reads f = true →
    s.reads f' = true
  | .text _, _ => rfl
  | .comment _, _ => rfl
  | .note _, _ => rfl
  | .mustache _, _ => rfl
  | .block opening program sections closing, h => by
    simp only [Statement.reads, Bool.and_eq_true] at h ⊢
    refine ⟨⟨?_, Statement.readsAll_mono hf h.1.2⟩, Section.readsAll_mono hf h.2⟩
    cases hc : f'.conditions with
    | false => rfl
    | true => simpa only [hf.conditions hc] using h.1.1
  | .whole _, h => OpeningTag.reads_mono hf h
  | .element _ _ _, h => by
    simp only [Statement.reads, Bool.and_eq_true] at h ⊢
    exact ⟨OpeningTag.reads_mono hf h.1, Statement.readsAll_mono hf h.2⟩

theorem Statement.readsAll_mono (hf : f'.Le f) : ∀ {ss : List Statement},
    Statement.readsAll f ss = true → Statement.readsAll f' ss = true
  | [], _ => rfl
  | _ :: _, h => by
    simp only [Statement.readsAll, Bool.and_eq_true] at h ⊢
    exact ⟨Statement.reads_mono hf h.1, Statement.readsAll_mono hf h.2⟩

theorem Section.readsAll_mono (hf : f'.Le f) : ∀ {ss : List Section},
    Section.readsAll f ss = true → Section.readsAll f' ss = true
  | [], _ => rfl
  | ⟨_, _⟩ :: _, h => by
    simp only [Section.readsAll, Bool.and_eq_true] at h ⊢
    exact ⟨Statement.readsAll_mono hf h.1, Section.readsAll_mono hf h.2⟩

end

end

variable (f g)

mutual

@[simp] theorem Statement.chars_draft : ∀ s : Statement, (s.draft f).chars = s.chars
  | .text _ => rfl
  | .comment _ => rfl
  | .note _ => rfl
  | .mustache m => by simp [Statement.draft, Statement.chars]
  | .block opening program sections closing => by
    simp [Statement.draft, Draft.chars, Statement.chars, Statement.chars_draftAll program,
      Section.chars_draftAll sections]
  | .whole opening => by simp [Statement.draft, Statement.chars]
  | .element opening children closing => by
    simp [Statement.draft, Draft.chars, Statement.chars, Statement.chars_draftAll children]

@[simp] theorem Statement.chars_draftAll :
    ∀ ss : List Statement, (Statement.draftAll f ss).chars = Statement.charsAll ss
  | [] => rfl
  | s :: ss => by
    simp [Statement.draftAll, Draft.chars, Statement.chars_draft s, Statement.chars_draftAll ss,
      Statement.charsAll]

@[simp] theorem Section.chars_draftAll :
    ∀ ss : List Section, (Section.draftAll f ss).chars = Section.charsAll ss
  | [] => rfl
  | ⟨tag, body⟩ :: ss => by
    simp [Section.draftAll, Draft.chars, Statement.chars_draftAll body, Section.chars_draftAll ss,
      Section.charsAll, Section.chars]

end

mutual

/-- The text of what a statement becomes is its draft with the selected places replaced. -/
theorem Statement.chars_edit : ∀ (s : Statement), s.reads f.onlyArguments = true → ∀ k : Nat,
    (s.edit f g k).chars = (s.draft f).edited g k
  | .text _, _, _ => rfl
  | .comment _, _, _ => rfl
  | .note _, _, _ => rfl
  | .mustache m, _, k => Mustache.chars_edit f g m k
  | .block opening program sections closing, h, k => by
    simp only [Statement.reads, Bool.and_eq_true] at h
    have hprogram := Statement.chars_editAll program h.1.2 (k + size opening.chars)
    have hsections := Section.chars_editAll sections h.2
      (k + size opening.chars + size (Statement.charsAll program))
    have hsize : (Draft.append (opening.draft f) (.append (Statement.draftAll f program)
        (.append (Section.draftAll f sections) (.text closing.chars)))).chars =
          (Statement.block opening program sections closing).chars := by
      simp [Draft.chars, Statement.chars]
    rw [Statement.edit, Statement.draft, Draft.edited_placed, apply_pick Statement.chars, hsize]
    simp [Statement.chars, Draft.edited, hprogram, hsections, BlockTag.chars_edit, Span.over]
  | .whole opening, h, k => OpeningTag.chars_edit f g h k
  | .element opening children closing, h, k => by
    simp only [Statement.reads, Bool.and_eq_true] at h
    have hchildren := Statement.chars_editAll children h.2 (k + size opening.chars)
    have hopening := OpeningTag.chars_edit f g h.1 k
    simp [Statement.edit, Statement.chars, Statement.draft, Draft.edited, hchildren,
      hopening]

theorem Statement.chars_editAll : ∀ (ss : List Statement),
    Statement.readsAll f.onlyArguments ss = true → ∀ k : Nat,
      Statement.charsAll (Statement.editAll f g k ss) = (Statement.draftAll f ss).edited g k
  | [], _, _ => rfl
  | s :: ss, h, k => by
    simp only [Statement.readsAll, Bool.and_eq_true] at h
    have hs := Statement.chars_edit s h.1 k
    have hss := Statement.chars_editAll ss h.2 (k + size s.chars)
    simp [Statement.editAll, Statement.charsAll, Statement.draftAll, Draft.edited, hs, hss]

theorem Section.chars_editAll : ∀ (ss : List Section),
    Section.readsAll f.onlyArguments ss = true → ∀ k : Nat,
      Section.charsAll (Section.editAll f g k ss) = (Section.draftAll f ss).edited g k
  | [], _, _ => rfl
  | ⟨tag, body⟩ :: ss, h, k => by
    simp only [Section.readsAll, Bool.and_eq_true] at h
    have hbody := Statement.chars_editAll body h.1 (k + size tag.chars)
    have hss := Section.chars_editAll ss h.2
      (k + size tag.chars + size (Statement.charsAll body))
    simp [Section.editAll, Section.charsAll, Section.chars, Section.draftAll, Draft.edited,
      ElseTag.chars_edit, hbody, hss]

end

/-- A block differs from what it becomes right at its helper or at its condition. -/
theorem Statement.Stands.differ {s s' : Statement} {rest : List Char} (h : s.Stands rest)
    (hs : s.unnegated? = some s') : Draft.Differ s.chars s'.chars := by
  match s, h with
  | .block opening program sections closing, h =>
    obtain ⟨⟨hcall, -⟩, -⟩ := h
    obtain ⟨n, hn, hs⟩ := eq_of_blockUnnegated? hs
    obtain ⟨hn, -⟩ := eq_of_blockNegated? hn
    rcases hs with ⟨tilde, lead, trail, after, body, more, -, rfl, rfl⟩ | rfl
    · rw [Statement.chars, Statement.chars, BlockTag.chars_withCall, BlockTag.chars_eq]
      have hd := differ_condition hcall hn (Arg.charsAll n.rest ++ opening.call.trail)
      have hfreed : (opening.call.freed n (helperWord n.helper)).chars = opening.call.lead ++
          (n.helper.helper.toList ++ (n.gap ++ (n.operand.chars ++
            (Arg.charsAll n.rest ++ opening.call.trail)))) := by
        rw [Call.freed, Call.chars_join, Arg.charsAll_join]
        simp [helperWord, Expr.chars]
      rw [← hfreed] at hd
      have hd := ((hd.append opening.ending.chars opening.ending.chars).append_left opening.front)
      have hd := hd.append (Statement.charsAll program ++ (Section.charsAll
          (⟨⟨tilde, lead, .plain trail after⟩, body⟩ :: more) ++ closing.chars))
        (Statement.charsAll body ++ (Section.charsAll
          (⟨⟨tilde, lead, .plain trail after⟩, program⟩ :: more) ++ closing.chars))
      simpa using hd
    · rw [Statement.chars, Statement.chars, BlockTag.chars_withCall, BlockTag.chars_eq]
      have hd := differ_flip hn
      have hd := ((hd.append opening.ending.chars opening.ending.chars).append_left opening.front)
      have hd := hd.append (Statement.charsAll program ++ (Section.charsAll sections ++ closing.chars))
        (Statement.charsAll program ++ (Section.charsAll sections ++
          (closing.withName n.helper.flip.helper.toList).chars))
      simpa using hd

mutual

theorem Statement.Stands.sound : ∀ {s : Statement} {rest : List Char}, s.Stands rest →
    (s.draft f).Sound
  | .text _, _, _ => trivial
  | .comment _, _, _ => trivial
  | .note _, _, _ => trivial
  | .mustache m, _, h => Mustache.Stands.sound h.1
  | .block opening program sections closing, rest, h => by
    have hd := fun s' (hs' : _ = some s') => Statement.Stands.differ h hs'
    obtain ⟨hopening, hprogram, hsections, -⟩ := h
    have hinner : (Draft.append (opening.draft f) (.append (Statement.draftAll f program)
        (.append (Section.draftAll f sections) (.text closing.chars)))).Sound :=
      ⟨hopening.sound, Statement.AllStand.sound hprogram, Section.AllStand.sound hsections, trivial⟩
    apply Draft.sound_placed hinner rfl
    intro cs hcs
    obtain ⟨s', hs', rfl⟩ := Option.map_eq_some_iff.1 hcs
    have hs' := hd s' (Fixers.eq_of_unnegatedBlock? hs').2
    simpa [Draft.chars, Statement.chars] using hs'
  | .whole opening, _, h => h.1.sound
  | .element opening children closing, _, h => by
    obtain ⟨hopening, -, hchildren, -⟩ := h
    exact ⟨hopening.sound, Statement.AllStand.sound hchildren, trivial⟩

theorem Statement.AllStand.sound : ∀ {ss : List Statement} {rest : List Char},
    Statement.AllStand ss rest → (Statement.draftAll f ss).Sound
  | [], _, _ => trivial
  | _ :: _, _, h => ⟨Statement.Stands.sound h.1, Statement.AllStand.sound h.2⟩

theorem Section.AllStand.sound : ∀ {ss : List Section} {rest : List Char},
    Section.AllStand ss rest → (Section.draftAll f ss).Sound
  | [], _, _ => trivial
  | ⟨_, _⟩ :: _, _, h => by
    obtain ⟨htag, hbody, -, hss⟩ := h
    exact ⟨htag.sound, Statement.AllStand.sound hbody, Section.AllStand.sound hss⟩

end

theorem fixesAt_block (source : String) (b : Tree.Block) :
    f.fixesAt source (.block b) = if f.conditions then
      ((NegatedCondition.blockFinding? source b).bind Finding.fix).toList else [] := by
  cases hc : f.conditions with
  | false => simp [Fixers.fixesAt, hc, Rule.visit, ComponentArguments.rule, Tree.Node.kind]
  | true =>
    simp only [Fixers.fixesAt, hc, Rule.visit, ComponentArguments.rule, NegatedCondition.rule,
      Tree.Node.kind, NegatedCondition.findings]
    cases NegatedCondition.blockFinding? source b with
    | none => simp
    | some finding => cases hf : finding.fix <;> simp [hf]

/-- A segment of a chain is no place. -/
theorem fixesAt_segment {source : String} {b : Tree.Block} (hb : b.close = none) :
    f.fixesAt source (.block b) = [] := by
  have hnone : NegatedCondition.blockFinding? source b = none := by
    unfold NegatedCondition.blockFinding?
    rw [hb]
    cases Conditional.ofCall? b.call <;> rfl
  rw [fixesAt_block, hnone]
  exact ite_self _

@[simp] theorem fixesAt_comment (src : String) (c : Tree.Comment) :
    f.fixesAt src (.comment c) = [] := by
  simp [Fixers.fixesAt, Rule.visit, NegatedCondition.rule, ComponentArguments.rule, Tree.Node.kind]

theorem ElseTag.Stands.fixes_perm {t : ElseTag} (h : t.Stands) {call : Call} {ending : TagEnd}
    (ht : t.tail = .chained call ending) (u v : List Char) (src : String)
    (hsrc : src = String.ofList (u ++ (t.chars ++ v))) {k : Nat} (hk : k = size u) :
    (f.fixesIn src (call.at (k + t.tailOffset)).nodes).Perm ((t.draft f).fixes k) := by
  obtain ⟨tilde, lead, tail⟩ := t
  obtain rfl : tail = .chained call ending := ht
  obtain ⟨-, -, hcall, -⟩ := h
  have hcall := Call.Stands.fixes_perm f hcall
    (u ++ (ElseTag.mk tilde lead (.chained call ending)).front)
    (ending.chars ++ v) src (by rw [hsrc, ElseTag.chars_eq]; simp [ElseTail.chars])
    (k := k + size (ElseTag.mk tilde lead (.chained call ending)).front)
    (by rw [hk, Text.size_append])
  simp only [ElseTag.draft, Draft.fixes, Draft.chars, List.nil_append, List.append_nil]
  exact hcall

theorem nodes_blockAt (k : Nat) (opening : BlockTag) (program : List Statement)
    (sections : List Section) (closing : CloseTag) :
    (blockAt k opening program sections closing).nodes =
      .block (blockAt k opening program sections closing) ::
        ((opening.call.at (k + opening.callOffset)).nodes ++
          Tree.Statement.nodesAll (Statement.atAll (k + size opening.chars) program) ++
          (Section.atAll (k + size opening.chars + size (Statement.charsAll program))
            sections).nodes) := by
  rw [← Statement.widthAll_eq]
  rfl

theorem Statement.chars_draft_block (opening : BlockTag) (program : List Statement)
    (sections : List Section) (closing : CloseTag) :
    (Draft.append (opening.draft f) (.append (Statement.draftAll f program)
      (.append (Section.draftAll f sections) (.text closing.chars)))).chars =
        (Statement.block opening program sections closing).chars := by
  simp [Draft.chars, Statement.chars]

/-- The fix for a block is to write it without its negation. -/
theorem BlockTag.Stands.fixesAt_block {opening : BlockTag} (h : opening.Stands)
    (program : List Statement) (sections : List Section) (closing : CloseTag) (u v : List Char)
    {src : String}
    (hsrc : src = String.ofList
      (u ++ ((Statement.block opening program sections closing).chars ++ v)))
    {k : Nat} (hk : k = size u) :
    f.fixesAt src (.block (blockAt k opening program sections closing)) =
      (((f.unnegatedBlock? (.block opening program sections closing)).map Statement.chars).map
        fun cs => (⟨.over k (Statement.block opening program sections closing).chars,
          String.ofList cs⟩ : Fix)).toList := by
  subst hk
  rw [Concrete.fixesAt_block, blockFinding?_fix h.1 program sections closing u v hsrc]
  unfold Fixers.unnegatedBlock?
  cases f.conditions <;> simp [Function.comp_def]

mutual

/-- The fixes that are found in the tree of a statement are those of its draft. -/
theorem Statement.Stands.fixes_perm : ∀ {s : Statement} {rest : List Char}, s.Stands rest →
    ∀ (u v : List Char) (src : String), src = String.ofList (u ++ (s.chars ++ v)) →
      ∀ {k : Nat}, k = size u → (f.fixesIn src (s.at k).nodes).Perm ((s.draft f).fixes k)
  | .text cs, _, _, _, _, _, _, _, _ => by
    simp [Statement.at, Tree.Statement.nodes, Statement.draft, Draft.fixes]
  | .comment value, _, _, _, _, _, _, _, _ => by
    simp [Statement.at, Tree.Statement.nodes, Statement.draft, Draft.fixes]
  | .note n, _, _, _, _, _, _, _, _ => by
    simp [Statement.at, Tree.Statement.nodes, Statement.draft, Draft.fixes]
  | .mustache m, _, h, u, v, src, hsrc, k, hk => by
    rw [Statement.at, Tree.Statement.nodes, Statement.draft]
    exact h.1.fixes_perm u v src hsrc hk
  | .block opening program sections closing, _, h, u, v, src, hsrc, k, hk => by
    obtain ⟨hopening, hprogram, hsections, -⟩ := h
    have h₁ := hopening.fixes_perm (f := f) u (Statement.charsAll program ++
      (Section.charsAll sections ++ (closing.chars ++ v))) src
      (by rw [hsrc, Statement.chars]; simp) hk
    have h₂ := Statement.AllStand.fixes_perm hprogram (u ++ opening.chars)
      (Section.charsAll sections ++ (closing.chars ++ v)) src
      (by rw [hsrc, Statement.chars]; simp) (k := k + size opening.chars)
      (by rw [hk, Text.size_append])
    have h₃ := Section.AllStand.fixes_perm hsections
      (u ++ opening.chars ++ Statement.charsAll program)
      (closing.chars ++ v) src (by rw [hsrc, Statement.chars]; simp)
      (k := k + size opening.chars + size (Statement.charsAll program))
      (by rw [hk, Text.size_append, Text.size_append])
    rw [Statement.at_block, Tree.Statement.nodes, Statement.draft, Draft.fixes_placed,
      Statement.chars_draft_block, nodes_blockAt, Fixers.fixesIn_cons,
      hopening.fixesAt_block f program sections closing u v hsrc hk]
    simp only [Fixers.fixesIn_append, Draft.fixes, BlockTag.chars_draft, Statement.chars_draftAll,
      List.append_nil, List.append_assoc]
    exact (h₁.append (h₂.append h₃)).append_left _
  | .whole opening, _, h, u, v, src, hsrc, k, hk => by
    have hopening := h.1.fixes_perm (f := f) u v src hsrc hk
    have hnodes : (opening.at k).nodes = .element (opening.at k) :: (opening.at k).openingNodes := by
      rw [← List.append_nil (opening.at k).openingNodes]
      rfl
    rw [Statement.at, Tree.Statement.nodes, hnodes, Fixers.fixesIn_cons, Statement.draft]
    exact hopening
  | .element opening children closing, _, h, u, v, src, hsrc, k, hk => by
    obtain ⟨hopening, -, hchildren, -⟩ := h
    have h₁ := hopening.fixes_perm (f := f) u (Statement.charsAll children ++
      (Token.closingTagOpen.chars ++ (closing ++ ['>'] ++ v))) src
      (by rw [hsrc, Statement.chars]; simp) hk
    have h₂ := Statement.AllStand.fixes_perm hchildren (u ++ opening.chars)
      (Token.closingTagOpen.chars ++ (closing ++ ['>'] ++ v)) src
      (by rw [hsrc, Statement.chars]; simp) (k := k + size opening.chars)
      (by rw [hk, Text.size_append])
    have hnodes : ((Statement.element opening children closing).at k).nodes.flatMap (f.fixesAt src) =
        f.fixesAt src (.element (opening.at k)) ++ (f.fixesIn src (opening.at k).openingNodes ++
          f.fixesIn src (Tree.Statement.nodesAll
            (Statement.atAll (k + size opening.chars) children))) := by
      rw [← Fixers.fixesIn_append]
      rfl
    rw [Fixers.fixesIn, hnodes, ← List.append_assoc]
    simp only [Statement.draft, Draft.fixes, OpeningTag.chars_draft, List.append_nil]
    exact h₁.append h₂

theorem Statement.AllStand.fixes_perm : ∀ {ss : List Statement} {rest : List Char},
    Statement.AllStand ss rest → ∀ (u v : List Char) (src : String),
      src = String.ofList (u ++ (Statement.charsAll ss ++ v)) → ∀ {k : Nat}, k = size u →
        (f.fixesIn src (Tree.Statement.nodesAll (Statement.atAll k ss))).Perm
          ((Statement.draftAll f ss).fixes k)
  | [], _, _, _, _, _, _, _, _ => .nil
  | s :: ss, _, h, u, v, src, hsrc, k, hk => by
    have h₁ := Statement.Stands.fixes_perm h.1 u (Statement.charsAll ss ++ v) src
      (by rw [hsrc, Statement.charsAll]; simp) hk
    have h₂ := Statement.AllStand.fixes_perm h.2 (u ++ s.chars) v src
      (by rw [hsrc, Statement.charsAll]; simp) (k := k + size s.chars)
      (by rw [hk, Text.size_append])
    simp only [Statement.atAll, Tree.Statement.nodesAll, Fixers.fixesIn_append,
      Statement.draftAll, Draft.fixes, Statement.chars_draft, Statement.width_eq]
    exact h₁.append h₂

theorem Section.AllStand.fixes_perm : ∀ {ss : List Section} {rest : List Char},
    Section.AllStand ss rest → ∀ (u v : List Char) (src : String),
      src = String.ofList (u ++ (Section.charsAll ss ++ v)) → ∀ {k : Nat}, k = size u →
        (f.fixesIn src (Section.atAll k ss).nodes).Perm ((Section.draftAll f ss).fixes k)
  | [], _, _, _, _, _, _, _, _ => .nil
  | ⟨tag, body⟩ :: ss, _, h, u, v, src, hsrc, k, hk => by
    obtain ⟨htag, hbody, hlast, hss⟩ := h
    have h₂ := Statement.AllStand.fixes_perm hbody (u ++ tag.chars) (Section.charsAll ss ++ v)
      src (by rw [hsrc, Section.charsAll, Section.chars]; simp)
      (k := k + size tag.chars) (by rw [hk, Text.size_append])
    have h₃ := Section.AllStand.fixes_perm hss (u ++ tag.chars ++ Statement.charsAll body) v
      src (by rw [hsrc, Section.charsAll, Section.chars]; simp)
      (k := k + size tag.chars + size (Statement.charsAll body))
      (by rw [hk, Text.size_append, Text.size_append])
    obtain ⟨tilde, lead, tail⟩ := tag
    cases tail with
    | plain trail after =>
      obtain rfl := hlast _ _ rfl
      simp only [Section.atAll, Tree.ElsePart.nodes, Tree.Body.nodes, Section.draftAll,
        Draft.fixes, ElseTag.draft, Draft.chars, List.nil_append, List.append_nil]
      exact h₂
    | chained call ending =>
      have h₁ := htag.fixes_perm f rfl u (Statement.charsAll body ++ (Section.charsAll ss ++ v))
        src (by rw [hsrc, Section.charsAll, Section.chars]; simp) hk
      simp only [Section.atAll, Tree.ElsePart.nodes, Tree.Block.nodes, Tree.Body.nodes,
        Fixers.fixesIn_cons, Fixers.fixesIn_append, Statement.widthAll_eq, Section.draftAll,
        Draft.fixes, ElseTag.chars_draft, Statement.chars_draftAll, List.append_assoc]
      rw [fixesAt_segment f rfl, List.nil_append]
      exact h₁.append (h₂.append h₃)

end

variable {f g}

/-- No text goes on where a statement with fixes begins, be they read or not. -/
theorem Statement.Stands.front_edit {s : Statement} {rest : List Char} (h : s.Stands rest)
    (hs : s.isText = false) (k : Nat) (u : List Char) :
    ((s.edit f g k).chars ++ u).head? = some s.mark ∧
      textEndAhead ((s.edit f g k).chars ++ u) = true := by
  match s, h with
  | .comment value, h => exact h.front rfl u
  | .note n, h => exact h.front rfl u
  | .mustache m, hm =>
    have hedit : (Statement.mustache (m.edit f g k)).Stands rest :=
      ⟨hm.1.edit k, hm.1.ahead_edit hm.2 k⟩
    exact hedit.front rfl u
  | .block opening program sections closing, _ =>
    apply pick_induction (p := fun s : Statement => (s.chars ++ u).head? = some '{' ∧
      textEndAhead (s.chars ++ u) = true)
    · intro s hs
      obtain ⟨-, hs⟩ := Fixers.eq_of_unnegatedBlock? hs
      obtain ⟨n, -, ⟨tilde, lead, trail, after, body, more, -, -, rfl⟩ | rfl⟩ :=
        eq_of_blockUnnegated? hs
      · exact Statement.front_block _ _ _ _ u
      · exact Statement.front_block _ _ _ _ u
    · exact Statement.front_block _ _ _ _ u
  | .whole opening, ho =>
    have hedit : (Statement.whole (opening.edit f g k)).Stands rest := ⟨ho.1.edit k, ho.2⟩
    exact hedit.front rfl u
  | .element opening children closing, ho =>
    simp only [Statement.edit, Statement.chars, List.append_assoc]
    exact ⟨(opening.edit f g k).head_chars _,
      textEndAhead_of_ahead ((ho.1.edit k).ahead_append _) (by decide)⟩

/-- A text before statements does not see what becomes of them. -/
theorem Statement.AllStand.front_edit {ss : List Statement} {rest : List Char} {k : Nat}
    (h : Statement.AllStand ss rest) :
    (Statement.charsAll ss ++ rest).head? =
        (Statement.charsAll (Statement.editAll f g k ss) ++ rest).head? ∧
      (textEndAhead (Statement.charsAll ss ++ rest) = true →
        textEndAhead (Statement.charsAll (Statement.editAll f g k ss) ++ rest) = true) := by
  cases ss with
  | nil => exact ⟨rfl, id⟩
  | cons s ss =>
    obtain ⟨hs, -⟩ := h
    simp only [Statement.editAll, Statement.charsAll, List.append_assoc]
    cases ht : s.isText with
    | false =>
      obtain ⟨hhead, -⟩ := hs.front ht (Statement.charsAll ss ++ rest)
      obtain ⟨hhead', hend'⟩ := hs.front_edit (f := f) (g := g) ht k
        (Statement.charsAll (Statement.editAll f g (k + size s.chars) ss) ++ rest)
      rw [hhead, hhead']
      exact ⟨rfl, fun _ => hend'⟩
    | true =>
      match s, hs with
      | .text cs, hs =>
        obtain ⟨c, cs, rfl⟩ := List.exists_cons_of_ne_nil hs.1
        refine ⟨rfl, fun hend => ?_⟩
        rw [hs.isText_eq_false hend] at ht
        cases ht

theorem Section.AllStand.front_edit {ss : List Section} {rest u : List Char} {k : Nat}
    (h : Section.AllStand ss rest) (hh : rest.head? = u.head?) (hu : textEndAhead u = true) :
    (Section.charsAll ss ++ rest).head? =
        (Section.charsAll (Section.editAll f g k ss) ++ u).head? ∧
      textEndAhead (Section.charsAll (Section.editAll f g k ss) ++ u) = true := by
  cases ss with
  | nil => exact ⟨hh, hu⟩
  | cons s ss =>
    obtain ⟨tag, body⟩ := s
    obtain ⟨htag, -⟩ := h
    constructor
    · obtain ⟨tilde, lead, tail⟩ := tag
      cases tail <;> rfl
    · have hahead := (htag.edit (f := f) (g := g) k).ahead_append
        (Statement.charsAll (Statement.editAll f g (k + size tag.chars) body) ++
          (Section.charsAll (Section.editAll f g
            (k + size tag.chars + size (Statement.charsAll body)) ss) ++ u))
      simpa [Section.editAll, Section.charsAll, Section.chars] using
        textEndAhead_of_ahead hahead (by decide)

mutual

/-- A statement with fixes applied stands where it stood before. -/
theorem Statement.Stands.edit : ∀ {s : Statement} {rest : List Char} {k : Nat}, s.Stands rest →
    s.admits f g k = true → (s.edit f g k).Stands rest
  | .text _, _, _, h, _ => h
  | .comment _, _, _, h, _ => h
  | .note _, _, _, h, _ => h
  | .mustache m, _, k, h, _ => ⟨h.1.edit k, h.1.ahead_edit h.2 k⟩
  | .block opening program sections closing, rest, k, h, ha => by
    rw [Statement.admits] at ha
    rw [Statement.edit, pick_eq]
    split
    · next hplace =>
      rw [if_pos hplace, Bool.not_eq_true'] at ha
      obtain ⟨s', hs'⟩ := Option.isSome_iff_exists.1 (Bool.and_eq_true_iff.1 hplace).2
      rw [hs']
      exact Statement.Stands.unnegated h (Fixers.eq_of_unnegatedBlock? hs').2 ha
    · next hplace =>
      rw [if_neg hplace, Bool.and_eq_true] at ha
      obtain ⟨hopening, hprogram, hsections, name, hname, hclosing⟩ := h
      have hend := closing.textEnd_alone
      have hprogram' := Statement.AllStand.edit hprogram ha.1
      obtain ⟨hhead, hend'⟩ := hsections.front_edit (f := f) (g := g)
        (k := k + size opening.chars + size (Statement.charsAll program)) rfl hend
      refine ⟨hopening.edit k, hprogram'.congr hhead (Section.textEnd hsections hend) hend',
        Section.AllStand.edit hsections ha.2 hend, name, ?_, hclosing⟩
      exact opening.path?_edit k hname
  | .whole opening, _, k, h, _ => ⟨h.1.edit k, h.2⟩
  | .element opening children closing, rest, k, h, ha => by
    obtain ⟨hopening, hwhole, hchildren, hangle, htrim⟩ := h
    exact ⟨hopening.edit k, hwhole, Statement.AllStand.edit hchildren ha, hangle, htrim⟩

theorem Statement.AllStand.edit : ∀ {ss : List Statement} {rest : List Char} {k : Nat},
    Statement.AllStand ss rest → Statement.admitsAll f g k ss = true →
      Statement.AllStand (Statement.editAll f g k ss) rest
  | [], _, _, _, _ => trivial
  | s :: ss, rest, k, h, ha => by
    simp only [Statement.admitsAll, Bool.and_eq_true] at ha
    obtain ⟨hs, hss⟩ := h
    obtain ⟨hhead, hend⟩ := hss.front_edit (f := f) (g := g) (k := k + size s.chars)
    exact ⟨(Statement.Stands.edit hs ha.1).congr hhead hend, Statement.AllStand.edit hss ha.2⟩

theorem Section.AllStand.edit : ∀ {ss : List Section} {rest : List Char} {k : Nat},
    Section.AllStand ss rest → Section.admitsAll f g k ss = true → textEndAhead rest = true →
      Section.AllStand (Section.editAll f g k ss) rest
  | [], _, _, _, _, _ => trivial
  | ⟨tag, body⟩ :: ss, rest, k, h, ha, hend => by
    simp only [Section.admitsAll, Bool.and_eq_true] at ha
    obtain ⟨htag, hbody, hlast, hss⟩ := h
    have hbody' := Statement.AllStand.edit hbody ha.1
    obtain ⟨hhead, hend'⟩ := hss.front_edit (f := f) (g := g)
      (k := k + size tag.chars + size (Statement.charsAll body)) rfl hend
    refine ⟨htag.edit k, hbody'.congr hhead (Section.textEnd hss hend) hend', ?_,
      Section.AllStand.edit hss ha.2 hend⟩
    intro trail tilde htail
    obtain ⟨before, lead, tail⟩ := tag
    cases tail with
    | plain trail' tilde' =>
      obtain rfl := hlast _ _ rfl
      rfl
    | chained call ending => cases htail

end

end Concrete

end TemplateLint
