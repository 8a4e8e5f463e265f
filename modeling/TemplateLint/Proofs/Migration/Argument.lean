import TemplateLint.Proofs.Fixing.Alone
import TemplateLint.Proofs.Fixing.Handler
import TemplateLint.Proofs.Migration.Rewrite

namespace TemplateLint

open Text (size)

/-- The rule for arguments alone. -/
def Fixers.migrations : Fixers := ⟨false, true⟩

namespace Concrete

variable {g : Span → Bool}

mutual

/-- Calls stay as they are when only arguments are written anew. -/
theorem Expr.edit_migrations : ∀ (e : Expr) (k : Nat), e.edit .migrations g k = e
  | .word _, _ => rfl
  | .quoted _ _, _ => rfl
  | .group call, k => by
    rw [Expr.edit, Call.edit_migrations call (k + 1)]
    rfl

theorem Call.edit_migrations : ∀ (c : Call) (k : Nat), c.edit .migrations g k = c
  | ⟨lead, callee, args, trail⟩, k => by
    rw [Call.edit, Expr.edit_migrations callee, Arg.editAll_migrations args]

theorem Arg.editAll_migrations : ∀ (as : List Arg) (k : Nat), Arg.editAll .migrations g k as = as
  | [], _ => rfl
  | ⟨lead, key, value⟩ :: args, k => by
    rw [Arg.editAll, Expr.edit_migrations value, Arg.editAll_migrations args]

end

theorem Mustache.editInner_migrations (m : Mustache) (k : Nat) :
    m.editInner .migrations g k = m := by
  rw [Mustache.editInner, Call.edit_migrations]
  rfl

theorem Mustache.edit_migrations (m : Mustache) (k : Nat) : m.edit .migrations g k = m := by
  rw [Mustache.edit, Mustache.editInner_migrations]
  rfl

theorem Part.editAll_migrations (ps : List Part) (k : Nat) : Part.editAll .migrations g k ps = ps := by
  induction ps generalizing k with
  | nil => rfl
  | cons p ps ih =>
    cases p with
    | text cs => rw [Part.editAll, ih]
    | mustache m => rw [Part.editAll, ih, Mustache.edit_migrations]

theorem AttrValue.edit_migrations (v : AttrValue) (k : Nat) : v.edit .migrations g k = v := by
  cases v with
  | quoted mark parts => rw [AttrValue.edit, Part.editAll_migrations]
  | mustache m => rw [AttrValue.edit, Mustache.edit_migrations]
  | bare cs => rfl

theorem Attribute.editValue_migrations (a : Attribute) (k : Nat) :
    a.editValue .migrations g k = a := by
  obtain ⟨name, assigned⟩ := a
  cases assigned with
  | none => rfl
  | some v => simp [Attribute.editValue, Assigned.edit, AttrValue.edit_migrations]

theorem BlockTag.edit_migrations (t : BlockTag) (k : Nat) : t.edit .migrations g k = t := by
  rw [BlockTag.edit, Call.edit_migrations]
  rfl

theorem ElseTag.edit_migrations (t : ElseTag) (k : Nat) : t.edit .migrations g k = t := by
  obtain ⟨tilde, lead, tail⟩ := t
  cases tail with
  | plain trail after => rfl
  | chained call ending => simp only [ElseTag.edit, Call.edit_migrations]

mutual

/-- Blocks stay as well, so that no words can be joined. -/
theorem Statement.admits_migrations : ∀ (s : Statement) (k : Nat),
    s.admits .migrations g k = true
  | .text _, _ | .comment _, _ | .note _, _ | .mustache _, _ | .whole _, _ => rfl
  | .block opening program sections closing, k => by
    have hplace : ∀ chosen : Bool, (chosen && (Fixers.migrations.unnegatedBlock?
        (.block opening program sections closing)).isSome) = false := Bool.and_false
    rw [Statement.admits, hplace, if_neg Bool.false_ne_true, Statement.admitsAll_migrations program,
      Section.admitsAll_migrations sections]
    rfl
  | .element opening children closing, k => by
    rw [Statement.admits, Statement.admitsAll_migrations children]

theorem Statement.admitsAll_migrations : ∀ (ss : List Statement) (k : Nat),
    Statement.admitsAll .migrations g k ss = true
  | [], _ => rfl
  | s :: ss, k => by
    rw [Statement.admitsAll, Statement.admits_migrations s, Statement.admitsAll_migrations ss]
    rfl

theorem Section.admitsAll_migrations : ∀ (ss : List Section) (k : Nat),
    Section.admitsAll .migrations g k ss = true
  | [], _ => rfl
  | ⟨tag, body⟩ :: ss, k => by
    rw [Section.admitsAll, Statement.admitsAll_migrations body, Section.admitsAll_migrations ss]
    rfl

end

/-- A call as the argument of a modifier has the shape that the tree says. -/
theorem Call.bare_asHandler (c : Call) (k : Nat) :
    ((c.at k).asArgument).shape nowhere = c.asHandler.bare := by
  unfold Tree.Call.asArgument Call.asHandler
  rw [Call.at_isEmpty]
  cases c.args.isEmpty with
  | true =>
    obtain ⟨lead, callee, args, trail⟩ := c
    exact Expr.at_bare callee (k + size lead)
  | false =>
    simp only [Bool.false_eq_true, if_false, Tree.Expr.shape, pick_nowhere, Call.at_bare,
      Expr.bare_group]
    obtain ⟨lead, callee, args, trail⟩ := c
    rw [Call.trimmed, Call.bare_eq, Call.bare_eq]

/-- A handler that the tree has is written as one expression. -/
theorem AttrValue.Stands.handlerExpr?_at {w : AttrValue} {rest : List Char} (h : w.Stands rest)
    (u v : List Char) (src : String) (hsrc : src = String.ofList (u ++ (w.chars ++ v))) {k : Nat}
    (hk : k = size u) {expr : Tree.Expr} (he : (w.at k).handlerExpr? src = some expr) :
    ∃ e : Expr, w.handler? = some e.chars ∧ e.Stands [] ∧ expr.shape nowhere = e.bare := by
  have hread : ((w.handler?.map String.ofList).bind Expr.ofText?).map (Expr.at 0) = some expr →
      ∃ e : Expr, w.handler? = some e.chars ∧ e.Stands [] ∧ expr.shape nowhere = e.bare := by
    intro he
    obtain ⟨e, hread, rfl⟩ := Option.map_eq_some_iff.1 he
    obtain ⟨text, htext, hread⟩ := Option.bind_eq_some_iff.1 hread
    obtain ⟨handler, hhandler, rfl⟩ := Option.map_eq_some_iff.1 htext
    unfold Expr.ofText? at hread
    rw [String.toList_ofList] at hread
    split at hread
    · next hx =>
      cases hread
      obtain ⟨hchars, hstands⟩ := Expr.eq_of_read hx
      rw [List.append_nil] at hchars
      exact ⟨e, by rw [hhandler, hchars], hstands, rfl⟩
    · cases hread
  rw [← h.handler?_at u v src hsrc hk] at hread
  cases w with
  | quoted mark parts =>
    apply hread
    rw [AttrValue.at] at he ⊢
    split at he <;> split <;> first | exact he | contradiction
  | bare cs => exact hread he
  | mustache m =>
    cases he
    have hm : m.call.Stands m.closing := h
    refine ⟨m.call.asHandler, ?_, hm.asHandler m.opens_closing, Call.bare_asHandler _ _⟩
    rw [Call.chars_asHandler]
    rfl

theorem unescape_eq_self {cs : List Char} (h : '\\' ∉ cs) : unescape cs = cs := by
  induction cs with
  | nil => rfl
  | cons c cs ih =>
    obtain ⟨hc, hcs⟩ := List.ne_and_not_mem_of_not_mem_cons h
    rw [unescape, ih hcs]
    · rintro d ds rfl
      exact absurd rfl hc
    · rintro rfl
      exact absurd rfl hc

theorem not_mem_of_plain {cs : List Char} (h : isPlainName cs = true) : '\\' ∉ cs := by
  simp only [isPlainName, Bool.and_eq_true, List.all_eq_true] at h
  intro hmem
  exact absurd (h.2 _ hmem) (by decide)

/-- A modifier for an event is read as the tree has it. -/
theorem onModifier_shape {event : String} (hevent : isPlainName event.toList = true) {handler : Expr}
    {expr : Tree.Expr} (h : expr.shape nowhere = handler.bare) (span : Span) (i : Nat) :
    Tree.ElementModifier.shape nowhere ⟨((onModifier event.toList handler).at i).call,
        ((onModifier event.toList handler).at i).span⟩ =
      (Tree.onModifier event expr span).shape nowhere := by
  have hraw := unescape_eq_self (not_mem_of_plain hevent)
  have hcall : (onModifier event.toList handler).call.bare =
      (Tree.onModifier event expr span).call.shape nowhere := by
    have hquoted : (Expr.quoted '"' event.toList).bare = .literal ⟨.string event, default⟩ := by
      rw [Expr.bare, Expr.at, hraw, String.ofList_toList]
      rfl
    rw [onModifier, Call.bare_eq, Arg.bareParams_value, Arg.bareParams_value, hquoted, ← h]
    rfl
  rw [Tree.ElementModifier.shape, Tree.ElementModifier.shape, Mustache.at, Call.at_bare, hcall]

theorem OpeningTag.migration?_at (t : OpeningTag) (j : Nat) (a : Attribute) (k : Nat) :
    (t.at j).migration? (a.at k) = t.migration? a := by
  simp only [Tree.Element.migration?, OpeningTag.migration?, Attribute.at_argumentName?,
    ComponentSchema.migration?, ← ComponentSchema.deprecation?_eq]
  rfl

/-- How an argument gets another name. -/
theorem OpeningTag.eq_of_name {t : OpeningTag} {a : Attribute} {new : List Char}
    (h : t.change? a = some (.name new)) :
    ∃ name, t.migration? a = some (.attribute name) ∧
      (t.items.any fun s => s.item.hasName name) = false ∧ new = name.toList := by
  rw [OpeningTag.change?_eq] at h
  obtain ⟨migration, hm, h⟩ := Option.bind_eq_some_iff.1 h
  cases migration with
  | «attribute» name =>
    rw [OpeningTag.changeBy?] at h
    split at h
    · cases h
    · next hno =>
      cases h
      exact ⟨name, hm, Bool.eq_false_iff.2 hno, rfl⟩
  | event event =>
    obtain ⟨v, -, h⟩ := Option.bind_eq_some_iff.1 h
    obtain ⟨handler, -, h⟩ := Option.map_eq_some_iff.1 h
    cases h

/-- How an argument becomes a modifier. -/
theorem OpeningTag.eq_of_whole {t : OpeningTag} {a : Attribute} {text : List Char}
    (h : t.change? a = some (.whole text)) :
    ∃ event v handler, t.migration? a = some (.event event) ∧ a.assigned = some v ∧
      v.value.handler? = some handler ∧ text = eventText event handler := by
  rw [OpeningTag.change?_eq] at h
  obtain ⟨migration, hm, h⟩ := Option.bind_eq_some_iff.1 h
  cases migration with
  | «attribute» name =>
    rw [OpeningTag.changeBy?] at h
    split at h <;> cases h
  | event event =>
    obtain ⟨v, hv, h⟩ := Option.bind_eq_some_iff.1 h
    obtain ⟨handler, hhandler, h⟩ := Option.map_eq_some_iff.1 h
    cases h
    exact ⟨event, v, handler, hm, hv, hhandler, rfl⟩

/-- What an attribute at `k` becomes as an item, and how it is written anew in the tree. -/
inductive Attribute.Becomes (a : Attribute) (k : Nat) : Option Tree.Rewrite → Item → Prop where
  | same : Becomes a k none (.attribute a)
  | named (new : List Char) :
    Becomes a k (some (.name (String.ofList new))) (.attribute (a.named new))
  | modifier {m : Mustache} {new : Tree.ElementModifier} (hspan : new.span = .over k a.chars)
      (hshape : ∀ i, Tree.ElementModifier.shape nowhere ⟨(m.at i).call, (m.at i).span⟩ =
        new.shape nowhere) :
    Becomes a k (some (.modifier new)) (.modifier m)

/-- Where the value of an attribute stands. -/
theorem Attribute.Stands.value {a : Attribute} {rest : List Char} (h : a.Stands rest)
    (u v : List Char) {w : Assigned} (hw : a.assigned = some w) :
    ∃ x, u ++ (a.chars ++ v) = x ++ (w.value.chars ++ v) ∧
      (a.at (size u)).value = w.value.at (size x) ∧ w.value.Stands rest := by
  obtain ⟨name, assigned⟩ := a
  cases hw
  obtain ⟨-, -, -, -, hv⟩ := h
  have hone : size ['='] = 1 := rfl
  refine ⟨u ++ name ++ (w.before ++ ['='] ++ w.after), by simp [Attribute.chars, Assigned.chars],
    congrArg w.value.at ?_, hv⟩
  simp only [Text.size_append, hone, Nat.add_assoc]

/-- The handler of an event argument, as the value of the argument has it. -/
theorem Attribute.Stands.handlerExpr?_at {a : Attribute} {rest : List Char} (h : a.Stands rest)
    (u v : List Char) (src : String) (hsrc : src = String.ofList (u ++ (a.chars ++ v))) {k : Nat}
    (hk : k = size u) {w : Assigned} (hw : a.assigned = some w) {expr : Tree.Expr}
    (he : (a.at k).value.handlerExpr? src = some expr) :
    ∃ e : Expr, w.value.handler? = some e.chars ∧ e.Stands [] ∧ expr.shape nowhere = e.bare := by
  subst hk
  obtain ⟨x, hx, hvalue, hstands⟩ := h.value u v hw
  rw [hvalue] at he
  exact hstands.handlerExpr?_at x v src (by rw [hsrc, hx]) rfl he

end Concrete

namespace Tree

/-- The fix of an attribute is read as what the attribute is to be written as. -/
def Element.Carries (source : String) (g : Span → Bool) (e : Element) (a : Attribute) : Prop :=
  ∀ fix, Concrete.attributeFix? source e a = some fix → g fix.range = true →
    ∃ r, e.rewrite? source a = some r

/-- The element with the selected ones of its deprecated arguments in the new way. -/
def Element.migrated (source : String) (g : Span → Bool) (e : Element) : Element :=
  e.rewrite (e.selected? source g)

theorem Element.selected?_eq_none {source : String} {g : Span → Bool} {e : Element} {a : Attribute}
    (h : ∀ fix, Concrete.attributeFix? source e a = some fix → g fix.range = false) :
    e.selected? source g a = none := by
  rw [Element.selected?, Option.filter_eq_none_iff]
  intro r hr
  obtain ⟨fix, hfix⟩ := Option.isSome_iff_exists.1 (Element.isSome_attributeFix? hr)
  rw [← Element.range_of_attributeFix? hfix hr, h fix hfix]
  exact Bool.false_ne_true

end Tree

namespace Concrete

variable {g : Span → Bool}

theorem OpeningTag.selected?_of_name {t : OpeningTag} {a : Attribute} {new : List Char}
    (hc : t.change? a = some (.name new)) (j : Nat) (src : String) {k : Nat}
    (hg : g (.over k a.name) = true) :
    (t.at j).selected? src g (a.at k) = some (.name (String.ofList new)) := by
  obtain ⟨name, hm, hno, rfl⟩ := OpeningTag.eq_of_name hc
  have hfree : (t.at j).hasAttribute name ≠ true := by
    rw [OpeningTag.hasAttribute_at, hno]
    exact Bool.false_ne_true
  have hrewrite : (t.at j).rewrite? src (a.at k) = some (.name name) := by
    rw [Tree.Element.rewrite?, OpeningTag.migration?_at, hm]
    exact if_neg hfree
  rw [Tree.Element.selected?, hrewrite, Option.filter_some, String.ofList_toList]
  exact if_pos hg

/-- The text of a modifier that an argument is to become is read as that modifier. -/
theorem Attribute.Stands.modifier?_of_whole {a : Attribute} {rest : List Char} (h : a.Stands rest)
    {t : OpeningTag} {text : List Char} (hc : t.change? a = some (.whole text)) (j : Nat)
    (u v : List Char) (src : String) (hsrc : src = String.ofList (u ++ (a.chars ++ v))) {k : Nat}
    (hk : k = size u) (hg : g (.over k a.chars) = true)
    (hread : (t.at j).Carries src g (a.at k)) :
    ∃ m, modifier? text = some (.modifier m) ∧
      a.Becomes k ((t.at j).selected? src g (a.at k)) (.modifier m) := by
  have hfix := h.attributeFix?_eq t j u v src hsrc hk
  rw [hc] at hfix
  obtain ⟨event, w, handler, hm, hw, hhandler, rfl⟩ := OpeningTag.eq_of_whole hc
  have hplain : isPlainName event.toList = true := (OpeningTag.eq_of_migration? hm).2
  obtain ⟨r, hr⟩ := hread _ hfix hg
  have hselected : (t.at j).selected? src g (a.at k) = some r := by
    have hrange := Tree.Element.range_of_attributeFix? hfix hr
    rw [Tree.Element.selected?, hr, Option.filter_some, ← hrange]
    exact if_pos hg
  rw [Tree.Element.rewrite?, OpeningTag.migration?_at, hm, Option.bind_some] at hr
  obtain ⟨expr, hexpr, rfl⟩ := Option.map_eq_some_iff.1 hr
  obtain ⟨e, he, hstands, hshape⟩ := h.handlerExpr?_at u v src hsrc hk hw hexpr
  obtain rfl := Option.some.inj (hhandler.symm.trans he)
  refine ⟨_, modifier?_eventText (closes_of_plain hplain) hstands, ?_⟩
  rw [hselected]
  exact .modifier rfl (onModifier_shape hplain hshape _)

theorem Attribute.Stands.becomes {a : Attribute} {rest : List Char} (h : a.Stands rest)
    (t : OpeningTag) (j : Nat) (u v : List Char) (src : String)
    (hsrc : src = String.ofList (u ++ (a.chars ++ v))) {k : Nat} (hk : k = size u)
    (hread : (t.at j).Carries src g (a.at k)) :
    a.Becomes k ((t.at j).selected? src g (a.at k))
      (a.edit .migrations g k (Fixers.migrations.change? t a)) ∧
    (a.edit .migrations g k (Fixers.migrations.change? t a)).chars =
      (a.draft .migrations (Fixers.migrations.change? t a)).edited g k := by
  have hfix := h.attributeFix?_eq t j u v src hsrc hk
  have hvalue := a.editValue_migrations (g := g) k
  rw [show Fixers.migrations.change? t a = t.change? a from rfl]
  have hkept : (∀ fix, attributeFix? src (t.at j) (a.at k) = some fix → g fix.range = false) →
      (a.edit .migrations g k (t.change? a)) = .attribute a →
      a.Becomes k ((t.at j).selected? src g (a.at k)) (a.edit .migrations g k (t.change? a)) := by
    intro hno hedit
    rw [Tree.Element.selected?_eq_none hno, hedit]
    exact .same
  match hc : t.change? a with
  | none =>
    rw [hc] at hfix hkept
    refine ⟨hkept (by simp [hfix]) (congrArg Item.attribute hvalue), ?_⟩
    exact Attribute.chars_edit _ g a k none (by simp)
  | some (.name new) =>
    rw [hc] at hfix hkept
    refine ⟨?_, Attribute.chars_edit _ g a k (some (.name new)) (by simp)⟩
    have hedit : a.edit .migrations g k (some (.name new)) =
        .attribute (pick (g (.over k a.name)) (some (a.named new)) a) := by
      rw [Attribute.edit, hvalue]
    rw [hedit] at hkept ⊢
    cases hg : g (.over k a.name) with
    | false =>
      rw [hg] at hkept
      exact hkept (by simp [hfix, Change.fix, hg]) rfl
    | true =>
      rw [OpeningTag.selected?_of_name hc j src hg]
      exact .named new
  | some (.whole text) =>
    rw [hc] at hfix hkept
    have hedit : a.edit .migrations g k (some (.whole text)) =
        pick (g (.over k a.chars)) (modifier? text) (.attribute a) := by
      rw [Attribute.edit, hvalue]
    cases hg : g (.over k a.chars) with
    | false =>
      rw [hg] at hedit
      have hsame : a.edit .migrations g k (some (.whole text)) = .attribute a := by
        rw [hedit]
        cases modifier? text <;> rfl
      refine ⟨hkept (by simp [hfix, Change.fix, hg]) hsame, ?_⟩
      exact Attribute.chars_edit _ g a k (some (.whole text)) fun _ _ h => by simp [hg] at h
    | true =>
      obtain ⟨m, hm, hbecomes⟩ := h.modifier?_of_whole hc j u v src hsrc hk hg hread
      rw [hg, hm] at hedit
      refine ⟨?_, Attribute.chars_edit _ g a k _ fun text ht _ => ?_⟩
      · rw [hedit]
        exact hbecomes
      · cases ht
        rw [hm]
        rfl

end Concrete

end TemplateLint
