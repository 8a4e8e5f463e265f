import TemplateLint.Proofs.Migration.Alone

namespace TemplateLint

namespace Concrete

theorem length_unescape_le (cs : List Char) : (unescape cs).length ≤ cs.length := by
  fun_induction unescape cs with
  | case1 c cs ih =>
    simp only [List.length_cons]
    omega
  | case2 => simp
  | case3 c cs _ _ ih =>
    simp only [List.length_cons]
    omega
  | case4 => exact Nat.le_refl _

/-- A backslash is not read as a character itself. -/
theorem unescape_eq_self_iff {cs : List Char} : unescape cs = cs ↔ '\\' ∉ cs := by
  refine ⟨fun h => ?_, unescape_eq_self⟩
  fun_induction unescape cs with
  | case1 c cs ih =>
    have hlength := length_unescape_le cs
    have hsame := congrArg List.length h
    simp only [List.length_cons] at hsame
    omega
  | case2 => cases h
  | case3 c cs hpair hlast ih =>
    obtain ⟨-, hcs⟩ := List.cons.inj h
    have hc : '\\' ≠ c := by
      rintro rfl
      cases cs with
      | nil => exact hlast rfl rfl
      | cons d ds => exact hpair d ds rfl rfl
    exact List.not_mem_cons_of_ne_of_not_mem hc (ih hcs)
  | case4 => exact List.not_mem_nil

theorem closes_of_not_mem {mark : Char} {cs : List Char} (hmark : mark ∉ cs) (h : '\\' ∉ cs) :
    Closes mark cs := by
  induction cs with
  | nil => trivial
  | cons c cs ih =>
    obtain ⟨hc, hcs⟩ := List.ne_and_not_mem_of_not_mem_cons h
    obtain ⟨hcm, hcsm⟩ := List.ne_and_not_mem_of_not_mem_cons hmark
    exact (closes_cons hc.symm cs).2 ⟨hcm.symm, ih hcsm hcs⟩

/-- A text that is one string and nothing else, and what it says. -/
def IsStringOf (text value : String) : Prop :=
  ∃ e span, Expr.ofText? text = some e ∧ e.at 0 = .literal ⟨.string value, span⟩

/-- Only quotes make a string. -/
theorem Expr.eq_of_string {e : Expr} {k : Nat} {value : String} {span : Span}
    (h : e.at k = .literal ⟨.string value, span⟩) :
    ∃ mark raw, e = .quoted mark raw ∧ value = String.ofList (unescape raw) := by
  cases e with
  | word w =>
    simp only [Expr.at, wordAt] at h
    grind
  | quoted mark raw =>
    cases h
    exact ⟨mark, raw, rfl, rfl⟩
  | group call => cases h

/-- A text in quotes that it does not hold is read back exactly if it has no backslash. -/
theorem isStringOf_quoted {mark : Char} (hm : IsQuote mark) {cs : List Char} (hcs : mark ∉ cs) :
    IsStringOf (String.ofList (mark :: (cs ++ [mark]))) (String.ofList cs) ↔ '\\' ∉ cs := by
  constructor
  · rintro ⟨e, span, he, hvalue⟩
    obtain ⟨mark', raw, rfl, hraw⟩ := Expr.eq_of_string hvalue
    unfold Expr.ofText? at he
    rw [String.toList_ofList] at he
    split at he
    · next hread =>
      cases he
      obtain ⟨hchars, -⟩ := Expr.eq_of_read hread
      rw [List.append_nil, Expr.chars, List.cons.injEq] at hchars
      obtain ⟨rfl, hchars⟩ := hchars
      obtain rfl := List.append_cancel_right hchars
      exact unescape_eq_self_iff.1 (String.ofList_injective hraw).symm
    · cases he
  · intro h
    have hstands : (Expr.quoted mark cs).Stands [] := ⟨hm, closes_of_not_mem hcs h⟩
    have hread := hstands.read_eq
    rw [List.append_nil] at hread
    refine ⟨.quoted mark cs, ⟨0, 0 + (Expr.quoted mark cs).width⟩, ?_, ?_⟩
    · unfold Expr.ofText?
      rw [String.toList_ofList]
      exact hread ▸ rfl
    · rw [Expr.at, unescape_eq_self h]

/-- The handler of a text is that text in quotes that it does not hold. -/
theorem AttrValue.Stands.quotes {w : AttrValue} {rest : List Char} (h : w.Stands rest) {k : Nat}
    {value : Tree.TextRun} (hvalue : w.at k = .text value) {handler : List Char}
    (hhandler : w.handler? = some handler) :
    ∃ mark cs, IsQuote mark ∧ mark ∉ cs ∧ handler = mark :: (cs ++ [mark]) ∧
      value.chars = String.ofList cs := by
  cases w with
  | quoted mark parts =>
    obtain ⟨hmark, hparts⟩ := h
    rw [AttrValue.at] at hvalue
    split at hvalue
    · cases hvalue
    · next hplain =>
      cases hvalue
      cases hhandler
      exact ⟨mark, _, hmark, not_mem_parts hparts (Bool.eq_false_iff.2 hplain), rfl, rfl⟩
  | mustache m => cases hvalue
  | bare cs =>
    cases hvalue
    obtain ⟨text, htext, rfl⟩ := Option.map_eq_some_iff.1 hhandler
    unfold ComponentArguments.stringLiteral? at htext
    simp only [String.toList_ofList, Bool.not_eq_true'] at htext
    split at htext
    · next hmark =>
      cases htext
      exact ⟨'"', cs, .inl rfl, by simpa using hmark, by simp, rfl⟩
    · split at htext
      · next hmark =>
        cases htext
        exact ⟨'\'', cs, .inr rfl, by simpa using hmark, by simp, rfl⟩
      · cases htext

end Concrete

open TemplateLint.Tree (Element Attribute)

/-- Every fix of an event argument whose value is a text writes an `on` modifier with the event and
a handler, which is read as one string with that text exactly if the text has no backslash. -/
theorem text_handler_iff {source : String} {t : Tree.Template}
    (ht : Tree.Template.parse source = .ok t) {d : Diagnostic}
    (hd : d ∈ ComponentArguments.rule.diagnose source t.nodes) {fix : Fix}
    (hfix : d.fix = some fix) :
    ∃ e a, t.Has e a ∧ d.span = a.nameSpan ∧
      ∀ event value, e.migration? a = some (.event event) → a.value = .text value →
        ∃ handler, fix = ⟨a.span, inBraces ("on \"" ++ event ++ "\" " ++ handler)⟩ ∧
          (Concrete.IsStringOf handler value.chars ↔ '\\' ∉ value.chars.toList) := by
  obtain ⟨n, hn, finding, hfinding, rfl⟩ := Rule.mem_diagnose.1 hd
  rw [Linter.fix_complete] at hfix
  obtain ⟨e, a, migration, rfl, ha, hspan, hm, hmigrate⟩ :=
    ComponentArguments.eq_of_fix hfinding hfix
  have he : e ∈ t.elements := Tree.Template.mem_elements_iff.2 (Tree.Template.mem_nodes_iff.1 hn)
  refine ⟨e, a, Tree.Template.has ht he ha, by rw [span_complete, hspan], ?_⟩
  intro event value hevent hvalue
  obtain rfl := Option.some.inj (hm.symm.trans hevent)
  obtain ⟨handler, hhandler, hfix⟩ := Option.bind_eq_some_iff.1 hmigrate
  refine ⟨handler, (Option.some.inj hfix).symm, ?_⟩
  obtain ⟨u, cs, v, hsource, hcs⟩ := Tree.Template.attribute_written ht he ha
  obtain ⟨a', rest, rfl, rfl, hstands⟩ := hcs.attribute_eq
  cases hw : a'.assigned with
  | none =>
    rw [Concrete.Attribute.at, hw] at hvalue
    cases hvalue
  | some w =>
    obtain ⟨x, hx, hvalueAt, hwstands⟩ := hstands.value u v hw
    rw [hvalueAt, hwstands.handler?_at x v source (by rw [← hx, ← hsource, String.ofList_toList])
      rfl] at hhandler
    obtain ⟨text, htext, rfl⟩ := Option.map_eq_some_iff.1 hhandler
    obtain ⟨mark, inner, hmark, hinner, rfl, hchars⟩ :=
      hwstands.quotes (hvalueAt.symm.trans hvalue) htext
    rw [hchars, String.toList_ofList]
    exact Concrete.isStringOf_quoted hmark hinner

/-- The text that a value is. -/
def Tree.AttrValue.text? : Tree.AttrValue → Option Tree.TextRun
  | .text t => some t
  | _ => none

theorem Tree.AttrValue.eq_of_text? {v : Tree.AttrValue} {s : String}
    (h : v.text?.map Tree.TextRun.chars = some s) : ∃ t, v = .text t ∧ t.chars = s := by
  cases v with
  | text t => exact ⟨t, rfl, Option.some.inj h⟩
  | _ => cases h

/-- An input whose event argument ends in a backslash. -/
def escapedInput : String := "<Input @click=a\\ />"

theorem text_handler_escaped :
    ∃ t, Tree.Template.parse escapedInput = .ok t ∧
      ∃ d ∈ ComponentArguments.rule.diagnose escapedInput t.nodes, ∃ e a event value handler,
        t.Has e a ∧ e.migration? a = some (.event event) ∧ a.value = .text value ∧
          d.fix = some ⟨a.span, inBraces ("on \"" ++ event ++ "\" " ++ handler)⟩ ∧
          ¬ Concrete.IsStringOf handler value.chars := by
  have hfacts : (Tree.Template.parse escapedInput).toOption.map (fun t =>
      ((ComponentArguments.rule.diagnose escapedInput t.nodes).map fun d => (d.span, d.fix.isSome),
        t.elements.flatMap fun e => e.attributes.map fun a =>
          (e.migration? a, a.value.text?.map Tree.TextRun.chars))) =
      some ([(⟨7, 13⟩, true)], [(some (.event "click"), some "a\\")]) := by
    decide +kernel
  cases ht : Tree.Template.parse escapedInput with
  | error e =>
    rw [ht] at hfacts
    cases hfacts
  | ok t =>
    rw [ht] at hfacts
    obtain ⟨hreports, harguments⟩ := Prod.mk.inj (Option.some.inj hfacts)
    obtain ⟨d, hd, -, fix, hfix⟩ := exists_fix_of_reports hreports ⟨7, 13⟩ (by decide)
    obtain ⟨e, a, hhas, -, hhandler⟩ := text_handler_iff ht hd hfix
    have hargument : (e.migration? a, a.value.text?.map Tree.TextRun.chars) ∈
        [(some (Migration.event "click"), some "a\\")] := by
      rw [← harguments]
      exact List.mem_flatMap.2 ⟨e, hhas.mem.1, List.mem_map_of_mem hhas.mem.2⟩
    obtain ⟨hevent, hchars⟩ := Prod.mk.inj (List.mem_singleton.1 hargument)
    obtain ⟨value, hvalue, hback⟩ := Tree.AttrValue.eq_of_text? hchars
    obtain ⟨handler, rfl, hreads⟩ := hhandler "click" value hevent hvalue
    refine ⟨t, rfl, d, hd, e, a, "click", value, handler, hhas, hevent, hvalue, hfix, ?_⟩
    rw [hreads, hback]
    decide

end TemplateLint
