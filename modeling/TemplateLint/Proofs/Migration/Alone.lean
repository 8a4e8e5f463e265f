import TemplateLint.Proofs.Migration.Selected

namespace TemplateLint

/-- Applied alone, the fix leaves a text that is read as this template, wherever its parts stand. -/
def Fix.Leaves (source : String) (fix : Fix) (t : Tree.Template) : Prop :=
  ∃ applied t', Fix.applyAll source [fix] = .ok applied ∧
    Tree.Template.parse applied.output = .ok t' ∧ t'.shape nowhere = t.shape nowhere

namespace Tree

/-- The template with one attribute of one element written in another way. -/
def Template.rewriteAt (t : Template) (e : Element) (a : Attribute) (r : Rewrite) : Template :=
  t.mapElements fun x =>
    if x.span = e.span then x.rewrite fun b => if b.span = a.span then some r else none else x

/-- The only one of its range among the attributes of the only element of its range. -/
structure Template.Has (t : Template) (e : Element) (a : Attribute) : Prop where
  one_element : t.elements.filter (·.span == e.span) = [e]
  one_attribute : e.attributes.filter (·.span == a.span) = [a]

variable {source : String} {t : Template} {e x : Element} {a b : Attribute} {fix : Fix}

theorem Template.has (ht : Template.parse source = .ok t) (he : e ∈ t.elements)
    (ha : a ∈ e.attributes) : t.Has e a :=
  ⟨Template.elements_at ht he, Template.attributes_at ht he ha⟩

theorem Template.Has.mem (h : t.Has e a) : e ∈ t.elements ∧ a ∈ e.attributes := by
  have he : e ∈ t.elements.filter (·.span == e.span) := by rw [h.one_element]; exact .head _
  have ha : a ∈ e.attributes.filter (·.span == a.span) := by rw [h.one_attribute]; exact .head _
  exact ⟨(List.mem_filter.1 he).1, (List.mem_filter.1 ha).1⟩

/-- The fix of an attribute starts where the attribute does. -/
theorem Attribute.Named.start_of_attributeFix? (h : a.Named)
    (hfix : Concrete.attributeFix? source e a = some fix) : fix.range.start = a.nameSpan.start := by
  rw [attributeFix?_eq] at hfix
  obtain ⟨migration, -, hfix⟩ := Option.bind_eq_some_iff.1 hfix
  cases migration with
  | «attribute» name =>
    rw [ComponentArguments.migrationFix?] at hfix
    split at hfix
    · cases hfix
    · cases hfix
      rfl
  | event event =>
    obtain ⟨handler, -, hfix⟩ := Option.bind_eq_some_iff.1 hfix
    cases hfix
    exact h.start

/-- No other attribute of the template has a fix of the same range. -/
theorem Template.eq_of_range (ht : Template.parse source = .ok t) (he : e ∈ t.elements)
    (ha : a ∈ e.attributes) (hfix : Concrete.attributeFix? source e a = some fix)
    (hx : x ∈ t.elements) (hb : b ∈ x.attributes) {fix' : Fix}
    (hfix' : Concrete.attributeFix? source x b = some fix') (hrange : fix'.range = fix.range) :
    x = e ∧ b = a := by
  refine Template.eq_of_start ht he ha hx hb ?_
  rw [← (Template.named ht hx hb).start_of_attributeFix? hfix', hrange,
    (Template.named ht he ha).start_of_attributeFix? hfix]

/-- A fix that is read as what it is to write, applied alone, writes its attribute anew and changes
nothing else. -/
theorem Template.leaves_rewriteAt (ht : Template.parse source = .ok t) (he : e ∈ t.elements)
    (ha : a ∈ e.attributes) (hfix : Concrete.attributeFix? source e a = some fix) {r : Rewrite}
    (hr : e.rewrite? source a = some r) : fix.Leaves source (t.rewriteAt e a r) := by
  have hselects : ∀ s, Draft.selects [fix] s = (fix.range == s) := fun s => by
    rw [Draft.selects, List.any_cons, List.any_nil, Bool.or_false]
  have hsame : ∀ x ∈ t.elements, ∀ b ∈ x.attributes, ∀ fix',
      Concrete.attributeFix? source x b = some fix' → Draft.selects [fix] fix'.range = true →
        x = e ∧ b = a := by
    intro x hx b hb fix' hfix' hsel
    rw [hselects] at hsel
    exact Template.eq_of_range ht he ha hfix hx hb hfix' (eq_of_beq hsel).symm
  obtain ⟨applied, t', happly, hparse, hshape⟩ := migrated_of_applyAll ht [fix]
    (fun f hf => ⟨e, he, a, ha, by rw [List.mem_singleton.1 hf]; exact hfix⟩)
    (fun x hx b hb fix' hfix' hsel => by
      obtain ⟨rfl, rfl⟩ := hsame x hx b hb fix' hfix' hsel
      exact ⟨r, hr⟩)
  refine ⟨applied, t', happly, hparse, ?_⟩
  have hnone : ∀ x ∈ t.elements, ∀ b ∈ x.attributes, ¬ (x = e ∧ b = a) →
      x.selected? source (Draft.selects [fix]) b = none := fun x hx b hb hne =>
    Element.selected?_eq_none fun fix' hfix' => Bool.eq_false_iff.2 fun hsel =>
      hne (hsame x hx b hb fix' hfix' hsel)
  have hsome : e.selected? source (Draft.selects [fix]) a = some r := by
    rw [Element.selected?, hr, Option.filter_some, ← Element.range_of_attributeFix? hfix hr, hselects]
    exact if_pos (beq_self_eq_true _)
  have hhas := Template.has ht he ha
  rw [hshape, Template.rewriteAt]
  refine congrArg (Template.shape nowhere) (Template.mapElements_congr fun x hx => ?_)
  by_cases hspan : x.span = e.span
  · obtain rfl := eq_of_filter_eq_singleton hhas.one_element hx (by simpa using hspan)
    rw [if_pos rfl]
    refine Element.rewrite_congr fun b hb => ?_
    by_cases hb' : b.span = a.span
    · obtain rfl := eq_of_filter_eq_singleton hhas.one_attribute hb (by simpa using hb')
      rw [if_pos rfl, hsome]
    · rw [if_neg hb', hnone x hx b hb fun h => hb' (by rw [h.2])]
  · rw [if_neg hspan, Element.migrated, Element.rewrite_none fun b hb =>
      hnone x hx b hb fun h => hspan (by rw [h.1])]

end Tree

namespace ComponentArguments

open TemplateLint.Tree (Element Attribute Node)

/-- What has a fix is a deprecated argument. -/
theorem eq_of_fix {source : String} {n : Node} {finding : Finding} {fix : Fix}
    (hf : finding ∈ rule.visit source n) (hfix : finding.fix = some fix) :
    ∃ e a migration, n = .element e ∧ a ∈ e.attributes ∧ finding.span = a.nameSpan ∧
      e.migration? a = some migration ∧ migrationFix? source e a migration = some fix := by
  cases n with
  | element e =>
    have hvisit : rule.visit source (.element e) = findings source (.element e) := rfl
    rw [hvisit, findings] at hf
    split at hf
    · next c hc =>
      rcases List.mem_append.1 hf with hf | hf
      · obtain ⟨group, -, rfl⟩ := List.mem_map.1 hf
        cases hfix
      · obtain ⟨argument, hargument, hf⟩ := List.mem_flatMap.1 hf
        obtain ⟨a, ha, hmap⟩ := List.mem_filterMap.1 hargument
        obtain ⟨name, hname, rfl⟩ := Option.map_eq_some_iff.1 hmap
        unfold argumentFindings at hf
        dsimp only at hf
        split at hf
        · next d hd =>
          obtain rfl := List.mem_singleton.1 hf
          obtain ⟨migration, hm, hfix⟩ := Option.bind_eq_some_iff.1 hfix
          refine ⟨e, a, migration, rfl, ha, rfl, ?_, hfix⟩
          simp only [Element.migration?, hc, hname, ComponentSchema.migration?,
            ← ComponentSchema.deprecation?_eq, hd, Option.bind_eq_bind, Option.bind_some, hm]
        · split at hf
          · obtain rfl := List.mem_singleton.1 hf
            cases hfix
          · obtain ⟨group, -, rfl⟩ := List.mem_map.1 hf
            cases hfix
    · cases hf
  | _ => cases hf

end ComponentArguments

open TemplateLint.Tree (Element Attribute onModifier)

/-- Every report of an argument that has a fix is of one attribute of one element, at its name. The
fix can be applied alone. Where the argument becomes an attribute, the new text is read as the template
with that attribute under its new name. Where it becomes a modifier for an event and its value is a
mustache, the new text is read as the template without that argument and with an `on` modifier in its
place, which has the event and the handler of the mustache. -/
theorem migration_alone {source : String} {t : Tree.Template}
    (ht : Tree.Template.parse source = .ok t) {d : Diagnostic}
    (hd : d ∈ ComponentArguments.rule.diagnose source t.nodes) {fix : Fix}
    (hfix : d.fix = some fix) :
    ∃ e a, t.Has e a ∧ d.span = a.nameSpan ∧
      (∀ name, e.migration? a = some (.attribute name) →
        fix.Leaves source (t.rewriteAt e a (.name name))) ∧
      ∀ event m, e.migration? a = some (.event event) → a.value = .mustache m →
        fix.Leaves source
          (t.rewriteAt e a (.modifier (onModifier event m.call.asArgument a.span))) := by
  obtain ⟨n, hn, finding, hfinding, rfl⟩ := Rule.mem_diagnose.1 hd
  rw [Linter.fix_complete] at hfix
  obtain ⟨e, a, migration, rfl, ha, hspan, hm, hmigrate⟩ :=
    ComponentArguments.eq_of_fix hfinding hfix
  have he : e ∈ t.elements := Tree.Template.mem_elements_iff.2 (Tree.Template.mem_nodes_iff.1 hn)
  have hattribute : Concrete.attributeFix? source e a = some fix := by
    rw [Tree.attributeFix?_eq, hm]
    exact hmigrate
  refine ⟨e, a, Tree.Template.has ht he ha, by rw [span_complete, hspan], ?_, ?_⟩
  · intro name hname
    obtain rfl := Option.some.inj (hm.symm.trans hname)
    refine Tree.Template.leaves_rewriteAt ht he ha hattribute ?_
    have hfree : ¬ e.hasAttribute name = true := by
      intro hhas
      rw [ComponentArguments.migrationFix?, if_pos hhas] at hmigrate
      cases hmigrate
    rw [Element.rewrite?, hm, Option.bind_some]
    exact if_neg hfree
  · intro event m hevent hvalue
    refine Tree.Template.leaves_rewriteAt ht he ha hattribute ?_
    rw [Element.rewrite?, hevent, Option.bind_some]
    dsimp only
    rw [hvalue]
    rfl

theorem exists_fix_of_reports {ds : List Diagnostic} {reports : List (Span × Bool)}
    (h : (ds.map fun d => (d.span, d.fix.isSome)) = reports) (span : Span)
    (hspan : (span, true) ∈ reports) : ∃ d ∈ ds, d.span = span ∧ ∃ fix, d.fix = some fix := by
  rw [← h] at hspan
  obtain ⟨d, hd, heq⟩ := List.mem_map.1 hspan
  obtain ⟨hdspan, hdfix⟩ := Prod.mk.inj heq
  exact ⟨d, hd, hdspan, Option.isSome_iff_exists.1 hdfix⟩

/-- The mustache that a value is. -/
def Tree.AttrValue.mustache? : Tree.AttrValue → Option Tree.Mustache
  | .mustache m => some m
  | _ => none

theorem Tree.AttrValue.mustache?_isSome {v : Tree.AttrValue} (h : v.mustache?.isSome = true) :
    ∃ m, v = .mustache m := by
  cases v with
  | mustache m => exact ⟨m, rfl⟩
  | _ => cases h

/-- An input with an argument that becomes an attribute and one that becomes a modifier, whose handler
has arguments itself. -/
def oldInput : String := "<Input @elementId=\"a\" @click=\x7b\x7bgo 1 to=b\x7d\x7d />"

theorem migration_alone_input :
    ∃ t, Tree.Template.parse oldInput = .ok t ∧
      (∃ d ∈ ComponentArguments.rule.diagnose oldInput t.nodes, ∃ fix e a,
        d.fix = some fix ∧ t.Has e a ∧ fix.Leaves oldInput (t.rewriteAt e a (.name "id"))) ∧
      ∃ d ∈ ComponentArguments.rule.diagnose oldInput t.nodes, ∃ fix e a m,
        d.fix = some fix ∧ t.Has e a ∧ a.value = .mustache m ∧ fix.Leaves oldInput
          (t.rewriteAt e a (.modifier (onModifier "click" m.call.asArgument a.span))) := by
  have hfacts : (Tree.Template.parse oldInput).toOption.map (fun t =>
      ((ComponentArguments.rule.diagnose oldInput t.nodes).map fun d => (d.span, d.fix.isSome),
        t.elements.flatMap fun e => e.attributes.map fun a =>
          (a.nameSpan, e.migration? a, a.value.mustache?.isSome))) =
      some ([(⟨7, 17⟩, true), (⟨22, 28⟩, true)],
        [(⟨7, 17⟩, some (.attribute "id"), false), (⟨22, 28⟩, some (.event "click"), true)]) := by
    decide +kernel
  cases ht : Tree.Template.parse oldInput with
  | error e =>
    rw [ht] at hfacts
    cases hfacts
  | ok t =>
    rw [ht] at hfacts
    obtain ⟨hreports, harguments⟩ := Prod.mk.inj (Option.some.inj hfacts)
    have hargument : ∀ {e a}, t.Has e a → (a.nameSpan, e.migration? a, a.value.mustache?.isSome) ∈
          [((⟨7, 17⟩ : Span), some (Migration.attribute "id"), false),
            (⟨22, 28⟩, some (.event "click"), true)] := by
      intro e a hhas
      rw [← harguments]
      exact List.mem_flatMap.2 ⟨e, hhas.mem.1, List.mem_map_of_mem hhas.mem.2⟩
    obtain ⟨d, hd, hdspan, fix, hfix⟩ := exists_fix_of_reports hreports ⟨7, 17⟩ (by decide)
    obtain ⟨d', hd', hdspan', fix', hfix'⟩ :=
      exists_fix_of_reports hreports ⟨22, 28⟩ (by decide)
    obtain ⟨e, a, hhas, hspan, hname, -⟩ := migration_alone ht hd hfix
    obtain ⟨e', a', hhas', hspan', -, hmodifier⟩ := migration_alone ht hd' hfix'
    have hfirst := hargument hhas
    have hsecond := hargument hhas'
    rw [← hspan, hdspan] at hfirst
    rw [← hspan', hdspan'] at hsecond
    have hid : e.migration? a = some (.attribute "id") := by grind
    have hclick : e'.migration? a' = some (.event "click") := by grind
    obtain ⟨m, hvalue⟩ := Tree.AttrValue.mustache?_isSome (v := a'.value) (by grind)
    exact ⟨t, rfl, ⟨d, hd, fix, e, a, hfix, hhas, hname "id" hid⟩,
      d', hd', fix', e', a', m, hfix', hhas', hvalue, hmodifier "click" m hclick hvalue⟩

end TemplateLint
