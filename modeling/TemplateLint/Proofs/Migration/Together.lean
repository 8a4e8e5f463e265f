import TemplateLint.Proofs.Migration.Alone
import TemplateLint.Proofs.Migration.Elements

namespace TemplateLint

theorem filterMap_or_perm {α β : Type} {p q : α → Option β} {xs : List α}
    (h : ∀ x ∈ xs, p x = none ∨ q x = none) :
    (xs.filterMap fun x => (p x).or (q x)).Perm (xs.filterMap p ++ xs.filterMap q) := by
  induction xs with
  | nil => exact .nil
  | cons x xs ih =>
    have hxs := ih fun y hy => h y (List.mem_cons_of_mem _ hy)
    rcases h x List.mem_cons_self with hp | hq
    · cases hq : q x with
      | none => simpa [List.filterMap_cons, hp, hq] using hxs
      | some b =>
        simp only [List.filterMap_cons, hp, hq, Option.or_some]
        exact (hxs.cons b).trans List.perm_middle.symm
    · cases hp : p x with
      | none => simpa [List.filterMap_cons, hp, hq] using hxs
      | some b =>
        simp only [List.filterMap_cons, hp, hq, Option.or_none, List.cons_append]
        exact hxs.cons b

def Migration.isAttribute : Migration → Bool
  | .attribute _ => true
  | .event _ => false

namespace Component

/-- No two arguments of a component become the same attribute. -/
theorem eq_of_migration? {c : ComponentSchema} (hc : c ∈ all) {argument argument' name : String}
    (h : c.migration? argument = some (.attribute name))
    (h' : c.migration? argument' = some (.attribute name)) : argument = argument' := by
  have hall : ∀ c ∈ all, ∀ p ∈ c.deprecations, ∀ q ∈ c.deprecations,
      p.2.fix.any Migration.isAttribute = true → p.2.fix = q.2.fix → p.1 = q.1 := by
    decide +kernel
  obtain ⟨d, hd, hfix⟩ := Option.bind_eq_some_iff.1 h
  obtain ⟨d', hd', hfix'⟩ := Option.bind_eq_some_iff.1 h'
  exact hall c hc _ (Concrete.mem_of_lookup hd) _ (Concrete.mem_of_lookup hd') (by rw [hfix]; rfl)
    (by rw [hfix, hfix'])

/-- What an argument becomes has a plain name. -/
theorem isPlainMigration_of_migration? {c : ComponentSchema} (hc : c ∈ all) {argument : String}
    {migration : Migration} (h : c.migration? argument = some migration) :
    Concrete.isPlainMigration migration = true := by
  obtain ⟨d, hd, hfix⟩ := Option.bind_eq_some_iff.1 h
  have hplain := List.all_eq_true.1
    (List.all_eq_true.1 Concrete.isPlainMigration_of_deprecations c hc) _ (Concrete.mem_of_lookup hd)
  simpa [hfix] using hplain

end Component

namespace Tree

variable {source : String} {e : Element} {a b : Attribute}

/-- The name of an attribute that is no argument. -/
def Attribute.plainName? (a : Attribute) : Option String :=
  if a.argumentName?.isNone then some a.name else none

/-- The names of the attributes that are no arguments. -/
def Element.plainNames (e : Element) : List String := e.attributes.filterMap Attribute.plainName?

/-- The attribute that an argument becomes. -/
def Element.target? (source : String) (e : Element) (a : Attribute) : Option String :=
  (e.rewrite? source a).bind fun
    | .name new => some new
    | .modifier _ => none

/-- The arguments that become attributes. -/
def Element.renamed (source : String) (e : Element) : List String :=
  e.attributes.filterMap fun a => (e.target? source a).map fun _ => a.name

theorem Element.eq_of_target? {new : String} (h : e.target? source a = some new) :
    ∃ c argument, Component.schema? e.tag = some c ∧ a.argumentName? = some argument ∧
      c.migration? argument = some (.attribute new) ∧ e.hasAttribute new = false := by
  obtain ⟨r, hr, h⟩ := Option.bind_eq_some_iff.1 h
  obtain ⟨migration, hm, hr⟩ := Option.bind_eq_some_iff.1 hr
  obtain ⟨c, hc, hm⟩ := Option.bind_eq_some_iff.1 hm
  obtain ⟨argument, hargument, hm⟩ := Option.bind_eq_some_iff.1 hm
  cases migration with
  | «attribute» name =>
    dsimp only at hr
    split at hr
    · cases hr
    · next hfree =>
      cases hr
      cases h
      exact ⟨c, argument, hc, hargument, hm, Bool.eq_false_iff.2 hfree⟩
  | event event =>
    obtain ⟨handler, -, hr⟩ := Option.map_eq_some_iff.1 hr
    cases hr
    cases h

/-- Arguments become the same attribute exactly if they have the same name. -/
theorem Element.target?_eq_iff {new new' : String} (h : e.target? source a = some new)
    (h' : e.target? source b = some new') : new = new' ↔ a.name = b.name := by
  obtain ⟨c, argument, hc, ha, hm, -⟩ := Element.eq_of_target? h
  obtain ⟨c', argument', hc', hb, hm', -⟩ := Element.eq_of_target? h'
  obtain rfl := Option.some.inj (hc.symm.trans hc')
  rw [Attribute.argumentName?_eq_some_iff] at ha hb
  rw [ha, hb]
  constructor
  · rintro rfl
    rw [Component.eq_of_migration? (Component.schema?_eq_some_iff.1 hc).1 hm hm']
  · intro hname
    have hsame : argument = argument' := by simpa using hname
    rw [hsame] at hm
    exact Migration.attribute.inj (Option.some.inj (hm.symm.trans hm'))

/-- A name without a sign in front is no argument. -/
theorem argumentName?_of_plain {new : String} (h : Concrete.isPlainName new.toList = true) :
    Attribute.argumentName? { a with name := new } = none := by
  rw [Option.eq_none_iff_forall_ne_some]
  intro argument hargument
  rw [Attribute.argumentName?_eq_some_iff] at hargument
  simp only [Concrete.isPlainName, Bool.and_eq_true, List.all_eq_true] at h
  have hsign : '@' ∈ new.toList := by
    rw [show new = "@" ++ argument from hargument]
    simp
  exact absurd (h.2 _ hsign) (by decide)

/-- What stays of an attribute has a plain name if the attribute has one or becomes one. -/
theorem Element.plainName?_rewritten (source : String) (e : Element) (a : Attribute) :
    (a.rewritten? (e.rewrite? source a)).bind Attribute.plainName? =
      a.plainName?.or (e.target? source a) := by
  have hargument : ∀ r, e.rewrite? source a = some r → a.plainName? = none := by
    intro r hr
    obtain ⟨migration, hm, -⟩ := Option.bind_eq_some_iff.1 hr
    obtain ⟨c, -, hm⟩ := Option.bind_eq_some_iff.1 hm
    obtain ⟨argument, hargument, -⟩ := Option.bind_eq_some_iff.1 hm
    rw [Attribute.plainName?, hargument]
    rfl
  cases hr : e.rewrite? source a with
  | none =>
    rw [Element.target?, hr]
    exact Option.or_none.symm
  | some r =>
    rw [hargument r hr, Option.none_or]
    cases r with
    | modifier m =>
      rw [Element.target?, hr]
      rfl
    | name new =>
      have htarget : e.target? source a = some new := by
        rw [Element.target?, hr]
        rfl
      obtain ⟨c, argument, hc, -, hm, -⟩ := Element.eq_of_target? htarget
      have hplain := Component.isPlainMigration_of_migration?
        (Component.schema?_eq_some_iff.1 hc).1 hm
      rw [Concrete.isPlainMigration, Bool.and_eq_true] at hplain
      rw [htarget, Attribute.rewritten?, Option.bind_some, Attribute.plainName?,
        argumentName?_of_plain hplain.1]
      rfl

/-- The plain names of an element with all its arguments written anew. -/
theorem Element.plainNames_rewrite (source : String) (e : Element) :
    (e.rewrite (e.rewrite? source)).plainNames.Perm
      (e.plainNames ++ e.attributes.filterMap (e.target? source)) := by
  have hnames : (e.rewrite (e.rewrite? source)).plainNames =
      e.attributes.filterMap fun a => a.plainName?.or (e.target? source a) := by
    rw [Element.plainNames, Element.rewrite, List.filterMap_filterMap]
    exact List.filterMap_congr fun a _ => Element.plainName?_rewritten source e a
  rw [hnames]
  refine filterMap_or_perm fun a _ => ?_
  cases htarget : e.target? source a with
  | none => exact .inr rfl
  | some new =>
    obtain ⟨c, argument, -, hargument, -⟩ := Element.eq_of_target? htarget
    rw [Attribute.plainName?, hargument]
    exact .inl rfl

/-- With all arguments written anew, a plain name occurs twice exactly if one did before or an
argument that becomes an attribute is passed twice. -/
theorem Element.nodup_plainNames_rewrite (source : String) (e : Element) :
    (e.rewrite (e.rewrite? source)).plainNames.Nodup ↔
      e.plainNames.Nodup ∧ (e.renamed source).Nodup := by
  have hdisjoint : ∀ name ∈ e.plainNames, ∀ new ∈ e.attributes.filterMap (e.target? source),
      name ≠ new := by
    rintro name hname new hnew rfl
    obtain ⟨a, ha, hplain⟩ := List.mem_filterMap.1 hname
    obtain ⟨b, hb, htarget⟩ := List.mem_filterMap.1 hnew
    obtain ⟨-, -, -, -, -, hfree⟩ := Element.eq_of_target? htarget
    have hthis : a.name = name := by
      rw [Attribute.plainName?] at hplain
      split at hplain
      · exact Option.some.inj hplain
      · cases hplain
    have hhas : e.hasAttribute name = true :=
      List.any_eq_true.2 ⟨a, ha, by simpa using hthis⟩
    rw [hhas] at hfree
    cases hfree
  have hrenamed : (e.attributes.filterMap (e.target? source)).Nodup ↔ (e.renamed source).Nodup := by
    rw [Element.renamed, List.nodup_iff_pairwise_ne, List.nodup_iff_pairwise_ne,
      List.pairwise_filterMap, List.pairwise_filterMap]
    refine List.Pairwise.iff fun {a b} => ?_
    constructor
    · intro h name hname name' hname' hsame
      obtain ⟨new, hnew, rfl⟩ := Option.map_eq_some_iff.1 hname
      obtain ⟨new', hnew', rfl⟩ := Option.map_eq_some_iff.1 hname'
      exact h new hnew new' hnew' ((Element.target?_eq_iff hnew hnew').2 hsame)
    · intro h new hnew new' hnew' hsame
      exact h a.name (by rw [hnew]; rfl) b.name (by rw [hnew']; rfl)
        ((Element.target?_eq_iff hnew hnew').1 hsame)
  rw [(Element.plainNames_rewrite source e).nodup_iff, List.nodup_append, ← hrenamed]
  exact ⟨fun h => ⟨h.1, h.2.1⟩, fun h => ⟨h.1, h.2, hdisjoint⟩⟩

theorem Element.plainNames_shape (e : Element) :
    (e.shape nowhere).plainNames = e.plainNames := by
  cases e
  rw [Element.shape, Element.plainNames, Element.plainNames, List.filterMap_map]
  rfl

/-- Templates of one shape have the same plain names on their elements. -/
theorem Template.plainNames_of_shape {t t' : Template} {h : Element → Element}
    (hshape : t'.shape nowhere = (t.mapElements h).shape nowhere) :
    t'.elements.map Element.plainNames = t.elements.map fun e => (h e).plainNames := by
  have hnames : ∀ u : Template,
      (u.shape nowhere).elements.map Element.plainNames = u.elements.map Element.plainNames := by
    intro u
    rw [Template.elements_shape, List.map_map]
    exact List.map_congr_left fun e _ => Element.plainNames_shape e
  rw [← hnames, hshape, hnames, Template.elements_mapElements, List.map_map]
  exact List.map_congr_left fun e _ => by
    rw [Function.comp_apply, Element.mapElements_eq]
    rfl

/-- Every fix of the element writes what is read as it is meant. -/
def Element.Writable (source : String) (e : Element) : Prop :=
  ∀ a ∈ e.attributes, ∀ fix, Concrete.attributeFix? source e a = some fix →
    ∃ r, e.rewrite? source a = some r

/-- The template with all deprecated arguments of one element written anew. -/
def Template.rewriteAll (t : Template) (source : String) (e : Element) : Template :=
  t.mapElements fun x => if x.span = e.span then x.rewrite (x.rewrite? source) else x

variable {t : Template}

/-- All fixes of an element, applied together, write its arguments anew and change nothing else. -/
theorem Template.rewriteAll_of_applyAll (ht : Template.parse source = .ok t) (he : e ∈ t.elements)
    (hwritable : e.Writable source) :
    ∃ applied t',
      Fix.applyAll source (e.attributes.filterMap (Concrete.attributeFix? source e)) = .ok applied ∧
      Template.parse applied.output = .ok t' ∧
      t'.shape nowhere = (t.rewriteAll source e).shape nowhere := by
  let fixes := e.attributes.filterMap (Concrete.attributeFix? source e)
  have hsame : ∀ x ∈ t.elements, ∀ b ∈ x.attributes, ∀ fix,
      Concrete.attributeFix? source x b = some fix → Draft.selects fixes fix.range = true → x = e := by
    intro x hx b hb fix hfix hsel
    rw [Draft.selects, List.any_eq_true] at hsel
    obtain ⟨fix', hmem, hrange⟩ := hsel
    obtain ⟨a, ha, hfix'⟩ := List.mem_filterMap.1 hmem
    exact (Template.eq_of_range ht he ha hfix' hx hb hfix (eq_of_beq hrange).symm).1
  obtain ⟨applied, t', happly, hparse, hshape⟩ := migrated_of_applyAll ht fixes
    (fun fix hfix => by
      obtain ⟨a, ha, hfix⟩ := List.mem_filterMap.1 hfix
      exact ⟨e, he, a, ha, hfix⟩)
    (fun x hx b hb fix hfix hsel => by
      obtain rfl := hsame x hx b hb fix hfix hsel
      exact hwritable b hb fix hfix)
  refine ⟨applied, t', happly, hparse, ?_⟩
  rw [hshape, Template.rewriteAll]
  refine congrArg (Template.shape nowhere) (Template.mapElements_congr fun x hx => ?_)
  by_cases hspan : x.span = e.span
  · obtain rfl := eq_of_filter_eq_singleton (Template.elements_at ht he) hx (by simpa using hspan)
    rw [if_pos rfl]
    refine Element.rewrite_congr fun a ha => ?_
    cases hr : x.rewrite? source a with
    | none => rw [Element.selected?, hr, Option.filter_none]
    | some r =>
      obtain ⟨fix, hfix⟩ := Option.isSome_iff_exists.1 (Element.isSome_attributeFix? hr)
      rw [Element.selected?, hr, Option.filter_some, ← Element.range_of_attributeFix? hfix hr]
      exact if_pos (Draft.selects_of_mem (List.mem_filterMap.2 ⟨a, ha, hfix⟩))
  · have hnone : ∀ b ∈ x.attributes, x.selected? source (Draft.selects fixes) b = none :=
      fun b hb => Element.selected?_eq_none fun fix hfix => Bool.eq_false_iff.2 fun hsel =>
        hspan (by rw [hsame x hx b hb fix hfix hsel])
    rw [if_neg hspan, Element.migrated, Element.rewrite_none hnone]

end Tree

/-- All fixes of an element of a component, found for it as it is and applied together, leave the
template with the arguments of that element written anew. Where no plain name occurs twice on the
element before, one does after exactly if an argument that becomes an attribute is passed twice. -/
theorem plainNames_together {source : String} {t : Tree.Template}
    (ht : Tree.Template.parse source = .ok t) {e : Tree.Element} (he : e ∈ t.elements)
    {c : ComponentSchema} (hc : Component.schema? e.tag = some c) (hnodup : e.plainNames.Nodup)
    (hwritable : e.Writable source) :
    ∃ (applied : FixOutcome) (t' : Tree.Template) (e' : Tree.Element) (i : Nat),
      Fix.applyAll source ((ComponentArguments.elementFindings source c e).filterMap Finding.fix) =
        .ok applied ∧
      Tree.Template.parse applied.output = .ok t' ∧
      t'.shape nowhere = (t.rewriteAll source e).shape nowhere ∧
      t.elements[i]? = some e ∧ t'.elements[i]? = some e' ∧
      (e'.plainNames.Nodup ↔ (e.renamed source).Nodup) := by
  obtain ⟨applied, t', happly, hparse, hshape⟩ :=
    Tree.Template.rewriteAll_of_applyAll ht he hwritable
  obtain ⟨i, hi⟩ := List.mem_iff_getElem?.1 he
  have hnames := congrArg (·[i]?) (Tree.Template.plainNames_of_shape hshape)
  simp only [List.getElem?_map, hi, Option.map_some, if_true] at hnames
  obtain ⟨e', he', hplain⟩ := Option.map_eq_some_iff.1 hnames
  rw [Concrete.elementFixes_eq hc]
  refine ⟨applied, t', e', i, happly, hparse, hshape, hi, he', ?_⟩
  rw [hplain, Tree.Element.nodup_plainNames_rewrite, and_iff_right hnodup]

/-- An input with one argument passed twice. -/
def twiceInput : String := "<Input @elementId=\"a\" @elementId=\"b\" />"

theorem plainNames_together_twice :
    ∃ (t : Tree.Template) (e : Tree.Element) (c : ComponentSchema) (applied : FixOutcome)
        (t' : Tree.Template) (e' : Tree.Element),
      Tree.Template.parse twiceInput = .ok t ∧ e ∈ t.elements ∧
        Component.schema? e.tag = some c ∧ e.plainNames.Nodup ∧
        Fix.applyAll twiceInput
            ((ComponentArguments.elementFindings twiceInput c e).filterMap Finding.fix) =
          .ok applied ∧
        Tree.Template.parse applied.output = .ok t' ∧ e' ∈ t'.elements ∧ ¬ e'.plainNames.Nodup := by
  have hfacts : (Tree.Template.parse twiceInput).toOption.map (fun t => t.elements.map fun e =>
      (e.tag, e.plainNames, e.renamed twiceInput, e.attributes.map fun a =>
        (e.rewrite? twiceInput a).isSome)) =
      some [("Input", [], ["@elementId", "@elementId"], [true, true])] := by
    decide +kernel
  cases ht : Tree.Template.parse twiceInput with
  | error error =>
    rw [ht] at hfacts
    cases hfacts
  | ok t =>
    rw [ht] at hfacts
    obtain ⟨e, he, hfacts⟩ := List.map_eq_singleton_iff.1 (Option.some.inj hfacts)
    obtain ⟨htag, hplain, hrenamed, hsome⟩ :=
      (by simpa only [Prod.mk.injEq] using hfacts : _ ∧ _ ∧ _ ∧ _)
    have hmem : e ∈ t.elements := by rw [he]; exact .head _
    have hc : Component.schema? e.tag = some Component.input := by
      rw [htag]
      rfl
    have hwritable : e.Writable twiceInput := by
      intro a ha fix _
      have hall : ∀ b ∈ e.attributes.map fun a => (e.rewrite? twiceInput a).isSome, b = true := by
        rw [hsome]
        decide
      exact Option.isSome_iff_exists.1 (hall _ (List.mem_map_of_mem ha))
    have hnodup : e.plainNames.Nodup := by
      rw [hplain]
      exact List.nodup_nil
    obtain ⟨applied, t', e', i, happly, hparse, -, -, he', hnames⟩ :=
      plainNames_together ht hmem hc hnodup hwritable
    refine ⟨t, e, _, applied, t', e', rfl, hmem, hc, hnodup, happly, hparse,
      List.mem_of_getElem? he', ?_⟩
    rw [hnames, hrenamed]
    decide

end TemplateLint
