import TemplateLint.Proofs.Layout.Elements
import TemplateLint.Proofs.Reporting.Order

namespace TemplateLint

namespace Tree

/-- The element has an argument of this name. -/
def Element.Passes (e : Element) (name : String) : Prop := ∃ a ∈ e.attributes, a.name = "@" ++ name

instance (e : Element) (name : String) : Decidable (e.Passes name) :=
  inferInstanceAs (Decidable (∃ a ∈ e.attributes, a.name = "@" ++ name))

/-- The element has arguments of two different names of a group. -/
def Element.PassesTwo (e : Element) (group : List String) : Prop :=
  ∃ m ∈ group, ∃ n ∈ group, m ≠ n ∧ e.Passes m ∧ e.Passes n

instance (e : Element) (group : List String) : Decidable (e.PassesTwo group) :=
  inferInstanceAs (Decidable (∃ m ∈ group, ∃ n ∈ group, m ≠ n ∧ e.Passes m ∧ e.Passes n))

theorem Attribute.argumentName?_eq_some_iff {a : Attribute} {name : String} :
    a.argumentName? = some name ↔ a.name = "@" ++ name := by
  have hchars : ∀ s : String, s = "@" ++ name ↔ s.toList = '@' :: name.toList := by
    intro s
    rw [← String.toList_inj, String.toList_append]
    rfl
  rw [hchars, Attribute.argumentName?]
  split
  · next cs hcs =>
    rw [hcs, List.cons.injEq, Option.some.injEq, ← String.toList_inj, String.toList_ofList]
    simp
  · next hno =>
    constructor
    · intro h
      cases h
    · intro h
      exact absurd h (hno _)

theorem Element.hasArgument_iff {e : Element} {name : String} :
    e.hasArgument name = true ↔ e.Passes name := by
  simp only [Element.hasArgument, List.any_eq_true, beq_iff_eq, Attribute.argumentName?_eq_some_iff]
  rfl

theorem Element.passesTwo_iff {e : Element} {group : List String} (h : group.Nodup) :
    1 < (group.filter e.hasArgument).length ↔ e.PassesTwo group := by
  have hmem : ∀ name, name ∈ group.filter e.hasArgument ↔ name ∈ group ∧ e.Passes name := by
    intro name
    rw [List.mem_filter, Element.hasArgument_iff]
  have hnodup := h.filter e.hasArgument
  constructor
  · intro hlength
    match hpassed : group.filter e.hasArgument with
    | [] => simp [hpassed] at hlength
    | [_] => simp [hpassed] at hlength
    | m :: n :: _ =>
      rw [hpassed] at hnodup hmem
      have hm := (hmem m).1 List.mem_cons_self
      have hn := (hmem n).1 (List.mem_cons_of_mem _ List.mem_cons_self)
      have hne : m ≠ n := fun he => (List.nodup_cons.1 hnodup).1 (he ▸ List.mem_cons_self)
      exact ⟨m, hm.1, n, hn.1, hne, hm.2, hn.2⟩
  · rintro ⟨m, hm, n, hn, hne, hpm, hpn⟩
    have hm := (hmem m).2 ⟨hm, hpm⟩
    have hn := (hmem n).2 ⟨hn, hpn⟩
    match hpassed : group.filter e.hasArgument with
    | [] => simp [hpassed] at hm
    | [_] =>
      rw [hpassed, List.mem_singleton] at hm hn
      exact absurd (hm.trans hn.symm) hne
    | _ :: _ :: _ => simp

end Tree

namespace ComponentSchema

/-- The deprecated arguments and events. -/
def deprecations (c : ComponentSchema) : List (String × Deprecation) :=
  c.deprecatedArguments ++ c.deprecatedEvents

/-- What a deprecated argument or event becomes. -/
def migration? (c : ComponentSchema) (argument : String) : Option Migration :=
  (c.deprecations.lookup argument).bind Deprecation.fix

theorem deprecation?_eq (c : ComponentSchema) (argument : String) :
    c.deprecation? argument = c.deprecations.lookup argument :=
  List.lookup_append.symm

end ComponentSchema

namespace Component

theorem text_of_retired {component argument : String} {d : Deprecation} {fix : Option Migration}
    {name : String} (h : (argument, d) = retired component fix name) :
    d.message = Deprecation.text component argument d.fix := by
  cases h
  rfl

/-- Every deprecation of the registry says what its component, its argument and its fix make of the
text of deprecations. -/
theorem message_of_mem_deprecations {c : ComponentSchema} (hc : c ∈ all) {argument : String}
    {d : Deprecation} (h : (argument, d) ∈ c.deprecations) :
    d.message = Deprecation.text c.name argument d.fix := by
  have harguments : ∀ {component : String} {gone attributes : List String},
      (argument, d) ∈ deprecatedArguments component gone attributes →
        d.message = Deprecation.text component argument d.fix := by
    intro component gone attributes h
    rcases List.mem_append.1 h with h | h
    · rcases List.mem_append.1 h with h | h
      · obtain ⟨name, -, he⟩ := List.mem_map.1 h
        exact text_of_retired he.symm
      · obtain ⟨⟨name, target⟩, -, he⟩ := List.mem_map.1 h
        exact text_of_retired he.symm
    · obtain ⟨name, -, he⟩ := List.mem_map.1 h
      exact text_of_retired he.symm
  have hevents : ∀ {component : String} {events : List (String × String)},
      (argument, d) ∈ deprecatedEvents component events →
        d.message = Deprecation.text component argument d.fix := by
    intro component events h
    obtain ⟨⟨name, event⟩, -, he⟩ := List.mem_map.1 h
    exact text_of_retired he.symm
  simp only [all, List.mem_cons, List.not_mem_nil, or_false] at hc
  rcases hc with rfl | rfl | rfl
  all_goals
    rcases List.mem_append.1 h with h | h
    · exact harguments h
    · exact hevents h

/-- No group of arguments that exclude each other has one of them twice. -/
theorem nodup_of_mem_conflictGroups {c : ComponentSchema} (hc : c ∈ all) {group : List String}
    (h : group ∈ c.conflictGroups) : group.Nodup := by
  have hall : ∀ c ∈ all, ∀ group ∈ c.conflictGroups, group.Nodup := by decide
  exact hall c hc group h

/-- A component has one schema. -/
theorem schema?_eq_some_iff {name : String} {c : ComponentSchema} :
    schema? name = some c ↔ c ∈ all ∧ c.name = name := by
  constructor
  · intro h
    exact ⟨List.mem_of_find?_eq_some h, by simpa using List.find?_some h⟩
  · rintro ⟨hc, rfl⟩
    simp only [all, List.mem_cons, List.not_mem_nil, or_false] at hc
    rcases hc with rfl | rfl | rfl <;> rfl

end Component

namespace ComponentArguments

/-- What can be wrong with the arguments of an element. -/
inductive Complaint where
  /-- No argument of a group is passed, but one is required. -/
  | missing (group : List String)
  | deprecated (argument : String)
  | unknown (argument : String)
  /-- The argument is passed beside another one of a group. -/
  | conflict (argument : String) (group : List String)
  deriving DecidableEq, Repr

/-- The text of a complaint about a component. -/
def Complaint.message (c : ComponentSchema) : Complaint → String
  | .missing group => requiredMessage c.name group
  | .deprecated argument => Deprecation.text c.name argument (c.migration? argument)
  | .unknown argument => unknownMessage c.name argument (c.suggest? argument)
  | .conflict argument group => conflictMessage c.name argument group

/-- What is wrong with an argument of this name. Only what is not deprecated can be unknown, and
only what is known can be in conflict with other arguments. -/
def complaintsAbout (c : ComponentSchema) (e : Tree.Element) (name : String) : List Complaint :=
  if name ∈ c.deprecations.map Prod.fst then [.deprecated name]
  else if name ∉ c.knownArguments then [.unknown name]
  else (c.conflictGroups.filter fun group => name ∈ group ∧ e.PassesTwo group).map (.conflict name)

/-- What is wrong with an attribute that is an argument, at its name. -/
def complaintsAt (c : ComponentSchema) (e : Tree.Element) (a : Tree.Attribute) :
    List (Span × Complaint) :=
  match a.argumentName? with
  | none => []
  | some name => (complaintsAbout c e name).map fun complaint => (a.nameSpan, complaint)

/-- What is wrong with an element, and where: at the name of the tag for what is missing, and then
what is wrong with its arguments in source order. -/
def complaints (c : ComponentSchema) (e : Tree.Element) : List (Span × Complaint) :=
  ((c.requiredOneOf.filter fun group => ∀ name ∈ group, ¬ e.Passes name).map fun group =>
      (e.tagSpan, .missing group)) ++ e.attributes.flatMap (complaintsAt c e)

/-- What is said about an element of a component, and where. -/
def reports (c : ComponentSchema) (e : Tree.Element) : List (Span × String) :=
  (complaints c e).map fun x => (x.1, x.2.message c)

variable {source : String} {c : ComponentSchema} {e : Tree.Element}

theorem missing_eq (c : ComponentSchema) (e : Tree.Element) :
    (missing c e).map (fun f => (f.span, f.message)) =
      (c.requiredOneOf.filter fun group => ∀ name ∈ group, ¬ e.Passes name).map fun group =>
        (e.tagSpan, (Complaint.missing group).message c) := by
  have hgroup : ∀ group : List String,
      (!group.any e.hasArgument) = decide (∀ name ∈ group, ¬ e.Passes name) := by
    intro group
    rw [Bool.eq_iff_iff]
    simp [Tree.Element.hasArgument_iff.symm]
  rw [missing, List.map_map]
  simp only [hgroup]
  rfl

theorem conflicts_eq (hc : c ∈ Component.all) (e : Tree.Element) (name : String) :
    conflicts c e name = c.conflictGroups.filter fun group => name ∈ group ∧ e.PassesTwo group := by
  refine List.filter_congr fun group hgroup => ?_
  rw [Bool.eq_iff_iff, Bool.and_eq_true, decide_eq_true_iff, decide_eq_true_iff,
    Tree.Element.passesTwo_iff (Component.nodup_of_mem_conflictGroups hc hgroup),
    List.contains_iff_mem, and_comm]

/-- An argument is reported for what is wrong with it, at its name. -/
theorem argumentFindings_eq (hc : c ∈ Component.all) (e : Tree.Element) (name : String)
    (a : Tree.Attribute) :
    (argumentFindings source c e (name, a)).map (fun f => (f.span, f.message)) =
      (complaintsAbout c e name).map fun complaint => (a.nameSpan, complaint.message c) := by
  rw [argumentFindings, complaintsAbout, ComponentSchema.deprecation?_eq]
  cases hlookup : c.deprecations.lookup name with
  | some d =>
    obtain ⟨before, after, hsplit, -⟩ := List.lookup_eq_some_iff.1 hlookup
    have hmem : (name, d) ∈ c.deprecations := by simp [hsplit]
    rw [if_pos (List.mem_map.2 ⟨_, hmem, rfl⟩)]
    simp [Complaint.message, ComponentSchema.migration?, hlookup,
      Component.message_of_mem_deprecations hc hmem]
  | none =>
    have hnone : name ∉ c.deprecations.map Prod.fst := by
      rintro h
      obtain ⟨p, hp, rfl⟩ := List.mem_map.1 h
      simpa using List.lookup_eq_none_iff.1 hlookup p hp
    rw [if_neg hnone]
    by_cases hknown : name ∈ c.knownArguments
    · rw [if_neg (not_not_intro hknown)]
      simp [ComponentSchema.isKnown, hknown, conflicts_eq hc, Complaint.message, Function.comp_def]
    · rw [if_pos hknown]
      simp [ComponentSchema.isKnown, hknown, Complaint.message]

/-- The findings at an element are the complaints about it. -/
theorem elementFindings_eq (hc : c ∈ Component.all) (e : Tree.Element) :
    (elementFindings source c e).map (fun f => (f.span, f.message)) = reports c e := by
  rw [elementFindings, reports, complaints, List.map_append, List.map_append, missing_eq,
    List.map_map]
  congr 1
  rw [Tree.Element.arguments]
  induction e.attributes with
  | nil => rfl
  | cons a attributes ih =>
    rw [List.flatMap_cons, List.map_append, ← ih, complaintsAt]
    cases hname : a.argumentName? with
    | none => rw [List.filterMap_cons_none (by rw [hname]; rfl)]; rfl
    | some name =>
      rw [List.filterMap_cons_some (by rw [hname]; rfl), List.flatMap_cons, List.map_append,
        argumentFindings_eq hc, List.map_map]
      rfl

theorem span_eq_of_mem_complaintsAt {a : Tree.Attribute} {x : Span × Complaint}
    (hx : x ∈ complaintsAt c e a) : x.1 = a.nameSpan := by
  unfold complaintsAt at hx
  split at hx
  · cases hx
  · obtain ⟨complaint, -, rfl⟩ := List.mem_map.1 hx
    rfl

/-- A complaint is about the name of the tag or of an attribute. -/
theorem span_mem_of_mem_complaints {x : Span × Complaint} (hx : x ∈ complaints c e) :
    x.1 ∈ e.tagSpan :: e.attributes.map Tree.Attribute.nameSpan := by
  rcases List.mem_append.1 hx with hx | hx
  · obtain ⟨group, -, rfl⟩ := List.mem_map.1 hx
    exact List.mem_cons_self
  · obtain ⟨a, ha, hx⟩ := List.mem_flatMap.1 hx
    rw [span_eq_of_mem_complaintsAt hx]
    exact List.mem_cons_of_mem _ (List.mem_map_of_mem ha)

/-- Complaints start in the opening tag of the element. -/
theorem start_of_mem_complaints (he : e.Opens) {x : Span × Complaint} (hx : x ∈ complaints c e) :
    e.openSpan.start < x.1.start ∧ x.1.start ≤ e.openSpan.stop := by
  have hin := he.names.within (span_mem_of_mem_complaints hx)
  rw [he.start]
  omega

theorem complaints_pairwise (c : ComponentSchema) (he : e.Opens) :
    (complaints c e).Pairwise fun x y => x.1.start ≤ y.1.start := by
  obtain ⟨htag, hnames⟩ := List.pairwise_cons.1 he.names.pairwise
  have hle : ∀ a ∈ e.attributes, a.nameSpan.start ≤ a.nameSpan.stop := fun a ha =>
    (he.names.within (List.mem_cons_of_mem _ (List.mem_map_of_mem ha))).2.1
  refine List.pairwise_append.2 ⟨?_, List.pairwise_flatMap.2 ⟨fun a _ => ?_, ?_⟩, ?_⟩
  · exact List.pairwise_map.2 (List.pairwise_of_forall fun _ _ => Nat.le_refl _)
  · -- all complaints about one argument are at its name
    refine (List.pairwise_of_forall fun _ _ => trivial).imp_of_mem fun hx hy _ => ?_
    have hspan := (span_eq_of_mem_complaintsAt hx).trans (span_eq_of_mem_complaintsAt hy).symm
    exact Nat.le_of_eq (congrArg Span.start hspan)
  · refine (List.pairwise_map.1 hnames).imp_of_mem fun {a b} ha _ hab x hx y hy => ?_
    rw [span_eq_of_mem_complaintsAt hx, span_eq_of_mem_complaintsAt hy]
    exact Nat.le_trans (hle a ha) hab
  · intro x hx y hy
    obtain ⟨group, -, rfl⟩ := List.mem_map.1 hx
    obtain ⟨b, hb, hy⟩ := List.mem_flatMap.1 hy
    rw [span_eq_of_mem_complaintsAt hy]
    exact Nat.le_trans he.names.2.1 (htag _ (List.mem_map_of_mem hb))

variable {t : Tree.Template}

/-- The elements of built-in components with their schemas, as rules see them. -/
def builtIns (t : Tree.Template) : List (Tree.Element × ComponentSchema) :=
  t.elements.filterMap fun e => (Component.schema? e.tag).map fun c => (e, c)

theorem mem_builtIns_iff :
    (e, c) ∈ builtIns t ↔
      t.Holds (.node (.element e)) ∧ c ∈ Component.all ∧ c.name = e.tag := by
  rw [← Tree.Template.mem_elements_iff, ← Component.schema?_eq_some_iff, builtIns,
    List.mem_filterMap]
  constructor
  · rintro ⟨e', he, hpair⟩
    obtain ⟨c', hc, hpair⟩ := Option.map_eq_some_iff.1 hpair
    cases hpair
    exact ⟨he, hc⟩
  · rintro ⟨he, hc⟩
    exact ⟨e, he, by rw [hc]; rfl⟩

/-- The diagnostics are about the elements of built-in components, one after the other. -/
theorem diagnose_reports (t : Tree.Template) :
    (rule.diagnose source t.nodes).map (fun d => (d.span, d.message)) =
      (builtIns t).flatMap fun x => reports x.2 x.1 := by
  have hview : ∀ findings : List Finding,
      (findings.map (RuleContext.new rule.metadata source).complete).map
        (fun d => (d.span, d.message)) = findings.map fun f => (f.span, f.message) := by
    intro findings
    simp only [List.map_map, Function.comp_def, span_complete, message_complete]
  rw [Linter.diagnose_eq, hview, builtIns, Tree.Template.elements]
  induction t.nodes with
  | nil => rfl
  | cons n nodes ih =>
    rw [List.flatMap_cons, List.map_append, ih]
    cases n with
    | element e =>
      have hvisit : rule.visit source (.element e) = findings source (.element e) := rfl
      have hcons : (Tree.Node.element e :: nodes).filterMap Tree.Node.element? =
          e :: nodes.filterMap Tree.Node.element? := rfl
      rw [hcons, hvisit, findings]
      cases hschema : Component.schema? e.tag with
      | none =>
        rw [List.filterMap_cons_none (by rw [hschema]; rfl)]
        rfl
      | some c =>
        rw [List.filterMap_cons_some (by rw [hschema]; rfl), List.flatMap_cons,
          elementFindings_eq (Component.schema?_eq_some_iff.1 hschema).1]
    | _ => rfl

theorem builtIns_pairwise (ht : Tree.Template.parse source = .ok t) :
    (builtIns t).Pairwise fun x y => x.1.openSpan.stop ≤ y.1.openSpan.start := by
  refine (Tree.Template.elements_pairwise ht).filterMap _ fun e e' h x hx y hy => ?_
  obtain ⟨c, -, rfl⟩ := Option.map_eq_some_iff.1 hx
  obtain ⟨c', -, rfl⟩ := Option.map_eq_some_iff.1 hy
  exact h

theorem opens_of_mem_builtIns (ht : Tree.Template.parse source = .ok t)
    {x : Tree.Element × ComponentSchema} (hx : x ∈ builtIns t) : x.1.Opens :=
  Tree.Template.opens_of_mem_elements ht
    (Tree.Template.mem_elements_iff.2 (mem_builtIns_iff.1 hx).1)

/-- The elements are visited in the order in which their complaints start. -/
theorem reports_pairwise (ht : Tree.Template.parse source = .ok t) :
    ((builtIns t).flatMap fun x => reports x.2 x.1).Pairwise fun x y => x.1.start ≤ y.1.start := by
  refine List.pairwise_flatMap.2 ⟨?_, ?_⟩
  · intro x hx
    exact List.pairwise_map.2 (complaints_pairwise x.2 (opens_of_mem_builtIns ht hx))
  · refine (builtIns_pairwise ht).imp_of_mem fun hx hy hbefore v hv' w hw' => ?_
    obtain ⟨v, hv, rfl⟩ := List.mem_map.1 hv'
    obtain ⟨w, hw, rfl⟩ := List.mem_map.1 hw'
    have hstop := (start_of_mem_complaints (opens_of_mem_builtIns ht hx) hv).2
    have hstart := (start_of_mem_complaints (opens_of_mem_builtIns ht hy) hw).1
    dsimp only
    omega

end ComponentArguments

namespace Linter

open TemplateLint.ComponentArguments (requiredMessage unknownMessage conflictMessage)

/-- The rule for arguments makes its complaints about every element of a built-in component,
wherever it stands in the tree, and none about other elements. They are in the order of the source. -/
theorem lint_complaints {config : Configuration} {l : Linter} (hl : Linter.new config = .ok l)
    (hrule : ComponentArguments.rule.id ∈ l.ruleIds) {source : String} {t : Tree.Template}
    (ht : Tree.Template.parse source = .ok t) :
    ∃ (outcome : LintOutcome) (es : List (Tree.Element × ComponentSchema)),
      l.lint source = .ok outcome ∧
      es.Pairwise (fun x y => x.1.span.start < y.1.span.start) ∧
      (∀ e c, (e, c) ∈ es ↔
        t.Holds (.node (.element e)) ∧ c ∈ Component.all ∧ c.name = e.tag) ∧
      (outcome.diagnostics.filter fun d => d.ruleId == ComponentArguments.rule.id).map
          (fun d => (d.span, d.message)) =
        es.flatMap fun x => ComponentArguments.reports x.2 x.1 := by
  have hlint := lint_of_parse (l := l) ht
  have hvalid := valid_of_new hl
  have hmem := mem_rules_of_mem_ruleIds hvalid (by simp [Catalogue.rules]) hrule
  refine ⟨_, ComponentArguments.builtIns t, hlint, ?_, fun e c =>
    ComponentArguments.mem_builtIns_iff, ?_⟩
  · refine (ComponentArguments.builtIns_pairwise ht).imp_of_mem fun {x y} hx hy hbefore => ?_
    have hxo := ComponentArguments.opens_of_mem_builtIns ht hx
    have hyo := ComponentArguments.opens_of_mem_builtIns ht hy
    have hle := hxo.names.le
    rw [hyo.start] at hbefore
    omega
  · exact map_filter_lintTemplate hvalid hmem (fun v => v.1.start) (fun _ => rfl)
      (ComponentArguments.diagnose_reports t) (ComponentArguments.reports_pairwise ht)

/-- The linter that only looks at arguments, and its configuration. -/
def argumentsOnly : Linter := ⟨[ComponentArguments.rule]⟩

def argumentsConfig : Configuration :=
  Configuration.new.withRule ComponentArguments.rule.id (.bool true)

theorem new_argumentsConfig : Linter.new argumentsConfig = .ok argumentsOnly := by rfl

/-- A link with something of everything that can be wrong, and a component in its content. What
another tag passes is left alone. -/
def mistakenLink : String :=
  "<div @route=\"x\"><LinkTo @model=\x7b\x7ba\x7d\x7d @modle=\"b\" @models=\x7b\x7bc\x7d\x7d" ++
    " @title=\"d\" @model=\x7b\x7be\x7d\x7d>\x7b\x7b#if f\x7d\x7d" ++
    "<Input @click=\x7b\x7bg\x7d\x7d />\x7b\x7b/if\x7d\x7d</LinkTo></div>"

theorem lint_complaints_link :
    ∃ (t : Tree.Template) (es : List (Tree.Element × ComponentSchema)),
      Tree.Template.parse mistakenLink = .ok t ∧
      (∀ e c, (e, c) ∈ es ↔
        t.Holds (.node (.element e)) ∧ c ∈ Component.all ∧ c.name = e.tag) ∧
      es.flatMap (fun x => ComponentArguments.reports x.2 x.1) =
        [(⟨17, 23⟩, requiredMessage "LinkTo" ["route", "query"]),
          (⟨24, 30⟩, conflictMessage "LinkTo" "model" ["model", "models"]),
          (⟨37, 43⟩, unknownMessage "LinkTo" "modle" (some "model")),
          (⟨48, 55⟩, conflictMessage "LinkTo" "models" ["model", "models"]),
          (⟨62, 68⟩, Deprecation.text "LinkTo" "title" (some (.attribute "title"))),
          (⟨73, 79⟩, conflictMessage "LinkTo" "model" ["model", "models"]),
          (⟨102, 108⟩, Deprecation.text "Input" "click" (some (.event "click")))] := by
  have hreports : (Tree.Template.parse mistakenLink).toOption.map (fun t =>
      (ComponentArguments.rule.diagnose mistakenLink t.nodes).map fun d => (d.span, d.message)) =
        some [
          (⟨17, 23⟩, requiredMessage "LinkTo" ["route", "query"]),
          (⟨24, 30⟩, conflictMessage "LinkTo" "model" ["model", "models"]),
          (⟨37, 43⟩, unknownMessage "LinkTo" "modle" (some "model")),
          (⟨48, 55⟩, conflictMessage "LinkTo" "models" ["model", "models"]),
          (⟨62, 68⟩, Deprecation.text "LinkTo" "title" (some (.attribute "title"))),
          (⟨73, 79⟩, conflictMessage "LinkTo" "model" ["model", "models"]),
          (⟨102, 108⟩, Deprecation.text "Input" "click" (some (.event "click")))] := by
    decide +kernel
  cases ht : Tree.Template.parse mistakenLink with
  | error e =>
    rw [ht] at hreports
    cases hreports
  | ok t =>
    obtain ⟨outcome, es, hlint, -, hes, hplaces⟩ :=
      lint_complaints new_argumentsConfig (by decide) ht
    rw [ht] at hreports
    rw [lint_of_parse ht] at hlint
    cases hlint
    have hplaces' := map_filter_lintTemplate (valid_of_new new_argumentsConfig) List.mem_cons_self
      (fun v => v.1.start) (fun _ => rfl) (Option.some.inj hreports) (by decide)
    exact ⟨t, es, rfl, hes, hplaces.symm.trans hplaces'⟩

end Linter

end TemplateLint
