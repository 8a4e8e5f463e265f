import TemplateLint.Proofs.Fixing.Cleared
import TemplateLint.Proofs.Fixing.Interchange
import TemplateLint.Proofs.Fixing.Outcome
import TemplateLint.Proofs.Reporting.Arguments

namespace TemplateLint

open Concrete (Statement AttrValue)

namespace Linter

/-- The values of a source that become arguments of modifiers. -/
def eventValues (source : String) : List AttrValue :=
  Statement.eventValuesAll (Statement.ofSource source)

/-- Two linters one after the other, where the passes of each suffice. -/
theorem fixesTo_fixesTo {first second : Linter} (hfirst : first.Valid) (hsecond : second.Valid)
    {ss ts : List Statement} (hs : Statement.AllStand ss [])
    (hr : Statement.readsAll first.fixers ss = true)
    (hd : Statement.depthAll first.fixers ss ≤ maxPasses)
    (hts : Statement.settledAll second.fixers (Statement.settledAll first.fixers ss) = ts)
    (hr' : Statement.readsAll second.fixers (Statement.settledAll first.fixers ss) = true)
    (hd' : Statement.depthAll second.fixers (Statement.settledAll first.fixers ss) ≤ maxPasses) :
    ∃ mid, first.FixesTo (Statement.toSource ss) mid ∧
      second.FixesTo mid (Statement.toSource ts) := by
  obtain ⟨hmid, hfix⟩ := fix_settledAll hfirst hs hr hd
  obtain ⟨-, hfix'⟩ := fix_settledAll hsecond hmid hr' hd'
  rw [hts] at hfix'
  exact ⟨_, hfix, hfix'⟩

/-- Fixing with both rules, or with the one for arguments and then the one for negated conditions,
comes to the same text, if fixing with both leaves nothing to fix and every argument that becomes a
modifier is read back as one. So does the other order if the modifiers get the values as they are
meant, with no fix hidden in a string. -/
theorem fix_either_order {config config₁ config₂ : Configuration}
    {both conditions arguments : Linter} (hboth : Linter.new config = .ok both)
    (hconditions : Linter.new config₁ = .ok conditions)
    (harguments : Linter.new config₂ = .ok arguments) (hb : both.fixers = ⟨true, true⟩)
    (hc : conditions.fixers = ⟨true, false⟩) (ha : arguments.fixers = ⟨false, true⟩)
    {source out : String} (hout : both.FixesTo source out) (hsettled : both.Settled out)
    (hreads : arguments.reads source = true) :
    (∃ mid, arguments.FixesTo source mid ∧ conditions.FixesTo mid out) ∧
      ((∀ v ∈ eventValues source, v.Carried both.fixers) →
        ∃ mid, conditions.FixesTo source mid ∧ arguments.FixesTo mid out) := by
  have hb' := valid_of_new hboth
  have hc' := valid_of_new hconditions
  have ha' := valid_of_new harguments
  have hfc : conditions.fixers = both.fixers.onlyConditions := by rw [hc, hb]; rfl
  have hfa : arguments.fixers = both.fixers.onlyArguments := by rw [ha, hb]; rfl
  obtain ⟨ss, hs, rfl, hsettle⟩ := fixesTo_iff.1 hout
  rw [reads, hfa, hs.ofSource_eq] at hreads
  obtain ⟨hall, hdepth⟩ := reads_of_settled hb' hs hreads hsettle hsettled
  obtain rfl : out = Statement.toSource (Statement.settledAll both.fixers ss) :=
    hout.unique (fix_settledAll hb' hs hall hdepth).2
  have hdepth' : ∀ ts, Statement.depthAll arguments.fixers ts ≤ maxPasses := by
    intro ts
    rw [hfa]
    exact Nat.le_trans (Statement.depthAll_onlyArguments ts) (by decide)
  constructor
  · obtain ⟨heq, hr, hd⟩ := Statement.settledAll_conditions_arguments hall
    rw [← hfa, ← hfc] at heq hr hd
    exact fixesTo_fixesTo ha' hc' hs (hfa ▸ hreads) (hdepth' ss) heq hr (Nat.le_trans hd hdepth)
  · intro hcarried
    rw [eventValues, hs.ofSource_eq] at hcarried
    obtain ⟨heq, hr, hd⟩ := hs.settled_arguments_conditions hcarried
    have hr' := Statement.readsAll_mono both.fixers.onlyConditions_le hall
    rw [← hfa, ← hfc] at heq hr
    rw [← hfc] at hd hr'
    exact fixesTo_fixesTo hc' ha' hs hr' (Nat.le_trans hd hdepth) heq hr (hdepth' _)

/-- The linter with both rules that have fixes, and its configuration. -/
def bothRules : Linter := ⟨[NegatedCondition.rule, ComponentArguments.rule]⟩

def bothConfig : Configuration :=
  conditionsConfig.withRule ComponentArguments.rule.id (.bool true)

theorem new_bothConfig : Linter.new bothConfig = .ok bothRules := by rfl

/-- A block around a component, with fixes for it, for an event of the component and inside of
that. -/
def negatedHandler : String :=
  "\x7b\x7b#if (not a)\x7d\x7d<Input @click=\x7b\x7bif (not b) c d\x7d\x7d @elementId=\"x\" />" ++
    "\x7b\x7b/if\x7d\x7d"

/-- What both rules make of it, in whatever order. -/
def freedHandler : String :=
  "\x7b\x7b#unless a\x7d\x7d<Input \x7b\x7bon \"click\" (if b d c)\x7d\x7d id=\"x\" />" ++
    "\x7b\x7b/unless\x7d\x7d"

theorem fix_either_order_handler :
    Linter.new bothConfig = .ok bothRules ∧ Linter.new conditionsConfig = .ok conditionsOnly ∧
      Linter.new argumentsConfig = .ok argumentsOnly ∧
      bothRules.FixesTo negatedHandler freedHandler ∧ bothRules.Settled freedHandler ∧
      (∃ mid, argumentsOnly.FixesTo negatedHandler mid ∧
        conditionsOnly.FixesTo mid freedHandler) ∧
      ∃ mid, conditionsOnly.FixesTo negatedHandler mid ∧
        argumentsOnly.FixesTo mid freedHandler := by
  have hreads : bothRules.reads negatedHandler = true := by decide +kernel
  have hdepth : bothRules.depth negatedHandler = 3 := by decide +kernel
  have hvalid := valid_of_new new_bothConfig
  have hout : bothRules.FixesTo negatedHandler freedHandler :=
    (fixesTo_iff_textAfter? hvalid).2 (by decide +kernel)
  have hsettled : bothRules.Settled freedHandler :=
    (hout.settled_iff hvalid hreads).2 (by rw [hdepth]; decide)
  obtain ⟨hfirst, hsecond⟩ := fix_either_order new_bothConfig new_conditionsConfig
    new_argumentsConfig rfl rfl rfl hout hsettled (by decide +kernel)
  exact ⟨new_bothConfig, new_conditionsConfig, new_argumentsConfig, hout, hsettled, hfirst,
    hsecond (by decide +kernel)⟩

/-- Where fixing with both rules and with one after the other, in either order, gives a text, it is
the same one. -/
def OrdersAgree (source : String) : Prop :=
  ∀ out a out₁ c out₂, bothRules.FixesTo source out → argumentsOnly.FixesTo source a →
    conditionsOnly.FixesTo a out₁ → conditionsOnly.FixesTo source c →
      argumentsOnly.FixesTo c out₂ → out₁ = out ∧ out₂ = out

/-- Whether all of these runs give a text, and not the same one. -/
def runsDiffer (text : List Char) : Bool :=
  match bothRules.textAfter? maxPasses text,
    (argumentsOnly.textAfter? maxPasses text).bind (conditionsOnly.textAfter? maxPasses),
    (conditionsOnly.textAfter? maxPasses text).bind (argumentsOnly.textAfter? maxPasses) with
  | some out, some out₁, some out₂ => out₁ != out || out₂ != out
  | _, _, _ => false

theorem not_ordersAgree_of_runsDiffer {source : String} (h : runsDiffer source.toList = true) :
    ¬ OrdersAgree source := by
  intro hagree
  have hrun {l : Linter} {config : Configuration} (hl : Linter.new config = .ok l) {s t : List Char}
      (hs : l.textAfter? maxPasses s = some t) : l.FixesTo (.ofList s) (.ofList t) :=
    (fixesTo_iff_textAfter? (valid_of_new hl)).2 (by simpa using hs)
  rw [← String.ofList_toList (s := source)] at hagree
  unfold runsDiffer at h
  split at h
  · next out out₁ out₂ hout hout₁ hout₂ =>
    obtain ⟨a, ha, hout₁⟩ := Option.bind_eq_some_iff.1 hout₁
    obtain ⟨c, hc, hout₂⟩ := Option.bind_eq_some_iff.1 hout₂
    obtain ⟨h₁, h₂⟩ := hagree _ _ _ _ _ (hrun new_bothConfig hout) (hrun new_argumentsConfig ha)
      (hrun new_conditionsConfig hout₁) (hrun new_conditionsConfig hc)
      (hrun new_argumentsConfig hout₂)
    simp [String.ofList_inj.1 h₁, String.ofList_inj.1 h₂] at h
  · cases h

/-- The orders differ where both rules together have more levels of fixes than passes, but the passes
suffice for each rule by itself. -/
theorem not_ordersAgree_of_depth {ss : List Statement} (hs : Statement.AllStand ss [])
    (hr : Statement.readsAll bothRules.fixers ss = true)
    (hcarried : ∀ v ∈ Statement.eventValuesAll ss, v.Carried bothRules.fixers)
    (hboth : maxPasses < Statement.depthAll bothRules.fixers ss)
    (hfirst : Statement.depthAll conditionsOnly.fixers ss ≤ maxPasses)
    (hsecond : Statement.depthAll conditionsOnly.fixers
      (Statement.settledAll argumentsOnly.fixers ss) ≤ maxPasses) :
    ¬ OrdersAgree (Statement.toSource ss) := by
  have hb := valid_of_new new_bothConfig
  have hc := valid_of_new new_conditionsConfig
  have ha := valid_of_new new_argumentsConfig
  have hdepth : ∀ ts, Statement.depthAll argumentsOnly.fixers ts ≤ maxPasses := fun ts =>
    Nat.le_trans (Statement.depthAll_onlyArguments (f := bothRules.fixers) ts) (by decide)
  obtain ⟨heq₁, hr₁, -⟩ := Statement.settledAll_conditions_arguments hr
  obtain ⟨a, hfixa, hout₁⟩ := fixesTo_fixesTo ha hc hs
    (Statement.readsAll_mono bothRules.fixers.onlyArguments_le hr) (hdepth ss) heq₁ hr₁ hsecond
  obtain ⟨heq₂, hr₂, -⟩ := hs.settled_arguments_conditions hcarried
  obtain ⟨c, hfixc, hout₂⟩ := fixesTo_fixesTo hc ha hs
    (Statement.readsAll_mono bothRules.fixers.onlyConditions_le hr) hfirst heq₂ hr₂ (hdepth _)
  obtain ⟨hleft, hnone⟩ := settledAll_stands hb hs hr
  obtain ⟨ss', hs', hmore, hsettle, -⟩ := settle_reads hb maxPasses hs hr
  have hout : bothRules.FixesTo (Statement.toSource ss) (Statement.toSource ss') :=
    fixesTo_iff.2 ⟨ss, hs, rfl, hsettle⟩
  intro hagree
  obtain ⟨he, -⟩ := hagree _ _ _ _ _ hout hfixa hout₁ hfixc hout₂
  have he := congrArg Statement.ofSource he
  rw [hleft.ofSource_eq, hs'.ofSource_eq] at he
  rw [← he] at hmore
  omega

/-- An event with a negation in its string. A modifier gets the string as it is, and there is
nothing to fix in it from then on. -/
def negationInString : String := "<Input @click=\"\x7b\x7bif (not a) b\x7d\x7d\" />"

/-- An event with a call that the fix leaves one word of. It is the handler itself or, if it was put
in parentheses before, a call of it. -/
def joinedHandler : String := "<Input @click=\x7b\x7bif(not a)b\x7d\x7d />"

/-- An event with a backslash before the end of its string. In a modifier the string goes on to the
next quote, with all that is to be fixed on the way. -/
def openString : String :=
  "<Input @click=\"a\\\" class=\x7b\x7bif (not a) b\x7d\x7d title=x\"\x7d\x7d />"

/-- An argument in negated blocks, one in the other. -/
def nestedArgument : Nat → List Char
  | 0 => "<Input @elementId=\"x\" />".toList
  | n + 1 =>
    "\x7b\x7b#if (not a)\x7d\x7d".toList ++ nestedArgument n ++ "\x7b\x7b/if\x7d\x7d".toList

/-- The tag of the component in the blocks. -/
def nestedTag : Concrete.OpeningTag where
  name := ['I', 'n', 'p', 'u', 't']
  items := [⟨[' '], .attribute ⟨['@', 'e', 'l', 'e', 'm', 'e', 'n', 't', 'I', 'd'],
    some ⟨[], [], .quoted '"' [.text ['x']]⟩⟩⟩]
  trail := [' ']
  selfClosing := true

theorem nestedArgument_eq (n : Nat) :
    nestedArgument n = Statement.charsAll (Concrete.negatedIn [.whole nestedTag] n) := by
  induction n with
  | zero => rfl
  | succ n ih =>
    have hstep : nestedArgument (n + 1) =
        Concrete.negatedIf.chars ++ nestedArgument n ++ Concrete.endIf.chars := rfl
    rw [hstep, ih, Concrete.charsAll_negatedIn]

theorem nestedArgument_stand (n : Nat) :
    Statement.AllStand (Concrete.negatedIn [.whole nestedTag] n) [] := by
  have hread : Concrete.OpeningTag.read (nestedTag.chars ++ []) = .ok (nestedTag, []) := by rfl
  have htag : ∀ rest, Statement.AllStand [.whole nestedTag] rest := fun _ =>
    ⟨⟨(Concrete.OpeningTag.eq_of_read rfl hread).2, rfl⟩, trivial⟩
  exact (Concrete.allStand_negatedIn (htag _) (htag _) n).1

/-- The argument is one level more than the blocks, but no more than the blocks for one rule. -/
theorem not_ordersAgree_nestedArgument :
    ¬ OrdersAgree (.ofList (nestedArgument maxPasses)) := by
  rw [nestedArgument_eq]
  apply not_ordersAgree_of_depth (nestedArgument_stand maxPasses)
  · rw [Concrete.readsAll_negatedIn]
    rfl
  · rw [Concrete.eventValuesAll_negatedIn]
    intro v hv
    cases hv
  · rw [Concrete.depthAll_negatedIn rfl]
    decide
  · rw [Concrete.depthAll_negatedIn rfl]
    decide
  · rw [Concrete.settledAll_negatedIn rfl, Concrete.depthAll_negatedIn rfl]
    decide

/-- Fixing with both rules and with one after the other in either order gives three texts that are
not the same, be it for a string or for joined words, or as ten passes do not reach what is in ten
blocks. -/
theorem fix_order_matters :
    Linter.new bothConfig = .ok bothRules ∧ Linter.new conditionsConfig = .ok conditionsOnly ∧
      Linter.new argumentsConfig = .ok argumentsOnly ∧
      ¬ OrdersAgree negationInString ∧ ¬ OrdersAgree joinedHandler ∧ ¬ OrdersAgree openString ∧
      ¬ OrdersAgree (.ofList (nestedArgument 10)) := by
  refine ⟨new_bothConfig, new_conditionsConfig, new_argumentsConfig, ?_, ?_, ?_, ?_⟩
  · exact not_ordersAgree_of_runsDiffer (by decide +kernel)
  · exact not_ordersAgree_of_runsDiffer (by decide +kernel)
  · exact not_ordersAgree_of_runsDiffer (by decide +kernel)
  · exact not_ordersAgree_nestedArgument

end Linter

end TemplateLint
