import TemplateLint.Proofs.Fixing.Settle

namespace TemplateLint.Linter

open Concrete (Statement everywhere)

variable {l : Linter} {source : String}

theorem lint_eq_error {e : Error} :
    l.lint source = .error e ↔
      ∃ cause, Tree.Template.parse source = .error cause ∧ e = .ofSyntax cause := by
  unfold Linter.lint
  cases Tree.Template.parse source with
  | ok t => simp
  | error cause => simp [eq_comm]

/-- Several passes after each other leave the rest of the passes to their last text. -/
theorem settle_along {n : Nat} {text t : String} (h : l.Passes n text t) {o outcome : LintOutcome}
    (ho : l.lint text = .ok o) (ht : l.lint t = .ok outcome) (more : Nat) :
    l.settle (n + more) text o.fixes = l.settle more t outcome.fixes := by
  induction h generalizing o with
  | none s =>
    obtain rfl := Except.ok.inj (ho.symm.trans ht)
    rw [Nat.zero_add]
  | @more n s u t hpass hpasses ih =>
    have hu : ∃ o', l.lint u = .ok o' := by
      cases hpasses with
      | none => exact ⟨outcome, ht⟩
      | more hnext => exact ⟨_, hnext.choose_spec.choose_spec.1⟩
    obtain ⟨o', ho'⟩ := hu
    rw [show n + 1 + more = n + more + 1 by omega, settle_pass ho hpass, ho']
    exact ih ho' ht

/-- The passes come to an error exactly if one of them makes a text that is no template. -/
theorem settle_eq_error (hl : l.Valid) {passes : Nat} {text : String} {o : LintOutcome}
    (ho : l.lint text = .ok o) {e : Error} :
    l.settle passes text o.fixes = .error e ↔
      ∃ n < passes, ∃ s t, l.Passes n text s ∧ l.Pass s t ∧ l.lint t = .error e := by
  constructor
  · intro h
    induction passes generalizing text o with
    | zero => cases h
    | succ passes ih =>
      by_cases hnil : o.fixes = []
      · rw [settle, if_pos (by simpa using hnil)] at h
        cases h
      · have hpass := pass_next hl ho hnil
        rw [settle_pass ho hpass] at h
        cases hlint : l.lint (l.next text) with
        | error cause =>
          rw [hlint] at h
          cases h
          exact ⟨0, by omega, text, l.next text, .none _, hpass, hlint⟩
        | ok outcome =>
          rw [hlint] at h
          obtain ⟨n, hn, s, t, hpasses, hlast, herror⟩ := ih hlint h
          exact ⟨n + 1, by omega, s, t, .more hpass hpasses, hlast, herror⟩
  · rintro ⟨n, hn, s, t, hpasses, hpass, herror⟩
    obtain ⟨outcome, -, houtcome, -⟩ := id hpass
    obtain ⟨more, rfl⟩ : ∃ more, passes = n + (more + 1) := ⟨passes - n - 1, by omega⟩
    rw [settle_along hpasses ho houtcome, settle_pass houtcome hpass, herror]
    rfl

/-- A pass after which no template is left has a fix that is not read as it is meant. -/
theorem not_reads_of_pass (hl : l.Valid) {s t : String} (h : l.Pass s t) {e : Error}
    (ht : l.lint t = .error e) : l.reads s = false := by
  cases hr : l.reads s with
  | false => rfl
  | true =>
    obtain ⟨o, -, ho, -⟩ := id h
    obtain ⟨ss, hs, rfl, rfl⟩ := lint_eq_ok.1 ho
    rw [reads, hs.ofSource_eq] at hr
    obtain ⟨ss', -, -, hsettle, -⟩ := settle_reads hl 1 hs hr
    have herror := settle_pass ho h 0
    rw [ht] at herror
    cases hsettle.symm.trans herror

/-- Fixing fails with the error of the source if this is no template, and else with the error of a
text that a pass makes by a fix that is not read as it is meant. Where it does not fail, its output is
a template. -/
theorem fix_eq_error_iff {config : Configuration} (hl : Linter.new config = .ok l)
    (source : String) :
    (∀ e, l.fix source = .error e ↔ ∃ cause, e = .ofSyntax cause ∧
      (Tree.Template.parse source = .error cause ∨ ∃ n < maxPasses, ∃ s t, l.Passes n source s ∧
        l.reads s = false ∧ l.Pass s t ∧ Tree.Template.parse t = .error cause)) ∧
    ∀ o, l.fix source = .ok o →
      ∃ out t, o.output = some out ∧ Tree.Template.parse out = .ok t := by
  have hvalid := valid_of_new hl
  cases hlint : l.lint source with
  | error e =>
    have hfix : l.fix source = .error e := by
      rw [Linter.fix, hlint]
      rfl
    obtain ⟨cause, hcause, rfl⟩ := lint_eq_error.1 hlint
    refine ⟨fun e => ⟨?_, ?_⟩, fun o ho => by cases hfix.symm.trans ho⟩
    · intro he
      cases hfix.symm.trans he
      exact ⟨cause, rfl, Or.inl hcause⟩
    · rintro ⟨cause', rfl, hparse | ⟨n, -, s, t, hpasses, -, hpass, -⟩⟩
      · obtain rfl : cause = cause' := Except.error.inj (hcause.symm.trans hparse)
        exact hfix
      · -- passes begin with a template
        have hsource : ∃ o, l.lint source = .ok o := by
          cases hpasses with
          | none => exact ⟨_, hpass.choose_spec.choose_spec.1⟩
          | more hfirst => exact ⟨_, hfirst.choose_spec.choose_spec.1⟩
        obtain ⟨o, ho⟩ := hsource
        cases hlint.symm.trans ho
  | ok outcome =>
    have hfix := fix_eq_settle hlint
    obtain ⟨ss, hs, hsource, -⟩ := lint_eq_ok.1 hlint
    have hparse := Tree.Template.parse_eq_ok.2 ⟨ss, hs, hsource, rfl⟩
    refine ⟨fun e => ?_, fun o ho => ?_⟩
    · have herror : l.fix source = .error e ↔ l.settle maxPasses source outcome.fixes = .error e := by
        rw [hfix]
        cases l.settle maxPasses source outcome.fixes <;> simp [Except.map]
      rw [herror, settle_eq_error hvalid hlint]
      constructor
      · rintro ⟨n, hn, s, t, hpasses, hpass, ht⟩
        obtain ⟨cause, hcause, rfl⟩ := lint_eq_error.1 ht
        exact ⟨cause, rfl, Or.inr ⟨n, hn, s, t, hpasses, not_reads_of_pass hvalid hpass ht, hpass,
          hcause⟩⟩
      · rintro ⟨cause, rfl, hsource' | ⟨n, hn, s, t, hpasses, -, hpass, ht⟩⟩
        · cases hparse.symm.trans hsource'
        · exact ⟨n, hn, s, t, hpasses, hpass, lint_eq_error.2 ⟨cause, ht, rfl⟩⟩
    · cases hsettle : l.settle maxPasses source outcome.fixes with
      | error e =>
        rw [hfix, hsettle] at ho
        cases ho
      | ok out =>
        rw [hfix, hsettle] at ho
        cases ho
        obtain ⟨n, o', -, -, ho', -⟩ := settle_passes hvalid hlint hsettle
        obtain ⟨ss', hs', hout, -⟩ := lint_eq_ok.1 ho'
        exact ⟨out, _, rfl, Tree.Template.parse_eq_ok.2 ⟨ss', hs', hout, rfl⟩⟩

/-- A block whose condition would be joined with its helper, as nothing but a parenthesis parts
them. -/
def joinedNegation : String := "\x7b\x7b#if(not a)\x7d\x7dx\x7b\x7b/if\x7d\x7d"

/-- A template whose fixing fails. -/
theorem fix_joined_fails :
    ∃ l t e, Linter.new conditionsConfig = .ok l ∧ Tree.Template.parse joinedNegation = .ok t ∧
      l.fix joinedNegation = .error e := by
  have hnext : (Tree.Template.parse (conditionsOnly.next joinedNegation)).isOk = false := by
    decide +kernel
  have hreads : conditionsOnly.reads joinedNegation = false := by decide +kernel
  have hdepth : conditionsOnly.depth joinedNegation = 1 := by decide +kernel
  have hok : (Tree.Template.parse joinedNegation).isOk = true := by decide +kernel
  cases ht : Tree.Template.parse joinedNegation with
  | error e =>
    rw [ht] at hok
    cases hok
  | ok t =>
    cases hcause : Tree.Template.parse (conditionsOnly.next joinedNegation) with
    | ok t =>
      rw [hcause] at hnext
      cases hnext
    | error cause =>
      have hvalid := valid_of_new new_conditionsConfig
      obtain ⟨ss, hs, hsource, -⟩ := Tree.Template.parse_eq_ok.1 ht
      have hsource : joinedNegation = Statement.toSource ss := hsource
      have hne : conditionsOnly.fixesOf ss ≠ [] := by
        rw [Ne, fixesOf_eq_nil hvalid hs, ← hs.ofSource_eq, ← hsource]
        change conditionsOnly.depth joinedNegation ≠ 0
        rw [hdepth]
        decide
      have hpass := pass_next hvalid (lint_toSource hs) hne
      rw [← hsource] at hpass
      have herror := ((fix_eq_error_iff new_conditionsConfig joinedNegation).1 _).2
        ⟨cause, rfl, Or.inr ⟨0, by decide, joinedNegation, _, .none _, hreads, hpass, hcause⟩⟩
      exact ⟨_, t, _, new_conditionsConfig, rfl, herror⟩

/-- Fixing a source gives a text. -/
def FixesTo (l : Linter) (source out : String) : Prop :=
  ∃ o, l.fix source = .ok o ∧ o.output = some out

theorem FixesTo.unique {s t : String} (h : l.FixesTo source s) (h' : l.FixesTo source t) :
    s = t := by
  obtain ⟨o, ho, hs⟩ := h
  obtain ⟨o', ho', ht⟩ := h'
  obtain rfl := Except.ok.inj (ho.symm.trans ho')
  exact Option.some.inj (hs.symm.trans ht)

/-- A source that is fixed is that of a template, and the passes end with what it is fixed to. -/
theorem fixesTo_iff {out : String} :
    l.FixesTo source out ↔
      ∃ ss, Statement.AllStand ss [] ∧ source = Statement.toSource ss ∧
        l.settle maxPasses (Statement.toSource ss) (l.fixesOf ss) = .ok out := by
  constructor
  · rintro ⟨o, ho, hout⟩
    cases hlint : l.lint source with
    | error e =>
      rw [Linter.fix, hlint] at ho
      cases ho
    | ok outcome =>
      obtain ⟨ss, hs, rfl, rfl⟩ := lint_eq_ok.1 hlint
      have hfix := fix_eq_settle hlint
      rw [ho] at hfix
      change _ = (l.settle maxPasses _ (l.fixesOf ss)).map _ at hfix
      cases hsettle : l.settle maxPasses (Statement.toSource ss) (l.fixesOf ss) with
      | error e =>
        rw [hsettle] at hfix
        cases hfix
      | ok t =>
        rw [hsettle] at hfix
        cases hfix
        cases hout
        exact ⟨ss, hs, rfl, hsettle⟩
  · rintro ⟨ss, hs, rfl, h⟩
    exact ⟨_, fix_toSource hs h, rfl⟩

/-- Where all fixes are read as they are meant, fixing leaves nothing to fix exactly if the passes
suffice. -/
theorem FixesTo.settled_iff (hl : l.Valid) {out : String} (h : l.FixesTo source out)
    (hr : l.reads source = true) : l.Settled out ↔ l.depth source ≤ maxPasses := by
  obtain ⟨ss, hs, rfl, -⟩ := fixesTo_iff.1 h
  have hparse : Tree.Template.parse (Statement.toSource ss) = .ok (.ofConcrete ss) :=
    Tree.Template.parse_eq_ok.2 ⟨ss, hs, rfl, rfl⟩
  obtain ⟨o, text, -, ho, htext, -, -, hsettled⟩ := fix_reads hl hparse hr
  obtain rfl : out = text := h.unique ⟨o, ho, htext⟩
  exact hsettled

/-- What passes make of a text, if every text on the way is that of a template. -/
def textAfter? (l : Linter) : Nat → List Char → Option (List Char)
  | 0, text => if (Statement.readAll text).isOk then some text else none
  | passes + 1, text =>
    match Statement.readAll text with
    | .error _ => none
    | .ok ss =>
      if Statement.depthAll l.fixers ss = 0 then some text
      else l.textAfter? passes ((Statement.draftAll l.fixers ss).edited everywhere 0)

theorem textAfter?_of_error {text : List Char} {e : Concrete.Failure}
    (h : Statement.readAll text = .error e) (passes : Nat) : l.textAfter? passes text = none := by
  cases passes <;> simp [textAfter?, h, Except.isOk, Except.toBool]

theorem settle_eq_ok_iff (hl : l.Valid) (passes : Nat) {ss : List Statement}
    (hs : Statement.AllStand ss []) {t : List Char} :
    l.settle passes (Statement.toSource ss) (l.fixesOf ss) = .ok (String.ofList t) ↔
      l.textAfter? passes (Statement.charsAll ss) = some t := by
  induction passes generalizing ss with
  | zero =>
    simp [textAfter?, hs.readAll_eq, settle, Except.isOk, Except.toBool, Statement.toSource,
      String.ofList_inj]
  | succ passes ih =>
    rw [textAfter?, hs.readAll_eq]
    dsimp only
    by_cases hnil : l.fixesOf ss = []
    · rw [if_pos ((fixesOf_eq_nil hl hs).1 hnil), settle, if_pos (by simpa using hnil)]
      simp [Statement.toSource, String.ofList_inj]
    · rw [if_neg fun h => hnil ((fixesOf_eq_nil hl hs).2 h)]
      have hstep := settle_pass (lint_toSource hs) (pass_next hl (lint_toSource hs) hnil) passes
      rw [next_toSource hs] at hstep
      generalize (Statement.draftAll l.fixers ss).edited everywhere 0 = text at hstep ⊢
      rw [show (l.lintTemplate _ (.ofConcrete ss)).fixes = l.fixesOf ss from rfl] at hstep
      rw [hstep]
      cases hread : Statement.readAll text with
      | error e =>
        have hlint : ∃ e', l.lint (String.ofList text) = .error e' := by
          unfold Linter.lint Tree.Template.parse
          rw [String.toList_ofList, hread]
          exact ⟨_, rfl⟩
        obtain ⟨e', hlint⟩ := hlint
        rw [hlint, textAfter?_of_error hread]
        simp [Except.bind]
      | ok ts =>
        obtain ⟨rfl, hts⟩ := Statement.eq_of_readAll hread
        have hlint := lint_toSource (l := l) hts
        rw [Statement.toSource] at hlint
        rw [hlint]
        exact ih hts

/-- Fixing is running the passes on the text. -/
theorem fixesTo_iff_textAfter? (hl : l.Valid) {out : String} :
    l.FixesTo source out ↔ l.textAfter? maxPasses source.toList = some out.toList := by
  rw [fixesTo_iff]
  constructor
  · rintro ⟨ss, hs, rfl, h⟩
    rw [Statement.toSource, String.toList_ofList]
    rw [← String.ofList_toList (s := out)] at h
    exact (settle_eq_ok_iff hl maxPasses hs).1 h
  · intro h
    cases hread : Statement.readAll source.toList with
    | error e =>
      rw [textAfter?_of_error hread] at h
      cases h
    | ok ss =>
      obtain ⟨htext, hs⟩ := Statement.eq_of_readAll hread
      rw [htext] at h
      refine ⟨ss, hs, ?_, ?_⟩
      · rw [Statement.toSource, ← htext, String.ofList_toList]
      · rw [← String.ofList_toList (s := out)]
        exact (settle_eq_ok_iff hl maxPasses hs).2 h

end TemplateLint.Linter
