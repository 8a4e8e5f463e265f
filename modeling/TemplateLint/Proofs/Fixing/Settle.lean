import TemplateLint.Proofs.Fixing.Levels
import TemplateLint.Proofs.Fixing.Passes

namespace TemplateLint

open Concrete (Statement everywhere)

namespace Linter

variable {l : Linter} {source : String}

/-- How many places for fixes enclose each other in a source at most. -/
def depth (l : Linter) (source : String) : Nat :=
  Statement.depthAll l.fixers (Statement.ofSource source)

/-- Whether all fixes for a source leave a text that is read as it is meant. -/
def reads (l : Linter) (source : String) : Bool :=
  Statement.readsAll l.fixers (Statement.ofSource source)

/-- What the fixes for a source make of it in one pass. -/
def next (l : Linter) (source : String) : String :=
  String.ofList ((Statement.draftAll l.fixers (Statement.ofSource source)).edited everywhere 0)

/-- One pass: there are fixes, and they make another text. -/
def Pass (l : Linter) (s t : String) : Prop :=
  ∃ o applied, l.lint s = .ok o ∧ o.fixes ≠ [] ∧ Fix.applyAll s o.fixes = .ok applied ∧
    applied.output = t ∧ t ≠ s

/-- Passes one after the other. -/
inductive Passes (l : Linter) : Nat → String → String → Prop where
  | none (s : String) : Passes l 0 s s
  | more {n : Nat} {s t u : String} (h : l.Pass s t) (hs : Passes l n t u) : Passes l (n + 1) s u

/-- A text has nothing to fix, so that fixing leaves it as it is. -/
def Settled (l : Linter) (t : String) : Prop :=
  (∃ o, l.lint t = .ok o ∧ ∀ d ∈ o.diagnostics, d.fix = none) ∧
    ∃ o, l.fix t = .ok o ∧ o.output = some t

theorem lint_eq_ok {o : LintOutcome} :
    l.lint source = .ok o ↔
      ∃ ss, Statement.AllStand ss [] ∧ source = Statement.toSource ss ∧
        o = l.lintTemplate source (.ofConcrete ss) := by
  constructor
  · intro h
    obtain ⟨t, ht, rfl⟩ := exists_template_of_lint h
    obtain ⟨ss, hs, hsource, rfl⟩ := Tree.Template.parse_eq_ok.1 ht
    exact ⟨ss, hs, hsource, rfl⟩
  · rintro ⟨ss, hs, hsource, rfl⟩
    exact lint_of_parse (Tree.Template.parse_eq_ok.2 ⟨ss, hs, hsource, rfl⟩)

theorem lint_toSource {ss : List Statement} (hs : Statement.AllStand ss []) :
    l.lint (Statement.toSource ss) =
      .ok (l.lintTemplate (Statement.toSource ss) (.ofConcrete ss)) :=
  lint_eq_ok.2 ⟨ss, hs, rfl, rfl⟩

/-- The fixes that a linter has for the source of statements. -/
def fixesOf (l : Linter) (ss : List Statement) : List Fix :=
  (l.lintTemplate (Statement.toSource ss) (.ofConcrete ss)).fixes

theorem fixesOf_eq_nil (hl : l.Valid) {ss : List Statement}
    (hs : Statement.AllStand ss []) :
    l.fixesOf ss = [] ↔ Statement.depthAll l.fixers ss = 0 := by
  rw [← Concrete.Statement.fixes_eq_nil_all ss 0, List.eq_nil_iff_forall_not_mem,
    List.eq_nil_iff_forall_not_mem]
  exact forall_congr' fun x => not_congr (fixes_perm_draft hl hs).mem_iff

/-- Applying any of the fixes of a linter edits the draft of the text. -/
theorem applyAll_fixesOf (hl : l.Valid) {ss : List Statement}
    (hs : Statement.AllStand ss []) {fixes : List Fix} (h : ∀ x ∈ fixes, x ∈ l.fixesOf ss) :
    ∃ applied, Fix.applyAll (Statement.toSource ss) fixes = .ok applied ∧
      applied.output = String.ofList
        ((Statement.draftAll l.fixers ss).edited (Draft.selects fixes) 0) := by
  obtain ⟨skipped, happly⟩ := Draft.applyAll_eq (hs.sound l.fixers) fun x hx =>
    (fixes_perm_draft hl hs).mem_iff.1 (h x hx)
  rw [Concrete.Statement.chars_draftAll] at happly
  exact ⟨_, happly, rfl⟩

theorem next_toSource {ss : List Statement} (hs : Statement.AllStand ss []) :
    l.next (Statement.toSource ss) =
      String.ofList ((Statement.draftAll l.fixers ss).edited everywhere 0) := by
  rw [next, hs.ofSource_eq]

/-- All fixes of a linter together make the next text. -/
theorem applyAll_next (hl : l.Valid) {ss : List Statement} (hs : Statement.AllStand ss []) :
    ∃ applied, Fix.applyAll (Statement.toSource ss) (l.fixesOf ss) = .ok applied ∧
      applied.output = l.next (Statement.toSource ss) := by
  obtain ⟨applied, happly, houtput⟩ := applyAll_fixesOf hl hs fun x hx => hx
  refine ⟨applied, happly, ?_⟩
  rw [houtput, next_toSource hs]
  congr 1
  apply Draft.edited_congr
  intro x hx
  exact Draft.selects_of_mem ((fixes_perm_draft hl hs).mem_iff.2 hx)

/-- The next text is another one wherever there is a fix. -/
theorem next_ne (hl : l.Valid) {ss : List Statement} (hs : Statement.AllStand ss [])
    (hne : l.fixesOf ss ≠ []) : l.next (Statement.toSource ss) ≠ Statement.toSource ss := by
  obtain ⟨x, hx⟩ := List.exists_mem_of_ne_nil _ hne
  have hsound := hs.sound l.fixers
  obtain ⟨y, hy, -⟩ := Draft.taken_covers hsound ((fixes_perm_draft hl hs).mem_iff.1 hx)
    (show everywhere x.range = true from rfl)
  have hdiffer := (Draft.differ_of_taken hsound (List.ne_nil_of_mem hy)).ne
  rw [Concrete.Statement.chars_draftAll] at hdiffer
  rw [next_toSource hs]
  intro he
  exact hdiffer (String.ofList_injective he).symm

theorem fixes_eq_nil_iff {o : LintOutcome} :
    o.fixes = [] ↔ ∀ d ∈ o.diagnostics, d.fix = none := by
  simp [LintOutcome.fixes]

theorem settled_of_fixes {t : String} {o : LintOutcome} (h : l.lint t = .ok o)
    (hnil : o.fixes = []) : l.Settled t := by
  refine ⟨⟨o, h, fixes_eq_nil_iff.1 hnil⟩, { o with output := some t }, ?_, rfl⟩
  simp [Linter.fix, h, hnil, settle, maxPasses, bind, Except.bind]

theorem Settled.fixesOf_eq_nil {ss : List Statement} (hs : Statement.AllStand ss [])
    (h : l.Settled (Statement.toSource ss)) : l.fixesOf ss = [] := by
  obtain ⟨⟨o, ho, hclean⟩, -⟩ := h
  obtain rfl := Except.ok.inj ((lint_toSource hs).symm.trans ho)
  exact fixes_eq_nil_iff.2 hclean

/-- Where there are fixes, a pass makes the next text. -/
theorem pass_next (hl : l.Valid) {text : String} {o : LintOutcome} (ho : l.lint text = .ok o)
    (hne : o.fixes ≠ []) : l.Pass text (l.next text) := by
  obtain ⟨ss, hs, rfl, rfl⟩ := lint_eq_ok.1 ho
  obtain ⟨applied, happly, houtput⟩ := applyAll_next hl hs
  exact ⟨_, applied, ho, hne, happly, houtput, next_ne hl hs hne⟩

/-- After a pass the others go on with the fixes of its text. -/
theorem settle_pass {text t : String} {o : LintOutcome} (ho : l.lint text = .ok o)
    (h : l.Pass text t) (passes : Nat) :
    l.settle (passes + 1) text o.fixes =
      (l.lint t).bind fun outcome => l.settle passes t outcome.fixes := by
  obtain ⟨o', applied, ho', hne, happly, rfl, hother⟩ := h
  obtain rfl := Except.ok.inj (ho'.symm.trans ho)
  rw [settle, if_neg (by simpa using hne), happly]
  simp only [if_neg hother]
  rfl

/-- What the passes end with, when they end with a text: it is one of a template, and nothing is left
to fix in it but after the last pass. -/
theorem settle_passes (hl : l.Valid) {passes : Nat} {text t : String}
    {o : LintOutcome} (ho : l.lint text = .ok o) (h : l.settle passes text o.fixes = .ok t) :
    ∃ n o', n ≤ passes ∧ l.Passes n text t ∧ l.lint t = .ok o' ∧ (n < passes → o'.fixes = []) := by
  induction passes generalizing text o with
  | zero =>
    cases h
    exact ⟨0, o, Nat.le_refl _, .none _, ho, fun h => absurd h (Nat.lt_irrefl _)⟩
  | succ passes ih =>
    by_cases hnil : o.fixes = []
    · rw [settle, if_pos (by simpa using hnil)] at h
      cases h
      exact ⟨0, o, Nat.zero_le _, .none _, ho, fun _ => hnil⟩
    · have hpass := pass_next hl ho hnil
      rw [settle_pass ho hpass] at h
      cases hlint : l.lint (l.next text) with
      | error e =>
        rw [hlint] at h
        cases h
      | ok outcome =>
        rw [hlint] at h
        obtain ⟨n, o', hn, hpasses, ho', hleft⟩ := ih hlint h
        exact ⟨n + 1, o', by omega, .more hpass hpasses, ho', fun hlt => hleft (by omega)⟩

/-- Where all fixes are read as they are meant, the passes take away one level each. -/
theorem settle_reads (hl : l.Valid) (passes : Nat)
    {ss : List Statement} (hs : Statement.AllStand ss [])
    (hr : Statement.readsAll l.fixers ss = true) :
    ∃ ss', Statement.AllStand ss' [] ∧
      Statement.depthAll l.fixers ss' = Statement.depthAll l.fixers ss - passes ∧
      l.settle passes (Statement.toSource ss) (l.fixesOf ss) = .ok (Statement.toSource ss') ∧
      l.Passes (min passes (Statement.depthAll l.fixers ss)) (Statement.toSource ss)
        (Statement.toSource ss') ∧
      Statement.settledAll l.fixers ss' = Statement.settledAll l.fixers ss := by
  induction passes generalizing ss with
  | zero =>
    refine ⟨ss, hs, rfl, rfl, ?_, rfl⟩
    rw [Nat.zero_min]
    exact .none _
  | succ passes ih =>
    by_cases hnil : l.fixesOf ss = []
    · have hdepth := (fixesOf_eq_nil hl hs).1 hnil
      refine ⟨ss, hs, by omega, by simp [settle, hnil], ?_, rfl⟩
      rw [hdepth, Nat.min_zero]
      exact .none _
    · have hdepth : Statement.depthAll l.fixers ss ≠ 0 := fun h => hnil ((fixesOf_eq_nil hl hs).2 h)
      let edited := Statement.editAll l.fixers everywhere 0 ss
      have hedited : Statement.AllStand edited [] :=
        hs.edit (Concrete.Statement.admitsAll_of_reads hr 0)
      have hnext : l.next (Statement.toSource ss) = Statement.toSource edited := by
        rw [next_toSource hs, ← Concrete.Statement.chars_editAll l.fixers everywhere ss
          (Concrete.Statement.readsAll_mono l.fixers.onlyArguments_le hr) 0]
        rfl
      have hlevel : Statement.depthAll l.fixers edited = Statement.depthAll l.fixers ss - 1 :=
        hs.depth_edit hr 0
      have hreads := hs.reads_edit (f := l.fixers) id hr 0
      have hpass := pass_next hl (lint_toSource hs) hnil
      rw [hnext] at hpass
      obtain ⟨ss', hs', hdepth', hsettle, hpasses, hsettled⟩ := ih hedited hreads
      refine ⟨ss', hs', by omega, ?_, ?_, hsettled.trans (hs.settled_edit hr 0)⟩
      · have hstep := settle_pass (lint_toSource hs) hpass passes
        rw [lint_toSource hedited] at hstep
        exact hstep.trans hsettle
      · have hmin : min (passes + 1) (Statement.depthAll l.fixers ss) =
            min passes (Statement.depthAll l.fixers edited) + 1 := by omega
        rw [hmin]
        exact .more hpass hpasses

/-- Fixing gives what the passes end with. -/
theorem fix_eq_settle {o : LintOutcome} (ho : l.lint source = .ok o) :
    l.fix source =
      (l.settle maxPasses source o.fixes).map fun t => { o with output := some t } := by
  rw [Linter.fix, ho]
  cases h : l.settle maxPasses source o.fixes <;> simp [bind, Except.bind, Except.map, h]

theorem fix_toSource {ss : List Statement} (hs : Statement.AllStand ss []) {t : String}
    (h : l.settle maxPasses (Statement.toSource ss) (l.fixesOf ss) = .ok t) :
    l.fix (Statement.toSource ss) =
      .ok { l.lintTemplate (Statement.toSource ss) (.ofConcrete ss) with output := some t } := by
  rw [fix_eq_settle (lint_toSource hs)]
  change (l.settle maxPasses _ (l.fixesOf ss)).map _ = _
  rw [h]
  rfl

/-- What is left of a template stands and has nothing to fix. -/
theorem settledAll_stands (hl : l.Valid) {ss : List Statement} (hs : Statement.AllStand ss [])
    (hr : Statement.readsAll l.fixers ss = true) :
    Statement.AllStand (Statement.settledAll l.fixers ss) [] ∧
      Statement.depthAll l.fixers (Statement.settledAll l.fixers ss) = 0 := by
  obtain ⟨ss', hs', hdepth, -, -, hsettled⟩ :=
    settle_reads hl (Statement.depthAll l.fixers ss) hs hr
  rw [Nat.sub_self] at hdepth
  rw [Concrete.Statement.settledAll_of_depth hdepth] at hsettled
  rw [← hsettled]
  exact ⟨hs', hdepth⟩

/-- Where all fixes are read as they are meant and there are enough passes for them, fixing gives the
text of what is left. -/
theorem fix_settledAll (hl : l.Valid) {ss : List Statement} (hs : Statement.AllStand ss [])
    (hr : Statement.readsAll l.fixers ss = true)
    (hd : Statement.depthAll l.fixers ss ≤ maxPasses) :
    Statement.AllStand (Statement.settledAll l.fixers ss) [] ∧
      ∃ o, l.fix (Statement.toSource ss) = .ok o ∧
        o.output = some (Statement.toSource (Statement.settledAll l.fixers ss)) := by
  obtain ⟨ss', hs', hdepth, hsettle, -, hsettled⟩ := settle_reads hl maxPasses hs hr
  rw [Concrete.Statement.settledAll_of_depth (by omega)] at hsettled
  rw [← hsettled]
  exact ⟨hs', _, fix_toSource hs hsettle, rfl⟩

/-- Where all fixes are read as they are meant, fixing gives the text of a template, and it is settled
if the places for fixes are not nested deeper than there are passes. -/
theorem fix_reads (hl : l.Valid) {t : Tree.Template}
    (ht : Tree.Template.parse source = .ok t) (hr : l.reads source = true) :
    ∃ o out t', l.fix source = .ok o ∧ o.output = some out ∧
      Tree.Template.parse out = .ok t' ∧ l.Passes (min maxPasses (l.depth source)) source out ∧
        (l.Settled out ↔ l.depth source ≤ maxPasses) := by
  obtain ⟨ss, hs, hsource, rfl⟩ := Tree.Template.parse_eq_ok.1 ht
  have hsource : source = Statement.toSource ss := hsource
  subst hsource
  have hof := hs.ofSource_eq
  unfold reads at hr
  unfold depth
  rw [hof] at hr ⊢
  obtain ⟨ss', hs', hdepth, hsettle, hpasses, -⟩ := settle_reads hl maxPasses hs hr
  refine ⟨_, Statement.toSource ss', .ofConcrete ss', fix_toSource hs hsettle, rfl,
    Tree.Template.parse_eq_ok.2 ⟨ss', hs', rfl, rfl⟩, hpasses, ?_⟩
  have hnil : l.fixesOf ss' = [] ↔ Statement.depthAll l.fixers ss ≤ maxPasses := by
    rw [fixesOf_eq_nil hl hs', hdepth]
    omega
  rw [← hnil]
  exact ⟨fun h => h.fixesOf_eq_nil hs', settled_of_fixes (lint_toSource hs')⟩

end Linter

end TemplateLint
