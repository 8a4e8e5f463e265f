import TemplateLint.Proofs.Reporting.Arguments
import TemplateLint.Proofs.Reporting.Conditions
import TemplateLint.Proofs.Text.Lines

namespace TemplateLint

open Text (size)

namespace Diagnostic

/-- The flag of a diagnostic is set exactly if the diagnostic has a fix. -/
def Agrees (d : Diagnostic) : Prop := d.isFixable = true ↔ ∃ fix, d.fix = some fix

theorem agrees_new (ruleId message source : String) (span : Span) :
    (Diagnostic.new ruleId message source span).Agrees := by
  simp [Agrees, Diagnostic.new]

theorem agrees_withFix (d : Diagnostic) (fix : Fix) : (d.withFix fix).Agrees := by
  simp [Agrees, withFix]

variable {d : Diagnostic}

theorem Agrees.withSeverity (h : d.Agrees) (severity : Severity) :
    (d.withSeverity severity).Agrees := h

theorem Agrees.withNodeKind (h : d.Agrees) (kind : NodeKind) : (d.withNodeKind kind).Agrees := h

theorem Agrees.isFixable_eq (h : d.Agrees) : d.isFixable = d.fix.isSome := by
  rw [Bool.eq_iff_iff, Option.isSome_iff_exists]
  exact h

end Diagnostic

/-- A context attaches a fix to what it completes if the finding has one, and nothing else sets the
flag. -/
theorem RuleContext.agrees_complete (ctx : RuleContext) (finding : Finding) :
    (ctx.complete finding).Agrees := by
  have hnew := Diagnostic.agrees_new ctx.ruleId finding.message ctx.source finding.span
  have hplain := (hnew.withSeverity ctx.severity).withNodeKind finding.nodeKind
  unfold RuleContext.complete
  cases finding.fix with
  | none => exact hplain
  | some fix => exact Diagnostic.agrees_withFix _ fix

/-- Where every flag agrees, the diagnostics that are counted as fixable are those with the fixes. -/
theorem LintOutcome.fixableCount_eq {o : LintOutcome} (h : ∀ d ∈ o.diagnostics, d.Agrees) :
    o.fixableCount = o.fixes.length := by
  rw [fixableCount, fixes, List.length_filterMap_eq_countP]
  apply List.countP_congr
  intro d hd
  rw [(h d hd).isFixable_eq]

namespace Linter

variable {l : Linter} {source : String} {outcome : LintOutcome}

/-- Every diagnostic is the finding of an enabled rule at a node of the tree, completed. -/
theorem exists_finding_of_lint (hlint : l.lint source = .ok outcome) {d : Diagnostic}
    (hd : d ∈ outcome.diagnostics) :
    ∃ t, Tree.Template.parse source = .ok t ∧ ∃ r ∈ l.rules, ∃ n ∈ t.nodes,
      ∃ finding ∈ r.visit source n,
        (RuleContext.new r.metadata source).complete finding = d := by
  obtain ⟨t, ht, rfl⟩ := exists_template_of_lint hlint
  obtain ⟨r, hr, hd⟩ := List.mem_flatMap.1 (List.mem_mergeSort.1 hd)
  exact ⟨t, ht, r, hr, Rule.mem_diagnose.1 hd⟩

theorem agrees_lint (hlint : l.lint source = .ok outcome) :
    ∀ d ∈ outcome.diagnostics, d.Agrees := by
  intro d hd
  obtain ⟨-, -, r, -, -, -, finding, -, rfl⟩ := exists_finding_of_lint hlint hd
  exact (RuleContext.new r.metadata source).agrees_complete finding

/-- Linting counts as many diagnostics as fixable as it has fixes. -/
theorem fixableCount_lint (hlint : l.lint source = .ok outcome) :
    outcome.fixableCount = outcome.fixes.length :=
  LintOutcome.fixableCount_eq (agrees_lint hlint)

end Linter

/-- A finding is about a text of the source that is not empty. Its fix starts with this text and
replaces all of it. -/
structure Finding.Placed (source : String) (finding : Finding) : Prop where
  text : ∃ u x v, source.toList = u ++ (x ++ v) ∧ x ≠ [] ∧ finding.span = .over (size u) x
  fix : ∀ fix, finding.fix = some fix →
    fix.range.start = finding.span.start ∧ finding.span.stop ≤ fix.range.stop

/-- A diagnostic has a text of the source, the line that this starts in and the characters before it
in that line. Its flag is set exactly if it has a fix, which starts with the text and replaces all of
it. -/
structure Diagnostic.Placed (source : String) (d : Diagnostic) : Prop where
  text : ∃ lines line text rest, source.toList = lines ++ (line ++ (text ++ rest)) ∧
    text ≠ [] ∧ d.span = .over (size (lines ++ line)) text ∧ d.source = String.ofList text ∧
    (lines = [] ∨ ∃ full, lines = full ++ ['\n']) ∧ '\n' ∉ line ∧
    d.position = ⟨1 + lines.count '\n', line.length⟩
  fixable : d.isFixable = true ↔ ∃ fix, d.fix = some fix
  fix : ∀ fix, d.fix = some fix →
    fix.range.start = d.span.start ∧ d.span.stop ≤ fix.range.stop

/-- A finding that has its place gives a diagnostic that does. -/
theorem Finding.Placed.complete {ctx : RuleContext} {finding : Finding}
    (h : finding.Placed ctx.source) : (ctx.complete finding).Placed ctx.source := by
  refine ⟨?_, ctx.agrees_complete finding, ?_⟩
  · obtain ⟨u, x, v, hsource, hx, hspan⟩ := h.text
    obtain ⟨lines, hlines⟩ := Text.lines_lastLine u
    refine ⟨lines, Text.lastLine u, x, v, ?_, hx, ?_, ?_, hlines.ended, hlines.unbroken, ?_⟩
    · rw [hsource, ← List.append_assoc lines, ← hlines.eq]
    · rw [span_complete, hspan, ← hlines.eq]
    · rw [source_complete, Text.slice, hspan, hsource, Span.over, Text.slice?_append]
      rfl
    · rw [position_complete, hspan, hsource, Span.over, Text.positionAt_size,
        hlines.count]
  · intro fix hfix
    rw [Linter.fix_complete] at hfix
    rw [span_complete]
    exact h.fix fix hfix

namespace Tree

/-- A call is written with its braces or its parentheses. -/
theorem Piece.WrittenAt.ne_nil {k : Nat} {cs : List Char} {n : Node} {c : Call}
    (h : (Piece.node n).WrittenAt k cs) (hc : n.call? = some c) : cs ≠ [] := by
  refine h.chars_ne_nil ?_
  cases n <;> first | rfl | cases hc

theorem Piece.WrittenAt.tag {k : Nat} {cs : List Char} {e : Element}
    (h : (Piece.node (.element e)).WrittenAt k cs) :
    ∃ name rest, cs = ['<'] ++ (name ++ rest) ∧ e.tag = String.ofList name ∧
      e.tagSpan = .over (k + size ['<']) name := by
  obtain ⟨opening, ss, rest, y, -, -, rfl, he⟩ := h.element_eq
  rw [he, Concrete.OpeningTag.chars]
  simp only [List.append_assoc]
  exact ⟨opening.name, _, rfl, rfl, rfl⟩

theorem Piece.WrittenAt.attribute_name {k : Nat} {cs : List Char} {a : Attribute}
    (h : (Piece.node (.attribute a)).WrittenAt k cs) :
    ∃ name rest, cs = name ++ rest ∧ name ≠ [] ∧ a.name = String.ofList name ∧
      a.nameSpan = .over k name ∧ a.span = .over k cs := by
  obtain ⟨a', rest, rfl, rfl, hstands⟩ := h.attribute_eq
  exact ⟨a'.name, _, rfl, hstands.1, rfl, rfl, rfl⟩

theorem Template.call_written {source : String} {t : Template}
    (ht : Template.parse source = .ok t) {n : Node} (hn : t.Holds (.node n)) {c : Call}
    (hc : n.call? = some c) :
    ∃ u x v, source.toList = u ++ (x ++ v) ∧ x ≠ [] ∧ n.span = .over (size u) x := by
  obtain ⟨u, x, v, hsource, hx⟩ := Template.written ht hn
  exact ⟨u, x, v, hsource, hx.ne_nil hc, hx.span_eq⟩

theorem Node.IsNegated.call? {n : Node} (h : n.IsNegated) : ∃ c, n.call? = some c := by
  cases n with
  | block b => exact ⟨_, rfl⟩
  | mustache m => exact ⟨_, rfl⟩
  | subExpression e => exact ⟨_, rfl⟩
  | _ => exact h.elim

end Tree

variable {source : String} {t : Tree.Template} {n : Tree.Node} {finding : Finding}

theorem NegatedCondition.placed (ht : Tree.Template.parse source = .ok t)
    (hn : t.Holds (.node n)) (hf : finding ∈ rule.visit source n) : finding.Placed source := by
  rcases visit_cases source n with ⟨-, hvisit⟩ | ⟨hnegated, finding', hvisit, hreports⟩
  · rw [hvisit] at hf
    cases hf
  · rw [hvisit] at hf
    obtain rfl := List.mem_singleton.1 hf
    obtain ⟨c, hc⟩ := hnegated.call?
    refine ⟨?_, fun fix hfix => ?_⟩
    · rw [hreports.span]
      exact Tree.Template.call_written ht hn hc
    · obtain ⟨fix', hfix', hrange⟩ := hreports.fix
      obtain rfl := Option.some.inj (hfix'.symm.trans hfix)
      rw [hrange, hreports.span]
      exact ⟨rfl, Nat.le_refl _⟩

theorem TripleCurlies.placed (ht : Tree.Template.parse source = .ok t)
    (hn : t.Holds (.node n)) (hf : finding ∈ rule.visit source n) : finding.Placed source := by
  cases n with
  | mustache m =>
    have hvisit : rule.visit source (.mustache m) = findings source (.mustache m) := rfl
    rw [hvisit, findings] at hf
    split at hf
    · obtain rfl := List.mem_singleton.1 hf
      exact ⟨Tree.Template.call_written ht hn rfl, by simp⟩
    · cases hf
  | _ => cases hf

namespace ComponentArguments

/-- A finding about the element itself is at its name, which is the name of a component. -/
theorem placed_missing {e : Tree.Element} {c : ComponentSchema}
    (ht : Tree.Template.parse source = .ok t) (hn : t.Holds (.node (.element e)))
    (hc : Component.schema? e.tag = some c) (hf : finding ∈ missing c e) : finding.Placed source := by
  obtain ⟨u, x, v, hsource, hx⟩ := Tree.Template.written ht hn
  obtain ⟨name, rest, rfl, htag, hspan⟩ := hx.tag
  obtain ⟨group, -, rfl⟩ := List.mem_map.1 hf
  refine ⟨⟨u ++ ['<'], name, rest ++ v, by simp [hsource], ?_, ?_⟩, by simp⟩
  · rintro rfl
    have hnone : Component.schema? (String.ofList []) = none := by decide
    rw [htag, hnone] at hc
    cases hc
  · rw [Text.size_append]
    exact hspan

/-- A finding about an argument is at its name. Only a deprecation has a fix, of the name or of the
whole attribute. -/
theorem placed_argument {c : ComponentSchema} {e : Tree.Element} {argument : String × Tree.Attribute}
    (ht : Tree.Template.parse source = .ok t) (hn : t.Holds (.node (.attribute argument.2)))
    (hf : finding ∈ argumentFindings source c e argument) : finding.Placed source := by
  obtain ⟨name, a⟩ := argument
  obtain ⟨u, x, v, hsource, hx⟩ := Tree.Template.written ht hn
  obtain ⟨written, rest, rfl, hne, -, hnameSpan, hspan⟩ := hx.attribute_name
  have htext : ∃ u x v, source.toList = u ++ (x ++ v) ∧ x ≠ [] ∧ a.nameSpan = .over (size u) x :=
    ⟨u, written, rest ++ v, by simp [hsource], hne, hnameSpan⟩
  have hplain : ∀ message, Finding.Placed source ⟨message, a.nameSpan, .attribute, none⟩ :=
    fun message => ⟨htext, by simp⟩
  unfold argumentFindings at hf
  dsimp only at hf
  split at hf
  · next d hd =>
    obtain rfl := List.mem_singleton.1 hf
    refine ⟨htext, fun fix hfix => ?_⟩
    obtain ⟨migration, -, hfix⟩ := Option.bind_eq_some_iff.1 hfix
    cases migration with
    | «attribute» target =>
      rw [migrationFix?] at hfix
      split at hfix
      · cases hfix
      · cases hfix
        exact ⟨rfl, Nat.le_refl _⟩
    | event event =>
      obtain ⟨handler, -, hfix⟩ := Option.bind_eq_some_iff.1 hfix
      cases hfix
      rw [hspan, hnameSpan]
      refine ⟨rfl, ?_⟩
      simp only [Span.over, Text.size_append]
      omega
  · split at hf
    · obtain rfl := List.mem_singleton.1 hf
      exact hplain _
    · obtain ⟨group, -, rfl⟩ := List.mem_map.1 hf
      exact hplain _

theorem placed (ht : Tree.Template.parse source = .ok t) (hn : t.Holds (.node n))
    (hf : finding ∈ rule.visit source n) : finding.Placed source := by
  cases n with
  | element e =>
    have hvisit : rule.visit source (.element e) = findings source (.element e) := rfl
    rw [hvisit, findings] at hf
    split at hf
    · next c hc =>
      rcases List.mem_append.1 hf with hf | hf
      · exact placed_missing ht hn hc hf
      · obtain ⟨argument, hargument, hf⟩ := List.mem_flatMap.1 hf
        obtain ⟨a, ha, hmap⟩ := List.mem_filterMap.1 hargument
        obtain ⟨name, -, rfl⟩ := Option.map_eq_some_iff.1 hmap
        have hpart : Tree.Piece.node (.attribute a) ∈ (Tree.Piece.node (.element e)).parts :=
          List.mem_append_left _ (List.mem_append_left _ (List.mem_append_left _
            (List.mem_map_of_mem ha)))
        exact placed_argument ht (Tree.Piece.Holds.trans hn (.part hpart (.refl _))) hf
    · cases hf
  | _ => cases hf

end ComponentArguments

namespace Linter

/-- What a rule finds in a source is about a text of the source. -/
theorem placed_of_visit {r : Rule} (hr : r ∈ Catalogue.rules)
    (ht : Tree.Template.parse source = .ok t) (hn : t.Holds (.node n))
    (hf : finding ∈ r.visit source n) : finding.Placed source := by
  simp only [Catalogue.rules, List.mem_cons, List.not_mem_nil, or_false] at hr
  rcases hr with rfl | rfl | rfl
  · exact NegatedCondition.placed ht hn hf
  · exact ComponentArguments.placed ht hn hf
  · exact TripleCurlies.placed ht hn hf

/-- Diagnostics are in the order in which their texts start. Each has its text and the place of that
text in the source, and is marked as fixable exactly if it has a fix, which starts with the text and
replaces all of it. -/
theorem lint_placed {config : Configuration} {l : Linter} (hl : Linter.new config = .ok l)
    {source : String} {outcome : LintOutcome} (hlint : l.lint source = .ok outcome) :
    outcome.diagnostics.Pairwise (fun a b => a.span.start ≤ b.span.start) ∧
      ∀ d ∈ outcome.diagnostics, d.Placed source := by
  constructor
  · obtain ⟨t, -, rfl⟩ := exists_template_of_lint hlint
    exact inOrder_pairwise _
  · intro d hd
    obtain ⟨t, ht, r, hr, n, hn, finding, hfinding, rfl⟩ := exists_finding_of_lint hlint hd
    have hplaced := placed_of_visit ((valid_of_new hl).catalogue r hr) ht
      (Tree.Template.mem_nodes_iff.1 hn) hfinding
    exact @Finding.Placed.complete (RuleContext.new r.metadata source) finding hplaced

/-- Content that is not escaped, on a second line and after a character of several bytes. -/
def secondLine : String := "<p>é\n日 \x7b\x7b\x7bb\x7d\x7d\x7d</p>"

theorem lint_placed_second_line :
    ∃ outcome d, allRules.lint secondLine = .ok outcome ∧ d ∈ outcome.diagnostics ∧
      d.position = ⟨2, 2⟩ ∧ d.span = ⟨10, 17⟩ ∧ d.Placed secondLine := by
  have hplaces : (Tree.Template.parse secondLine).toOption.map (fun t =>
      (TripleCurlies.rule.diagnose secondLine t.nodes).map fun d => (d.position, d.span)) =
        some [(⟨2, 2⟩, ⟨10, 17⟩)] := by
    decide +kernel
  cases ht : Tree.Template.parse secondLine with
  | error e =>
    rw [ht] at hplaces
    cases hplaces
  | ok t =>
    rw [ht] at hplaces
    obtain ⟨d, hd, hplace⟩ := List.map_eq_singleton_iff.1 (Option.some.inj hplaces)
    obtain ⟨hposition, hspan⟩ := Prod.mk.inj hplace
    have hmem : d ∈ (allRules.lintTemplate secondLine t).diagnostics := by
      refine List.mem_mergeSort.2 (List.mem_flatMap.2 ⟨TripleCurlies.rule, ?_, ?_⟩)
      · simp [allRules]
      · rw [hd]
        exact List.mem_singleton_self d
    have hlint := lint_of_parse (l := allRules) ht
    exact ⟨_, d, hlint, hmem, hposition, hspan, (lint_placed new_allConfig hlint).2 d hmem⟩

end Linter

end TemplateLint
