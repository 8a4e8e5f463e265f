import TemplateLint.Proofs.Layout.Nesting
import TemplateLint.Proofs.Reporting.Places

namespace TemplateLint

open Text (size)

namespace Tree

/-- A mustache or a modifier, which stand in no call. -/
def Node.isBraced : Node → Bool
  | .mustache _ | .elementModifier _ => true
  | _ => false

theorem Node.not_isBraced_of_mem {n : Node} (hn : n.isBraced = true) {q : Piece} (hq : q ∈ n.parts)
    {m : Node} (hm : m ∈ q.nodes) : m.isBraced = false := by
  have hargument : q.isArgument = true := by
    cases n with
    | mustache m => exact Call.isArgument_of_mem_parts hq
    | elementModifier m => exact Call.isArgument_of_mem_parts hq
    | _ => cases hn
  have hm := (Piece.holds_of_mem_nodes hm).isArgument hargument
  cases m <;> first | rfl | cases hm

end Tree

/-- The text stands in three braces. -/
def Text.InTripleBraces (s : String) : Prop :=
  ∃ inner, s.toList = ['{', '{', '{'] ++ (inner ++ ['}', '}', '}'])

/-- After two braces comes a tilde, a blank or an expression, so a third brace belongs to them. -/
theorem Concrete.Mustache.Stands.trusting_iff {m : Concrete.Mustache} (h : m.Stands) :
    m.trusting = true ↔ Text.InTripleBraces (String.ofList m.chars) := by
  rw [Text.InTripleBraces, String.toList_ofList, Concrete.Mustache.chars]
  constructor
  · intro ht
    refine ⟨Concrete.flagged m.tildeBefore ['~'] ++ m.call.chars ++
      Concrete.flagged m.tildeAfter ['~'], ?_⟩
    rw [ht]
    simp [Concrete.flagged, Concrete.Token.chars]
  · rintro ⟨inner, hinner⟩
    by_contra ht
    rw [Bool.not_eq_true] at ht
    have hopens := Concrete.opens_flagged (b := m.tildeBefore) (p := (· == '{')) (c := '~')
      (by decide) (Concrete.Call.Stands.opens_ne h (d := '{') (by decide) (by decide)
        (Concrete.flagged m.tildeAfter ['~'] ++ Concrete.Token.mustacheClose.chars))
    rw [ht] at hinner
    simp only [Concrete.flagged, Concrete.Token.chars, List.append_assoc] at hinner hopens
    have htail := congrArg (fun cs => Text.opens (· == '{') (cs.drop 2)) hinner
    exact Bool.false_ne_true (hopens.symm.trans htail)

namespace Tree

theorem Piece.WrittenAt.mustache_eq {k : Nat} {cs : List Char} {m : Mustache}
    (h : (Piece.node (.mustache m)).WrittenAt k cs) :
    ∃ written : Concrete.Mustache, written.Stands ∧ cs = written.chars ∧ m = written.at k := by
  generalize hp : Piece.node (.mustache m) = p at h
  cases h with
  | @mustache _ written h =>
    cases hp
    exact ⟨written, h, rfl, rfl⟩
  | @statement _ s rest h =>
    cases s with
    | mustache written =>
      cases hp
      exact ⟨written, h.1, rfl, rfl⟩
    | block opening program sections closing =>
      rw [Concrete.Statement.at_block] at hp
      cases hp
    | _ => cases hp
  | @expr _ e rest h =>
    generalize e.at k = e' at hp
    cases e' <;> cases hp
  | _ => cases hp

/-- The mustaches that do not escape their value are those in three braces. -/
theorem Template.trusting_iff {source : String} {t : Template} (ht : Template.parse source = .ok t)
    {m : Mustache} (hm : t.Holds (.node (.mustache m))) :
    m.trusting = true ↔ Text.InTripleBraces (Text.slice m.span source) := by
  obtain ⟨u, x, v, hsource, hx⟩ := Template.written ht hm
  have hslice : Text.slice m.span source = String.ofList x := by
    have hspan : m.span = .over (size u) x := hx.span_eq
    rw [Text.slice, hspan, hsource, Span.over, Text.slice?_append]
    rfl
  obtain ⟨written, hstands, rfl, rfl⟩ := hx.mustache_eq
  rw [hslice]
  exact hstands.trusting_iff

end Tree

namespace TripleCurlies

open TemplateLint.Tree (Node)

variable {source : String}

def unescaped? : Node → Option Tree.Mustache
  | .mustache m => if m.trusting then some m else none
  | _ => none

theorem unescaped?_eq_some_iff {n : Node} {m : Tree.Mustache} :
    unescaped? n = some m ↔ n = .mustache m ∧ m.trusting = true := by
  cases n with
  | mustache m' =>
    simp only [unescaped?, Node.mustache.injEq]
    constructor
    · intro h
      split at h
      · next ht =>
        cases h
        exact ⟨rfl, ht⟩
      · cases h
    · rintro ⟨rfl, ht⟩
      rw [if_pos ht]
  | _ => simp [unescaped?]

theorem visit_eq (source : String) (n : Node) :
    rule.visit source n =
      ((unescaped? n).map fun m => ⟨message, m.span, .mustache, none⟩).toList := by
  cases n with
  | mustache m =>
    have hvisit : rule.visit source (.mustache m) = findings source (.mustache m) := rfl
    rw [hvisit, findings, unescaped?]
    split <;> rfl
  | _ => rfl

theorem diagnose_view (nodes : List Node) :
    (rule.diagnose source nodes).map (fun d => (d.span, d.message, d.nodeKind, d.fix)) =
      (nodes.filterMap unescaped?).map fun m => (m.span, message, some .mustache, none) := by
  rw [Linter.diagnose_eq]
  induction nodes with
  | nil => rfl
  | cons n nodes ih =>
    rw [List.flatMap_cons, List.map_append, List.map_append, ih, visit_eq]
    cases hn : unescaped? n with
    | none => rw [List.filterMap_cons_none hn]; rfl
    | some m =>
      rw [List.filterMap_cons_some hn]
      simp [span_complete, message_complete, nodeKind_complete, Linter.fix_complete]

variable {t : Tree.Template}

theorem braced_apart (ht : Tree.Template.parse source = .ok t) :
    (t.nodes.filter Node.isBraced).Pairwise fun m n => m.span.Apart n.span := by
  obtain ⟨ss, hs, -, rfl⟩ := Tree.Template.parse_eq_ok.1 ht
  exact Tree.Piece.WrittenAt.filter_apart (fun _ hn _ hq _ hm => Node.not_isBraced_of_mem hn hq hm)
    (.template hs)

theorem mem_unescaped_iff (ht : Tree.Template.parse source = .ok t) {m : Tree.Mustache} :
    m ∈ t.nodes.filterMap unescaped? ↔
      t.Holds (.node (.mustache m)) ∧ Text.InTripleBraces (Text.slice m.span source) := by
  rw [List.mem_filterMap]
  simp only [unescaped?_eq_some_iff, Tree.Template.mem_nodes_iff]
  constructor
  · rintro ⟨n, hn, rfl, htrusting⟩
    exact ⟨hn, (Tree.Template.trusting_iff ht hn).1 htrusting⟩
  · rintro ⟨hn, hbraces⟩
    exact ⟨_, hn, rfl, (Tree.Template.trusting_iff ht hn).2 hbraces⟩

theorem braced_nonempty (ht : Tree.Template.parse source = .ok t) {n : Node} (hn : n ∈ t.nodes)
    (hbraced : n.isBraced = true) : n.span.start < n.span.stop := by
  obtain ⟨c, hc⟩ : ∃ c, n.call? = some c := by
    cases n with
    | mustache m => exact ⟨_, rfl⟩
    | elementModifier m => exact ⟨_, rfl⟩
    | _ => cases hbraced
  obtain ⟨u, x, v, -, hx, hspan⟩ :=
    Tree.Template.call_written ht (Tree.Template.mem_nodes_iff.1 hn) hc
  have hpos := Text.size_pos_of_ne_nil hx
  rw [hspan, Span.over]
  exact Nat.lt_add_of_pos_right hpos

/-- No two of the mustaches start together. -/
theorem unescaped_starts (ht : Tree.Template.parse source = .ok t) :
    (t.nodes.filterMap unescaped?).Pairwise fun m n => m.span.start ≠ n.span.start := by
  have hbraced : t.nodes.filterMap unescaped? =
      (t.nodes.filter Node.isBraced).filterMap unescaped? := by
    rw [List.filterMap_filter]
    refine List.filterMap_congr fun n _ => ?_
    cases n <;> rfl
  have hstarts : (t.nodes.filter Node.isBraced).Pairwise fun m n => m.span.start ≠ n.span.start := by
    refine (braced_apart ht).imp_of_mem fun {m n} hm hn hapart => ?_
    obtain ⟨hm, hmb⟩ := List.mem_filter.1 hm
    obtain ⟨hn, hnb⟩ := List.mem_filter.1 hn
    have hmpos := braced_nonempty ht hm hmb
    have hnpos := braced_nonempty ht hn hnb
    unfold Span.Apart at hapart
    omega
  rw [hbraced]
  refine hstarts.filterMap _ fun n n' h m hm m' hm' => ?_
  obtain ⟨rfl, -⟩ := unescaped?_eq_some_iff.1 hm
  obtain ⟨rfl, -⟩ := unescaped?_eq_some_iff.1 hm'
  exact h

end TripleCurlies

namespace Linter

/-- The rule for unescaped mustaches reports the mustaches of the tree that are written in three
braces, wherever they stand, and nothing else. Each is reported once, in the order of the source. No
modifier is touched, not even one in three braces. -/
theorem lint_unescaped {config : Configuration} {l : Linter} (hl : Linter.new config = .ok l)
    (hrule : TripleCurlies.rule.id ∈ l.ruleIds) {source : String} {t : Tree.Template}
    (ht : Tree.Template.parse source = .ok t) :
    ∃ (outcome : LintOutcome) (ms : List Tree.Mustache), l.lint source = .ok outcome ∧
      ms.Pairwise (fun m n => m.span.start < n.span.start) ∧
      (∀ m, m ∈ ms ↔
        t.Holds (.node (.mustache m)) ∧ Text.InTripleBraces (Text.slice m.span source)) ∧
      (outcome.diagnostics.filter fun d => d.ruleId == TripleCurlies.rule.id).map
          (fun d => (d.span, d.message, d.nodeKind, d.fix)) =
        ms.map (fun m => (m.span, TripleCurlies.message, some .mustache, none)) ∧
      ∀ e, t.Holds (.node (.elementModifier e)) → ∀ m ∈ ms, m.span.Apart e.span := by
  have hlint := lint_of_parse (l := l) ht
  have hvalid := valid_of_new hl
  have hmem := mem_rules_of_mem_ruleIds hvalid (by simp [Catalogue.rules]) hrule
  let found := t.nodes.filterMap TripleCurlies.unescaped?
  have hperm : (found.mergeSort fun m n => m.span.start ≤ n.span.start).Perm found :=
    List.mergeSort_perm _ _
  refine ⟨_, found.mergeSort fun m n => m.span.start ≤ n.span.start, hlint, ?_, ?_, ?_, ?_⟩
  · have hstarts := hperm.symm.pairwise (TripleCurlies.unescaped_starts ht) fun h => h.symm
    have hsorted := pairwise_mergeSort_start (fun m : Tree.Mustache => m.span.start) found
    exact hstarts.imp₂ (fun m n hne hle => Nat.lt_of_le_of_ne hle hne) hsorted
  · intro m
    rw [hperm.mem_iff]
    exact TripleCurlies.mem_unescaped_iff ht
  · rw [filter_lintTemplate hvalid hmem]
    exact map_inOrder (fun v => v.1.start) (fun _ => rfl) (TripleCurlies.diagnose_view t.nodes)
  · intro e he m hm
    have hm := ((TripleCurlies.mem_unescaped_iff ht).1 (hperm.mem_iff.1 hm)).1
    have hbraced : ∀ {n : Tree.Node}, t.Holds (.node n) → n.isBraced = true →
        n ∈ t.nodes.filter Tree.Node.isBraced :=
      fun hn hb => List.mem_filter.2 ⟨Tree.Template.mem_nodes_iff.2 hn, hb⟩
    have hsymm : Std.Symm fun m n : Tree.Node => m.span.Apart n.span := ⟨fun _ _ => Span.Apart.symm⟩
    exact (TripleCurlies.braced_apart ht).forall (hbraced hm rfl) (hbraced he rfl) (by simp)

/-- Three braces around a value, in a quoted value, around a modifier and in content. -/
def tripleBraces : String :=
  "<p a=\x7b\x7b\x7bb\x7d\x7d\x7d c=\"\x7b\x7b\x7bd\x7d\x7d\x7d\" \x7b\x7b\x7be\x7d\x7d\x7d>" ++
    "\x7b\x7b~f\x7d\x7d\x7b\x7b\x7b~g~\x7d\x7d\x7d</p>"

theorem lint_unescaped_modifier :
    ∃ (t : Tree.Template) (ms : List Tree.Mustache) (e : Tree.ElementModifier),
      Tree.Template.parse tripleBraces = .ok t ∧
      (∀ m, m ∈ ms ↔ t.Holds (.node (.mustache m)) ∧
        Text.InTripleBraces (Text.slice m.span tripleBraces)) ∧
      ms.map Tree.Mustache.span = [⟨5, 12⟩, ⟨16, 23⟩, ⟨39, 48⟩] ∧
      t.Holds (.node (.elementModifier e)) ∧ e.span = ⟨25, 32⟩ ∧
      Text.InTripleBraces (Text.slice e.span tripleBraces) := by
  have hspans : (Tree.Template.parse tripleBraces).toOption.map (fun t =>
      ((TripleCurlies.rule.diagnose tripleBraces t.nodes).map Diagnostic.span,
        (t.nodes.filter fun n => n.kind == .elementModifier).map Tree.Node.span)) =
      some ([⟨5, 12⟩, ⟨16, 23⟩, ⟨39, 48⟩], [⟨25, 32⟩]) := by
    decide +kernel
  cases ht : Tree.Template.parse tripleBraces with
  | error e =>
    rw [ht] at hspans
    cases hspans
  | ok t =>
    rw [ht] at hspans
    obtain ⟨hreports, hmodifiers⟩ := Prod.mk.inj (Option.some.inj hspans)
    obtain ⟨outcome, ms, hlint, -, hms, hviews, -⟩ := lint_unescaped new_allConfig (by decide) ht
    rw [lint_of_parse ht] at hlint
    cases hlint
    have hfound := map_filter_lintTemplate (valid_of_new new_allConfig) (r := TripleCurlies.rule)
      (by simp [allRules]) Span.start (fun _ => rfl) hreports (by decide)
    have hview := congrArg (List.map Prod.fst) hviews
    rw [List.map_map, List.map_map] at hview
    have hmem : ⟨25, 32⟩ ∈ (t.nodes.filter fun n => n.kind == .elementModifier).map Tree.Node.span := by
      rw [hmodifiers]
      exact List.mem_singleton_self _
    obtain ⟨n, hn, hspan⟩ := List.mem_map.1 hmem
    obtain ⟨hn, hkind⟩ := List.mem_filter.1 hn
    cases n with
    | elementModifier e =>
      have hspan : e.span = ⟨25, 32⟩ := hspan
      refine ⟨t, ms, e, rfl, hms, hview.symm.trans hfound, Tree.Template.mem_nodes_iff.1 hn, hspan,
        ['e'], ?_⟩
      rw [hspan]
      decide +kernel
    | _ => cases hkind

end Linter

end TemplateLint
