import TemplateLint.Proofs.Fixing.Alone
import TemplateLint.Proofs.Layout.Nodes
import TemplateLint.Proofs.Layout.Written

namespace TemplateLint

open Text (size slice?)

/-- A fix that a builder makes of edits of ranges of the source. They lie in the range of the fix and
are apart from one another, and the replacement is the text of this range but for them. -/
structure Fix.BuiltOf (source : String) (edits : List Fix) (fix : Fix) : Prop where
  built : fix = FixBuilder.build ⟨source, fix.range, edits⟩
  within : ∀ f ∈ edits, f.Within source.toList
  inside : ∀ f ∈ edits, f.range.Inside fix.range
  apart : edits.Pairwise fun f g => f.range.Apart g.range
  spliced : ∃ text, slice? fix.range source.toList = some text ∧
    Spliced fix.range.start text (sort edits) fix.replacement.toList

theorem Fix.Edits.builtOf {u s t : List Char} {edits : List Fix} (h : Edits (size u) s edits t)
    (v : List Char) {source : String} (hsource : source = String.ofList (u ++ (s ++ v))) :
    Fix.BuiltOf source edits ⟨.over (size u) s, String.ofList t⟩ := by
  have hsorted : ∀ f ∈ edits, f ∈ sort edits := fun f hf => (sort_perm edits).mem_iff.2 hf
  have hwithin := fun f hf => h.spliced.within v rfl (hsorted f hf)
  constructor
  · exact (h.build v hsource).symm
  · intro f hf
    rw [hsource, String.toList_ofList]
    exact (hwithin f hf).1
  · exact fun f hf => (hwithin f hf).2
  · -- to be apart does not depend on the order
    have hapart : (sort edits).Pairwise fun f g => f.range.Apart g.range :=
      h.apart.imp fun hfg => Or.inl hfg.2
    exact hapart.perm (sort_perm edits) Span.Apart.symm
  · refine ⟨s, ?_, ?_⟩
    · rw [hsource, String.toList_ofList]
      exact Text.slice?_append u s v
    · rw [String.toList_ofList]
      exact h.spliced

namespace Tree

open NegatedCondition (Conditional negatedOperand?)

/-- Where the name of the helper stands: it is the callee and, in a block, once more in the closing
tag. -/
def Node.helperSpans : Node → List Span
  | .mustache m => [m.call.callee.span]
  | .subExpression e => [e.call.callee.span]
  | .block b => b.call.callee.span :: (b.close.map CloseTag.pathSpan).toList
  | _ => []

/-- The two values after a condition. -/
def Call.branches? (c : Call) : Option (Span × Span) :=
  match c.params with
  | [_, v, w] => some (v.span, w.span)
  | _ => none

/-- The two parts of which a conditional takes one, where it has two: the values of an inline call or
the bodies of a block with a plain `else`. -/
def Node.branches? : Node → Option (Span × Span)
  | .mustache m => m.call.branches?
  | .subExpression e => e.call.branches?
  | .block b =>
    match b.inverse with
    | .final _ body => some (b.program.span, body.span)
    | _ => none
  | _ => none

/-- The edit puts the operand of the negated condition of a conditional in the place of that
condition. -/
def Call.FreedBy (source : String) (c : Call) (helper : Conditional) (f : Fix) : Prop :=
  ∃ condition operand, Conditional.ofCall? c = some helper ∧ c.params.head? = some condition ∧
    negatedOperand? condition = some operand ∧ f.Copies source condition.span operand.span

/-- The edits that take the negation out of a conditional. Two branches after `if` are put in each
other's place; else the other helper stands wherever the name of the helper does. -/
inductive Node.EditedBy (source : String) (n : Node) : List Fix → Prop where
  | branches {c : Call} {s t : Span} {f g freed : Fix} (call : n.call? = some c)
      (condition : c.FreedBy source .whenTrue freed) (branches : n.branches? = some (s, t))
      (first : f.Copies source s t) (second : g.Copies source t s) :
      EditedBy source n [f, g, freed]
  | helper {c : Call} {helper : Conditional} {freed : Fix} (call : n.call? = some c)
      (condition : c.FreedBy source helper freed)
      (single : helper = .whenTrue → n.branches? = none) :
      EditedBy source n (n.helperSpans.map (fun s => ⟨s, helper.flip.helper⟩) ++ [freed])

end Tree

namespace Concrete

open NegatedCondition (Conditional negatedOperand?)
open TemplateLint.Tree (Node)

variable {source : String}

/-- The edits of an inline call make the text of the call without its negation. -/
theorem Call.Stands.editedBy {c c' : Call} {rest : List Char} (h : c.Stands rest)
    (hc : c.unnegated? = some c') (u a b v : List Char)
    (hsource : source = String.ofList (u ++ (a ++ (c.chars ++ (b ++ v))))) {n : Node}
    (hcall : n.call? = some (c.at (size u + size a)))
    (hhelper : n.helperSpans = [(c.at (size u + size a)).callee.span])
    (hbranches : n.branches? = (c.at (size u + size a)).branches?) :
    ∃ edits, n.EditedBy source edits ∧
      Fix.Edits (size u) (a ++ (c.chars ++ b)) edits (a ++ (c'.chars ++ b)) := by
  obtain ⟨parts, hn, hform⟩ := eq_of_unnegated? hc
  obtain ⟨-, -, hhelperName, -⟩ := eq_of_negated? hn
  have hof : Conditional.ofCall? (c.at (size u + size a)) = some parts.helper := by
    rw [ofCall?_eq, hhelperName]
  rcases hform with ⟨v₁, v₂, htrue, hvalues, rfl⟩ | ⟨w, ws, hvalues, hcount, rfl⟩
  · obtain ⟨condition, operand, w₁, w₂, first, second, freed, hparams, hoperand, hfirst, hsecond,
      hfreed, hedits⟩ := flipped_edits h hn hvalues u a b v hsource
    refine ⟨_, .branches hcall ⟨condition, operand, ?_, ?_, hoperand, hfreed⟩ ?_ hfirst hsecond,
      hedits⟩
    · rw [hof, htrue]
    · rw [hparams, List.head?_cons]
    · rw [hbranches, Tree.Call.branches?, hparams]
  · obtain ⟨condition, operand, freed, hcondition, hoperand, hfreed, hedits⟩ :=
      freed_edits hn parts.helper.flip u a b v hsource
    refine ⟨_, .helper hcall ⟨condition, operand, hof, hcondition, hoperand, hfreed⟩ ?_, ?_⟩
    · intro htrue
      have hws : ws = [] := hcount.resolve_right fun hfalse => by
        rw [htrue] at hfalse
        cases hfalse.1
      obtain ⟨condition', values, hparams, hlength⟩ := params_of_negated? h hn (size u + size a)
      rw [hvalues, hws] at hlength
      obtain ⟨value, rfl⟩ := List.length_eq_one_iff.1 hlength
      rw [hbranches, Tree.Call.branches?, hparams]
    · rw [hhelper]
      exact hedits

/-- The edits of a block make the text of the block without its negation. -/
theorem editedBy_block {opening : BlockTag} {rest : List Char} (h : opening.call.Stands rest)
    {program : List Statement} {sections : List Section} {closing : CloseTag} {s : Statement}
    (hs : (Statement.block opening program sections closing).unnegated? = some s) (u v : List Char)
    (hsource : source = String.ofList
      (u ++ ((Statement.block opening program sections closing).chars ++ v))) :
    ∃ edits, (Node.block (blockAt (size u) opening program sections closing)).EditedBy source edits ∧
      Fix.Edits (size u) (Statement.block opening program sections closing).chars edits s.chars := by
  obtain ⟨parts, hn, hs⟩ := Option.bind_eq_some_iff.1 hs
  obtain ⟨hcall, -⟩ := eq_of_blockNegated? hn
  obtain ⟨-, -, hhelper, -⟩ := eq_of_negated? hcall
  have hof : Conditional.ofCall? (blockAt (size u) opening program sections closing).call =
      some parts.helper := by
    rw [blockAt_call, ofCall?_eq, hhelper]
  rcases BlockTag.eq_of_without? hs with
    ⟨tilde, lead, trail, after, body, more, htrue, rfl, rfl⟩ | ⟨hsections, rfl⟩
  · obtain ⟨condition, operand, elseSpan, elseBody, f, g, freed, hcondition, hoperand, hinverse,
      hfirst, hsecond, hfreed, hedits⟩ :=
      block_flip_edits h hcall program rfl body more closing u v hsource
    refine ⟨_, .branches rfl ⟨condition, operand, ?_, hcondition, hoperand, hfreed⟩ ?_ hfirst
      hsecond, hedits⟩
    · rw [hof, htrue]
    · simp only [Node.branches?, hinverse]
  · obtain ⟨condition, operand, freed, hcondition, hoperand, hfreed, hedits⟩ :=
      block_exchange_edits hcall program sections closing parts.helper.flip u v hsource
    refine ⟨_, .helper rfl ⟨condition, operand, hof, hcondition, hoperand, hfreed⟩
      fun htrue => ?_, hedits⟩
    obtain rfl := hsections htrue
    have hinverse : (blockAt (size u) opening program [] closing).inverse = .absent := by
      rw [blockAt, Section.atAll]
    simp only [Node.branches?, hinverse]

end Concrete

namespace NegatedCondition

open TemplateLint.Tree (Piece)

variable {source : String}

theorem editedBy_of_inlineFinding? {c : Concrete.Call} {rest : List Char} (h : c.Stands rest)
    {u a b v : List Char} (hsource : source = String.ofList (u ++ (a ++ (c.chars ++ b) ++ v)))
    {n : Tree.Node} {kind : NodeKind} {finding : Finding}
    (hf : inlineFinding? source (c.at (size u + size a)) n.span kind = some finding)
    (hspan : n.span = .over (size u) (a ++ (c.chars ++ b)))
    (hcall : n.call? = some (c.at (size u + size a)))
    (hhelper : n.helperSpans = [(c.at (size u + size a)).callee.span])
    (hbranches : n.branches? = (c.at (size u + size a)).branches?) :
    ∃ edits t, n.EditedBy source edits ∧ Fix.Edits (size u) (a ++ (c.chars ++ b)) edits t ∧
      finding.fix = some ⟨.over (size u) (a ++ (c.chars ++ b)), String.ofList t⟩ := by
  have hsource' : source = String.ofList (u ++ (a ++ (c.chars ++ (b ++ v)))) := by
    rw [hsource]
    simp only [List.append_assoc]
  have hfix := Concrete.inlineFinding?_fix h u a b v source hsource' kind
  obtain ⟨-, -, fix, hsome, -⟩ := eq_of_inlineFinding? hf
  rw [hspan, Span.over] at hf
  rw [hf, Option.bind_some, hsome] at hfix
  obtain ⟨c', hc, rfl⟩ := Option.map_eq_some_iff.1 hfix.symm
  obtain ⟨edits, hedited, hedits⟩ := h.editedBy hc u a b v hsource' hcall hhelper hbranches
  exact ⟨edits, _, hedited, hedits, hsome⟩

theorem editedBy_of_blockFinding? {opening : Concrete.BlockTag} {rest : List Char}
    (h : opening.call.Stands rest) {program : List Concrete.Statement}
    {sections : List Concrete.Section} {closing : Concrete.CloseTag} {u v : List Char}
    (hsource : source = String.ofList
      (u ++ ((Concrete.Statement.block opening program sections closing).chars ++ v)))
    {finding : Finding}
    (hf : blockFinding? source (Concrete.blockAt (size u) opening program sections closing) =
      some finding) :
    ∃ edits t, (Tree.Node.block
        (Concrete.blockAt (size u) opening program sections closing)).EditedBy source edits ∧
      Fix.Edits (size u) (Concrete.Statement.block opening program sections closing).chars edits t ∧
      finding.fix = some ⟨.over (size u)
        (Concrete.Statement.block opening program sections closing).chars, String.ofList t⟩ := by
  have hfix := Concrete.blockFinding?_fix h program sections closing u v hsource
  obtain ⟨-, -, fix, hsome, -⟩ := eq_of_blockFinding? hf
  rw [hf, Option.bind_some, hsome] at hfix
  obtain ⟨s, hs, rfl⟩ := Option.map_eq_some_iff.1 hfix.symm
  obtain ⟨edits, hedited, hedits⟩ := Concrete.editedBy_block h hs u v hsource
  exact ⟨edits, _, hedited, hedits, hsome⟩

/-- What is found at a node that is written in the source has a fix that is built of the edits of the
node. -/
theorem editedBy_of_visit {n : Tree.Node} {u x v : List Char}
    (h : (Piece.node n).WrittenAt (size u) x) (hsource : source = String.ofList (u ++ (x ++ v)))
    {finding : Finding} (hf : finding ∈ rule.visit source n) :
    ∃ edits t, n.EditedBy source edits ∧ Fix.Edits (size u) x edits t ∧
      finding.fix = some ⟨.over (size u) x, String.ofList t⟩ := by
  have hmustache : ∀ m : Concrete.Mustache, m.Stands → n = .mustache (m.at (size u)) →
      x = m.chars → ∃ edits t, n.EditedBy source edits ∧ Fix.Edits (size u) x edits t ∧
        finding.fix = some ⟨.over (size u) x, String.ofList t⟩ := by
    rintro m hm rfl rfl
    have hspan : (m.at (size u)).span = .over (size u) m.chars := rfl
    rw [Concrete.Mustache.chars_eq] at hsource hspan ⊢
    exact editedBy_of_inlineFinding? hm hsource (Option.mem_toList.1 hf) hspan rfl rfl rfl
  generalize hk : size u = k at h
  cases h with
  | text k cs s => cases hf
  | note k n => cases hf
  | @expr _ e rest h =>
    cases e with
    | word w =>
      rcases Concrete.wordAt_eq k w with ⟨value, hw⟩ | hw
      · rw [Concrete.Expr.at, hw] at hf
        cases hf
      · rw [Concrete.Expr.at, hw] at hf
        cases hf
    | quoted mark raw => cases hf
    | group call =>
      subst hk
      have hspan := Concrete.Expr.at_span (size u) (.group call)
      exact editedBy_of_inlineFinding? (a := ['(']) (b := [')']) h hsource
        (Option.mem_toList.1 hf) hspan rfl rfl rfl
  | mustache k h =>
    subst hk
    exact hmustache _ h rfl rfl
  | modifier k h => cases hf
  | «attribute» k h => cases hf
  | template h => cases hf
  | segment k h hb =>
    obtain ⟨tilde, lead, call, ending, body, more, rfl, rfl⟩ := Concrete.Section.eq_of_chained hb
    obtain ⟨c, hc⟩ := (eq_of_blockFinding? (Option.mem_toList.1 hf)).1
    cases hc
  | @statement _ s rest h =>
    subst hk
    cases s with
    | mustache m => exact hmustache m h.1 rfl rfl
    | block opening program sections closing =>
      rw [Concrete.Statement.at_block] at hf ⊢
      exact editedBy_of_blockFinding? h.1.1 hsource (Option.mem_toList.1 hf)
    | _ => cases hf

end NegatedCondition

/-- Every report of a negated condition is about one node and has a fix of its range, which is built of
the edits of that node. They can be put in place, and all of the text of the node that is between them
is kept. -/
theorem fix_builtOf {source : String} {t : Tree.Template} (ht : Tree.Template.parse source = .ok t)
    {d : Diagnostic} (hd : d ∈ NegatedCondition.rule.diagnose source t.nodes) :
    ∃ n ∈ t.nodes, ∃ edits fix, n.span = d.span ∧ n.EditedBy source edits ∧ d.fix = some fix ∧
      fix.range = d.span ∧ fix.BuiltOf source edits := by
  obtain ⟨n, hn, finding, hfinding, rfl⟩ := Rule.mem_diagnose.1 hd
  obtain ⟨-, hspan, -⟩ := NegatedCondition.hasCounterpart_of_visit hfinding
  obtain ⟨u, x, v, hsource, hwritten⟩ := Tree.Template.written ht (Tree.Template.mem_nodes_iff.1 hn)
  have hsource : source = String.ofList (u ++ (x ++ v)) := by
    rw [← hsource, String.ofList_toList]
  obtain ⟨edits, new, hedited, hedits, hfix⟩ :=
    NegatedCondition.editedBy_of_visit hwritten hsource hfinding
  have hdspan := span_complete (RuleContext.new NegatedCondition.rule.metadata source) finding
  have hdfix := Linter.fix_complete (RuleContext.new NegatedCondition.rule.metadata source) finding
  have hnspan : n.span = .over (size u) x := hwritten.span_eq
  rw [hdspan, hspan, hdfix]
  exact ⟨n, hn, edits, _, rfl, hedited, hfix, hnspan.symm, hedits.builtOf v hsource⟩

/-- A block with an empty body and one whose text takes two bytes, and with whitespace control in all
of its tags. -/
def trimmedBlock : String :=
  "\x7b\x7b~#if (not a)~\x7d\x7dé\x7b\x7b~else~\x7d\x7d\x7b\x7b~/if~\x7d\x7d"

theorem fix_builtOf_trimmed :
    ∃ t d n edits fix, Tree.Template.parse trimmedBlock = .ok t ∧
      d ∈ NegatedCondition.rule.diagnose trimmedBlock t.nodes ∧ d.span = ⟨0, 38⟩ ∧ n ∈ t.nodes ∧
      n.span = d.span ∧ n.EditedBy trimmedBlock edits ∧ d.fix = some fix ∧
      fix.BuiltOf trimmedBlock edits := by
  have hreports : ((Tree.Template.parse trimmedBlock).toOption.map fun t =>
      (NegatedCondition.rule.diagnose trimmedBlock t.nodes).map Diagnostic.span) =
        some [⟨0, 38⟩] := by
    decide +kernel
  cases ht : Tree.Template.parse trimmedBlock with
  | error e =>
    rw [ht] at hreports
    cases hreports
  | ok t =>
    rw [ht] at hreports
    obtain ⟨d, hd, hspan⟩ := List.map_eq_singleton_iff.1 (Option.some.inj hreports)
    have hmem : d ∈ NegatedCondition.rule.diagnose trimmedBlock t.nodes := by
      rw [hd]
      exact List.mem_singleton_self d
    obtain ⟨n, hn, edits, fix, hnspan, hedited, hfix, -, hbuilt⟩ := fix_builtOf ht hmem
    exact ⟨t, d, n, edits, fix, rfl, hmem, hspan, hn, hnspan, hedited, hfix, hbuilt⟩

end TemplateLint
