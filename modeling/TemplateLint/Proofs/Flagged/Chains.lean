import TemplateLint.Flagged.NegatedCondition
import TemplateLint.Proofs.Cursor.Basic
import TemplateLint.Proofs.Flagged.Embedding

namespace TemplateLint

open Cursor (Context)

namespace Cursor

variable {α β : Type} {m : Cursor α} {f : α → Cursor β} {P : α → Prop} {Q : β → Prop}

/-- Whatever the run returns has the property. -/
def Returns (m : Cursor α) (P : α → Prop) : Prop :=
  ∀ source n a k, runAt source n m = done a k → P a

namespace Returns

theorem pure {a : α} (h : P a) : Returns (pure a) P := by
  intro source n b k hb
  cases hb
  exact h

theorem throw (e : Stop) : Returns (throw e : Cursor α) P := by
  intro source n a k ha
  cases ha

theorem bind (hm : Returns m P) (hf : ∀ a, P a → Returns (f a) Q) : Returns (m >>= f) Q := by
  intro source n b k hb
  rw [runAt_bind] at hb
  split at hb
  · cases hb
  · next a j ha => exact hf a (hm source n a j ha) source j b k hb

/-- What the first step returns does not matter. -/
theorem step (hf : ∀ a, Returns (f a) Q) : Returns (m >>= f) Q :=
  bind (P := fun _ => True) (fun _ _ _ _ _ => trivial) fun a _ => hf a

theorem fail (cause : Concrete.ParseError) (n : Nat) : Returns (fail cause n : Cursor α) P :=
  step fun _ => step fun _ => throw _

theorem ite {p : Prop} [Decidable p] {m' : Cursor α} (hm : p → Returns m P)
    (hm' : ¬ p → Returns m' P) : Returns (if p then m else m') P := by
  split
  · exact hm ‹_›
  · exact hm' ‹_›

end Returns

end Cursor

namespace Flagged

open Cursor (Returns)

/-- Statements that are no segments. -/
def Unchained (ss : List Statement) : Prop := ∀ b, .block b ∈ ss → b.chained = false

/-- The `else` part leads to the segment alone, which its tag opens. -/
structure Inverse.Leads (i : Inverse) (b : Block) : Prop where
  only : i.body.statements = [.block b]
  chained : b.chained = true
  close : b.close = none
  span : b.span = i.body.span
  opening : b.openSpan = i.elseSpan

def Holder.InStep : Holder → Prop
  | .template t => Unchained t.body
  | .block b => (b.chained = true ↔ b.close = none) ∧ Unchained b.program.statements
  | .inverse i =>
    (i.chained = true → ∃ b, i.Leads b) ∧ (i.chained = false → Unchained i.body.statements)
  | .element e => Unchained e.children

/-- What is in a tree is in step, and each segment has an `else` part that leads to it. -/
structure InStep (hs : List Holder) : Prop where
  each : ∀ h ∈ hs, h.InStep
  led : ∀ b, .block b ∈ hs → b.chained = true →
    ∃ i, .inverse i ∈ hs ∧ i.chained = true ∧ i.body.statements = [.block b]

theorem InStep.nil : InStep [] := ⟨by simp, by simp⟩

theorem InStep.append {hs hs' : List Holder} (h : InStep hs) (h' : InStep hs') :
    InStep (hs ++ hs') := by
  refine ⟨fun x hx => ?_, fun b hb hchained => ?_⟩
  · rcases List.mem_append.1 hx with hx | hx
    · exact h.each x hx
    · exact h'.each x hx
  · rcases List.mem_append.1 hb with hb | hb
    · obtain ⟨i, hi, hled⟩ := h.led b hb hchained
      exact ⟨i, List.mem_append_left _ hi, hled⟩
    · obtain ⟨i, hi, hled⟩ := h'.led b hb hchained
      exact ⟨i, List.mem_append_right _ hi, hled⟩

/-- What is no segment needs no `else` part that leads to it. -/
theorem InStep.cons {x : Holder} {hs : List Holder} (hx : x.InStep)
    (hunchained : ∀ b, x = .block b → b.chained = false) (h : InStep hs) : InStep (x :: hs) := by
  refine ⟨List.forall_mem_cons.2 ⟨hx, h.each⟩, fun b hb hchained => ?_⟩
  rcases List.mem_cons.1 hb with rfl | hb
  · rw [hunchained b rfl] at hchained
    cases hchained
  · obtain ⟨i, hi, hled⟩ := h.led b hb hchained
    exact ⟨i, List.mem_cons_of_mem _ hi, hled⟩

/-- Statements of a body of their own, with all that is in them. -/
structure Settled (ss : List Statement) : Prop where
  unchained : Unchained ss
  holders : InStep (Statement.holdersAll ss)

theorem Settled.nil : Settled [] := ⟨by simp [Unchained], .nil⟩

theorem holdersAll_snoc (ss : List Statement) (s : Statement) :
    Statement.holdersAll (ss ++ [s]) = Statement.holdersAll ss ++ s.holders := by
  induction ss with
  | nil => simp [Statement.holdersAll]
  | cons x ss ih => rw [List.cons_append, Statement.holdersAll, ih, Statement.holdersAll, List.append_assoc]

theorem Settled.snoc {ss : List Statement} {s : Statement} (h : Settled ss)
    (hs : ∀ b, s = .block b → b.chained = false) (hholders : InStep s.holders) :
    Settled (ss ++ [s]) := by
  refine ⟨fun b hb => ?_, ?_⟩
  · rcases List.mem_append.1 hb with hb | hb
    · exact h.unchained b hb
    · exact hs b (List.mem_singleton.1 hb).symm
  · rw [holdersAll_snoc]
    exact h.holders.append hholders

theorem Settled.body {b : Body} (h : Settled b.statements) : InStep b.holders := by
  obtain ⟨statements, span⟩ := b
  exact h.holders

variable {content : Cursor (List Statement)}

theorem body_returns (h : Returns content Settled) :
    Returns (body content) fun b => Settled b.statements :=
  .step fun _ => h.bind fun _ hfound => .step fun _ => .pure hfound

theorem finalElse_returns (h : Returns content Settled) (name : List Char) (opener start : Nat) :
    Returns (finalElse content name opener start) fun p => InStep (Inverse.holders? p.1) := by
  refine .step fun _ => .step fun _ => .step fun stop => (body_returns h).bind fun last hlast =>
    .step fun close => .pure ?_
  exact .cons ⟨by simp, fun _ => hlast.unchained⟩ (by simp) hlast.body

/-- What follows the opening tag of a block or a segment. -/
def RestSettled (p : Body × Option Inverse × Tree.CloseTag) : Prop :=
  Settled p.1.statements ∧ InStep (Inverse.holders? p.2.1)

/-- A segment is in step with the `else` part around it. -/
theorem InStep.chained {i : Inverse} {b : Block} (h : i.Leads b) (hi : i.chained = true)
    (hprogram : Unchained b.program.statements) {hs : List Holder} (hbelow : InStep hs) :
    InStep (.inverse i :: .block b :: hs) := by
  refine ⟨?_, fun c hc hchained => ?_⟩
  · have hinverse : (Holder.inverse i).InStep := ⟨fun _ => ⟨b, h⟩, by simp [hi]⟩
    have hblock : (Holder.block b).InStep := ⟨by simp [h.chained, h.close], hprogram⟩
    exact List.forall_mem_cons.2 ⟨hinverse, List.forall_mem_cons.2 ⟨hblock, hbelow.each⟩⟩
  · simp only [List.mem_cons, reduceCtorEq, false_or, Holder.block.injEq] at hc
    rcases hc with rfl | hc
    · exact ⟨i, List.mem_cons_self, hi, h.only⟩
    · obtain ⟨j, hj, hled⟩ := hbelow.led c hc hchained
      exact ⟨j, List.mem_cons_of_mem _ (List.mem_cons_of_mem _ hj), hled⟩

theorem chainedElse_returns {rest : Cursor (Body × Option Inverse × Tree.CloseTag)}
    (h : Returns rest RestSettled) (start : Nat) :
    Returns (chainedElse rest start) fun p => InStep (Inverse.holders? p.1) := by
  refine .step fun callee => .step fun ⟨params, hash⟩ => .step fun bound => .step fun stop =>
    h.bind fun ⟨program, inverse, close⟩ ⟨hprogram, hinverse⟩ => .pure ?_
  have hbelow : InStep (program.holders ++ Inverse.holders? inverse) := hprogram.body.append hinverse
  simp only [Inverse.holders?, Body.holders, Statement.holdersAll, Statement.holders, Block.holders,
    List.append_nil]
  exact .chained ⟨rfl, rfl, rfl, rfl, rfl⟩ rfl hprogram.unchained hbelow

theorem elseRest_returns {rest : Cursor (Body × Option Inverse × Tree.CloseTag)}
    (h : Returns content Settled) (hrest : Returns rest RestSettled) (name : List Char)
    (opener : Nat) :
    Returns (elseRest content rest name opener) fun p => InStep (Inverse.holders? p.1) :=
  .step fun start => .step fun _ => .step fun _ => .step fun _ => .step fun _ => .step fun _ =>
    .step fun _ => .ite (fun _ => finalElse_returns h name opener start)
      fun _ => chainedElse_returns hrest start

theorem blockRestWith_returns (h : Returns content Settled) (name : List Char) (opener k : Nat) :
    Returns (blockRestWith content name opener k) RestSettled := by
  induction k with
  | zero => exact .throw _
  | succ k ih =>
    refine (body_returns h).bind fun program hprogram => .step fun _ => .ite (fun _ =>
      .step fun ahead => .ite (fun _ => .step fun close => .pure ⟨hprogram, .nil⟩) fun _ => ?_)
      fun _ => .fail _ _
    exact (elseRest_returns h ih name opener).bind fun ⟨inverse, close⟩ hinverse =>
      .pure ⟨hprogram, hinverse⟩

theorem block_returns (h : Returns content Settled) :
    Returns (block content) fun b => b.chained = false ∧ InStep b.holders := by
  refine .step fun start => .step fun _ => .step fun _ => .step fun _ => .step fun _ =>
    .step fun callee => ?_
  cases callee.path? with
  | none => exact .fail _ _
  | some path =>
    refine .step fun ⟨params, hash⟩ => .step fun bound => .step fun stop => .step fun rounds =>
      (blockRestWith_returns h _ start rounds).bind
        fun ⟨program, inverse, close⟩ ⟨hprogram, hinverse⟩ => .pure ⟨rfl, ?_⟩
    exact .cons ⟨by simp, hprogram.unchained⟩ (by simp) (hprogram.body.append hinverse)

theorem element_returns (h : Returns content Settled) :
    Returns (element content) fun e => InStep e.holders := by
  refine .step fun start => .step fun e => .ite (fun _ => .pure ?_) fun _ =>
    h.bind fun children hchildren => .step fun close => .pure ?_
  · exact .cons Settled.nil.unchained (by simp) Settled.nil.holders
  · exact .cons hchildren.unchained (by simp) hchildren.holders

/-- Every round adds a statement to those that are settled. -/
theorem contentWithin_returns (k : Nat) (context : Context) {found : List Statement}
    (h : Settled found) : Returns (contentWithin k context found) Settled := by
  induction k generalizing context found with
  | zero => exact .throw _
  | succ k ih =>
    have hcontent : ∀ context, Returns (contentWithin k context []) Settled := fun context =>
      ih context .nil
    refine .step fun _ => .ite (fun _ => .pure h) fun _ => .step fun _ => .ite (fun _ => ?_) fun _ =>
      .step fun _ => .ite (fun _ => ?_) fun _ => .step fun _ => .ite (fun _ => ?_) fun _ =>
      .step fun _ => .ite (fun _ => ?_) fun _ => ?_
    · refine .step fun ahead => ?_
      cases ahead with
      | note => exact .step fun c => ih context (h.snoc (by simp) .nil)
      | block =>
        exact (block_returns (hcontent .block)).bind fun b hb =>
          ih context (h.snoc (by simpa using hb.1) hb.2)
      | closeTag => exact .ite (fun _ => .step fun _ => .fail _ _) fun _ => .pure h
      | elseTag => exact .ite (fun _ => .step fun _ => .fail _ _) fun _ => .pure h
      | _ => exact .step fun m => ih context (h.snoc (by simp) .nil)
    · exact .step fun c => ih context (h.snoc (by simp) .nil)
    · exact .ite (fun _ => .step fun _ => .fail _ _) fun _ => .pure h
    · exact (element_returns (hcontent .element)).bind fun e he =>
        ih context (h.snoc (by simp) he)
    · exact .step fun t => ih context (h.snoc (by simp) .nil)

theorem template_returns : Returns template fun t => InStep t.holders :=
  .step fun _ => (contentWithin_returns _ .top .nil).bind fun _ hfound => .step fun _ =>
    .pure (.cons hfound.unchained (by simp) hfound.holders)

theorem blockEdits_flagged (helper : NegatedCondition.Conditional) (b : Tree.Block)
    (close : Tree.CloseTag) (fix : FixBuilder) :
    blockEdits helper b.flagged close fix = NegatedCondition.blockEdits helper b close fix := by
  obtain ⟨call, blockParams, openSpan, ⟨statements, range⟩, inverse, close', span⟩ := b
  cases helper with
  | whenFalse => rfl
  | whenTrue =>
    cases inverse with
    | absent => rfl
    | final elseSpan body =>
      obtain ⟨statements', range'⟩ := body
      rfl
    | chained segment => rfl

/-- With its flags the check finds what it finds by the shape of the chain. -/
theorem checkBlock_flagged (source : String) (b : Tree.Block) :
    (checkBlock source b.flagged).finding? = NegatedCondition.blockFinding? source b := by
  have hedits := fun helper close fix => blockEdits_flagged helper b close fix
  obtain ⟨call, blockParams, openSpan, program, inverse, close, span⟩ := b
  simp only [Tree.Block.flagged] at hedits ⊢
  cases close with
  | none =>
    simp only [NegatedCondition.blockFinding?]
    cases NegatedCondition.Conditional.ofCall? call <;> rfl
  | some close =>
    simp only [checkBlock, NegatedCondition.blockFinding?, hedits]
    cases NegatedCondition.Conditional.ofCall? call with
    | none => rfl
    | some helper =>
      rcases call.params with - | ⟨condition, - | ⟨second, more⟩⟩
      · rfl
      · dsimp only [bind, Option.bind]
        generalize NegatedCondition.blockEdits helper _ close _ = edits
        cases NegatedCondition.negatedOperand? condition with
        | none => rfl
        | some operand => cases edits <;> rfl
      · rfl

/-- Only a block that is no segment gets as far as its closing tag. -/
theorem close_of_checkBlock {source : String} {b : Block} (h : checkBlock source b = .unclosed) :
    b.chained = false ∧ b.close = none := by
  rw [checkBlock] at h
  split at h
  · cases h
  · next hchained =>
    refine ⟨by simpa using hchained, ?_⟩
    repeat' split at h
    all_goals first | assumption | cases h

theorem parse_inStep {source : String} {t : Template} (ht : parse source = .ok t) :
    InStep t.holders := by
  rw [parse] at ht
  cases hrun : Cursor.runAt source.toList 0 template with
  | error e =>
    rw [hrun] at ht
    cases ht
  | ok p =>
    obtain ⟨t', n⟩ := p
    rw [hrun] at ht
    cases ht
    exact template_returns _ _ _ _ hrun

/-- The tree of a source with its flags is the tree without them, flagged. In it a block is flagged just
where it has no closing tag, and just where it is all that a flagged `else` part leads to. Each flagged
`else` part leads to such a block, of its own range, and nothing else that holds statements holds one.
So no check of a block ends for a missing closing tag. -/
theorem parse_chains {source : String} {t : Template} (ht : parse source = .ok t) :
    (∃ t', Cursor.parse source = .ok t' ∧ t = t'.flagged) ∧
      (∀ b, .block b ∈ t.holders →
        (b.chained = true ↔ b.close = none) ∧
          (b.chained = true ↔ ∃ i, .inverse i ∈ t.holders ∧ i.chained = true ∧
            i.body.statements = [.block b])) ∧
      (∀ i, .inverse i ∈ t.holders → i.chained = true → ∃ b, i.Leads b) ∧
      (∀ h ∈ t.holders, (∀ i, h = .inverse i → i.chained = false) → Unchained h.statements) ∧
      ∀ b, .block b ∈ t.holders → checkBlock source b ≠ .unclosed := by
  have hstep := parse_inStep ht
  have hflag : ∀ b, .block b ∈ t.holders → (b.chained = true ↔ b.close = none) := fun b hb =>
    (hstep.each _ hb).1
  have hleads : ∀ i, .inverse i ∈ t.holders → i.chained = true → ∃ b, i.Leads b := fun i hi =>
    (hstep.each _ hi).1
  refine ⟨?_, fun b hb => ⟨hflag b hb, hstep.led b hb, ?_⟩, hleads, fun h hh hplain => ?_,
    fun b hb hcheck => ?_⟩
  · rw [parse_map] at ht
    cases hplain : Cursor.parse source with
    | error e =>
      rw [hplain] at ht
      cases ht
    | ok t' =>
      rw [hplain] at ht
      cases ht
      exact ⟨t', rfl, rfl⟩
  · rintro ⟨i, hi, hchained, honly⟩
    obtain ⟨c, hc⟩ := hleads i hi hchained
    have hsame : [Statement.block c] = [.block b] := hc.only.symm.trans honly
    obtain rfl : c = b := by simpa using hsame
    exact hc.chained
  · cases h with
    | inverse i => exact (hstep.each _ hh).2 (hplain i rfl)
    | template t => exact hstep.each _ hh
    | block b => exact (hstep.each _ hh).2
    | element e => exact hstep.each _ hh
  · obtain ⟨hchained, hclose⟩ := close_of_checkBlock hcheck
    rw [(hflag b hb).2 hclose] at hchained
    cases hchained

/-- A chain in a chain, the condition of its block negated. -/
def chainInChain : String :=
  "\x7b\x7b#if a\x7d\x7d\x7b\x7belse if b\x7d\x7d\x7b\x7b#if (not c)\x7d\x7d\x7b\x7belse if d" ++
    "\x7d\x7d\x7b\x7b/if\x7d\x7d\x7b\x7belse\x7d\x7d2\x7b\x7b/if\x7d\x7d"

theorem parse_chains_nested :
    ∃ t, parse chainInChain = .ok t ∧
      t.holders.filterMap (fun
        | .block b => some (b.span, b.chained)
        | _ => none) = [(⟨0, 73⟩, false), (⟨9, 66⟩, true), (⟨22, 57⟩, false), (⟨37, 50⟩, true)] ∧
      ∀ b, .block b ∈ t.holders → (b.chained = true ↔ b.close = none) ∧
        checkBlock chainInChain b ≠ .unclosed := by
  have hspans : (parse chainInChain).toOption.map (fun t => t.holders.filterMap fun
        | .block b => some (b.span, b.chained)
        | _ => none) =
        some [(⟨0, 73⟩, false), (⟨9, 66⟩, true), (⟨22, 57⟩, false), (⟨37, 50⟩, true)] := by
    decide +kernel
  cases ht : parse chainInChain with
  | error e =>
    rw [ht] at hspans
    cases hspans
  | ok t =>
    rw [ht] at hspans
    obtain ⟨-, hflags, -, -, hcheck⟩ := parse_chains ht
    exact ⟨t, rfl, Option.some.inj hspans, fun b hb => ⟨(hflags b hb).1, hcheck b hb⟩⟩

end Flagged

end TemplateLint
