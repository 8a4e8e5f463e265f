import TemplateLint.Proofs.Negation.Inline

namespace TemplateLint

open Text (size opens)

namespace Concrete

open NegatedCondition (Conditional negatedOperand? blockFinding? blockEdits)

/-- The parts of an opening tag that has a negated condition and no other positional argument. -/
def BlockTag.negated? (t : BlockTag) : Option Negated :=
  t.call.negated?.filter fun n => (Arg.values n.rest).isEmpty

def BlockTag.withCall (t : BlockTag) (c : Call) : BlockTag := ⟨t.tilde, c, t.ending⟩

def CloseTag.withName (t : CloseTag) (name : List Char) : CloseTag :=
  ⟨t.tildeBefore, t.lead, name, t.trail, t.tildeAfter⟩

/-- The block of an opening tag without the negation in it: with a plain `else` after `if` the two
bodies change places, else the helper does. An `if` that goes on with a chain is left alone. -/
def BlockTag.without? (opening : BlockTag) (n : Negated) (program : List Statement)
    (sections : List Section) (closing : CloseTag) : Option Statement :=
  match n.helper, sections with
  | .whenTrue, ⟨⟨_, _, .chained _ _⟩, _⟩ :: _ => none
  | .whenTrue, ⟨⟨tilde, lead, .plain trail after⟩, body⟩ :: more =>
    some (.block (opening.withCall (opening.call.freed n opening.call.callee)) body
      (⟨⟨tilde, lead, .plain trail after⟩, program⟩ :: more) closing)
  | _, _ =>
    some (.block (opening.withCall (opening.call.freed n (helperWord n.helper.flip))) program
      sections (closing.withName n.helper.flip.helper.toList))

/-- A block without its negation, if it has one. -/
def Statement.unnegated? : Statement → Option Statement
  | .block opening program sections closing =>
    opening.negated?.bind fun n => opening.without? n program sections closing
  | _ => none

theorem Statement.unnegated?_eq {opening : BlockTag} {n : Negated}
    (hn : opening.negated? = some n) (program : List Statement) (sections : List Section)
    (closing : CloseTag) :
    (Statement.block opening program sections closing).unnegated? =
      opening.without? n program sections closing := by
  rw [Statement.unnegated?, hn, Option.bind_some]

/-- What stands before and after the name of a closing tag. -/
def CloseTag.front (t : CloseTag) : List Char :=
  Token.mustacheOpen.chars ++ flagged t.tildeBefore ['~'] ++ Token.slash.chars ++ t.lead

def CloseTag.back (t : CloseTag) : List Char :=
  t.trail ++ flagged t.tildeAfter ['~'] ++ Token.mustacheClose.chars

theorem CloseTag.chars_eq (t : CloseTag) : t.chars = t.front ++ (t.name ++ t.back) := by
  simp [CloseTag.chars, CloseTag.front, CloseTag.back]

/-- A block from its call on. -/
theorem Statement.chars_block (opening : BlockTag) (program : List Statement)
    (sections : List Section) (closing : CloseTag) :
    (Statement.block opening program sections closing).chars =
      opening.front ++ (opening.call.chars ++ (opening.ending.chars ++ (Statement.charsAll program ++
        (Section.charsAll sections ++ closing.chars)))) := by
  simp only [Statement.chars, BlockTag.chars_eq, List.append_assoc]

theorem blockAt_call (k : Nat) (opening : BlockTag) (program : List Statement)
    (sections : List Section) (closing : CloseTag) :
    (blockAt k opening program sections closing).call =
      opening.call.at (k + size opening.front) := rfl

theorem blockAt_close (k : Nat) (opening : BlockTag) (program : List Statement)
    (sections : List Section) (closing : CloseTag) :
    (blockAt k opening program sections closing).close = some (closing.at
      (k + size opening.chars + Statement.widthAll program + Section.widthAll sections)) := rfl

section

variable {opening : BlockTag} {n : Negated} {condition : Expr}

/-- The patches that exchange the helper at both ends of a block and free its condition. -/
def BlockTag.exchangePatches (opening : BlockTag) (n : Negated) (condition : Expr)
    (program : List Statement) (sections : List Section) (closing : CloseTag)
    (helper : Conditional) : List Patch :=
  [⟨opening.front ++ opening.call.lead, n.helper.helper.toList, helper.helper.toList⟩,
    ⟨n.gap, condition.chars, n.operand.chars⟩,
    ⟨Arg.charsAll n.rest ++ (opening.call.trail ++ (opening.ending.chars ++
      (Statement.charsAll program ++ (Section.charsAll sections ++ closing.front)))),
        closing.name, helper.helper.toList⟩]

/-- The patches that exchange the two bodies of a block and free its condition. -/
def BlockTag.flipPatches (opening : BlockTag) (n : Negated) (condition : Expr)
    (program : List Statement) (tag : ElseTag) (body : List Statement) : List Patch :=
  [⟨opening.front ++ (opening.call.lead ++ (n.helper.helper.toList ++ n.gap)), condition.chars,
      n.operand.chars⟩,
    ⟨Arg.charsAll n.rest ++ (opening.call.trail ++ opening.ending.chars),
      Statement.charsAll program, Statement.charsAll body⟩,
    ⟨tag.chars, Statement.charsAll body, Statement.charsAll program⟩]

theorem spread_exchangePatches (program : List Statement) (sections : List Section)
    (closing : CloseTag) (helper : Conditional) :
    Draft.Spread (opening.exchangePatches n condition program sections closing helper) := by
  have hfront : 0 < size closing.front := Text.size_pos_of_ne_nil (by
    simp [CloseTag.front, Token.chars])
  have hhelper := size_helper_pos n.helper
  refine ⟨?_, ?_, trivial⟩ <;> simp only [Text.size_append] <;> omega

theorem spread_flipPatches (hcondition : 0 < size condition.chars) (program : List Statement)
    (tag : ElseTag) (body : List Statement) :
    Draft.Spread (opening.flipPatches n condition program tag body) := by
  have htag : 0 < size tag.chars := Text.size_pos_of_ne_nil (by
    simp [ElseTag.chars, Token.chars])
  refine ⟨?_, ?_, trivial⟩ <;> dsimp only <;> omega

theorem allEdited_exchangePatches (program : List Statement) (sections : List Section)
    (closing : CloseTag) (helper : Conditional) (k : Nat) :
    (Draft.patched (opening.exchangePatches n condition program sections closing helper)
      closing.back).allEdited k =
        (Statement.block (opening.withCall (opening.call.freed n (helperWord helper))) program
          sections (closing.withName helper.helper.toList)).chars := by
  rw [Statement.chars_block, CloseTag.chars_eq, BlockTag.withCall, Call.freed, Call.chars_join,
    Arg.charsAll_join]
  simp [BlockTag.exchangePatches, helperWord, Expr.chars, BlockTag.front, CloseTag.withName,
    CloseTag.front, CloseTag.back]

theorem allEdited_flipPatches (hcallee : opening.call.callee.chars = n.helper.helper.toList)
    (program : List Statement) (tag : ElseTag) (body : List Statement) (more : List Section)
    (closing : CloseTag) (k : Nat) :
    (Draft.patched (opening.flipPatches n condition program tag body)
      (Section.charsAll more ++ closing.chars)).allEdited k =
        (Statement.block (opening.withCall (opening.call.freed n opening.call.callee)) body
          (⟨tag, program⟩ :: more) closing).chars := by
  rw [Statement.chars_block, BlockTag.withCall, Call.freed, Call.chars_join, Arg.charsAll_join,
    hcallee]
  simp [BlockTag.flipPatches, BlockTag.front, Section.charsAll, Section.chars]

variable (hcc : opening.call.chars = opening.call.lead ++ (n.helper.helper.toList ++ (n.gap ++
  (condition.chars ++ (Arg.charsAll n.rest ++ opening.call.trail)))))

include hcc

theorem chars_exchangePatches (program : List Statement) (sections : List Section)
    (closing : CloseTag) (helper : Conditional) :
    (Draft.patched (opening.exchangePatches n condition program sections closing helper)
      closing.back).chars = (Statement.block opening program sections closing).chars := by
  rw [Statement.chars_block, CloseTag.chars_eq, hcc]
  simp [BlockTag.exchangePatches]

theorem chars_flipPatches (program : List Statement) (tag : ElseTag) (body : List Statement)
    (more : List Section) (closing : CloseTag) :
    (Draft.patched (opening.flipPatches n condition program tag body)
      (Section.charsAll more ++ closing.chars)).chars =
        (Statement.block opening program (⟨tag, body⟩ :: more) closing).chars := by
  rw [Statement.chars_block, hcc]
  simp [BlockTag.flipPatches, Section.charsAll, Section.chars]

/-- Where the name in the closing tag of a block is. -/
theorem closing_pathSpan (program : List Statement) (sections : List Section)
    (closing : CloseTag) (k : Nat) :
    (closing.at (k + size opening.chars + Statement.widthAll program +
      Section.widthAll sections)).pathSpan = .over (k + size (opening.front ++ opening.call.lead) +
        size n.helper.helper.toList + size n.gap + size condition.chars +
          size (Arg.charsAll n.rest ++ (opening.call.trail ++ (opening.ending.chars ++
            (Statement.charsAll program ++ (Section.charsAll sections ++ closing.front))))))
        closing.name := by
  have hname : closing.nameOffset = size closing.front := rfl
  rw [CloseTag.at, hname, BlockTag.chars_eq, hcc, Statement.widthAll_eq, Section.widthAll_eq]
  simp only [Text.size_append, Nat.add_assoc]

end

/-- The body of a plain `else` tag, with the place where it begins. -/
theorem blockAt_inverse (k : Nat) (opening : BlockTag) (program : List Statement) {tag : ElseTag}
    {trail : List Char} {after : Bool} (htag : tag.tail = .plain trail after)
    (body : List Statement) (more : List Section) (closing : CloseTag) :
    (blockAt k opening program (⟨tag, body⟩ :: more) closing).inverse =
      .final (.over (k + size opening.chars + Statement.widthAll program) tag.chars)
        ⟨Statement.atAll (k + size opening.chars + Statement.widthAll program + size tag.chars) body,
          ⟨k + size opening.chars + Statement.widthAll program + size tag.chars,
            k + size opening.chars + Statement.widthAll program + size tag.chars +
              Statement.widthAll body⟩⟩ := by
  simp only [blockAt, Section.atAll, htag]

/-- The edits that exchange the helper at both ends of a block and free its condition. -/
theorem block_exchange_edits {opening : BlockTag} {n : Negated}
    (hn : opening.call.negated? = some n) (program : List Statement) (sections : List Section)
    (closing : CloseTag) (helper : Conditional) (u v : List Char) {src : String}
    (hsrc : src = String.ofList
      (u ++ ((Statement.block opening program sections closing).chars ++ v))) :
    ∃ condition operand freed,
      (blockAt (size u) opening program sections closing).call.params.head? = some condition ∧
      negatedOperand? condition = some operand ∧ freed.Copies src condition.span operand.span ∧
      Fix.Edits (size u) (Statement.block opening program sections closing).chars
        [⟨(blockAt (size u) opening program sections closing).call.callee.span, helper.helper⟩,
          ⟨(closing.at (size u + size opening.chars + Statement.widthAll program +
            Section.widthAll sections)).pathSpan, helper.helper⟩, freed]
        (Statement.block (opening.withCall (opening.call.freed n (helperWord helper))) program
          sections (closing.withName helper.helper.toList)).chars := by
  obtain ⟨condition, operand, -, hcc, -, hcallee, hparams, hoperand, hslice⟩ :=
    operand_at hn (u ++ opening.front) (opening.ending.chars ++ (Statement.charsAll program ++
      (Section.charsAll sections ++ (closing.chars ++ v))))
  rw [blockAt_call, ← Text.size_append]
  refine ⟨_, _, ⟨_, String.ofList n.operand.chars⟩, by rw [hparams]; rfl, hoperand,
    Fix.copies_of_slice? ?_, .of_patched
      (spread_exchangePatches program sections closing helper)
      (chars_exchangePatches hcc program sections closing helper)
      (allEdited_exchangePatches program sections closing helper _)
      ((List.Perm.swap _ _ []).cons _ |>.trans (.of_eq ?_))⟩
  · rw [hsrc, String.toList_ofList, ← hslice, Statement.chars_block]
    simp only [List.append_assoc]
  · -- the condition is before the closing tag
    rw [hcallee, closing_pathSpan hcc, Expr.at_span]
    simp only [BlockTag.exchangePatches, Draft.allTaken_patched_cons, Draft.allTaken_patched_nil,
      Span.over, String.ofList_toList, Text.size_append, Nat.add_assoc]

/-- The edits that exchange the two bodies of a block and free its condition. -/
theorem block_flip_edits {opening : BlockTag} {rest : List Char} (h : opening.call.Stands rest)
    {n : Negated} (hn : opening.call.negated? = some n)
    (program : List Statement) {tag : ElseTag} {trail : List Char} {after : Bool}
    (htag : tag.tail = .plain trail after) (body : List Statement) (more : List Section)
    (closing : CloseTag) (u v : List Char) {src : String}
    (hsrc : src = String.ofList
      (u ++ ((Statement.block opening program (⟨tag, body⟩ :: more) closing).chars ++ v))) :
    ∃ condition operand elseSpan elseBody first second freed,
      (blockAt (size u) opening program (⟨tag, body⟩ :: more) closing).call.params.head? =
        some condition ∧
      negatedOperand? condition = some operand ∧
      (blockAt (size u) opening program (⟨tag, body⟩ :: more) closing).inverse =
        .final elseSpan elseBody ∧
      first.Copies src (blockAt (size u) opening program (⟨tag, body⟩ :: more) closing).program.span
        elseBody.span ∧
      second.Copies src elseBody.span
        (blockAt (size u) opening program (⟨tag, body⟩ :: more) closing).program.span ∧
      freed.Copies src condition.span operand.span ∧
      Fix.Edits (size u) (Statement.block opening program (⟨tag, body⟩ :: more) closing).chars
        [first, second, freed]
        (Statement.block (opening.withCall (opening.call.freed n opening.call.callee)) body
          (⟨tag, program⟩ :: more) closing).chars := by
  obtain ⟨condition, operand, hcallee, hcc, hsize, -, hparams, hoperand, hslice⟩ :=
    operand_at hn (u ++ opening.front) (opening.ending.chars ++ (Statement.charsAll program ++
      (Section.charsAll (⟨tag, body⟩ :: more) ++ (closing.chars ++ v))))
  have hcondition : 0 < size condition.chars :=
    Nat.lt_of_lt_of_le (h.negated hn).2.2.2.1.size_pos hsize
  have hd := chars_flipPatches hcc program tag body more closing
  have hopening : size opening.chars = size opening.front + (size opening.call.lead +
      (size n.helper.helper.toList + (size n.gap + (size condition.chars +
        (size (Arg.charsAll n.rest) + (size opening.call.trail + size opening.ending.chars)))))) := by
    rw [BlockTag.chars_eq, hcc]
    simp only [Text.size_append, Nat.add_assoc]
  have hedits : [⟨(condition.at (size (u ++ opening.front) +
        size (opening.call.lead ++ n.helper.helper.toList ++ n.gap))).span,
          String.ofList n.operand.chars⟩,
      ⟨(blockAt (size u) opening program (⟨tag, body⟩ :: more) closing).program.span,
        String.ofList (Statement.charsAll body)⟩,
      ⟨⟨size u + size opening.chars + Statement.widthAll program + size tag.chars,
        size u + size opening.chars + Statement.widthAll program + size tag.chars +
          Statement.widthAll body⟩, String.ofList (Statement.charsAll program)⟩] =
        (Draft.patched (opening.flipPatches n condition program tag body)
          (Section.charsAll more ++ closing.chars)).allTaken (size u) := by
    simp only [Expr.at_span, BlockTag.flipPatches, Draft.allTaken_patched_cons,
      Draft.allTaken_patched_nil, Span.over, blockAt, hopening, Statement.widthAll_eq,
      Text.size_append, Nat.add_assoc]
  have hsource : src.toList =
      u ++ ((Statement.block opening program (⟨tag, body⟩ :: more) closing).chars ++ v) := by
    rw [hsrc, String.toList_ofList]
  have htexts := Draft.slice?_patched (opening.flipPatches n condition program tag body)
    (Section.charsAll more ++ closing.chars) u v
  rw [hd, ← hsource, ← hedits] at htexts
  simp only [BlockTag.flipPatches, List.map_cons, List.map_nil, List.cons.injEq, and_true] at htexts
  obtain ⟨-, hprogram, hbody⟩ := htexts
  rw [blockAt_call, ← Text.size_append]
  refine ⟨_, _, _, _, ⟨_, String.ofList (Statement.charsAll body)⟩,
    ⟨_, String.ofList (Statement.charsAll program)⟩, ⟨_, String.ofList n.operand.chars⟩,
    by rw [hparams]; rfl, hoperand, blockAt_inverse _ _ _ htag _ _ _, Fix.copies_of_slice? hbody,
    Fix.copies_of_slice? hprogram, Fix.copies_of_slice? ?_,
    .of_patched (spread_flipPatches hcondition program tag body) hd
      (allEdited_flipPatches hcallee program tag body more closing _) ?_⟩
  · rw [hsource, ← hslice, Statement.chars_block]
    simp only [List.append_assoc]
  · rw [← hedits]
    exact List.perm_append_singleton _ [_, _]

theorem block_exchange_fix {opening : BlockTag} {n : Negated} (hn : opening.call.negated? = some n)
    (program : List Statement) (sections : List Section) (closing : CloseTag)
    (helper : Conditional) (u v : List Char) {src : String}
    (hsrc : src = String.ofList
      (u ++ ((Statement.block opening program sections closing).chars ++ v))) :
    ∃ condition operand,
      (blockAt (size u) opening program sections closing).call.params.head? = some condition ∧
      negatedOperand? condition = some operand ∧
      ((((FixBuilder.new src (blockAt (size u) opening program sections closing).span).replace
          (blockAt (size u) opening program sections closing).call.callee.span helper.helper).replace
            (closing.at (size u + size opening.chars + Statement.widthAll program +
              Section.widthAll sections)).pathSpan helper.helper).replace
              condition.span (Text.slice operand.span src)).build =
        ⟨.over (size u) (Statement.block opening program sections closing).chars,
          String.ofList (Statement.block (opening.withCall (opening.call.freed n (helperWord helper)))
            program sections (closing.withName helper.helper.toList)).chars⟩ := by
  obtain ⟨condition, operand, freed, hcondition, hoperand, hfreed, hedits⟩ :=
    block_exchange_edits hn program sections closing helper u v hsrc
  obtain rfl := hfreed.eq
  rw [blockAt_span]
  exact ⟨condition, operand, hcondition, hoperand, hedits.build v hsrc⟩

theorem block_flip_fix {opening : BlockTag} {rest : List Char} (h : opening.call.Stands rest)
    {n : Negated} (hn : opening.call.negated? = some n)
    (program : List Statement) {tag : ElseTag} {trail : List Char} {after : Bool}
    (htag : tag.tail = .plain trail after) (body : List Statement) (more : List Section)
    (closing : CloseTag) (u v : List Char) {src : String}
    (hsrc : src = String.ofList
      (u ++ ((Statement.block opening program (⟨tag, body⟩ :: more) closing).chars ++ v))) :
    ∃ condition operand elseSpan elseBody,
      (blockAt (size u) opening program (⟨tag, body⟩ :: more) closing).call.params.head? =
        some condition ∧
      negatedOperand? condition = some operand ∧
      (blockAt (size u) opening program (⟨tag, body⟩ :: more) closing).inverse =
        .final elseSpan elseBody ∧
      (((FixBuilder.new src (blockAt (size u) opening program (⟨tag, body⟩ :: more)
          closing).span).swap
          (blockAt (size u) opening program (⟨tag, body⟩ :: more) closing).program.span
          elseBody.span).replace condition.span (Text.slice operand.span src)).build =
        ⟨.over (size u) (Statement.block opening program (⟨tag, body⟩ :: more) closing).chars,
          String.ofList (Statement.block (opening.withCall (opening.call.freed n
            opening.call.callee)) body (⟨tag, program⟩ :: more) closing).chars⟩ := by
  obtain ⟨condition, operand, elseSpan, elseBody, first, second, freed, hcondition, hoperand,
    hinverse, hfirst, hsecond, hfreed, hedits⟩ :=
    block_flip_edits h hn program htag body more closing u v hsrc
  obtain rfl := hfirst.eq
  obtain rfl := hsecond.eq
  obtain rfl := hfreed.eq
  rw [blockAt_span]
  exact ⟨condition, operand, elseSpan, elseBody, hcondition, hoperand, hinverse,
    hedits.build v hsrc⟩

/-- A block that is not negated has no finding. -/
theorem blockFinding?_of_none {opening : BlockTag} {rest : List Char}
    (h : opening.call.Stands rest) (hneg : opening.negated? = none) (program : List Statement)
    (sections : List Section) (closing : CloseTag) (k : Nat) (src : String) :
    blockFinding? src (blockAt k opening program sections closing) = none := by
  unfold blockFinding?
  rw [blockAt_call, ofCall?_eq, blockAt_close]
  cases hh : helper? opening.call.callee with
  | none => rfl
  | some helper =>
    cases hn : opening.call.negated? with
    | none =>
      rcases hp : (opening.call.at (k + size opening.front)).params with
        _ | ⟨condition, _ | ⟨w, ws⟩⟩
      · rfl
      · have hop := negatedOperand?_of_negated?_none h hn hh _ hp
        simp [hop]
      · rfl
    | some n =>
      obtain ⟨condition, values, hp, hlength⟩ := params_of_negated? h hn (k + size opening.front)
      rw [hp]
      cases values with
      | nil =>
        have hvalues : Arg.values n.rest = [] := List.eq_nil_of_length_eq_zero hlength.symm
        simp [BlockTag.negated?, hn, hvalues] at hneg
      | cons w ws => rfl

/-- The finding for a negated block has the fix for it, where there is one. -/
theorem blockFinding?_of_negated {opening : BlockTag} {rest : List Char}
    (h : opening.call.Stands rest) {n : Negated} (hneg : opening.negated? = some n)
    (program : List Statement) (sections : List Section) (closing : CloseTag) (u v : List Char)
    {src : String}
    (hsrc : src = String.ofList
      (u ++ ((Statement.block opening program sections closing).chars ++ v))) :
    (blockFinding? src (blockAt (size u) opening program sections closing)).bind Finding.fix =
      (opening.without? n program sections closing).map fun s =>
        ⟨.over (size u) (Statement.block opening program sections closing).chars,
          String.ofList s.chars⟩ := by
  obtain ⟨hn, hvalues⟩ := Option.filter_eq_some_iff.1 hneg
  obtain ⟨-, -, hh, -⟩ := eq_of_negated? hn
  obtain ⟨condition, values, hp, hlength⟩ := params_of_negated? h hn (size u + size opening.front)
  obtain rfl : values = [] := List.eq_nil_of_length_eq_zero (by
    rw [hlength, List.isEmpty_iff.1 hvalues]
    rfl)
  obtain ⟨condition', operand, hhead, hop, hexchange⟩ :=
    block_exchange_fix hn program sections closing n.helper.flip u v hsrc
  rw [blockAt_call, hp] at hhead
  obtain rfl : condition = condition' := Option.some.inj hhead
  unfold blockFinding?
  rw [blockAt_call, ofCall?_eq, blockAt_close, hh, hp]
  simp only [Option.bind_eq_bind, Option.bind_some, hop]
  cases hhelper : n.helper with
  | whenFalse =>
    rw [hhelper] at hexchange
    simp only [blockEdits, Option.bind_some, hexchange, BlockTag.without?, hhelper,
      Option.map_some]
  | whenTrue =>
    rw [hhelper] at hexchange
    match sections with
    | [] =>
      have hinverse : (blockAt (size u) opening program [] closing).inverse = .absent := by
        rw [blockAt, Section.atAll]
      simp only [blockEdits, hinverse, Option.bind_some, hexchange, BlockTag.without?, hhelper,
        Option.map_some]
    | ⟨⟨tilde, lead, .chained call ending⟩, body⟩ :: more =>
      have hinverse : ∃ segment, (blockAt (size u) opening program
          (⟨⟨tilde, lead, .chained call ending⟩, body⟩ :: more) closing).inverse =
            .chained segment := by
        rw [blockAt, Section.atAll]
        exact ⟨_, rfl⟩
      obtain ⟨segment, hinverse⟩ := hinverse
      simp only [blockEdits, hinverse, Option.bind_none, BlockTag.without?, hhelper,
        Option.map_none]
    | ⟨⟨tilde, lead, .plain trail after⟩, body⟩ :: more =>
      obtain ⟨condition', operand', elseSpan, elseBody, hhead, hop', hinverse, hflip⟩ :=
        block_flip_fix h hn program rfl body more closing u v hsrc
      rw [blockAt_call, hp] at hhead
      obtain rfl : condition = condition' := Option.some.inj hhead
      obtain rfl : operand = operand' := Option.some.inj (hop ▸ hop')
      simp only [blockEdits, hinverse, Option.bind_some, hflip, BlockTag.without?, hhelper,
        Option.map_some]

theorem blockFinding?_fix {opening : BlockTag} {rest : List Char} (h : opening.call.Stands rest)
    (program : List Statement) (sections : List Section) (closing : CloseTag) (u v : List Char)
    {src : String}
    (hsrc : src = String.ofList
      (u ++ ((Statement.block opening program sections closing).chars ++ v))) :
    (blockFinding? src (blockAt (size u) opening program sections closing)).bind Finding.fix =
      (Statement.block opening program sections closing).unnegated?.map fun s =>
        ⟨.over (size u) (Statement.block opening program sections closing).chars,
          String.ofList s.chars⟩ := by
  cases hneg : opening.negated? with
  | none =>
    rw [blockFinding?_of_none h hneg, Statement.unnegated?, hneg]
    rfl
  | some n =>
    rw [Statement.unnegated?_eq hneg]
    exact blockFinding?_of_negated h hneg program sections closing u v hsrc

def Expr.isWord : Expr → Bool
  | .word _ => true
  | _ => false

/-- Whether the condition of a block, without its parentheses, would become one word with the helper
or with the `as` of its parameters. -/
def BlockTag.joins (t : BlockTag) (n : Negated) : Bool :=
  n.operand.isWord && (n.gap.isEmpty ||
    (n.rest.isEmpty && t.call.trail.isEmpty && t.ending.params.isSome))

def Statement.joins : Statement → Bool
  | .block opening program sections closing =>
    (Statement.block opening program sections closing).unnegated?.isSome &&
      (opening.negated?.map opening.joins).getD false
  | _ => false

theorem TagEnd.Stands.opens_isWordChar {e : TagEnd} (h : e.Stands) (hp : e.params = none) :
    opens isWordChar e.chars = false := by
  unfold TagEnd.Stands at h
  rw [hp] at h
  dsimp only at h
  rw [TagEnd.chars, hp, h]
  cases e.tilde <;> rfl

theorem BlockTag.Stands.freed {t : BlockTag} (h : t.Stands) {n : Negated}
    (hn : t.call.negated? = some n) (hj : t.joins n = false) (helper : Conditional) :
    (t.withCall (t.call.freed n (helperWord helper))).Stands ∧
      (t.call.freed n (helperWord helper)).callee = helperWord helper := by
  obtain ⟨hcall, hending, -⟩ := h
  obtain ⟨-, -, htrail, -, -⟩ := hcall.negated hn
  have hgap : ∀ w, n.operand = .word w → n.gap ≠ [] := by
    intro w hw hgap
    simp [BlockTag.joins, hw, hgap, Expr.isWord] at hj
  have hcallee : (t.call.freed n (helperWord helper)).callee = helperWord helper := by
    unfold Call.freed Call.join
    split
    · next v w args trail hv hargs =>
      exfalso
      unfold Arg.join at hargs
      split at hargs
      · next v' w' args' hoperand hrest =>
        simp only [List.cons.injEq, Arg.mk.injEq] at hargs
        exact hgap _ hoperand hargs.1.1
      · simp at hargs
      · simp only [List.cons.injEq, Arg.mk.injEq, true_and] at hargs
        exact hgap _ hargs.1.2 hargs.1.1
    · rfl
  refine ⟨⟨?_, hending, ?_⟩, hcallee⟩
  · apply hcall.freed hn (helperWord_stands helper)
    · intro hrest w hw
      cases hp : t.ending.params with
      | none => exact opens_word_lead htrail (hending.opens_isWordChar hp)
      | some p =>
        have htrailNe : t.call.trail ≠ [] := by
          intro ht
          simp [BlockTag.joins, hw, hrest, ht, hp, Expr.isWord] at hj
        exact opens_word_blank htrail htrailNe _
    · intro hg w hw
      exact absurd hg (hgap w hw)
  · show ((t.call.freed n (helperWord helper)).callee.path?).isSome
    rw [hcallee]
    cases helper <;> rfl

theorem eq_of_blockNegated? {t : BlockTag} {n : Negated} (h : t.negated? = some n) :
    t.call.negated? = some n ∧ Arg.values n.rest = [] := by
  obtain ⟨hn, hvs⟩ := Option.filter_eq_some_iff.1 h
  exact ⟨hn, List.isEmpty_iff.1 hvs⟩

/-- The bodies change places after an `if` with a plain `else`. An `if` whose helper is exchanged has
no `else` at all. -/
theorem BlockTag.eq_of_without? {opening : BlockTag} {n : Negated} {program : List Statement}
    {sections : List Section} {closing : CloseTag} {s : Statement}
    (h : opening.without? n program sections closing = some s) :
    (∃ tilde lead trail after body more, n.helper = .whenTrue ∧
        sections = ⟨⟨tilde, lead, .plain trail after⟩, body⟩ :: more ∧
        s = .block (opening.withCall (opening.call.freed n opening.call.callee)) body
          (⟨⟨tilde, lead, .plain trail after⟩, program⟩ :: more) closing) ∨
      (n.helper = .whenTrue → sections = []) ∧
        s = .block (opening.withCall (opening.call.freed n (helperWord n.helper.flip))) program
          sections (closing.withName n.helper.flip.helper.toList) := by
  unfold BlockTag.without? at h
  cases hhelper : n.helper with
  | whenFalse =>
    rw [hhelper] at h
    cases h
    exact Or.inr ⟨Conditional.noConfusion, rfl⟩
  | whenTrue =>
    rw [hhelper] at h
    match sections, h with
    | [], h =>
      cases h
      exact Or.inr ⟨fun _ => rfl, rfl⟩
    | ⟨⟨tilde, lead, .plain trail after⟩, body⟩ :: more, h =>
      cases h
      exact Or.inl ⟨tilde, lead, trail, after, body, more, rfl, rfl, rfl⟩
    | ⟨⟨_, _, .chained _ _⟩, _⟩ :: _, h => cases h

/-- The two ways to take the negation out of a block. -/
theorem eq_of_blockUnnegated? {opening : BlockTag} {program : List Statement}
    {sections : List Section} {closing : CloseTag} {s : Statement}
    (h : (Statement.block opening program sections closing).unnegated? = some s) :
    ∃ n, opening.negated? = some n ∧
      ((∃ tilde lead trail after body more, n.helper = .whenTrue ∧
          sections = ⟨⟨tilde, lead, .plain trail after⟩, body⟩ :: more ∧
          s = .block (opening.withCall (opening.call.freed n (helperWord n.helper))) body
            (⟨⟨tilde, lead, .plain trail after⟩, program⟩ :: more) closing) ∨
        s = .block (opening.withCall (opening.call.freed n (helperWord n.helper.flip))) program
          sections (closing.withName n.helper.flip.helper.toList)) := by
  obtain ⟨n, hn, h⟩ := Option.bind_eq_some_iff.1 h
  refine ⟨n, hn, ?_⟩
  obtain ⟨-, -, hh, -⟩ := eq_of_negated? (eq_of_blockNegated? hn).1
  rw [← eq_of_helper? hh]
  exact (BlockTag.eq_of_without? h).imp_right And.right

theorem CloseTag.textEnd_alone (t : CloseTag) : textEndAhead t.chars = true := by
  have h := t.textEnd []
  rwa [List.append_nil] at h

theorem BlockTag.Stands.name_eq {t : BlockTag} {n : Negated} {name : List Char}
    (hn : t.call.negated? = some n) (hname : t.call.callee.path? = some name) :
    name = n.helper.helper.toList := by
  obtain ⟨-, -, hh, -⟩ := eq_of_negated? hn
  rw [eq_of_helper? hh] at hname
  cases hc : n.helper <;> rw [hc] at hname <;> cases hname <;> rfl

/-- The parts of a block without its negation: but for the opening tag all of them stand, and the
closing tag has the name of the helper. -/
theorem Statement.Stands.unnegated_parts {opening : BlockTag} {program : List Statement}
    {sections : List Section} {closing : CloseTag} {rest : List Char} {s' : Statement}
    (h : (Statement.block opening program sections closing).Stands rest)
    (hs : (Statement.block opening program sections closing).unnegated? = some s') :
    ∃ n helper program' sections' closing', opening.negated? = some n ∧
      s' = .block (opening.withCall (opening.call.freed n (helperWord helper))) program' sections'
        closing' ∧
      Statement.AllStand program' (Section.charsAll sections' ++ closing'.chars) ∧
      Section.AllStand sections' closing'.chars ∧ closing'.Stands helper.helper.toList := by
  obtain ⟨-, hprogram, hsections, name, hname, hclosing⟩ := h
  obtain ⟨n, hn, hs⟩ := eq_of_blockUnnegated? hs
  obtain ⟨hcall, -⟩ := eq_of_blockNegated? hn
  obtain rfl := BlockTag.Stands.name_eq hcall hname
  rcases hs with ⟨tilde, lead, trail, after, body, more, -, rfl, rfl⟩ | rfl
  · obtain ⟨htag, hbody, hlast, hmore⟩ := hsections
    obtain rfl : more = [] := hlast _ _ rfl
    have hsection : ∀ ss, textEndAhead (Section.charsAll
        [⟨⟨tilde, lead, .plain trail after⟩, ss⟩] ++ closing.chars) = true := by
      intro ss
      have hahead := htag.ahead_append (Statement.charsAll ss ++ closing.chars)
      simpa [Section.charsAll, Section.chars] using textEndAhead_of_ahead hahead (by decide)
    refine ⟨n, n.helper, _, _, _, hn, rfl, ?_, ⟨htag, ?_, hlast, hmore⟩, hclosing⟩
    · exact hbody.congr (by rfl) closing.textEnd_alone (hsection program)
    · exact hprogram.congr (by rfl) (hsection body) closing.textEnd_alone
  · have hend := closing.textEnd_alone
    have hend' := (closing.withName n.helper.flip.helper.toList).textEnd_alone
    have hsections' := hsections.congr (t := (closing.withName n.helper.flip.helper.toList).chars)
      (by rfl) hend hend'
    refine ⟨n, n.helper.flip, _, _, _, hn, rfl, ?_, hsections', ?_⟩
    · exact hprogram.congr (sections_head (by rfl) sections) (Section.textEnd hsections hend)
        (Section.textEnd hsections' hend')
    · exact ⟨hclosing.1, rfl, hclosing.2.2⟩

/-- A block without its negation stands in the place of the block, unless words are joined. -/
theorem Statement.Stands.unnegated {s s' : Statement} {rest : List Char} (h : s.Stands rest)
    (hs : s.unnegated? = some s') (hj : s.joins = false) : s'.Stands rest := by
  match s, h with
  | .block opening program sections closing, h =>
    obtain ⟨n, helper, program', sections', closing', hn, rfl, hprogram, hsections, hclosing⟩ :=
      h.unnegated_parts hs
    obtain ⟨hcall, -⟩ := eq_of_blockNegated? hn
    have hjoins : opening.joins n = false := by simpa [Statement.joins, hn, hs] using hj
    obtain ⟨hfreed, hcallee⟩ := h.1.freed hcall hjoins helper
    refine ⟨hfreed, hprogram, hsections, helper.helper.toList, ?_, hclosing⟩
    show (opening.call.freed n (helperWord helper)).callee.path? = _
    rw [hcallee]
    cases helper <;> rfl

end Concrete

end TemplateLint
