import TemplateLint.Cursor.Statement
import TemplateLint.Proofs.Cursor.Ahead
import TemplateLint.Proofs.Cursor.Element

namespace TemplateLint.Cursor

open Text (size scanTo startsWith after?)
open Concrete (Token Ahead Result Statement Section BlockTag OpeningTag CloseTag statementsWithin
  sectionsWithin restWithin lastWithin finalWithin chainedWithin blockWithin blockOf elementWithin
  elementOf strayCause tagStartAhead textEndAhead endsContent flagged)

variable {source s : List Char} {n : Nat}

/-- At a tag that closes something the loop ends, or fails at the top. -/
theorem stray_run (h : Left source n s) (context : Context) (found : List Tree.Statement)
    (cause : Concrete.ParseError) :
    runAt source n (if context = .top then (do fail cause (← get)) else return found) =
      if context = .top then failed source ⟨cause, s⟩ else done found n := by
  by_cases htop : context = .top
  · rw [if_pos htop, if_pos htop, runAt_bind_done runAt_get]
    exact fail_run h cause
  · rw [if_neg htop, if_neg htop]
    rfl

/-- The loop does with a construct what its first marks tell. -/
theorem content_run (h : Left source n s) (k : Nat) (context : Context)
    (found : List Tree.Statement) :
    runAt source n (contentWithin (k + 1) context found) = match Ahead.of s with
      | .ending => done found n
      | .text => runAt source n do
        let t ← text
        contentWithin k context (found ++ [.text t])
      | .comment => runAt source n do
        let c ← comment
        contentWithin k context (found ++ [.comment c])
      | .element => runAt source n do
        let e ← element (contentWithin k .element [])
        contentWithin k context (found ++ [.element e])
      | .note => runAt source n do
        let c ← note
        contentWithin k context (found ++ [.mustacheComment c])
      | .mustache => runAt source n do
        let m ← mustache
        contentWithin k context (found ++ [.mustache m])
      | .block => runAt source n do
        let b ← block (contentWithin k .block [])
        contentWithin k context (found ++ [.block b])
      | .closingTag | .elseTag | .closeTag =>
        if context = .top then failed source ⟨strayCause s, s⟩ else done found n := by
  rw [contentWithin, runAt_bind_done (atEnd_run h)]
  have hof := Concrete.ahead_eq s
  by_cases hempty : s.isEmpty = true
  · rw [if_pos hempty] at hof
    rw [hof, if_pos hempty]
    rfl
  rw [if_neg hempty] at hof
  rw [if_neg hempty, runAt_bind_done (isAt_run h _)]
  by_cases hopen : startsWith Token.mustacheOpen.chars s = true
  · rw [if_pos hopen] at hof
    obtain ⟨t, rfl⟩ := Text.startsWith_iff.1 hopen
    replace hof : Ahead.of (Token.mustacheOpen.chars ++ t) = Ahead.inBraces t := hof
    rw [if_pos hopen, runAt_bind_done (inBraces_run h)]
    rcases Concrete.inBraces_cases t with hin | hin | hin | hin | hin
    · rw [hof, hin]
    · rw [hof, hin]
    · rw [strayCause, hof, hin]
      exact stray_run h context found _
    · rw [strayCause, hof, hin]
      exact stray_run h context found _
    · rw [hof, hin]
  rw [if_neg hopen] at hof
  rw [if_neg hopen, runAt_bind_done (isAt_run h _)]
  by_cases hcomment : startsWith Token.commentOpen.chars s = true
  · rw [if_pos hcomment] at hof
    rw [if_pos hcomment, hof]
  rw [if_neg hcomment] at hof
  rw [if_neg hcomment, runAt_bind_done (isAt_run h _)]
  by_cases hclosing : startsWith Token.closingTagOpen.chars s = true
  · rw [if_pos hclosing] at hof
    rw [if_pos hclosing, strayCause, hof]
    exact stray_run h context found _
  rw [if_neg hclosing] at hof
  rw [if_neg hclosing, runAt_bind_done (isAt_run h _)]
  by_cases hstart : tagStartAhead s = true
  · rw [if_pos hstart] at hof
    rw [if_pos hstart, hof]
  · rw [if_neg hstart] at hof
    rw [if_neg hstart, hof]

theorem text_agrees (h : Left source n s) (hs : Ahead.of s = .text) :
    Agrees source n s (runAt source n text) (.ok (scanTo textEndAhead s))
      (fun cs => cs) (fun cs => ⟨String.ofList cs, .over n cs⟩) := by
  cases s with
  | nil => cases hs
  | cons c s =>
    have hstop : textEndAhead (c :: s) = false := by
      rw [textEndAhead, hs]
      rfl
    cases hscan : scanTo textEndAhead s with
    | mk front t =>
      obtain ⟨rfl, -, -⟩ := Text.eq_of_scanTo hscan
      rw [scanTo, hstop, if_neg Bool.false_ne_true, hscan]
      have h' : Left source n (c :: front ++ t) := h
      have hrun := bumpTo_run h.next ((Concrete.scanTo_textBoundaryAhead _).trans hscan)
      rw [text, runAt_bind_done runAt_get, runAt_bind_done (bump_cons h), runAt_bind_done hrun,
        runAt_bind_done runAt_get, Nat.add_assoc, ← Text.size_cons, runAt_bind_done (slice_run h' _)]
      exact .ok rfl rfl

theorem closingTag_agrees (tag : List Char) {start : Nat} {s₀ : List Char}
    (h₀ : Left source start s₀) (h : Left source n s) :
    Agrees source n s (runAt source n (closingTag tag start)) (Concrete.readClosingTag tag s₀ s)
      (fun closing => Token.closingTagOpen.chars ++ closing ++ ['>'])
      (fun closing => .over n (Token.closingTagOpen.chars ++ closing ++ ['>'])) := by
  rw [closingTag, runAt_bind_done runAt_get, runAt_bind_done (isAt_run h _), Concrete.readClosingTag,
    startsWith]
  cases ha : after? Token.closingTagOpen.chars s with
  | none =>
    exact .fail h₀ _
  | some s₁ =>
    obtain rfl := Text.after?_eq_some_iff.1 ha
    have h₁ := h.drop
    simp only [Option.isSome_some, if_true]
    rw [runAt_bind_done (expect_run h), runAt_bind_done (rest_run h₁)]
    rcases find?_cases ['>'] s₁ with
      ⟨front, hscan, hfind⟩ | ⟨closing, t, rfl, hscan, hfind⟩
    · simp only [hscan, hfind]
      exact .fail h₀ _
    · simp only [hscan, hfind, Text.after?_append]
      rw [runAt_bind_done (rest_run h₁), runAt_bind_done (front_run _ _ _)]
      by_cases htrim : Text.trim closing ≠ tag
      · rw [if_pos htrim, if_pos htrim]
        exact .fail h _
      rw [if_neg htrim, if_neg htrim]
      have hstop : n + size Token.closingTagOpen.chars + (size closing + 1) =
          n + size (Token.closingTagOpen.chars ++ closing ++ ['>']) := by
        have hmark : size ['>'] = 1 := rfl
        simp only [Text.size_append, hmark, Nat.add_assoc]
      have hnext : Left source (n + size (Token.closingTagOpen.chars ++ closing ++ ['>'])) t := by
        refine Left.drop ?_
        simpa using h
      rw [runAt_bind_done runAt_get, hstop, runAt_bind_done (goto_run hnext),
        runAt_bind_done runAt_get]
      exact .ok (by simp) rfl

/-- What a context makes of the place where a list of statements ends: at the top it has to be the end
of the text. -/
def settled (context : Context) (p : List Statement × List Char) :
    Result (List Statement × List Char) :=
  if context = .top ∧ p.2 ≠ [] then .error ⟨strayCause p.2, p.2⟩ else .ok p

theorem settled_cons (context : Context) (st : Statement) (r : Result (List Statement × List Char)) :
    ((do
      let (more, s) ← r
      .ok (st :: more, s)) >>= settled context) =
        (r >>= settled context) >>= fun p => .ok (st :: p.1, p.2) := by
  cases r with
  | error f => rfl
  | ok p =>
    change settled context (st :: p.1, p.2) = settled context p >>= _
    by_cases hp : context = .top ∧ p.2 ≠ []
    · rw [settled, settled, if_pos hp, if_pos hp]
      rfl
    · rw [settled, settled, if_neg hp, if_neg hp]
      rfl

/-- In texts of at most `m` characters the loop over content, with more rounds than that, reads
statements as they are written. -/
def StatementsAgree (source : List Char) (m : Nat) : Prop :=
  ∀ k n s, m < k → s.length ≤ m → Left source n s → ∀ context found,
    Agrees source n s (runAt source n (contentWithin k context found))
      (statementsWithin m s >>= settled context) Statement.charsAll
      (fun ss => found ++ Statement.atAll n ss)

/-- The cursor reads a construct, then the statements behind it. What the context makes of the end
does not depend on the construct. -/
theorem content_cons {γ δ : Type} {m k : Nat} (ih : StatementsAgree source m) (hk : m < k)
    (hm : s.length ≤ m + 1) (h : Left source n s) {routine : Cursor δ} (wrap : δ → Tree.Statement)
    {r : Result (γ × List Char)} (stm : γ → Statement) {out : γ → δ}
    (hone : Agrees source n s (runAt source n routine) r (fun c => (stm c).chars) out)
    (hout : ∀ c, wrap (out c) = (stm c).at n)
    (hne : ∀ c rest, r = .ok (c, rest) → (stm c).chars ≠ []) (context : Context)
    (found : List Tree.Statement) :
    Agrees source n s (runAt source n do
        let x ← routine
        contentWithin k context (found ++ [wrap x]))
      ((do
        let (c, s) ← r
        let (more, s) ← statementsWithin m s
        .ok (stm c :: more, s)) >>= settled context)
      Statement.charsAll (fun ss => found ++ Statement.atAll n ss) := by
  rw [bind_assoc]
  refine hone.bind h fun c rest hok hs h' => ?_
  have hlength : rest.length ≤ m := by
    refine Concrete.length_of_append (hne c rest hok) ?_
    rw [← hs]
    exact hm
  rw [show ((statementsWithin m rest >>= _) >>= settled context) =
    (statementsWithin m rest >>= settled context) >>= fun p => .ok (stm c :: p.1, p.2) from
      settled_cons ..]
  refine (ih _ _ _ hk hlength h' context (found ++ [wrap (out c)])).last
    fun more rest' _ hmore => ?_
  refine .ok (by rw [hs, hmore]; simp [Statement.charsAll]) ?_
  simp [Statement.charsAll, Statement.atAll, Statement.width_eq, hout, Nat.add_assoc]

/-- In texts of at most `m` characters the routine reads what a construct holds as it is written. -/
def ContentAgrees (source : List Char) (m : Nat) (content : Cursor (List Tree.Statement)) : Prop :=
  ∀ bound n s, bound ≤ m → s.length ≤ bound → Left source n s →
    Agrees source n s (runAt source n content) (statementsWithin bound s) Statement.charsAll
      (Statement.atAll n)

theorem contentAgrees_of {m k : Nat} (ih : ∀ bound ≤ m, StatementsAgree source bound) (hk : m < k)
    {context : Context} (hcontext : context ≠ .top) :
    ContentAgrees source m (contentWithin k context []) := by
  intro bound n s hbound hs h
  have hread := ih bound hbound k n s (Nat.lt_of_le_of_lt hbound hk) hs h context []
  have hsettled : statementsWithin bound s >>= settled context = statementsWithin bound s := by
    cases statementsWithin bound s with
    | error f => rfl
    | ok p => exact if_neg fun hp => hcontext hp.1
  rw [hsettled] at hread
  exact hread

/-- What follows the opening tag of a block, as it is written, and as it is in the tree when it starts
at `k`. -/
def restChars : List Statement × List Section × CloseTag → List Char
  | (program, sections, closing) =>
    Statement.charsAll program ++ (Section.charsAll sections ++ closing.chars)

def restAt (k : Nat) : List Statement × List Section × CloseTag →
    Tree.Body × Tree.ElsePart × Tree.CloseTag
  | (program, sections, closing) =>
    let programEnd := k + Statement.widthAll program
    (⟨Statement.atAll k program, ⟨k, programEnd⟩⟩, Section.atAll programEnd sections,
      closing.at (programEnd + Section.widthAll sections))

/-- In texts of at most `m` characters, and fewer than `k`, the routine reads what follows the opening
tag of the block `name`, whose opening starts `s₀`. -/
def RestAgrees (source name s₀ : List Char) (m k : Nat)
    (rest : Cursor (Tree.Body × Tree.ElsePart × Tree.CloseTag)) : Prop :=
  ∀ n s, s.length ≤ m → s.length < k → Left source n s →
    Agrees source n s (runAt source n rest) (restWithin name s₀ m s) restChars (restAt n)

section Rest

variable {content : Cursor (List Tree.Statement)} {m : Nat}

theorem body_agrees {bound : Nat} (hcontent : ContentAgrees source m content) (hbound : bound ≤ m)
    (hs : s.length ≤ bound) (h : Left source n s) :
    Agrees source n s (runAt source n (body content)) (statementsWithin bound s) Statement.charsAll
      (fun ss => ⟨Statement.atAll n ss, ⟨n, n + Statement.widthAll ss⟩⟩) := by
  rw [body, runAt_bind_done runAt_get, ← bind_pure (statementsWithin bound s)]
  refine (hcontent _ _ _ hbound hs h).bind h fun ss rest _ hs _ => ?_
  rw [runAt_bind_done runAt_get]
  refine .ok hs ?_
  rw [runAt_pure, Statement.widthAll_eq]

variable (name : List Char) {opener start k : Nat} {s₀ : List Char}

theorem lastClose_agrees (hm : s.length ≤ m) (hends : endsContent s) (h₀ : Left source opener s₀)
    (h : Left source n s) :
    Agrees source n s (runAt source n (lastClose name opener)) (lastWithin name s₀ m s)
      (fun p => Section.charsAll p.1 ++ p.2.chars)
      (fun p => p.2.at (n + Section.widthAll p.1)) := by
  rw [lastClose, runAt_bind_done (isAt_run h _), lastWithin]
  rcases Concrete.endsContent_cases hends with ⟨hopen, hs⟩ | ⟨t, rfl, hin⟩ | ⟨t, rfl, hin⟩
  · rw [hopen, if_neg Bool.false_ne_true, Concrete.sectionsWithin_unclosed hs]
    rcases hs with hs | hs <;> rw [hs] <;> exact .fail h₀ _
  · rw [Text.startsWith_append, if_pos rfl, runAt_bind_done (inBraces_run h), hin,
      if_neg (by simp), runAt_bind_done runAt_get,
      show Ahead.of (Token.mustacheOpen.chars ++ t) = .elseTag from hin]
    exact .fail h _
  · have hs : Ahead.of (Token.mustacheOpen.chars ++ t) = .closeTag := hin
    rw [Text.startsWith_append, if_pos rfl, runAt_bind_done (inBraces_run h), hin, if_pos rfl, hs,
      Concrete.sectionsWithin_close hm hs]
    exact (closeTag_agrees name h).last fun closing rest _ hclosing => .ok hclosing rfl

theorem finalElse_agrees {bound : Nat} (hcontent : ContentAgrees source m content)
    (hbound : bound ≤ m) (hm : s.length ≤ bound) (h₀ : Left source opener s₀)
    (h : Left source n s) :
    Agrees source n s (runAt source n (finalElse content name opener start))
      (finalWithin name s₀ bound s)
      (fun p => flagged p.1 ['~'] ++ (Token.mustacheClose.chars ++ restChars p.2))
      (fun p =>
        let stop := n + size (flagged p.1 ['~'] ++ Token.mustacheClose.chars)
        (.final ⟨start, stop⟩ (restAt stop p.2).1, (restAt stop p.2).2.2)) := by
  unfold finalWithin
  obtain ⟨tilde, s₁, htilde, rfl, hrun, h₁⟩ := eat_flag h '~'
  rw [finalElse, runAt_bind_done hrun]
  simp only [htilde]
  refine .expect h₁ fun s₂ hs₂ h₂ => ?_
  rw [runAt_bind_done runAt_get]
  have hm₂ : s₂.length ≤ bound := by
    rw [hs₂] at hm
    simp only [List.length_append] at hm
    omega
  refine (body_agrees hcontent hbound hm₂ h₂).bind h₂ fun last s₃ hok hlast h₃ => ?_
  have hm₃ : s₃.length ≤ bound := by
    rw [hlast, List.length_append] at hm₂
    omega
  have hends := Concrete.ends_of_statementsWithin hm₂ hok
  refine (lastClose_agrees name hm₃ hends h₀ h₃).bind h₃ fun p s₄ _ hp _ => ?_
  obtain ⟨more, closing⟩ := p
  refine .ok (by rw [hs₂, hlast, hp]; simp [restChars]) ?_
  simp [runAt_pure, restAt, restChars, Statement.widthAll_eq, Nat.add_assoc]

/-- The tree of a segment whose tag starts at `start` and whose helper starts at `k`. -/
def chainedAt (start k : Nat) : Concrete.Expr × (List Concrete.Arg × List Char) × Concrete.TagEnd ×
    List Statement × List Section × CloseTag → Tree.ElsePart × Tree.CloseTag
  | (callee, args, ending, p) =>
    let argsStart := k + size callee.chars
    let openStop := argsStart + size (Concrete.Arg.charsAll args.1 ++ args.2 ++ ending.chars)
    let (program, inverse, close) := restAt openStop p
    let segment : Tree.Block := {
      call := ⟨callee.at k, Concrete.Arg.paramsAt argsStart args.1,
        Concrete.Arg.hashAt argsStart args.1⟩
      blockParams := ending.bound
      openSpan := ⟨start, openStop⟩
      program := program
      inverse := inverse
      close := none
      span := ⟨start, close.span.start⟩ }
    (.chained segment, close)

theorem chainedElse_agrees {rest : Cursor (Tree.Body × Tree.ElsePart × Tree.CloseTag)}
    (hrest : RestAgrees source name s₀ m k rest) (hm : s.length ≤ m) (hk : s.length < k)
    (h : Left source n s) :
    Agrees source n s (runAt source n (chainedElse rest start)) (chainedWithin name s₀ m s)
      (fun (callee, args, ending, p) =>
        callee.chars ++ (Concrete.Arg.charsAll args.1 ++ args.2 ++ (ending.chars ++ restChars p)))
      (chainedAt start n) := by
  rw [chainedElse, chainedWithin]
  refine (expr_agrees h).bind h fun callee s₁ _ hcallee h₁ => ?_
  refine (args_agrees h₁ true).bind h₁ fun args s₂ hok hargs h₂ => ?_
  obtain ⟨-, -, -, hend⟩ := Concrete.Arg.eq_of_readAll hok
  have hblank := Concrete.opens_isBlank_of_argsEndAhead hend
  refine (tagEnd_agrees h₂ hblank).bind h₂ fun ending s₃ _ hending h₃ => ?_
  rw [runAt_bind_done runAt_get]
  have hlength : s₃.length ≤ s.length := by
    rw [hcallee, hargs, hending]
    simp only [List.length_append]
    omega
  refine (hrest _ _ (by omega) (by omega) h₃).bind h₃ fun p s₄ _ hp _ => ?_
  refine .ok (by rw [hcallee, hargs, hending, hp]; simp) ?_
  simp [runAt_pure, chainedAt, Nat.add_assoc]

theorem elseRest_agrees {bound : Nat} {rest : Cursor (Tree.Body × Tree.ElsePart × Tree.CloseTag)}
    (hcontent : ContentAgrees source m content) (hbound : bound ≤ m)
    (hrest : RestAgrees source name s₀ bound k rest) (hm : s.length ≤ bound + 1)
    (hk : s.length < k + 1) (hs : Ahead.of s = .elseTag) (h₀ : Left source opener s₀)
    (h : Left source n s) :
    Agrees source n s (runAt source n (elseRest content rest name opener))
      (sectionsWithin name s₀ (bound + 1) s) (fun p => Section.charsAll p.1 ++ p.2.chars)
      (fun p => (Section.atAll n p.1, p.2.at (n + Section.widthAll p.1))) := by
  rw [elseRest, runAt_bind_done runAt_get, Concrete.sectionsWithin_else hs]
  refine .expect h fun s₁ hs₁ h₁ => ?_
  obtain ⟨tilde, s₂, htilde, rfl, hrun, h₂⟩ := eat_flag h₁ '~'
  rw [runAt_bind_done hrun]
  simp only [htilde]
  obtain ⟨lead, s₃, hr, rfl, hrun, h₃⟩ := skipBlanks_lead h₂
  rw [runAt_bind_done hrun]
  simp only [hr]
  refine .expect h₃ fun s₄ hs₄ h₄ => ?_
  obtain ⟨gap, s₅, hr, rfl, hrun, h₅⟩ := skipBlanks_lead h₄
  rw [runAt_bind_done hrun, runAt_bind_done (isAt_run h₅ _)]
  simp only [hr]
  have hlength : s₅.length < s.length := by
    rw [hs₁, hs₄]
    simp only [Token.chars, List.length_append, List.length_cons]
    omega
  by_cases hplain : Concrete.tagEndAhead s₅ = true
  · rw [if_pos hplain, if_pos hplain]
    refine (finalElse_agrees name hcontent hbound (by omega) h₀ h₅).last fun p s₆ _ hp => ?_
    obtain ⟨after, body, more, closing⟩ := p
    refine .ok (by rw [hs₁, hs₄, hp]; simp [Section.charsAll, Section.chars, Concrete.ElseTag.chars,
      Concrete.ElseTail.chars, restChars]) ?_
    simp [restAt, restChars, Section.atAll, Section.charsAll, Section.chars, Section.widthAll,
      Section.width, Section.widthAll_eq, Statement.widthAll_eq, Concrete.ElseTag.chars,
      Concrete.ElseTail.chars, Span.over, Nat.add_assoc]
  · rw [if_neg hplain, if_neg hplain]
    refine (chainedElse_agrees name hrest (by omega) (by omega) h₅).last fun p s₆ _ hp => ?_
    obtain ⟨callee, args, ending, body, more, closing⟩ := p
    refine .ok (by rw [hs₁, hs₄, hp]; simp [Section.charsAll, Section.chars, Concrete.ElseTag.chars,
      Concrete.ElseTail.chars, Concrete.Call.chars, restChars]) ?_
    simp [chainedAt, restAt, restChars, Section.atAll, Section.charsAll, Section.chars,
      Section.widthAll, Section.width, Section.widthAll_eq, Statement.widthAll_eq,
      Concrete.ElseTag.chars, Concrete.ElseTag.tailOffset, Concrete.ElseTail.chars,
      Concrete.Call.at, Concrete.Call.chars, Concrete.CloseTag.at, Concrete.Expr.width_eq,
      Span.over, Nat.add_assoc]

/-- The bound is the one on the text that is left: every segment takes one off it, and a round. -/
theorem blockRest_agrees {bound : Nat} (hcontent : ContentAgrees source m content)
    (hbound : bound ≤ m) (h₀ : Left source opener s₀) :
    RestAgrees source name s₀ bound k (blockRestWith content name opener k) := by
  induction bound generalizing k with
  | zero =>
    intro n s hm hk h
    obtain ⟨k, rfl⟩ := Nat.exists_eq_add_one_of_ne_zero (Nat.ne_zero_of_lt hk)
    obtain rfl := List.length_eq_zero_iff.1 (Nat.le_zero.1 hm)
    rw [blockRestWith, restWithin]
    refine (body_agrees hcontent hbound hm h).bind h fun program s₁ hok _ h₁ => ?_
    cases hok
    rw [runAt_bind_done (isAt_run h₁ _)]
    exact .fail h₀ _
  | succ bound ih =>
    intro n s hm hk h
    obtain ⟨k, rfl⟩ := Nat.exists_eq_add_one_of_ne_zero (Nat.ne_zero_of_lt hk)
    rw [blockRestWith, restWithin]
    refine (body_agrees hcontent hbound hm h).bind h fun program s₁ hok hs h₁ => ?_
    have hlength : s₁.length ≤ s.length := by
      rw [hs, List.length_append]
      exact Nat.le_add_left _ _
    rw [runAt_bind_done (isAt_run h₁ _)]
    dsimp only
    rcases Concrete.endsContent_cases (Concrete.ends_of_statementsWithin hm hok) with
      ⟨hopen, hends⟩ | ⟨t, rfl, hin⟩ | ⟨t, rfl, hin⟩
    · rw [hopen, if_neg Bool.false_ne_true, Concrete.sectionsWithin_unclosed hends]
      exact .fail h₀ _
    · rw [Text.startsWith_append, if_pos rfl, runAt_bind_done (inBraces_run h₁), hin,
        if_neg (by simp)]
      have helse : Ahead.of (Token.mustacheOpen.chars ++ t) = .elseTag := hin
      refine (elseRest_agrees name hcontent (Nat.le_of_succ_le hbound)
        (ih (Nat.le_of_succ_le hbound)) (by omega) (by omega) helse h₀ h₁).bind h₁
          fun p s₂ _ hp _ => ?_
      obtain ⟨sections, closing⟩ := p
      refine .ok (by rw [hs, hp]; simp [restChars]) ?_
      simp [runAt_pure, restAt, restChars, Statement.widthAll_eq, Nat.add_assoc]
    · have hclose : Ahead.of (Token.mustacheOpen.chars ++ t) = .closeTag := hin
      rw [Text.startsWith_append, if_pos rfl, runAt_bind_done (inBraces_run h₁), hin, if_pos rfl,
        Concrete.sectionsWithin_close (by omega) hclose, bind_assoc]
      refine (closeTag_agrees name h₁).bind h₁ fun closing s₂ _ hclosing _ => ?_
      refine .ok (by rw [hs, hclosing]; simp [restChars, Section.charsAll]) ?_
      simp [runAt_pure, restAt, restChars, Section.atAll, Section.charsAll, Section.widthAll,
        Statement.widthAll_eq, Nat.add_assoc]

end Rest

section Constructs

variable {content : Cursor (List Tree.Statement)} {m : Nat}

theorem block_agrees (hcontent : ContentAgrees source m content) (hm : s.length ≤ m + 1)
    (h : Left source n s) :
    Agrees source n s (runAt source n (block content)) (blockWithin m s)
      (fun c => (blockOf c).chars)
      (fun c => Concrete.blockAt n c.1 c.2.1 c.2.2.1 c.2.2.2) := by
  unfold blockWithin BlockTag.read
  rw [block, runAt_bind_done runAt_get, bind_assoc]
  refine .expect h fun s₁ hs₁ h₁ => ?_
  obtain ⟨tilde, s₂, htilde, rfl, hrun, h₂⟩ := eat_flag h₁ '~'
  rw [runAt_bind_done hrun]
  simp only [htilde]
  rw [bind_assoc]
  refine .expect h₂ fun s₃ hs₃ h₃ => ?_
  obtain ⟨lead, s₄, hr, rfl, hrun, h₄⟩ := skipBlanks_lead h₃
  rw [runAt_bind_done hrun]
  simp only [hr]
  rw [bind_assoc]
  refine (expr_agrees h₄).bind h₄ fun callee s₅ _ hcallee h₅ => ?_
  dsimp only
  cases hname : callee.path? with
  | none =>
    rw [Concrete.Expr.at_path?, hname, Concrete.Expr.at_start]
    exact .fail h₄ _
  | some name =>
    rw [Concrete.Expr.at_path?, hname]
    dsimp only [Option.map_some]
    rw [bind_assoc, String.toList_ofList]
    refine (args_agrees h₅ true).bind h₅ fun p s₆ hok hp h₆ => ?_
    obtain ⟨-, -, -, hend⟩ := Concrete.Arg.eq_of_readAll hok
    have hblank := Concrete.opens_isBlank_of_argsEndAhead hend
    dsimp only
    rw [bind_assoc]
    refine (tagEnd_agrees h₆ hblank).bind h₆ fun ending s₇ _ hending h₇ => ?_
    rw [runAt_bind_done runAt_get, runAt_rounds]
    have hm₇ : s₇.length ≤ m := by
      rw [hs₁, hs₃, hcallee, hp, hending] at hm
      simp only [Token.chars, List.length_append, List.length_cons] at hm
      omega
    refine (blockRest_agrees name hcontent (Nat.le_refl m) h _ _ hm₇
      h₇.length_lt h₇).bind h₇ fun q s₈ _ hq _ => ?_
    obtain ⟨program, sections, closing⟩ := q
    refine .ok ?_ ?_
    · rw [hs₁, hs₃, hcallee, hp, hending, hq]
      simp [blockOf, restChars, Statement.chars, BlockTag.chars, Concrete.Call.chars]
    · simp [runAt_pure, restAt, restChars, Concrete.blockAt, Concrete.CloseTag.at, blockOf,
        Statement.chars, BlockTag.chars, BlockTag.callOffset, Concrete.Call.at, Concrete.Call.chars,
        Concrete.Expr.width_eq, Statement.widthAll_eq, Section.widthAll_eq, Span.over, Nat.add_assoc]

def elementAt (k : Nat) : OpeningTag × Option (List Statement × List Char) → Tree.Element
  | (opening, none) => opening.at k
  | (opening, some (children, closing)) =>
    let childrenStart := k + size opening.chars
    let childrenEnd := childrenStart + Statement.widthAll children
    let stop := childrenEnd + size (Token.closingTagOpen.chars ++ closing ++ ['>'])
    { opening.at k with
      children := Statement.atAll childrenStart children
      closeSpan := some ⟨childrenEnd, stop⟩
      span := ⟨k, stop⟩ }

theorem elementOf_at (k : Nat) (c : OpeningTag × Option (List Statement × List Char)) :
    Tree.Statement.element (elementAt k c) = (elementOf c).at k := by
  rcases c with ⟨opening, _ | ⟨children, closing⟩⟩
  · rw [elementOf, Statement.at, elementAt]
  · rw [elementOf, Statement.at, elementAt]

theorem element_agrees (hcontent : ContentAgrees source m content) (hm : s.length ≤ m + 1)
    (h : Left source n s) :
    Agrees source n s (runAt source n (element content)) (elementWithin m s)
      (fun c => (elementOf c).chars) (elementAt n) := by
  unfold elementWithin
  rw [element, runAt_bind_done runAt_get]
  refine (openingTag_agrees h).bind h fun opening rest _ hs h₁ => ?_
  have hrest : rest.length ≤ m := by
    refine Concrete.length_of_append ?_ (hs ▸ hm)
    simp [OpeningTag.chars, Token.chars]
  rw [show ((opening.at n).selfClosing || decide ((opening.at n).tag ∈ Concrete.voidElements)) =
    opening.isWhole from rfl]
  dsimp only
  by_cases hwhole : opening.isWhole = true
  · rw [if_pos hwhole, if_pos hwhole]
    exact .ok hs rfl
  rw [if_neg hwhole, if_neg hwhole]
  refine (hcontent _ _ _ (Nat.le_refl m) hrest h₁).bind h₁ fun children rest₂ _ hchildren h₂ => ?_
  rw [show (opening.at n).tag.toList = opening.name from String.toList_ofList]
  dsimp only
  refine (closingTag_agrees opening.name h h₂).bind h₂ fun closing rest₃ _ hclosing _ => ?_
  refine .ok (by rw [hs, hchildren, hclosing]; simp [elementOf, Statement.chars]) ?_
  simp [runAt_pure, elementAt, elementOf, Statement.chars, Statement.widthAll_eq, Span.over,
    Nat.add_assoc]

end Constructs

theorem ending_agrees (context : Context) (found : List Tree.Statement) :
    Agrees source n [] (done found n) (Except.ok ([], []) >>= settled context) Statement.charsAll
      (fun ss => found ++ Statement.atAll n ss) := by
  change Agrees source n [] (done found n) (settled context ([], [])) _ _
  rw [settled, if_neg fun hp => hp.2 rfl]
  exact .ok rfl (by simp [Statement.atAll, Statement.charsAll])

theorem ends_agrees (h : Left source n s) (hs : s ≠ []) (context : Context)
    (found : List Tree.Statement) :
    Agrees source n s (if context = .top then failed source ⟨strayCause s, s⟩ else done found n)
      (Except.ok ([], s) >>= settled context) Statement.charsAll
      (fun ss => found ++ Statement.atAll n ss) := by
  change Agrees source n s _ (settled context ([], s)) _ _
  by_cases htop : context = .top
  · rw [if_pos htop, settled, if_pos ⟨htop, hs⟩]
    exact ⟨rfl, n, h⟩
  · rw [if_neg htop, settled, if_neg fun hp => htop hp.1]
    exact .ok rfl (by simp [Statement.atAll, Statement.charsAll])

theorem statementsAgree_succ {m : Nat} (ih : ∀ bound ≤ m, StatementsAgree source bound) :
    StatementsAgree source (m + 1) := by
  intro k n s hk hm h context found
  obtain ⟨k, rfl⟩ := Nat.exists_eq_add_one_of_ne_zero (Nat.ne_zero_of_lt hk)
  replace hk : m < k := Nat.lt_of_succ_lt_succ hk
  have hmore := ih m (Nat.le_refl m)
  rw [content_run h]
  have hends : Ahead.of s = .ending ∨ s ≠ [] := by
    cases s with
    | nil => exact .inl rfl
    | cons c s => exact .inr (List.cons_ne_nil c s)
  cases hs : Ahead.of s with
  | ending =>
    obtain rfl := Concrete.ahead_ending hs
    rw [statementsWithin, hs]
    exact ending_agrees context found
  | closingTag | elseTag | closeTag =>
    rw [statementsWithin, hs]
    rw [hs] at hends
    exact ends_agrees h (hends.resolve_left (by simp)) context found
  | text =>
    rw [statementsWithin, hs]
    exact content_cons hmore hk hm h .text .text (text_agrees h hs) (fun _ => rfl)
      (fun _ _ hr => Concrete.ne_nil_of_text hs (Except.ok.inj hr)) context found
  | comment =>
    rw [statementsWithin, hs]
    exact content_cons hmore hk hm h .comment .comment (comment_agrees h) (fun _ => rfl)
      (fun _ _ _ => by simp [Statement.chars, Token.chars]) context found
  | note =>
    rw [statementsWithin, hs]
    exact content_cons hmore hk hm h .mustacheComment .note (note_agrees h) (fun _ => rfl)
      (fun _ _ _ => by simp [Statement.chars, Concrete.Note.chars, Token.chars]) context found
  | mustache =>
    rw [statementsWithin, hs]
    exact content_cons hmore hk hm h .mustache .mustache (mustache_agrees h) (fun _ => rfl)
      (fun _ _ _ => by simp [Statement.chars, Concrete.Mustache.chars, Token.chars]) context found
  | block =>
    rw [Concrete.statementsWithin_cons_block hs]
    exact content_cons hmore hk hm h .block blockOf
      (block_agrees (contentAgrees_of ih hk (by simp)) hm h) (fun _ => (Statement.at_block ..).symm)
      (fun _ _ _ => by simp [blockOf, Statement.chars, BlockTag.chars, Token.chars]) context found
  | element =>
    rw [Concrete.statementsWithin_cons_element hs]
    exact content_cons hmore hk hm h .element elementOf
      (element_agrees (contentAgrees_of ih hk (by simp)) hm h) (elementOf_at n)
      (fun c _ _ => Concrete.elementOf_ne_nil c) context found

/-- The bound is the one on the text that is left: what a list of statements holds, and each statement
behind its first, is read with a smaller one. -/
theorem statementsAgree (source : List Char) (m : Nat) : StatementsAgree source m := by
  induction m using Nat.strongRecOn with
  | ind m ih =>
    cases m with
    | zero =>
      intro k n s hk hm h context found
      obtain ⟨k, rfl⟩ := Nat.exists_eq_add_one_of_ne_zero (Nat.ne_zero_of_lt hk)
      obtain rfl := List.length_eq_zero_iff.1 (Nat.le_zero.1 hm)
      rw [content_run h]
      exact ending_agrees context found
    | succ m => exact statementsAgree_succ fun bound hbound => ih bound (Nat.lt_succ_of_le hbound)

theorem readAll_eq (s : List Char) :
    Statement.readAll s = (statementsWithin s.length s >>= settled .top) >>= fun p => .ok p.1 := by
  rw [Statement.readAll, bind_assoc]
  refine congrArg (statementsWithin s.length s >>= ·) (funext fun p => ?_)
  obtain ⟨ss, rest⟩ := p
  cases rest with
  | nil =>
    rw [settled, if_neg fun hp => hp.2 rfl]
    rfl
  | cons c rest =>
    rw [settled, if_pos ⟨rfl, List.cons_ne_nil c rest⟩]
    rfl

theorem settled_top {p q : List Statement × List Char} (h : settled .top p = .ok q) : q.2 = [] := by
  rw [settled] at h
  split at h
  · cases h
  · next hp =>
    cases h
    simpa using hp

/-- The place of a failure is in a line of its text, or at the end of one. -/
theorem Left.inText_within {f : Concrete.Failure} (h : ∃ k, Left source k f.rest) :
    1 ≤ (f.inText source).position.line ∧
      (f.inText source).position.line ≤ Text.lineCount source ∧
      ∃ line, (source.splitOn '\n')[(f.inText source).position.line - 1]? = some line ∧
        (f.inText source).position.column ≤ line.length := by
  obtain ⟨k, u, hsource, -⟩ := h
  have hplace : (f.inText source).position = Text.positionAt (size u) (u ++ f.rest) := by
    rw [Concrete.Failure.inText, hsource, Text.size_append, Nat.add_sub_cancel]
  rw [hplace, hsource]
  exact Text.positionAt_within u f.rest

/-- Along the bytes of a source the cursor finds the tree that the source is read as, or the error of
that reading. So no step on the way is a fault, and no loop takes all its rounds. The place of an error
is in a line of the source, or at the end of one. -/
theorem parse_eq (source : String) :
    parse source = (Tree.Template.parse source).mapError .failure ∧
      ∀ e, Tree.Template.parse source = .error e →
        1 ≤ e.position.line ∧ e.position.line ≤ Text.lineCount source.toList ∧
          ∃ line, (source.toList.splitOn '\n')[e.position.line - 1]? = some line ∧
            e.position.column ≤ line.length := by
  have hread := statementsAgree source.toList source.toList.length (source.toList.length + 1) 0
    source.toList (Nat.lt_succ_self _) (Nat.le_refl _) (Left.start _) .top []
  rw [parse, template, runAt_rounds, runAt_bind, Tree.Template.parse, readAll_eq]
  cases hr : statementsWithin source.toList.length source.toList >>= settled .top with
  | error f =>
    rw [hr] at hread
    obtain ⟨hrun, hplace⟩ := hread
    rw [hrun]
    refine ⟨rfl, fun e he => ?_⟩
    cases he
    exact Left.inText_within hplace
  | ok p =>
    obtain ⟨ss, rest⟩ := p
    obtain ⟨q, -, hq⟩ := Concrete.bind_eq_ok.1 hr
    obtain rfl : rest = [] := settled_top hq
    rw [hr] at hread
    obtain ⟨hs, hrun⟩ := hread
    rw [hrun]
    refine ⟨?_, fun e he => ?_⟩
    · have hwidth : size source.toList = Statement.widthAll ss := by
        rw [Statement.widthAll_eq, hs, List.append_nil]
      simp only [List.nil_append, done]
      rw [runAt_bind_done runAt_read, hwidth]
      rfl
    · cases he

/-- The source ends in a mustache, behind letters of two bytes. -/
theorem parse_eq_unclosed :
    parse "ü\n<i>\x7b\x7bé ö" = .error (.failure ⟨.unclosedExpression, ⟨2, 8⟩⟩) ∧
      ∃ line, ("ü\n<i>\x7b\x7bé ö".toList.splitOn '\n')[1]? = some line ∧ 8 ≤ line.length := by
  have herror : Tree.Template.parse "ü\n<i>\x7b\x7bé ö" =
      .error ⟨.unclosedExpression, ⟨2, 8⟩⟩ := by rfl
  obtain ⟨hparse, hplace⟩ := parse_eq "ü\n<i>\x7b\x7bé ö"
  rw [herror] at hparse
  exact ⟨hparse, (hplace _ herror).2.2⟩

end TemplateLint.Cursor
