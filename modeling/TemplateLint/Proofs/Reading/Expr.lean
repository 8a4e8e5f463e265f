import TemplateLint.Concrete.Read.Expr
import TemplateLint.Proofs.Text.Scan

namespace TemplateLint.Concrete

open Text (isBlank after? eat run startsWith opens AllBlank)

theorem bind_eq_ok {α β : Type} {x : Result α} {f : α → Result β} {b : β} :
    (x >>= f) = .ok b ↔ ∃ a, x = .ok a ∧ f a = .ok b := by
  constructor
  · intro h
    cases x with
    | error e => cases h
    | ok a => exact ⟨a, rfl, h⟩
  · rintro ⟨a, rfl, h⟩
    exact h

@[simp] theorem ok_bind {α β : Type} (a : α) (f : α → Result β) :
    ((Except.ok a : Result α) >>= f) = f a := rfl

@[simp] theorem expect_append (t : Token) (s : List Char) :
    expect t (t.chars ++ s) = .ok s := by
  simp [expect]

theorem eq_of_expect {t : Token} {s rest : List Char} (h : expect t s = .ok rest) :
    s = t.chars ++ rest := by
  unfold expect at h
  split at h
  · next ha =>
    cases h
    exact Text.after?_eq_some_iff.1 ha
  · cases h

/-- A run of characters that reads as one word. -/
def IsWord (w : List Char) : Prop := w ≠ [] ∧ ∀ c ∈ w, isWordChar c = true

theorem isWord_asWord : IsWord Token.asWord.chars :=
  ⟨List.cons_ne_nil _ _, List.all_eq_true.1 (by decide)⟩

theorem isWord_elseWord : IsWord Token.elseWord.chars :=
  ⟨List.cons_ne_nil _ _, List.all_eq_true.1 (by decide)⟩

def IsQuote (c : Char) : Prop := c = '"' ∨ c = '\''

/-- The text of a string that goes up to the first mark without a backslash before it. -/
def Closes (mark : Char) : List Char → Prop
  | [] => True
  | '\\' :: [] => False
  | '\\' :: _ :: s => Closes mark s
  | c :: s => c ≠ mark ∧ Closes mark s

theorem closes_cons {mark c : Char} (hc : c ≠ '\\') (s : List Char) :
    Closes mark (c :: s) ↔ c ≠ mark ∧ Closes mark s := by
  rw [Closes]
  · rintro rfl
    exact absurd rfl hc
  · rintro d t rfl
    exact absurd rfl hc

theorem unescape_cons {c : Char} (hc : c ≠ '\\') (cs : List Char) :
    unescape (c :: cs) = c :: unescape cs := by
  rw [unescape]
  · rintro d t rfl
    exact absurd rfl hc
  · rintro rfl
    exact absurd rfl hc

theorem IsQuote.ne_backslash {mark : Char} (h : IsQuote mark) : mark ≠ '\\' := by
  rcases h with rfl | rfl <;> decide

theorem quotedRaw_eq {mark : Char} (hm : IsQuote mark) {raw : List Char} (h : Closes mark raw)
    (rest : List Char) : quotedRaw mark (raw ++ mark :: rest) = some (raw, rest) := by
  fun_induction Closes mark raw with
  | case1 =>
    have hb := hm.ne_backslash
    simp [quotedRaw, hb]
  | case2 => exact h.elim
  | case3 c s ih => simp [quotedRaw, ih h]
  | case4 c s hne hne' ih =>
    have hc : c ≠ '\\' := by
      rintro rfl
      cases s with
      | nil => exact hne rfl rfl
      | cons d s => exact hne' d s rfl rfl
    simp [quotedRaw, hc, h.1, ih h.2]

theorem eq_of_quotedRaw {mark : Char} {s raw rest : List Char}
    (h : quotedRaw mark s = some (raw, rest)) : s = raw ++ mark :: rest ∧ Closes mark raw := by
  fun_induction quotedRaw mark s generalizing raw with
  | case1 => cases h
  | case2 => cases h
  | case3 c s ih =>
    obtain ⟨⟨u, v⟩, hu, he⟩ := Option.map_eq_some_iff.1 h
    cases he
    obtain ⟨rfl, hc⟩ := ih hu
    exact ⟨rfl, hc⟩
  | case4 s =>
    cases h
    exact ⟨rfl, trivial⟩
  | case5 c s hne hne' hc ih =>
    obtain ⟨⟨u, v⟩, hu, he⟩ := Option.map_eq_some_iff.1 h
    cases he
    obtain ⟨rfl, hcl⟩ := ih hu
    have hb : c ≠ '\\' := by
      rintro rfl
      cases u with
      | nil => exact hne' _ _ rfl rfl
      | cons d u => exact hne' _ _ rfl rfl
    exact ⟨rfl, (closes_cons hb u).2 ⟨hc, hcl⟩⟩

/-- A character that an expression can begin with. -/
def startsExpr (c : Char) : Bool := isWordChar c || c == '"' || c == '\'' || c == '('

mutual

/-- The expression is read back when `rest` follows it. -/
def Expr.Stands : Expr → List Char → Prop
  | .word w, rest => IsWord w ∧ opens isWordChar rest = false
  | .quoted mark raw, _ => IsQuote mark ∧ Closes mark raw
  | .group call, _ => call.Stands [')']

/-- The call is read back when `rest`, which ends it, follows. -/
def Call.Stands : Call → List Char → Prop
  | ⟨lead, callee, args, trail⟩, rest =>
    AllBlank lead ∧ callee.Stands (Arg.charsAll args ++ (trail ++ rest)) ∧
      Arg.AllStand false args (trail ++ rest) ∧ AllBlank trail

/-- The arguments are read back when `rest` follows the last; after a named one there are only
named ones. -/
def Arg.AllStand (named : Bool) : List Arg → List Char → Prop
  | [], _ => True
  | ⟨lead, none, value⟩ :: args, rest =>
    AllBlank lead ∧ named = false ∧ value.Stands (Arg.charsAll args ++ rest) ∧
      Arg.AllStand false args rest
  | ⟨lead, some key, value⟩ :: args, rest =>
    AllBlank lead ∧ IsWord key ∧ value.Stands (Arg.charsAll args ++ rest) ∧
      Arg.AllStand true args rest

end

theorem startsExpr_of_isWordChar {c : Char} (h : isWordChar c = true) : startsExpr c = true := by
  simp [startsExpr, h]

theorem isBlank_of_isWordChar {c : Char} (h : isWordChar c = true) : isBlank c = false := by
  simp only [isWordChar, Bool.and_eq_true, Bool.not_eq_true'] at h
  exact h.1

theorem ne_of_isWordChar {c d : Char} (h : isWordChar c = true) (hd : isWordChar d = false) :
    c ≠ d := by
  rintro rfl
  rw [h] at hd
  cases hd

/-- What begins an expression is none of the characters that a tag goes on with. -/
theorem ne_of_startsExpr {c d : Char} (h : startsExpr c = true) (hd : startsExpr d = false) :
    c ≠ d := by
  rintro rfl
  rw [h] at hd
  cases hd

theorem isBlank_of_startsExpr {c : Char} (h : startsExpr c = true) : isBlank c = false := by
  simp only [startsExpr, Bool.or_eq_true, beq_iff_eq] at h
  rcases h with ((h | rfl) | rfl) | rfl
  · exact isBlank_of_isWordChar h
  · decide
  · decide
  · decide

theorem Expr.Stands.opens {e : Expr} {rest : List Char} (h : e.Stands rest) (s : List Char) :
    opens startsExpr (e.chars ++ s) = true := by
  cases e with
  | word w =>
    obtain ⟨⟨hne, hw⟩, -⟩ := h
    cases w with
    | nil => exact absurd rfl hne
    | cons c w => exact startsExpr_of_isWordChar (hw c (by simp))
  | quoted mark raw =>
    obtain ⟨hm, -⟩ := h
    rcases hm with rfl | rfl <;> rfl
  | group call => rfl

theorem Expr.Stands.ne_nil {e : Expr} {rest : List Char} (h : e.Stands rest) : e.chars ≠ [] := by
  intro he
  have ho := h.opens []
  rw [he] at ho
  cases ho

theorem opens_append_congr {p : Char → Bool} {s t : List Char} (u : List Char)
    (h : opens p s = opens p t) : opens p (u ++ s) = opens p (u ++ t) := by
  cases u with
  | nil => exact h
  | cons c u => rfl

theorem Expr.stands_congr (e : Expr) {s t : List Char}
    (h : Text.opens isWordChar s = Text.opens isWordChar t) : e.Stands s ↔ e.Stands t := by
  cases e with
  | word w => simp only [Expr.Stands, h]
  | quoted mark raw => exact Iff.rfl
  | group call => exact Iff.rfl

theorem Arg.allStand_congr (named : Bool) (args : List Arg) {s t : List Char}
    (h : opens isWordChar s = opens isWordChar t) :
    Arg.AllStand named args s ↔ Arg.AllStand named args t := by
  induction args generalizing named with
  | nil => exact Iff.rfl
  | cons a args ih =>
    obtain ⟨lead, key, value⟩ := a
    have hv := value.stands_congr (opens_append_congr (Arg.charsAll args) h)
    cases key with
    | none => simp only [Arg.AllStand, hv, ih]
    | some key => simp only [Arg.AllStand, hv, ih]

theorem Call.stands_congr (c : Call) {s t : List Char}
    (h : opens isWordChar s = opens isWordChar t) : c.Stands s ↔ c.Stands t := by
  obtain ⟨lead, callee, args, trail⟩ := c
  have ht := opens_append_congr trail h
  have hc := callee.stands_congr (opens_append_congr (Arg.charsAll args) ht)
  simp only [Call.Stands, hc, Arg.allStand_congr false args ht]

theorem eq_of_key? {s key rest : List Char} (h : key? s = some (key, rest)) :
    s = keyChars (some key) ++ rest ∧ IsWord key := by
  unfold key? at h
  split at h
  · next c k rest' hr =>
    cases h
    obtain ⟨rfl, hw, -⟩ := Text.eq_of_run hr
    exact ⟨by simp [keyChars], by simp, hw⟩
  · cases h

/-- What an expression reader has to give: a part of the text that is read back as it is. -/
def ReadsExpr (expr : List Char → Result (Expr × List Char)) : Prop :=
  ∀ s e rest, expr s = .ok (e, rest) → s = e.chars ++ rest ∧ e.Stands rest

theorem eq_of_argsWith {expr : List Char → Result (Expr × List Char)} (hexpr : ReadsExpr expr)
    {binds : Bool} {n : Nat} {named : Bool} {s trail rest : List Char} {args : List Arg}
    (h : argsWith expr binds n named s = .ok ((args, trail), rest)) :
    s = Arg.charsAll args ++ (trail ++ rest) ∧ Arg.AllStand named args (trail ++ rest) ∧
      AllBlank trail ∧ argsEndAhead binds rest = true := by
  induction n generalizing named s args with
  | zero => cases h
  | succ n ih =>
    unfold argsWith at h
    cases hr : run isBlank s with
    | mk lead s' =>
      obtain ⟨rfl, hlead, hs'⟩ := Text.eq_of_run hr
      simp only [hr] at h
      split at h
      · cases h
      · split at h
        · next hend =>
          cases h
          exact ⟨rfl, trivial, hlead, hend⟩
        · split at h
          · next key s'' hkey =>
            obtain ⟨rfl, hword⟩ := eq_of_key? hkey
            obtain ⟨⟨value, u⟩, hv, h⟩ := bind_eq_ok.1 h
            obtain ⟨⟨⟨args', trail'⟩, v⟩, ha, h⟩ := bind_eq_ok.1 h
            cases h
            obtain ⟨rfl, hvs⟩ := hexpr _ _ _ hv
            obtain ⟨rfl, hargs, htrail, hend⟩ := ih ha
            refine ⟨?_, ⟨hlead, hword, hvs, hargs⟩, htrail, hend⟩
            simp [Arg.charsAll, Arg.chars]
          · next hkey =>
            split at h
            · cases h
            · next hnamed =>
              obtain ⟨⟨value, u⟩, hv, h⟩ := bind_eq_ok.1 h
              obtain ⟨⟨⟨args', trail'⟩, v⟩, ha, h⟩ := bind_eq_ok.1 h
              cases h
              obtain ⟨rfl, hvs⟩ := hexpr _ _ _ hv
              obtain ⟨rfl, hargs, htrail, hend⟩ := ih ha
              refine ⟨?_, ⟨hlead, by simpa using hnamed, hvs, hargs⟩, htrail, hend⟩
              simp [Arg.charsAll, Arg.chars, keyChars]

theorem readsExpr_exprWithin (n : Nat) : ReadsExpr (exprWithin n) := by
  induction n with
  | zero =>
    intro s e rest h
    cases h
  | succ n ih =>
    intro s e rest h
    unfold exprWithin at h
    split at h
    · next s₀ =>
      obtain ⟨s', hs', h⟩ := bind_eq_ok.1 h
      rw [eq_of_expect hs']
      cases hr : run isBlank s' with
      | mk lead s'' =>
        obtain ⟨rfl, hlead, -⟩ := Text.eq_of_run hr
        simp only [hr] at h
        obtain ⟨⟨callee, t⟩, hcallee, h⟩ := bind_eq_ok.1 h
        obtain ⟨⟨⟨args, trail⟩, u⟩, hargs, h⟩ := bind_eq_ok.1 h
        obtain ⟨v, hv, h⟩ := bind_eq_ok.1 h
        cases h
        obtain ⟨rfl, hcs⟩ := ih _ _ _ hcallee
        obtain ⟨rfl, has, htrail, -⟩ := eq_of_argsWith ih hargs
        obtain rfl : u = Token.groupClose.chars ++ rest := eq_of_expect hv
        refine ⟨by simp [Expr.chars, Call.chars, Token.chars], ?_⟩
        rw [Expr.Stands]
        have hend : opens isWordChar (Token.groupClose.chars ++ rest) = opens isWordChar [')'] := rfl
        exact (Call.stands_congr ⟨lead, callee, args, trail⟩ hend).1 ⟨hlead, hcs, has, htrail⟩
    · next c s' hc =>
      split at h
      · next hq =>
        split at h
        · next raw rest' hraw =>
          cases h
          obtain ⟨rfl, hcl⟩ := eq_of_quotedRaw hraw
          exact ⟨by simp [Expr.chars], by simpa [IsQuote] using hq, hcl⟩
        · cases h
      · split at h
        · cases h
        · next word rest' hne hr =>
          cases h
          obtain ⟨he, hw, hrest⟩ := Text.eq_of_run hr
          exact ⟨he, ⟨hne, hw⟩, hrest⟩
    · cases h

theorem after?_word {mark rest : List Char} (hm : ∀ c ∈ mark, isWordChar c = true)
    (hr : opens isWordChar rest = false) (w : List Char) :
    after? mark (w ++ rest) = (after? mark w).map (· ++ rest) := by
  induction mark generalizing w with
  | nil => simp [after?]
  | cons m mark ih =>
    have hmark : ∀ c ∈ mark, isWordChar c = true := fun c hc => hm c (by simp [hc])
    cases w with
    | nil =>
      cases rest with
      | nil => rfl
      | cons c rest =>
        have hc : m ≠ c := ne_of_isWordChar (hm m (by simp)) (by simpa using hr)
        simp [after?, hc]
    | cons c w =>
      by_cases hc : m = c
      · simpa [after?, hc] using ih hmark w
      · simp [after?, hc]

theorem paramsAhead_word {w rest : List Char} (hw : ∀ c ∈ w, isWordChar c = true)
    (hr : opens isWordChar rest = false) :
    paramsAhead (w ++ rest) =
      (w == Token.asWord.chars && opens isBlank rest &&
        opens (· == '|') (rest.dropWhile isBlank)) := by
  have hm := isWord_asWord.2
  unfold paramsAhead
  rw [after?_word hm hr]
  cases ha : after? Token.asWord.chars w with
  | none =>
    have hne : w ≠ Token.asWord.chars := by
      rintro rfl
      cases ha
    simp [hne]
  | some u =>
    obtain rfl := Text.after?_eq_some_iff.1 ha
    cases u with
    | nil =>
      cases rest with
      | nil => rfl
      | cons c rest => simp [Token.chars]
    | cons c u =>
      have hb := isBlank_of_isWordChar (hw c (by simp))
      simp [hb, Token.chars]

theorem tagEndAhead_expr {s : List Char} (h : opens startsExpr s = true) :
    tagEndAhead s = false := by
  cases s with
  | nil => cases h
  | cons c s =>
    have ht : c ≠ '~' := ne_of_startsExpr h (by decide)
    have hb : '}' ≠ c := (ne_of_startsExpr (d := '}') h (by decide)).symm
    simp [tagEndAhead, eat, ht, startsWith, Token.chars, after?, hb]

theorem groupClose_expr {s : List Char} (h : opens startsExpr s = true) :
    startsWith Token.groupClose.chars s = false := by
  cases s with
  | nil => cases h
  | cons c s =>
    have hc : c ≠ ')' := ne_of_startsExpr h (by decide)
    simp [Token.chars, hc]

/-- The first characters of what can end the arguments of a call. -/
def endsArgs (c : Char) : Bool := c == '}' || c == '~' || c == ')' || c == 'a'

theorem opens_of_argsEndAhead {binds : Bool} {s : List Char} (h : argsEndAhead binds s = true) :
    opens endsArgs s = true := by
  cases s with
  | nil => cases binds <;> cases h
  | cons c s =>
    cases hc : endsArgs c with
    | true => exact hc
    | false =>
      simp only [endsArgs, Bool.or_eq_false_iff, beq_eq_false_iff_ne] at hc
      obtain ⟨⟨⟨hb, ht⟩, hg⟩, ha⟩ := hc
      have htag : tagEndAhead (c :: s) = false := by
        simp [tagEndAhead, eat, ht, startsWith, Token.chars, after?, hb.symm]
      have hgroup : startsWith Token.groupClose.chars (c :: s) = false := by
        simp [Token.chars, hg]
      have hparams : paramsAhead (c :: s) = false := by
        simp [paramsAhead, Token.chars, after?, ha.symm]
      simp [argsEndAhead, htag, hgroup, hparams] at h

/-- What stands of an argument after the blanks before it. -/
def Arg.body (key : Option (List Char)) (value : Expr) : List Char := keyChars key ++ value.chars

theorem Arg.charsAll_cons (lead : List Char) (key : Option (List Char)) (value : Expr)
    (args : List Arg) (rest : List Char) :
    Arg.charsAll (⟨lead, key, value⟩ :: args) ++ rest =
      lead ++ (Arg.body key value ++ (Arg.charsAll args ++ rest)) := by
  simp [Arg.charsAll, Arg.chars, Arg.body]

theorem Arg.AllStand.lead {named : Bool} {lead : List Char} {key : Option (List Char)}
    {value : Expr} {args : List Arg} {rest : List Char}
    (h : Arg.AllStand named (⟨lead, key, value⟩ :: args) rest) : AllBlank lead := by
  cases key with
  | none => exact h.1
  | some key => exact h.1

theorem Arg.AllStand.body_opens {named : Bool} {lead : List Char} {key : Option (List Char)}
    {value : Expr} {args : List Arg} {rest : List Char}
    (h : Arg.AllStand named (⟨lead, key, value⟩ :: args) rest) (s : List Char) :
    opens startsExpr (Arg.body key value ++ s) = true := by
  cases key with
  | none => exact h.2.2.1.opens s
  | some key =>
    obtain ⟨-, ⟨hne, hw⟩, -⟩ := h
    cases key with
    | nil => exact absurd rfl hne
    | cons c key => exact startsExpr_of_isWordChar (hw c (by simp))

/-- A class to which no blank, no first character of an expression and no first character of the
end of the arguments belongs. -/
structure Foreign (p : Char → Bool) : Prop where
  blank : ∀ c, isBlank c = true → p c = false
  expr : ∀ c, startsExpr c = true → p c = false
  ending : ∀ c, endsArgs c = true → p c = false

theorem foreign_of_ne {d : Char} (hb : isBlank d = false) (he : startsExpr d = false)
    (hn : endsArgs d = false) : Foreign (· == d) := by
  have ne : ∀ {p : Char → Bool} (c : Char), p c = true → p d = false → (c == d) = false := by
    intro p c hc hd
    rw [beq_eq_false_iff_ne]
    rintro rfl
    rw [hc] at hd
    cases hd
  exact ⟨fun c hc => ne c hc hb, fun c hc => ne c hc he, fun c hc => ne c hc hn⟩

theorem Foreign.opens_false {p q : Char → Bool} {s : List Char}
    (hpq : ∀ c, q c = true → p c = false) (h : opens q s = true) : opens p s = false := by
  cases s with
  | nil => rfl
  | cons c s => exact hpq c h

/-- No character of a foreign class comes next among arguments, not even after blanks. -/
theorem Arg.AllStand.foreign {p : Char → Bool} (hp : Foreign p) {named binds : Bool}
    {args : List Arg} {trail rest : List Char} (h : Arg.AllStand named args (trail ++ rest))
    (ht : AllBlank trail) (hr : argsEndAhead binds rest = true) :
    opens p (Arg.charsAll args ++ (trail ++ rest)) = false ∧
      opens p ((Arg.charsAll args ++ (trail ++ rest)).dropWhile isBlank) = false := by
  have hfront : ∀ lead body : List Char, AllBlank lead → opens p body = false →
      opens isBlank body = false →
      opens p (lead ++ body) = false ∧ opens p ((lead ++ body).dropWhile isBlank) = false := by
    intro lead body hlead hbody hbb
    rw [Text.dropWhile_blank hlead hbb]
    refine ⟨?_, hbody⟩
    cases lead with
    | nil => exact hbody
    | cons c lead => exact hp.blank c (hlead c (by simp))
  cases args with
  | nil =>
    have ho := opens_of_argsEndAhead hr
    apply hfront trail rest ht
    · exact Foreign.opens_false hp.ending ho
    · apply Foreign.opens_false _ ho
      intro c hc
      simp only [endsArgs, Bool.or_eq_true, beq_iff_eq] at hc
      rcases hc with ((rfl | rfl) | rfl) | rfl <;> decide
  | cons a args =>
    obtain ⟨lead, key, value⟩ := a
    have ho := h.body_opens (Arg.charsAll args ++ (trail ++ rest))
    rw [Arg.charsAll_cons]
    apply hfront lead _ h.lead
    · exact Foreign.opens_false hp.expr ho
    · exact Foreign.opens_false (fun c hc => isBlank_of_startsExpr hc) ho

theorem key?_eq {key : List Char} (h : IsWord key) (rest : List Char) :
    key? (keyChars (some key) ++ rest) = some (key, rest) := by
  obtain ⟨hne, hw⟩ := h
  have hr : run isWordChar (key ++ '=' :: rest) = (key, '=' :: rest) := Text.run_eq hw rfl
  cases key with
  | nil => exact absurd rfl hne
  | cons c key =>
    unfold key?
    simp only [keyChars, List.append_assoc, List.singleton_append, hr]

theorem Expr.Stands.key?_eq_none {e : Expr} {rest : List Char} (h : e.Stands rest)
    (hr : Text.opens (· == '=') rest = false) : key? (e.chars ++ rest) = none := by
  have hrun : ∃ w, run isWordChar (e.chars ++ rest) = (w, (e.chars ++ rest).drop w.length) ∧
      (w = [] ∨ (e.chars ++ rest).drop w.length = rest) := by
    cases e with
    | word w =>
      obtain ⟨⟨-, hw⟩, hj⟩ := h
      exact ⟨w, by simp [Expr.chars, Text.run_eq hw hj], Or.inr (by simp [Expr.chars])⟩
    | quoted mark raw =>
      obtain ⟨hm, -⟩ := h
      refine ⟨[], ?_, Or.inl rfl⟩
      rcases hm with rfl | rfl <;> rfl
    | group call => exact ⟨[], rfl, Or.inl rfl⟩
  obtain ⟨w, hw, he⟩ := hrun
  unfold key?
  rw [hw]
  rcases he with rfl | he
  · rfl
  · rw [he]
    cases rest with
    | nil => cases w <;> rfl
    | cons c rest =>
      have hc : c ≠ '=' := by simpa using hr
      cases w with
      | nil => rfl
      | cons d w =>
        split
        · next hx => simp_all
        · rfl

theorem Arg.AllStand.paramsAhead_eq_false {named binds : Bool} {lead : List Char}
    {key : Option (List Char)} {value : Expr} {args : List Arg} {trail rest : List Char}
    (h : Arg.AllStand named (⟨lead, key, value⟩ :: args) (trail ++ rest)) (ht : AllBlank trail)
    (hr : argsEndAhead binds rest = true) :
    paramsAhead (Arg.body key value ++ (Arg.charsAll args ++ (trail ++ rest))) = false := by
  cases key with
  | some key =>
    obtain ⟨-, ⟨-, hw⟩, -⟩ := h
    have he : Arg.body (some key) value ++ (Arg.charsAll args ++ (trail ++ rest)) =
        key ++ '=' :: (value.chars ++ (Arg.charsAll args ++ (trail ++ rest))) := by
      simp [Arg.body, keyChars]
    rw [he, paramsAhead_word hw rfl]
    simp [show isBlank '=' = false by decide]
  | none =>
    obtain ⟨-, -, hv, hargs⟩ := h
    have hbar := (hargs.foreign (foreign_of_ne (d := '|') (by decide) (by decide) (by decide))
      ht hr).2
    cases value with
    | word w =>
      obtain ⟨⟨-, hw⟩, hj⟩ := hv
      have he : Arg.body none (.word w) ++ (Arg.charsAll args ++ (trail ++ rest)) =
          w ++ (Arg.charsAll args ++ (trail ++ rest)) := rfl
      rw [he, paramsAhead_word hw hj, hbar]
      simp
    | quoted mark raw =>
      obtain ⟨hm, -⟩ := hv
      rcases hm with rfl | rfl <;> rfl
    | group call => rfl

theorem Arg.AllStand.argsEndAhead_eq_false {named binds : Bool} {lead : List Char}
    {key : Option (List Char)} {value : Expr} {args : List Arg} {trail rest : List Char}
    (h : Arg.AllStand named (⟨lead, key, value⟩ :: args) (trail ++ rest)) (ht : AllBlank trail)
    (hr : argsEndAhead binds rest = true) :
    argsEndAhead binds (Arg.body key value ++ (Arg.charsAll args ++ (trail ++ rest))) = false := by
  have ho := h.body_opens (Arg.charsAll args ++ (trail ++ rest))
  simp [argsEndAhead, tagEndAhead_expr ho, groupClose_expr ho, h.paramsAhead_eq_false ht hr]

theorem Arg.AllStand.run_lead {named : Bool} {lead : List Char} {key : Option (List Char)}
    {value : Expr} {args : List Arg} {rest : List Char}
    (h : Arg.AllStand named (⟨lead, key, value⟩ :: args) rest) :
    run isBlank (Arg.charsAll (⟨lead, key, value⟩ :: args) ++ rest) =
      (lead, Arg.body key value ++ (Arg.charsAll args ++ rest)) := by
  rw [Arg.charsAll_cons]
  apply Text.run_eq h.lead
  exact Foreign.opens_false (fun c hc => isBlank_of_startsExpr hc)
    (h.body_opens (Arg.charsAll args ++ rest))

theorem exprWithin_word (n : Nat) {w rest : List Char} (hw : IsWord w)
    (hr : opens isWordChar rest = false) : exprWithin (n + 1) (w ++ rest) = .ok (.word w, rest) := by
  obtain ⟨hne, hw⟩ := hw
  have hrun : run isWordChar (w ++ rest) = (w, rest) := Text.run_eq hw hr
  cases w with
  | nil => exact absurd rfl hne
  | cons c w =>
    have hc := hw c (by simp)
    have hg : c ≠ '(' := ne_of_isWordChar hc (by decide)
    have hq : c ≠ '"' := ne_of_isWordChar hc (by decide)
    have ha : c ≠ '\'' := ne_of_isWordChar hc (by decide)
    rw [List.cons_append] at hrun ⊢
    rw [exprWithin]
    · simp [hq, ha, hrun]
    · exact hg

theorem exprWithin_quoted (n : Nat) {mark : Char} {raw : List Char} (hm : IsQuote mark)
    (hc : Closes mark raw) (rest : List Char) :
    exprWithin (n + 1) (mark :: (raw ++ mark :: rest)) = .ok (.quoted mark raw, rest) := by
  have hraw := quotedRaw_eq hm hc rest
  rcases hm with rfl | rfl <;> simp [exprWithin, hraw]

theorem exprWithin_group (n : Nat) (s : List Char) :
    exprWithin (n + 1) ('(' :: s) = (do
      let (callee, t) ← exprWithin n (run isBlank s).2
      let ((args, trail), t) ← argsWith (exprWithin n) false t.length false t
      let t ← expect .groupClose t
      .ok (.group ⟨(run isBlank s).1, callee, args, trail⟩, t)) := by
  rw [exprWithin]
  rfl

theorem argsWith_end (expr : List Char → Result (Expr × List Char)) {binds : Bool} (m : Nat)
    (named : Bool) {trail rest : List Char} (ht : AllBlank trail)
    (hr : argsEndAhead binds rest = true) :
    argsWith expr binds (m + 1) named (trail ++ rest) = .ok (([], trail), rest) := by
  have ho := opens_of_argsEndAhead hr
  have hb : opens isBlank rest = false := by
    apply Foreign.opens_false _ ho
    intro c hc
    simp only [endsArgs, Bool.or_eq_true, beq_iff_eq] at hc
    rcases hc with ((rfl | rfl) | rfl) | rfl <;> decide
  have hne : rest.isEmpty = false := by
    cases rest with
    | nil => cases ho
    | cons c rest => rfl
  rw [argsWith, Text.run_eq ht hb]
  simp [hne, hr]

theorem argsWith_named (expr : List Char → Result (Expr × List Char)) {binds : Bool} (m : Nat)
    {named : Bool} {lead key rest : List Char} {value : Expr} {args : List Arg}
    (h : Arg.AllStand named (⟨lead, some key, value⟩ :: args) rest)
    (hend : argsEndAhead binds (Arg.body (some key) value ++ (Arg.charsAll args ++ rest)) = false) :
    argsWith expr binds (m + 1) named (Arg.charsAll (⟨lead, some key, value⟩ :: args) ++ rest) =
      (do
        let (value, s) ← expr (value.chars ++ (Arg.charsAll args ++ rest))
        let ((args, trail), s) ← argsWith expr binds m true s
        .ok ((⟨lead, some key, value⟩ :: args, trail), s)) := by
  have hne : (Arg.body (some key) value ++ (Arg.charsAll args ++ rest)).isEmpty = false := by
    simp [Arg.body, keyChars]
  have hkey : key? (Arg.body (some key) value ++ (Arg.charsAll args ++ rest)) =
      some (key, value.chars ++ (Arg.charsAll args ++ rest)) := by
    rw [Arg.body, List.append_assoc]
    exact key?_eq h.2.1 _
  rw [argsWith, h.run_lead]
  simp only [hne, hend, hkey]
  rfl

theorem argsWith_positional (expr : List Char → Result (Expr × List Char)) {binds : Bool} (m : Nat)
    {lead rest : List Char} {value : Expr} {args : List Arg}
    (h : Arg.AllStand false (⟨lead, none, value⟩ :: args) rest)
    (hsign : opens (· == '=') (Arg.charsAll args ++ rest) = false)
    (hend : argsEndAhead binds (Arg.body none value ++ (Arg.charsAll args ++ rest)) = false) :
    argsWith expr binds (m + 1) false (Arg.charsAll (⟨lead, none, value⟩ :: args) ++ rest) =
      (do
        let (value, s) ← expr (value.chars ++ (Arg.charsAll args ++ rest))
        let ((args, trail), s) ← argsWith expr binds m false s
        .ok ((⟨lead, none, value⟩ :: args, trail), s)) := by
  have hne : (Arg.body none value ++ (Arg.charsAll args ++ rest)).isEmpty = false := by
    have ho := h.body_opens (Arg.charsAll args ++ rest)
    cases hb : Arg.body none value ++ (Arg.charsAll args ++ rest) with
    | nil =>
      rw [hb] at ho
      cases ho
    | cons c s => rfl
  have hkey : key? (Arg.body none value ++ (Arg.charsAll args ++ rest)) = none :=
    h.2.2.1.key?_eq_none hsign
  rw [argsWith, h.run_lead]
  simp only [hne, hend, hkey]
  rfl

/-- An expression reader that reads back the values of `args`, up to texts of `n` characters, reads
the arguments back. -/
theorem argsWith_eq {expr : List Char → Result (Expr × List Char)} {n : Nat} {args : List Arg}
    (hexpr : ∀ a ∈ args, ∀ s, a.value.Stands s → (a.value.chars ++ s).length ≤ n →
      expr (a.value.chars ++ s) = .ok (a.value, s))
    {named binds : Bool} {trail rest : List Char} {m : Nat}
    (h : Arg.AllStand named args (trail ++ rest)) (ht : AllBlank trail)
    (hr : argsEndAhead binds rest = true)
    (hn : (Arg.charsAll args ++ (trail ++ rest)).length ≤ n)
    (hm : (Arg.charsAll args ++ (trail ++ rest)).length ≤ m) :
    argsWith expr binds m named (Arg.charsAll args ++ (trail ++ rest)) =
      .ok ((args, trail), rest) := by
  induction args generalizing named m with
  | nil =>
    cases m with
    | zero =>
      have ho := opens_of_argsEndAhead hr
      cases rest with
      | nil => cases ho
      | cons c rest => simp at hm
    | succ m => exact argsWith_end expr m named ht hr
  | cons a args ih =>
    obtain ⟨lead, key, value⟩ := a
    have hend := h.argsEndAhead_eq_false ht hr
    have hbody : 0 < (Arg.body key value ++ (Arg.charsAll args ++ (trail ++ rest))).length := by
      have ho := h.body_opens (Arg.charsAll args ++ (trail ++ rest))
      rw [List.length_pos_iff]
      intro he
      rw [he] at ho
      cases ho
    have hargs := fun a ha => hexpr a (List.mem_cons_of_mem _ ha)
    rw [Arg.charsAll_cons lead key value args (trail ++ rest)] at hn hm
    simp only [Arg.body, List.length_append] at hn hm hbody
    cases m with
    | zero => omega
    | succ m =>
      have hrest : (Arg.charsAll args ++ (trail ++ rest)).length ≤ n := by
        simp only [List.length_append]
        omega
      have hvalue := fun hv => hexpr ⟨lead, key, value⟩ (by simp)
        (Arg.charsAll args ++ (trail ++ rest)) hv (by simp only [List.length_append]; omega)
      cases key with
      | some key =>
        have hrest' : (Arg.charsAll args ++ (trail ++ rest)).length ≤ m := by
          simp only [List.length_append, keyChars, List.length_singleton] at hm ⊢
          omega
        rw [argsWith_named expr m h hend]
        simp only [hvalue h.2.2.1, ok_bind, ih hargs h.2.2.2 hrest hrest']
      | none =>
        obtain ⟨-, rfl, hv, hstand⟩ := id h
        have hsign := (hstand.foreign (foreign_of_ne (d := '=') (by decide) (by decide) (by decide))
          ht hr).1
        have hlen : 0 < value.chars.length := by
          have ho := hv.opens []
          rw [List.length_pos_iff]
          intro he
          rw [he] at ho
          cases ho
        have hrest' : (Arg.charsAll args ++ (trail ++ rest)).length ≤ m := by
          simp only [List.length_append] at hm ⊢
          omega
        rw [argsWith_positional expr m h hsign hend]
        simp only [hvalue hv, ok_bind, ih hargs hstand hrest hrest']

mutual

theorem Expr.exprWithin_eq : ∀ (e : Expr) {rest : List Char} {n : Nat}, e.Stands rest →
    (e.chars ++ rest).length ≤ n → exprWithin n (e.chars ++ rest) = .ok (e, rest)
  | .word w, rest, n, h, hn => by
    cases n with
    | zero =>
      have hne := h.1.1
      simp [Expr.chars, hne] at hn
    | succ n => exact exprWithin_word n h.1 h.2
  | .quoted mark raw, rest, n, h, hn => by
    cases n with
    | zero => simp [Expr.chars] at hn
    | succ n =>
      have hq := exprWithin_quoted n h.1 h.2 rest
      simpa [Expr.chars] using hq
  | .group ⟨lead, callee, args, trail⟩, rest, n, h, hn => by
    cases n with
    | zero => simp [Expr.chars] at hn
    | succ n =>
      have hend : opens isWordChar [')'] = opens isWordChar (')' :: rest) := rfl
      obtain ⟨hlead, hcallee, hargs, htrail⟩ :=
        (Call.stands_congr ⟨lead, callee, args, trail⟩ hend).1 h
      have he : (Expr.group ⟨lead, callee, args, trail⟩).chars ++ rest =
          '(' :: (lead ++ (callee.chars ++ (Arg.charsAll args ++ (trail ++ ')' :: rest)))) := by
        simp [Expr.chars, Call.chars]
      rw [he] at hn ⊢
      have hlen : (callee.chars ++ (Arg.charsAll args ++ (trail ++ ')' :: rest))).length ≤ n := by
        simp only [List.length_cons, List.length_append] at hn ⊢
        omega
      have hlen' : (Arg.charsAll args ++ (trail ++ ')' :: rest)).length ≤ n := by
        simp only [List.length_cons, List.length_append] at hn ⊢
        omega
      have hrun : run isBlank
          (lead ++ (callee.chars ++ (Arg.charsAll args ++ (trail ++ ')' :: rest)))) =
            (lead, callee.chars ++ (Arg.charsAll args ++ (trail ++ ')' :: rest))) :=
        Text.run_eq hlead (Foreign.opens_false (fun c hc => isBlank_of_startsExpr hc)
          (hcallee.opens _))
      have hclose : argsEndAhead false (')' :: rest) = true := by
        simp [argsEndAhead, Token.chars]
      rw [exprWithin_group, hrun]
      simp only [callee.exprWithin_eq hcallee hlen, ok_bind,
        argsWith_eq (Arg.values_exprWithin_eq args) hargs htrail hclose hlen' (Nat.le_refl _)]
      rfl

theorem Arg.values_exprWithin_eq : ∀ (args : List Arg) {n : Nat}, ∀ a ∈ args, ∀ s,
    a.value.Stands s → (a.value.chars ++ s).length ≤ n →
      exprWithin n (a.value.chars ++ s) = .ok (a.value, s)
  | [], _, _, ha, _, _, _ => by cases ha
  | ⟨lead, key, value⟩ :: args, n, a, ha, s, h, hn => by
    rcases List.mem_cons.1 ha with rfl | ha
    · exact value.exprWithin_eq h hn
    · exact Arg.values_exprWithin_eq args a ha s h hn

end

theorem Expr.eq_of_read {s rest : List Char} {e : Expr} (h : Expr.read s = .ok (e, rest)) :
    s = e.chars ++ rest ∧ e.Stands rest :=
  readsExpr_exprWithin s.length s e rest h

theorem Expr.Stands.read_eq {e : Expr} {rest : List Char} (h : e.Stands rest) :
    Expr.read (e.chars ++ rest) = .ok (e, rest) :=
  e.exprWithin_eq h (Nat.le_refl _)

theorem Arg.eq_of_readAll {binds : Bool} {s trail rest : List Char} {args : List Arg}
    (h : Arg.readAll binds s = .ok ((args, trail), rest)) :
    s = Arg.charsAll args ++ (trail ++ rest) ∧ Arg.AllStand false args (trail ++ rest) ∧
      AllBlank trail ∧ argsEndAhead binds rest = true :=
  eq_of_argsWith (fun _ _ _ h => Expr.eq_of_read h) h

theorem Arg.AllStand.readAll_eq {binds : Bool} {trail rest : List Char} {args : List Arg}
    (h : Arg.AllStand false args (trail ++ rest)) (ht : AllBlank trail)
    (hr : argsEndAhead binds rest = true) :
    Arg.readAll binds (Arg.charsAll args ++ (trail ++ rest)) = .ok ((args, trail), rest) := by
  exact argsWith_eq (fun a _ s hv _ => hv.read_eq) h ht hr (Nat.le_refl _) (Nat.le_refl _)

end TemplateLint.Concrete
