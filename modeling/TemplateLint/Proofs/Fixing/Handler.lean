import TemplateLint.Proofs.Fixing.Settled

namespace TemplateLint

open Text (size opens isBlank AllBlank)

namespace Concrete

variable {f : Fixers}

/-- `{{on "event" handler}}` -/
def onModifier (event : List Char) (handler : Expr) : Mustache :=
  ⟨false, false, ⟨[], .word ['o', 'n'],
    [⟨[' '], none, .quoted '"' event⟩, ⟨[' '], none, handler⟩], []⟩, false⟩

theorem eventText_chars (event : String) (handler : Expr) :
    eventText event handler.chars = (onModifier event.toList handler).chars := by
  simp [eventText, inBraces, onModifier, Mustache.chars, Token.chars, flagged, Call.chars,
    Arg.charsAll, Arg.chars, keyChars, Expr.chars]

theorem onModifier_stands {event : List Char} {handler : Expr} (hevent : Closes '"' event)
    (hh : handler.Stands []) : (onModifier event handler).Stands := by
  have hblank : AllBlank [' '] := by
    intro c hc
    obtain rfl := List.mem_singleton.1 hc
    rfl
  have hword : IsWord ['o', 'n'] := ⟨by decide, List.all_eq_true.1 (by decide)⟩
  refine ⟨List.forall_mem_nil _, ⟨hword, rfl⟩, ⟨hblank, rfl, ⟨Or.inl rfl, hevent⟩,
    hblank, rfl, ?_, trivial⟩, List.forall_mem_nil _⟩
  exact (handler.stands_congr (s := []) (t := ['}', '}']) rfl).1 hh

theorem modifier?_eventText {event : String} {handler : Expr}
    (hevent : Closes '"' event.toList) (hh : handler.Stands []) :
    modifier? (eventText event handler.chars) =
      some (.modifier (onModifier event.toList handler)) := by
  have hread := (onModifier_stands hevent hh).read_eq []
  rw [List.append_nil] at hread
  rw [eventText_chars, modifier?, hread]

theorem onModifier_settledParts (event : List Char) (handler : Expr) :
    (onModifier event handler).settledParts f = onModifier event (handler.settled f) := rfl

theorem onModifier_depth (event : List Char) (handler : Expr) :
    (onModifier event handler).call.depth f = handler.depth f := by
  simp [onModifier, Call.depth, Arg.depthAll, Expr.depth]

/-- A call as the argument of a modifier: in parentheses, unless it is its callee alone. -/
def Call.asHandler (c : Call) : Expr := if c.args.isEmpty then c.callee else .group c.trimmed

theorem Call.chars_asHandler (c : Call) :
    c.asHandler.chars = if c.args.isEmpty then c.body else '(' :: (c.body ++ [')']) := by
  obtain ⟨lead, callee, args, trail⟩ := c
  cases args with
  | nil => simp [Call.asHandler, Call.body, Arg.charsAll]
  | cons a as => simp [Call.asHandler, Call.body, Call.trimmed, Expr.chars, Call.chars]

theorem Call.Stands.asHandler {c : Call} {rest : List Char} (h : c.Stands rest)
    (hr : opens isWordChar rest = false) : c.asHandler.Stands [] := by
  obtain ⟨lead, callee, args, trail⟩ := c
  obtain ⟨-, hcallee, hargs, htrail⟩ := h
  cases args with
  | nil => exact hcallee.alone
  | cons a as =>
    have hopens : opens isWordChar ([] ++ [')']) = opens isWordChar (trail ++ rest) := by
      rw [opens_word_lead htrail hr]
      rfl
    refine ⟨List.forall_mem_nil _, ?_, (Arg.allStand_congr false (a :: as) hopens).2 hargs,
      List.forall_mem_nil _⟩
    exact (callee.stands_congr (opens_append_congr _ hopens)).2 hcallee

theorem Call.depth_asHandler (c : Call) : c.depth f ≤ c.asHandler.depth f := by
  obtain ⟨lead, callee, args, trail⟩ := c
  cases args with
  | nil => simp [Call.asHandler, Call.depth]
  | cons a as => simp [Call.asHandler, Call.trimmed, Expr.depth, Call.depth]

theorem Call.args_of_unnegated? {c c' : Call} (h : c.unnegated? = some c') :
    c.args.isEmpty = false := by
  obtain ⟨n, hn, -⟩ := eq_of_unnegated? h
  obtain ⟨condition, hc, -⟩ := eq_of_negated? hn
  rw [hc]
  rfl

/-- A fix that leaves a call its arguments also leaves it its parentheses. -/
theorem Call.asHandler_settled {c : Call}
    (hk : ∀ c', c.unnegated? = some c' → c'.args.isEmpty = false) :
    (c.settled f).asHandler = c.asHandler.settled f := by
  have htrimmed : c.trimmed.settled f = (c.settled f).trimmed := by
    rw [Call.settled_eq, Call.settled_eq, Call.settledParts_eq, Call.settledParts_eq,
      Fixers.unnegated, Fixers.unnegated, Fixers.unnegated?, Fixers.unnegated?,
      Call.unnegated?_trimmed]
    cases f.conditions with
    | false => rfl
    | true => cases c.unnegated? <;> rfl
  cases hc : f.unnegated? c with
  | none =>
    rw [Call.settled_of_none hc] at htrimmed ⊢
    unfold Call.asHandler
    rw [apply_ite (Expr.settled f), Expr.settled_group, htrimmed, Call.settledParts_eq]
    simp only [Call.mapParts, List.isEmpty_map]
  | some c' =>
    obtain ⟨-, hc'⟩ := Fixers.eq_of_unnegated? hc
    have hargs : (c.settled f).args.isEmpty = false := by
      rw [Call.settled_of_unnegated? hc, Call.settledParts_eq]
      exact List.isEmpty_map.trans (hk c' hc')
    unfold Call.asHandler
    rw [hargs, Call.args_of_unnegated? hc', if_neg Bool.false_ne_true, if_neg Bool.false_ne_true,
      Expr.settled_group, htrimmed]

/-- Whether a text is read as one string. -/
def readsQuoted (s : List Char) : Bool :=
  match Expr.read s with
  | .ok (.quoted _ _, []) => true
  | _ => false

theorem eq_of_readsQuoted {s : List Char} (h : readsQuoted s = true) :
    ∃ e : Expr, s = e.chars ∧ e.Stands [] ∧ e.isGroup = false := by
  unfold readsQuoted at h
  split at h
  · next mark raw hread =>
    obtain ⟨he, hs⟩ := Expr.eq_of_read hread
    exact ⟨_, by rw [he, List.append_nil], hs, rfl⟩
  · cases h

/-- Whether a modifier gets a value as it is meant: no string in it ends early, and the fix for a
call leaves it arguments. -/
def AttrValue.isKept : AttrValue → Bool
  | .mustache m => (m.call.unnegated?.map fun c => !c.args.isEmpty).getD true
  | v => (v.handler?.map readsQuoted).getD true

/-- Whether there are fixes in a value that a modifier gets as a string, and so without them. -/
def AttrValue.hides (f : Fixers) : AttrValue → Bool
  | .quoted _ parts => Part.depthAll f parts != 0
  | _ => false

/-- A modifier gets a value as it is meant, with the fixes inside of it. -/
structure AttrValue.Carried (f : Fixers) (v : AttrValue) : Prop where
  kept : v.isKept = true
  shown : v.hides f = false

instance (f : Fixers) (v : AttrValue) : Decidable (v.Carried f) :=
  decidable_of_iff (v.isKept = true ∧ v.hides f = false) ⟨fun h => ⟨h.1, h.2⟩, fun h => ⟨h.1, h.2⟩⟩

/-- The handler of an event is one expression, before the fixes inside of its value and after. -/
theorem AttrValue.Stands.handler {v : AttrValue} {rest : List Char} (h : v.Stands rest)
    (hc : v.Carried f) {handler : List Char} (hh : v.handler? = some handler) :
    ∃ e : Expr, handler = e.chars ∧ e.Stands [] ∧
      (v.settled f).handler? = some (e.settled f).chars ∧ v.depth f ≤ 1 + e.depth f := by
  obtain ⟨hk, hv⟩ := hc
  have hstring : readsQuoted handler = true → v.depth f = 0 → ∃ e : Expr, handler = e.chars ∧
      e.Stands [] ∧ (v.settled f).handler? = some (e.settled f).chars ∧
        v.depth f ≤ 1 + e.depth f := by
    intro hread hdepth
    obtain ⟨e, rfl, hs, he⟩ := eq_of_readsQuoted hread
    refine ⟨e, rfl, hs, ?_, by omega⟩
    rw [AttrValue.settled_of_depth hdepth, Expr.settled_eq_self he]
    exact hh
  cases v with
  | quoted mark parts =>
    have hdepth : Part.depthAll f parts = 0 := by simpa [AttrValue.hides] using hv
    exact hstring (by simpa [AttrValue.isKept, hh] using hk) hdepth
  | bare cs => exact hstring (by simpa [AttrValue.isKept, hh] using hk) rfl
  | mustache m =>
    have hm : m.call.Stands m.closing := h
    refine ⟨m.call.asHandler, ?_, hm.asHandler m.opens_closing, ?_, ?_⟩
    · rw [Call.chars_asHandler]
      exact (Option.some.inj hh).symm
    · have hargs : ∀ c', m.call.unnegated? = some c' → c'.args.isEmpty = false := by
        intro c' hc'
        simpa [AttrValue.isKept, hc'] using hk
      rw [← Call.asHandler_settled hargs, Call.chars_asHandler]
      rfl
    · have hcall := Call.depth_asHandler (f := f) m.call
      have hlevel : level (f.unnegated? m.call) ≤ 1 := by
        cases f.unnegated? m.call <;> simp
      rw [AttrValue.depth, Mustache.depth]
      omega

/-- The value of an item that becomes a modifier. -/
def Item.eventValue? (t : OpeningTag) : Item → Option AttrValue
  | .attribute a =>
    match t.change? a with
    | some (.whole _) => a.assigned.map Assigned.value
    | _ => none
  | _ => none

/-- The values of a tag that become modifiers. -/
def OpeningTag.eventValues (t : OpeningTag) : List AttrValue :=
  t.items.filterMap fun s => s.item.eventValue? t

mutual

/-- The values in a statement that become modifiers. -/
def Statement.eventValues : Statement → List AttrValue
  | .block _ program sections _ =>
    Statement.eventValuesAll program ++ Section.eventValuesAll sections
  | .whole opening => opening.eventValues
  | .element opening children _ => opening.eventValues ++ Statement.eventValuesAll children
  | _ => []

def Statement.eventValuesAll : List Statement → List AttrValue
  | [] => []
  | s :: ss => Statement.eventValues s ++ Statement.eventValuesAll ss

def Section.eventValuesAll : List Section → List AttrValue
  | [] => []
  | ⟨_, body⟩ :: ss => Statement.eventValuesAll body ++ Section.eventValuesAll ss

end

/-- How the change of an argument goes on after the fixes inside of its value: a modifier has them
inside of its handler. The handler is nested as deep as the value was, but for one level. -/
inductive Change.Settles (f : Fixers) (depth : Nat) : Option Change → Option Change → Prop where
  | none : Settles f depth none none
  | name (new : List Char) : Settles f depth (some (.name new)) (some (.name new))
  | whole {event : String} {handler : Expr} (hevent : Closes '"' event.toList)
      (hh : handler.Stands []) (hd : depth ≤ 1 + handler.depth f) :
      Settles f depth (some (.whole (eventText event handler.chars)))
        (some (.whole (eventText event (handler.settled f).chars)))

theorem closes_of_plain {cs : List Char} (h : isPlainName cs = true) : Closes '"' cs := by
  have hall : ∀ c ∈ cs, c.isAlpha = true := by
    simp only [isPlainName, Bool.and_eq_true, List.all_eq_true] at h
    exact h.2
  clear h
  induction cs with
  | nil => trivial
  | cons c cs ih =>
    have hc := hall c (by simp)
    refine (closes_cons ?_ cs).2 ⟨?_, ih fun d hd => hall d (List.mem_cons_of_mem c hd)⟩
    · rintro rfl
      exact absurd hc (by decide)
    · rintro rfl
      exact absurd hc (by decide)

theorem AttrValue.isSome_handler?_settled (v : AttrValue) :
    (v.settled f).handler?.isSome = v.handler?.isSome := by
  cases v <;> rfl

/-- What an argument becomes, for a tag and a value that differ in fixes inside of values only. -/
theorem change?_settles {t t' : OpeningTag} {a : Attribute} {rest : List Char}
    (h : a.Stands rest) (ht : t'.name = t.name)
    (hnames : ∀ name, (t'.items.any fun s => s.item.hasName name) =
      t.items.any fun s => s.item.hasName name)
    (hk : ∀ v, (Item.attribute a).eventValue? t = some v → v.Carried f) :
    Change.Settles f (a.depth f) (t.change? a) (t'.change? (a.settledValue f)) := by
  have hmigration : t'.migration? (a.settledValue f) = t.migration? a := by
    unfold OpeningTag.migration?
    rw [ht]
    rfl
  rw [Item.eventValue?] at hk
  rw [OpeningTag.change?_eq] at hk ⊢
  rw [OpeningTag.change?_eq, hmigration]
  cases hm : t.migration? a with
  | none => exact .none
  | some migration =>
    rw [hm, Option.bind_some] at hk
    rw [Option.bind_some, Option.bind_some]
    cases migration with
    | «attribute» name =>
      rw [OpeningTag.changeBy?, OpeningTag.changeBy?, hnames]
      split
      · exact .none
      · exact .name _
    | event event =>
      have hevent := closes_of_plain (OpeningTag.eq_of_migration? hm).2
      obtain ⟨name, assigned⟩ := a
      cases assigned with
      | none => exact .none
      | some v =>
        obtain ⟨-, -, -, -, hv⟩ := h
        simp only [OpeningTag.changeBy?, Attribute.settledValue, Option.map_some, Option.bind_some,
          Assigned.settled] at hk ⊢
        cases hh : v.value.handler? with
        | none =>
          have hsettled := v.value.isSome_handler?_settled (f := f)
          rw [hh, Option.isSome_none, Option.isSome_eq_false_iff, Option.isNone_iff_eq_none]
            at hsettled
          rw [hsettled]
          exact .none
        | some handler =>
          rw [hh] at hk
          obtain ⟨e, rfl, he, hsettled, hd⟩ := hv.handler (hk _ rfl) hh
          rw [hsettled]
          exact .whole hevent he hd

end Concrete

end TemplateLint
