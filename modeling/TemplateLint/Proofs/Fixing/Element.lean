import TemplateLint.Proofs.Fixing.Mustache

namespace TemplateLint

open Text (size opens isBlank AllBlank startsWith Clear)

namespace Concrete

variable (f : Fixers) (g : Span → Bool)

def Part.draftAll : List Part → Draft
  | [] => .text []
  | .text cs :: ps => .append (.text cs) (Part.draftAll ps)
  | .mustache m :: ps => .append (m.draft f) (Part.draftAll ps)

def Part.editAll (k : Nat) : List Part → List Part
  | [] => []
  | .text cs :: ps => .text cs :: Part.editAll (k + size cs) ps
  | .mustache m :: ps => .mustache (m.edit f g k) :: Part.editAll (k + size m.chars) ps

def AttrValue.draft : AttrValue → Draft
  | .quoted mark parts =>
    .append (.text [mark]) (.append (Part.draftAll f parts) (.text [mark]))
  | .mustache m => m.draft f
  | .bare cs => .text cs

def AttrValue.edit (k : Nat) : AttrValue → AttrValue
  | .quoted mark parts => .quoted mark (Part.editAll f g (k + size [mark]) parts)
  | .mustache m => .mustache (m.edit f g k)
  | .bare cs => .bare cs

@[simp] theorem Part.chars_draftAll (ps : List Part) :
    (Part.draftAll f ps).chars = ps.flatMap Part.chars := by
  induction ps with
  | nil => rfl
  | cons p ps ih => cases p <;> simp [Part.draftAll, Draft.chars, ih, Part.chars]

theorem Part.chars_editAll (ps : List Part) (k : Nat) :
    (Part.editAll f g k ps).flatMap Part.chars = (Part.draftAll f ps).edited g k := by
  induction ps generalizing k with
  | nil => rfl
  | cons p ps ih =>
    cases p with
    | text cs =>
      simp [Part.editAll, Part.draftAll, Draft.edited, Draft.chars, ih, Part.chars]
    | mustache m =>
      simp [Part.editAll, Part.draftAll, Draft.edited, ih, Part.chars, Mustache.chars_edit]

@[simp] theorem AttrValue.chars_draft (v : AttrValue) : (v.draft f).chars = v.chars := by
  cases v <;> simp [AttrValue.draft, Draft.chars, AttrValue.chars]

theorem AttrValue.chars_edit (v : AttrValue) (k : Nat) :
    (v.edit f g k).chars = (v.draft f).edited g k := by
  cases v with
  | quoted mark parts =>
    simp [AttrValue.edit, AttrValue.draft, AttrValue.chars, Draft.edited, Draft.chars,
      Part.chars_editAll]
  | mustache m => exact Mustache.chars_edit f g m k
  | bare cs => rfl

variable {f g}

theorem Part.AllStand.sound {mark : Char} {ps : List Part} (h : Part.AllStand mark ps) :
    (Part.draftAll f ps).Sound := by
  induction ps with
  | nil => trivial
  | cons p ps ih =>
    cases p with
    | text cs => exact ⟨trivial, ih h.2.2.2⟩
    | mustache m => exact ⟨h.1.sound, ih h.2⟩

theorem AttrValue.Stands.sound {v : AttrValue} {rest : List Char} (h : v.Stands rest) :
    (v.draft f).Sound := by
  cases v with
  | quoted mark parts => exact ⟨trivial, h.2.sound, trivial⟩
  | mustache m => exact Mustache.Stands.sound h
  | bare cs => trivial

@[simp] theorem fixesAt_text (src : String) (t : Tree.TextRun) :
    f.fixesAt src (.text t) = [] := by
  simp [Fixers.fixesAt, Rule.visit, NegatedCondition.rule, ComponentArguments.rule, Tree.Node.kind]

theorem Part.AllStand.fixes_perm {mark : Char} {ps : List Part} (h : Part.AllStand mark ps)
    (u v : List Char) (src : String)
    (hsrc : src = String.ofList (u ++ (ps.flatMap Part.chars ++ v))) {k : Nat} (hk : k = size u) :
    (f.fixesIn src ((Part.atAll k ps).flatMap Tree.ConcatPart.nodes)).Perm
      ((Part.draftAll f ps).fixes k) := by
  induction ps generalizing u k with
  | nil => exact .nil
  | cons p ps ih =>
    cases p with
    | text cs =>
      have hps := ih h.2.2.2 (u ++ cs) (by rw [hsrc]; simp [Part.chars]) (k := k + size cs)
        (by rw [hk, Text.size_append])
      simp only [Part.atAll, List.flatMap_cons, Tree.ConcatPart.nodes, Part.draftAll, Draft.fixes,
        Draft.chars, List.cons_append, List.nil_append, Fixers.fixesIn_cons, fixesAt_text]
      exact hps
    | mustache m =>
      have hm := h.1.fixes_perm (f := f) u (ps.flatMap Part.chars ++ v) src
        (by rw [hsrc]; simp [Part.chars]) hk
      have hps := ih h.2 (u ++ m.chars) (by rw [hsrc]; simp [Part.chars]) (k := k + size m.chars)
        (by rw [hk, Text.size_append])
      simp only [Part.atAll, List.flatMap_cons, Tree.ConcatPart.nodes, Part.draftAll, Draft.fixes,
        Fixers.fixesIn_append, Mustache.chars_draft]
      exact hm.append hps

theorem Part.fixesIn_text {ps : List Part} (h : ps.any Part.isMustache = false) (k : Nat) :
    (Part.draftAll f ps).fixes k = [] := by
  induction ps generalizing k with
  | nil => rfl
  | cons p ps ih =>
    cases p with
    | text cs => exact ih (by simpa [Part.isMustache] using h) _
    | mustache m => simp [Part.isMustache] at h

theorem AttrValue.Stands.fixes_perm {w : AttrValue} {rest : List Char} (h : w.Stands rest)
    (u v : List Char) (src : String) (hsrc : src = String.ofList (u ++ (w.chars ++ v))) {k : Nat}
    (hk : k = size u) :
    (f.fixesIn src (w.at k).nodes).Perm ((w.draft f).fixes k) := by
  cases w with
  | quoted mark parts =>
    have hparts := h.2.fixes_perm (f := f) (u ++ [mark]) ([mark] ++ v) src
      (by rw [hsrc]; simp [AttrValue.chars]) (k := k + size [mark]) (by rw [hk, Text.size_append])
    cases hany : parts.any Part.isMustache with
    | true =>
      rw [AttrValue.at]
      simp only [hany, if_true, Tree.AttrValue.nodes, AttrValue.draft, Draft.fixes, Draft.chars,
        List.nil_append, List.append_nil]
      exact hparts
    | false =>
      rw [AttrValue.at]
      simp [hany, Tree.AttrValue.nodes, AttrValue.draft, Draft.fixes, Part.fixesIn_text hany]
  | mustache m => exact Mustache.Stands.fixes_perm h u v src hsrc hk
  | bare cs => simp [AttrValue.at, Tree.AttrValue.nodes, AttrValue.draft, Draft.fixes]

theorem Mustache.head_edit (m : Mustache) (k : Nat) (s : List Char) :
    ((m.edit f g k).chars ++ s).head? = (m.chars ++ s).head? := by
  obtain ⟨t, ht⟩ := (m.edit f g k).chars_eq_cons
  obtain ⟨t', ht'⟩ := m.chars_eq_cons
  rw [ht, ht']
  rfl

theorem Part.head_editAll (ps : List Part) (k : Nat) (s : List Char) :
    ((Part.editAll f g k ps).flatMap Part.chars ++ s).head? =
      (ps.flatMap Part.chars ++ s).head? := by
  induction ps generalizing k with
  | nil => rfl
  | cons p ps ih =>
    cases p with
    | text cs =>
      simp only [Part.editAll, List.flatMap_cons, List.append_assoc]
      exact head_append_congr (ih _) cs
    | mustache m =>
      simp only [Part.editAll, List.flatMap_cons, List.append_assoc]
      rw [show Part.chars (.mustache (m.edit f g k)) = (m.edit f g k).chars from rfl,
        Mustache.head_edit]
      exact head_append_congr (ih _) m.chars

theorem Part.AllStand.edit {mark : Char} {ps : List Part} (h : Part.AllStand mark ps) (k : Nat) :
    Part.AllStand mark (Part.editAll f g k ps) := by
  induction ps generalizing k with
  | nil => trivial
  | cons p ps ih =>
    cases p with
    | mustache m => exact ⟨h.1.edit k, ih h.2 _⟩
    | text cs =>
      obtain ⟨hne, hclear, hend, hps⟩ := h
      have hhead := Part.head_editAll (f := f) (g := g) ps (k + size cs) [mark]
      refine ⟨hne, clear_of_head (near_partEndAhead mark) hhead.symm hclear, ?_, ih hps _⟩
      cases ps with
      | nil => exact hend
      | cons q ps =>
        cases q with
        | mustache m =>
          simp only [Part.editAll, List.flatMap_cons, Part.chars, List.append_assoc]
          exact partEndAhead_mustache mark _ _
        | text cs' =>
          obtain ⟨hne', hclear', -, -⟩ := hps
          cases cs' with
          | nil => exact absurd rfl hne'
          | cons c cs' =>
            have hc := hclear'.1
            have hc : partEndAhead mark ((.text (c :: cs') :: ps).flatMap Part.chars ++ [mark]) =
                false := by simpa [Part.chars] using hc
            rw [hend] at hc
            cases hc

theorem AttrValue.Stands.edit {v : AttrValue} {rest : List Char} (h : v.Stands rest) (k : Nat) :
    (v.edit f g k).Stands rest := by
  cases v with
  | quoted mark parts => exact ⟨h.1, h.2.edit _⟩
  | mustache m => exact Mustache.Stands.edit h k
  | bare cs => exact h

/-- How an argument of a component is to be written. -/
inductive Change where
  /-- Under another name. -/
  | name (new : List Char)
  /-- As this text, which is to be a modifier. -/
  | whole (text : List Char)

/-- The text of a call from its callee to its last argument. -/
def Call.body (c : Call) : List Char := c.callee.chars ++ Arg.charsAll c.args

theorem Call.chars_eq (c : Call) : c.chars = c.lead ++ (c.body ++ c.trail) := by
  cases c
  simp [Call.chars, Call.body]

/-- The value of an event argument, written as the argument of a modifier. -/
def AttrValue.handler? : AttrValue → Option (List Char)
  | .quoted mark parts => some (AttrValue.quoted mark parts).chars
  | .mustache m => some (if m.call.args.isEmpty then m.call.body else '(' :: (m.call.body ++ [')']))
  | .bare cs => (ComponentArguments.stringLiteral? (String.ofList cs)).map String.toList

def Attribute.argument? (a : Attribute) : Option String :=
  match a.name with
  | '@' :: name => some (String.ofList name)
  | _ => none

def Item.hasName (name : String) : Item → Bool
  | .attribute a => String.ofList a.name == name
  | _ => false

/-- What becomes of an attribute of an element. -/
def OpeningTag.change? (t : OpeningTag) (a : Attribute) : Option Change := do
  let c ← Component.schema? (String.ofList t.name)
  let name ← a.argument?
  let d ← c.deprecation? name
  match ← d.fix with
  | .attribute name =>
    if t.items.any fun s => s.item.hasName name then none else some (.name name.toList)
  | .event event => do
    let v ← a.assigned
    let handler ← v.value.handler?
    some (.whole (inBraces ("on \"" ++ event ++ "\" " ++ String.ofList handler)).toList)

def Change.fix (k : Nat) (a : Attribute) : Change → Fix
  | .name new => ⟨.over k a.name, String.ofList new⟩
  | .whole text => ⟨.over k a.chars, String.ofList text⟩

/-- Where the last argument ends; `stop` is where it does when there is none. -/
def lastStop (stop : Nat) (params : List Tree.Expr) (hash : List Tree.HashPair) : Nat :=
  match hash.getLast?, params.getLast? with
  | some pair, _ => pair.span.stop
  | none, some param => param.span.stop
  | none, none => stop

theorem lastStop_param (stop : Nat) (p : Tree.Expr) (params : List Tree.Expr)
    (hash : List Tree.HashPair) :
    lastStop stop (p :: params) hash = lastStop p.span.stop params hash := by
  unfold lastStop
  rw [List.getLast?_cons]
  cases hash.getLast? with
  | some pair => rfl
  | none => cases params.getLast? <;> rfl

theorem lastStop_pair (stop : Nat) (pair : Tree.HashPair) (hash : List Tree.HashPair) :
    lastStop stop [] (pair :: hash) = lastStop pair.span.stop [] hash := by
  unfold lastStop
  rw [List.getLast?_cons]
  cases hash.getLast? <;> rfl

theorem Arg.AllStand.lastStop_eq {named : Bool} {args : List Arg} {rest : List Char}
    (h : Arg.AllStand named args rest) (k : Nat) :
    lastStop k (Arg.paramsAt k args) (Arg.hashAt k args) = k + size (Arg.charsAll args) := by
  induction args generalizing named k with
  | nil => rfl
  | cons a args ih =>
    obtain ⟨lead, key, value⟩ := a
    cases key with
    | none =>
      obtain ⟨-, -, -, hargs⟩ := h
      have hih := ih hargs (k + size lead + size (keyChars none) + value.width)
      simp only [Arg.paramsAt, Arg.hashAt, lastStop_param]
      rw [Expr.at_span]
      simp only [keyChars, Text.size_nil, Nat.add_zero, Expr.width_eq, Span.over] at hih ⊢
      rw [hih]
      simp only [Arg.charsAll, Arg.chars, keyChars, Text.size_append, Text.size_nil]
      omega
    | some key =>
      obtain ⟨-, -, -, hargs⟩ := h
      have hih := ih hargs (k + size lead + size (keyChars (some key)) + value.width)
      rw [hargs.paramsAt_true] at hih
      simp only [Arg.paramsAt, Arg.hashAt, hargs.paramsAt_true, lastStop_pair]
      rw [hih]
      simp only [Arg.charsAll, Arg.chars, Text.size_append, Expr.width_eq]
      omega

theorem Call.Stands.callSpan_eq {c : Call} {rest : List Char} (h : c.Stands rest) (k : Nat) :
    ComponentArguments.callSpan (c.at k) = .over (k + size c.lead) c.body := by
  obtain ⟨lead, callee, args, trail⟩ := c
  obtain ⟨-, -, hargs, -⟩ := h
  have hlast := hargs.lastStop_eq (k + size lead + callee.width)
  have hcallee := Expr.at_span (k + size lead) callee
  unfold ComponentArguments.callSpan Span.over
  simp only [Call.at, hcallee]
  simp only [Span.over, Call.body, Span.mk.injEq, true_and, Text.size_append]
  rw [← Nat.add_assoc, ← Expr.width_eq, ← hlast]
  rfl

theorem Call.at_isEmpty (k : Nat) (c : Call) :
    ((c.at k).params.isEmpty && (c.at k).hash.isEmpty) = c.args.isEmpty := by
  obtain ⟨lead, callee, args, trail⟩ := c
  cases args with
  | nil => rfl
  | cons a args =>
    obtain ⟨gap, key, value⟩ := a
    cases key with
    | none => rfl
    | some key => simp [Call.at, Arg.paramsAt, Arg.hashAt]

theorem AttrValue.Stands.handler?_at {w : AttrValue} {rest : List Char} (h : w.Stands rest)
    (u v : List Char) (src : String) (hsrc : src = String.ofList (u ++ (w.chars ++ v))) {k : Nat}
    (hk : k = size u) :
    ComponentArguments.handler? src (w.at k) = w.handler?.map String.ofList := by
  have hslice : Text.slice (.over k w.chars) src = String.ofList w.chars := slice_over u v hsrc hk
  cases w with
  | quoted mark parts =>
    unfold ComponentArguments.handler?
    cases hany : parts.any Part.isMustache with
    | true => simp [AttrValue.at, hany, hslice, AttrValue.handler?]
    | false =>
      have hmark := h.1
      simp only [AttrValue.at, hany, Bool.false_eq_true, if_false, hslice, AttrValue.handler?,
        Option.map_some]
      rcases hmark with rfl | rfl <;> simp [AttrValue.chars]
  | mustache m =>
    have hbody : Text.slice (.over (k + size m.opening + size m.call.lead) m.call.body) src =
        String.ofList m.call.body := by
      apply slice_over (u ++ m.opening ++ m.call.lead) (m.call.trail ++ m.closing ++ v)
      · rw [hsrc, AttrValue.chars, Mustache.chars_eq, Call.chars_eq]
        simp
      · rw [hk]
        simp only [Text.size_append]
    have hspan := Call.Stands.callSpan_eq h (k + size m.opening)
    unfold ComponentArguments.handler?
    simp only [AttrValue.at, AttrValue.handler?, Mustache.at, hspan, hbody]
    rw [Call.at_isEmpty]
    cases m.call.args.isEmpty with
    | true => simp
    | false => simp [String.ofList_append, String.append_assoc]
  | bare cs =>
    unfold ComponentArguments.handler?
    have hfirst : ∀ mark, IsQuote mark → cs.head? ≠ some mark := by
      rintro mark hm hhead
      obtain ⟨-, -, hopens, -⟩ := h
      cases cs with
      | nil => cases hhead
      | cons c cs =>
        obtain rfl : c = mark := by simpa using hhead
        rcases hm with rfl | rfl <;> cases hopens
    have hslice : Text.slice (.over k cs) src = String.ofList cs := hslice
    simp only [AttrValue.at, hslice, AttrValue.handler?, String.toList_ofList]
    have hmap : (Option.map String.toList (ComponentArguments.stringLiteral? (String.ofList cs))).map
        String.ofList = ComponentArguments.stringLiteral? (String.ofList cs) := by
      simp [Option.map_map, Function.comp_def]
    rw [hmap]
    split
    · next hq => exact absurd hq (hfirst _ (Or.inl rfl))
    · next hq => exact absurd hq (hfirst _ (Or.inr rfl))
    · rfl

/-- A name without any character that could end it. -/
def isPlainName (cs : List Char) : Bool := !cs.isEmpty && cs.all Char.isAlpha

/-- Whether the name that a migration writes is plain, and not the word that begins block
parameters. -/
def isPlainMigration : Migration → Bool
  | .attribute name => isPlainName name.toList && name != "as"
  | .event name => isPlainName name.toList

theorem isPlainMigration_of_deprecations :
    (Component.all.all fun c => (c.deprecatedArguments ++ c.deprecatedEvents).all fun p =>
      (p.2.fix.map isPlainMigration).getD true) = true := by
  decide +kernel

theorem mem_of_lookup {ps : List (String × Deprecation)} {name : String} {d : Deprecation}
    (h : ps.lookup name = some d) : (name, d) ∈ ps := by
  obtain ⟨l₁, l₂, rfl, -⟩ := List.lookup_eq_some_iff.1 h
  simp

/-- What the attribute becomes as an argument of a component. -/
def OpeningTag.migration? (t : OpeningTag) (a : Attribute) : Option Migration := do
  let c ← Component.schema? (String.ofList t.name)
  let name ← a.argument?
  let d ← c.deprecation? name
  d.fix

/-- How the modifier for an event is written. -/
def eventText (event : String) (handler : List Char) : List Char :=
  (inBraces ("on \"" ++ event ++ "\" " ++ String.ofList handler)).toList

/-- The change that a migration is for the attribute, if there is one. -/
def OpeningTag.changeBy? (t : OpeningTag) (a : Attribute) : Migration → Option Change
  | .attribute name =>
    if t.items.any fun s => s.item.hasName name then none else some (.name name.toList)
  | .event event =>
    a.assigned.bind fun v =>
      v.value.handler?.map fun handler => .whole (eventText event handler)

theorem OpeningTag.change?_eq (t : OpeningTag) (a : Attribute) :
    t.change? a = (t.migration? a).bind (t.changeBy? a) := by
  unfold OpeningTag.change? OpeningTag.migration?
  simp only [Option.bind_eq_bind, Option.bind_assoc]
  congr; funext c
  congr; funext argument
  congr; funext d
  congr; funext migration
  cases migration with
  | «attribute» name => rfl
  | event name => simp only [OpeningTag.changeBy?, Option.map_eq_bind, Function.comp_def, eventText]

theorem OpeningTag.eq_of_migration? {t : OpeningTag} {a : Attribute} {m : Migration}
    (h : t.migration? a = some m) : (∃ name, a.name = '@' :: name) ∧ isPlainMigration m = true := by
  obtain ⟨c, hc, h⟩ := Option.bind_eq_some_iff.1 h
  obtain ⟨argument, hargument, h⟩ := Option.bind_eq_some_iff.1 h
  obtain ⟨d, hd, hm⟩ := Option.bind_eq_some_iff.1 h
  constructor
  · unfold Attribute.argument? at hargument
    split at hargument
    · next name hname => exact ⟨name, hname⟩
    · cases hargument
  · have hmem : c ∈ Component.all := List.mem_of_find?_eq_some hc
    have hpair : (argument, d) ∈ c.deprecatedArguments ++ c.deprecatedEvents := by
      rw [List.mem_append]
      rcases Option.or_eq_some_iff.1 hd with h | ⟨-, h⟩
      · exact Or.inl (mem_of_lookup h)
      · exact Or.inr (mem_of_lookup h)
    have hall :=
      List.all_eq_true.1 (List.all_eq_true.1 isPlainMigration_of_deprecations c hmem) _ hpair
    simpa [hm] using hall

theorem eq_of_change? {t : OpeningTag} {a : Attribute} {c : Change} (h : t.change? a = some c) :
    (∃ name, a.name = '@' :: name) ∧
      ((∃ new, c = .name new ∧ isPlainName new = true ∧ new ≠ Token.asWord.chars) ∨
        ∃ s, c = .whole ('{' :: '{' :: 'o' :: s)) := by
  rw [OpeningTag.change?_eq] at h
  obtain ⟨migration, hm, h⟩ := Option.bind_eq_some_iff.1 h
  obtain ⟨hname, hplain⟩ := OpeningTag.eq_of_migration? hm
  refine ⟨hname, ?_⟩
  cases migration with
  | «attribute» name =>
    obtain ⟨hplain, has⟩ := Bool.and_eq_true_iff.1 hplain
    rw [OpeningTag.changeBy?] at h
    split at h
    · cases h
    · cases h
      refine Or.inl ⟨_, rfl, hplain, ?_⟩
      intro he
      have hname := congrArg String.ofList he
      rw [String.ofList_toList] at hname
      exact bne_iff_ne.1 has hname
  | event name =>
    obtain ⟨v, -, h⟩ := Option.bind_eq_some_iff.1 h
    obtain ⟨handler, -, rfl⟩ := Option.map_eq_some_iff.1 h
    exact Or.inr ⟨_, by simp [eventText, inBraces]; rfl⟩

end Concrete

namespace Fixers

/-- What becomes of an attribute when the rule for arguments is on. -/
def change? (f : Fixers) (t : Concrete.OpeningTag) (a : Concrete.Attribute) :
    Option Concrete.Change :=
  if f.arguments then t.change? a else none

theorem eq_of_change? {f : Fixers} {t : Concrete.OpeningTag} {a : Concrete.Attribute}
    {c : Concrete.Change} (h : f.change? t a = some c) :
    f.arguments = true ∧ t.change? a = some c := by
  unfold change? at h
  split at h
  · next hf => exact ⟨hf, h⟩
  · cases h

end Fixers

namespace Concrete

variable (f : Fixers) (g : Span → Bool)

def Attribute.valueDraft (a : Attribute) : Draft :=
  match a.assigned with
  | none => .text []
  | some v => .append (.text (v.before ++ ['='] ++ v.after)) (v.value.draft f)

def Attribute.draft (a : Attribute) : Option Change → Draft
  | none => .append (.text a.name) (a.valueDraft f)
  | some (.name new) => .append (.place (.text a.name) new) (a.valueDraft f)
  | some (.whole text) => .place (.append (.text a.name) (a.valueDraft f)) text

def Assigned.edit (k : Nat) (v : Assigned) : Assigned :=
  ⟨v.before, v.after, v.value.edit f g (k + size (v.before ++ ['='] ++ v.after))⟩

def Attribute.editValue (k : Nat) (a : Attribute) : Attribute :=
  ⟨a.name, a.assigned.map (Assigned.edit f g (k + size a.name))⟩

def Attribute.named (a : Attribute) (name : List Char) : Attribute := ⟨name, a.assigned⟩

/-- The modifier that a text is read as. -/
def modifier? (text : List Char) : Option Item :=
  match Mustache.read text with
  | .ok (m, []) => some (.modifier m)
  | _ => none

/-- A changed argument is read back as it was meant. -/
def Change.reads : Change → Bool
  | .name _ => true
  | .whole text => (modifier? text).isSome

def Attribute.edit (k : Nat) (a : Attribute) : Option Change → Item
  | none => .attribute (a.editValue f g k)
  | some (.name new) =>
    .attribute (pick (g (.over k a.name)) (some ((a.editValue f g k).named new))
      (a.editValue f g k))
  | some (.whole text) =>
    pick (g (.over k a.chars)) (modifier? text) (.attribute (a.editValue f g k))

theorem Attribute.chars_eq (a : Attribute) : a.chars = a.name ++ (a.valueDraft f).chars := by
  obtain ⟨name, assigned⟩ := a
  cases assigned <;> simp [Attribute.chars, Attribute.valueDraft, Draft.chars, Assigned.chars]

@[simp] theorem Attribute.chars_draft (a : Attribute) (c : Option Change) :
    (a.draft f c).chars = a.chars := by
  rw [Attribute.chars_eq f]
  match c with
  | none => rfl
  | some (.name new) => rfl
  | some (.whole text) => rfl

theorem Attribute.chars_editValue (a : Attribute) (k : Nat) :
    ((a.editValue f g k).assigned.map Assigned.chars).getD [] =
      (a.valueDraft f).edited g (k + size a.name) := by
  obtain ⟨name, assigned⟩ := a
  cases assigned with
  | none => rfl
  | some v =>
    simp [Attribute.editValue, Attribute.valueDraft, Draft.edited, Draft.chars, Assigned.chars,
      Assigned.edit, AttrValue.chars_edit]

theorem eq_of_modifier? {text : List Char} {i : Item} (h : modifier? text = some i) :
    ∃ m, i = .modifier m ∧ text = m.chars ∧ m.Stands := by
  unfold modifier? at h
  split at h
  · next m hm =>
    cases h
    obtain ⟨he, hm⟩ := Mustache.eq_of_read hm
    exact ⟨m, rfl, by simpa using he, hm⟩
  · cases h

/-- An attribute is read with its fixes where the modifier that is chosen for it is read as one. -/
theorem Attribute.chars_edit (a : Attribute) (k : Nat) (c : Option Change)
    (hc : ∀ text, c = some (.whole text) → g (.over k a.chars) = true →
      (modifier? text).isSome = true) :
    (a.edit f g k c).chars = (a.draft f c).edited g k := by
  have hvalue := a.chars_editValue f g k
  match c with
  | none =>
    show a.name ++ _ = a.name ++ _
    rw [hvalue]
    rfl
  | some (.name new) =>
    have hspan : (⟨k, k + size a.name⟩ : Span) = .over k a.name := rfl
    simp only [Attribute.edit, Attribute.draft, Draft.edited, Draft.chars, hspan, pick]
    rw [← hvalue]
    split <;> rfl
  | some (.whole text) =>
    have hspan : (⟨k, k + size a.chars⟩ : Span) = .over k a.chars := rfl
    simp only [Attribute.edit, Attribute.draft, Draft.edited, Draft.chars, ← Attribute.chars_eq,
      hspan]
    rw [← hvalue]
    cases hg : g (.over k a.chars) with
    | false => cases modifier? text <;> rfl
    | true =>
      obtain ⟨i, hi⟩ := Option.isSome_iff_exists.1 (hc text rfl hg)
      obtain ⟨m, rfl, htext, -⟩ := eq_of_modifier? hi
      rw [hi]
      exact htext.symm

variable {f g}

theorem Attribute.Stands.soundValue {a : Attribute} {rest : List Char} (h : a.Stands rest) :
    (a.valueDraft f).Sound := by
  obtain ⟨name, assigned⟩ := a
  cases assigned with
  | none => trivial
  | some v =>
    obtain ⟨-, -, -, -, hv⟩ := h
    exact ⟨trivial, AttrValue.Stands.sound hv⟩

theorem Attribute.Stands.sound {a : Attribute} {rest : List Char} (h : a.Stands rest)
    {t : OpeningTag} {c : Option Change} (hc : ∀ d, c = some d → t.change? a = some d) :
    (a.draft f c).Sound := by
  match c with
  | none => exact ⟨trivial, h.soundValue⟩
  | some (.name new) =>
    obtain ⟨⟨name, hname⟩, ⟨new', hnew, hplain, -⟩ | ⟨s, hs⟩⟩ := eq_of_change? (hc _ rfl)
    · cases hnew
      refine ⟨⟨trivial, by simp [Draft.opensPlain, hname], ?_⟩, h.soundValue⟩
      cases new with
      | nil => cases hplain
      | cons c new =>
        simp only [isPlainName, List.isEmpty_cons, List.all_cons, Bool.and_eq_true] at hplain
        have hne : '@' ≠ c := by
          rintro rfl
          exact absurd hplain.2.1 (by decide)
        rw [Draft.chars, hname]
        exact differ_word hne [] name new
    · cases hs
  | some (.whole text) =>
    obtain ⟨⟨name, hname⟩, ⟨new', hnew, -⟩ | ⟨s, hs⟩⟩ := eq_of_change? (hc _ rfl)
    · cases hnew
    · cases hs
      refine ⟨⟨trivial, h.soundValue⟩, by simp [Draft.opensPlain, hname], ?_⟩
      rw [Draft.chars, Draft.chars, hname]
      exact differ_word (by decide) [] _ _

@[simp] theorem fixesAt_attribute (src : String) (a : Tree.Attribute) :
    f.fixesAt src (.attribute a) = [] := by
  simp [Fixers.fixesAt, Rule.visit, NegatedCondition.rule, ComponentArguments.rule, Tree.Node.kind]

theorem Attribute.Stands.fixes_permValue {a : Attribute} {rest : List Char} (h : a.Stands rest)
    (u v : List Char) (src : String) (hsrc : src = String.ofList (u ++ (a.chars ++ v))) {k : Nat}
    (hk : k = size u) :
    (f.fixesIn src (a.at k).nodes).Perm ((a.valueDraft f).fixes (k + size a.name)) := by
  obtain ⟨name, assigned⟩ := a
  cases assigned with
  | none =>
    simp [Attribute.at, Tree.Attribute.nodes, Tree.AttrValue.nodes, Attribute.valueDraft,
      Draft.fixes]
  | some w =>
    obtain ⟨-, -, -, -, hv⟩ := h
    have hoffset : k + size name + size w.before + 1 + size w.after =
        k + size name + size (w.before ++ ['='] ++ w.after) := by
      have hone : size ['='] = 1 := rfl
      simp only [Text.size_append, hone]
      omega
    have hvalue := hv.fixes_perm (f := f) (u ++ name ++ (w.before ++ ['='] ++ w.after)) v
      src (by rw [hsrc]; simp [Attribute.chars, Assigned.chars])
      (k := k + size name + size (w.before ++ ['='] ++ w.after))
      (by rw [hk]; simp only [Text.size_append])
    simp only [Attribute.at, Tree.Attribute.nodes, Fixers.fixesIn_cons, fixesAt_attribute,
      List.nil_append, hoffset, Attribute.valueDraft, Draft.fixes, Draft.chars]
    exact hvalue

theorem Attribute.Stands.fixes_perm {a : Attribute} {rest : List Char} (h : a.Stands rest)
    (c : Option Change) (u v : List Char) (src : String)
    (hsrc : src = String.ofList (u ++ (a.chars ++ v))) {k : Nat} (hk : k = size u) :
    ((c.map (Change.fix k a)).toList ++ f.fixesIn src (a.at k).nodes).Perm
      ((a.draft f c).fixes k) := by
  have hvalue := h.fixes_permValue (f := f) u v src hsrc hk
  match c with
  | none => exact hvalue
  | some (.name new) => exact hvalue.cons _
  | some (.whole text) =>
    simp only [Option.map_some, Option.toList_some, Change.fix, Span.over, Attribute.draft,
      Draft.fixes, Draft.chars, List.nil_append, ← Attribute.chars_eq]
    exact hvalue.cons _

variable (f g)

def Item.draft (t : OpeningTag) : Item → Draft
  | .attribute a => a.draft f (f.change? t a)
  | .modifier m => m.innerDraft f
  | .note n => .text n.chars
  | .params p => .text p.chars

def Item.edit (t : OpeningTag) (k : Nat) : Item → Item
  | .attribute a => a.edit f g k (f.change? t a)
  | .modifier m => .modifier (m.editInner f g k)
  | .note n => .note n
  | .params p => .params p

def Spaced.draftAll (t : OpeningTag) : List Spaced → Draft
  | [] => .text []
  | s :: ss => .append (.text s.lead) (.append (s.item.draft f t) (Spaced.draftAll t ss))

def Spaced.editAll (t : OpeningTag) (k : Nat) : List Spaced → List Spaced
  | [] => []
  | s :: ss =>
    ⟨s.lead, s.item.edit f g t (k + size s.lead)⟩ :: Spaced.editAll t (k + size s.chars) ss

def OpeningTag.draft (t : OpeningTag) : Draft :=
  .append (.text (Token.tagOpen.chars ++ t.name))
    (.append (Spaced.draftAll f t t.items) (.text (t.trail ++ tagClosing t.selfClosing)))

def OpeningTag.edit (k : Nat) (t : OpeningTag) : OpeningTag :=
  ⟨t.name, Spaced.editAll f g t (k + size (Token.tagOpen.chars ++ t.name)) t.items, t.trail,
    t.selfClosing⟩

/-- Whether an item that changes is read back. -/
def Item.reads (t : OpeningTag) : Item → Bool
  | .attribute a => ((f.change? t a).map Change.reads).getD true
  | _ => true

/-- Whether every argument that becomes a modifier is read back as one. -/
def OpeningTag.reads (t : OpeningTag) : Bool := t.items.all fun s => s.item.reads f t

theorem Item.reads_attribute {f : Fixers} {t : OpeningTag} {a : Attribute}
    (h : (Item.attribute a).reads f t = true) {c : Change} (hc : f.change? t a = some c) :
    c.reads = true := by
  simpa [Item.reads, hc] using h

@[simp] theorem Item.chars_draft (t : OpeningTag) (i : Item) : (i.draft f t).chars = i.chars := by
  match i with
  | .attribute a => exact Attribute.chars_draft f a _
  | .modifier m => exact Mustache.chars_innerDraft f m
  | .note n => rfl
  | .params p => rfl

@[simp] theorem Spaced.chars_draftAll (t : OpeningTag) (ss : List Spaced) :
    (Spaced.draftAll f t ss).chars = ss.flatMap Spaced.chars := by
  induction ss with
  | nil => rfl
  | cons s ss ih => simp [Spaced.draftAll, Draft.chars, ih, Spaced.chars]

@[simp] theorem OpeningTag.chars_draft (t : OpeningTag) : (t.draft f).chars = t.chars := by
  simp [OpeningTag.draft, Draft.chars, OpeningTag.chars, tagClosing]

theorem Item.chars_edit {t : OpeningTag} {i : Item} (h : i.reads f t = true) (k : Nat) :
    (i.edit f g t k).chars = (i.draft f t).edited g k := by
  match i with
  | .attribute a =>
    exact Attribute.chars_edit f g a k _ fun _ hc _ => Item.reads_attribute h hc
  | .modifier m => exact Mustache.chars_editInner f g m k
  | .note n => rfl
  | .params p => rfl

theorem Spaced.chars_editAll_cons {t : OpeningTag} {s : Spaced} {ss : List Spaced} {k : Nat}
    (hs : (s.item.edit f g t (k + size s.lead)).chars =
      (s.item.draft f t).edited g (k + size s.lead))
    (hss : (Spaced.editAll f g t (k + size s.chars) ss).flatMap Spaced.chars =
      (Spaced.draftAll f t ss).edited g (k + size s.chars)) :
    (Spaced.editAll f g t k (s :: ss)).flatMap Spaced.chars =
      (Spaced.draftAll f t (s :: ss)).edited g k := by
  have hsize : k + size s.chars = k + (size s.lead + size s.item.chars) := by
    rw [Spaced.chars, Text.size_append]
  rw [hsize] at hss
  simp [Spaced.editAll, Spaced.draftAll, Draft.edited, Draft.chars, Spaced.chars, hs, hss,
    Nat.add_assoc]

theorem Spaced.chars_editAll {t : OpeningTag} {ss : List Spaced}
    (h : ∀ s ∈ ss, s.item.reads f t = true) (k : Nat) :
    (Spaced.editAll f g t k ss).flatMap Spaced.chars =
      (Spaced.draftAll f t ss).edited g k := by
  induction ss generalizing k with
  | nil => rfl
  | cons s ss ih =>
    have hs := Item.chars_edit f g (h s (by simp)) (k + size s.lead)
    have hss := ih (fun s hs => h s (List.mem_cons_of_mem _ hs)) (k + size s.chars)
    exact Spaced.chars_editAll_cons f g hs hss

theorem OpeningTag.chars_edit {t : OpeningTag} (h : t.reads f = true) (k : Nat) :
    (t.edit f g k).chars = (t.draft f).edited g k := by
  have hitems := Spaced.chars_editAll f g (List.all_eq_true.1 h)
    (k + size (Token.tagOpen.chars ++ t.name))
  rw [Text.size_append] at hitems
  simp [OpeningTag.edit, OpeningTag.chars, OpeningTag.draft, Draft.edited, Draft.chars, hitems,
    tagClosing]

variable {f g}

theorem Item.Stands.sound {t : OpeningTag} {i : Item} {rest : List Char} (h : i.Stands rest) :
    (i.draft f t).Sound := by
  match i, h with
  | .attribute a, ha =>
    exact Attribute.Stands.sound ha fun d hd => (Fixers.eq_of_change? hd).2
  | .modifier m, hm => exact hm.1.soundInner
  | .note n, _ => trivial
  | .params p, _ => trivial

theorem Spaced.AllStand.sound {t : OpeningTag} {ss : List Spaced} {rest : List Char}
    (h : Spaced.AllStand ss rest) : (Spaced.draftAll f t ss).Sound := by
  induction ss with
  | nil => trivial
  | cons s ss ih => exact ⟨trivial, h.2.1.sound, ih h.2.2⟩

theorem OpeningTag.Stands.sound {t : OpeningTag} (h : t.Stands) : (t.draft f).Sound :=
  ⟨trivial, h.2.2.2.1.sound, trivial⟩

/-- The fix for one attribute of an element. -/
def attributeFix? (source : String) (e : Tree.Element) (a : Tree.Attribute) : Option Fix := do
  let c ← Component.schema? e.tag
  let name ← a.argumentName?
  let d ← c.deprecation? name
  let migration ← d.fix
  ComponentArguments.migrationFix? source e a migration

theorem argumentFixes_eq (source : String) (c : ComponentSchema) (e : Tree.Element)
    (p : String × Tree.Attribute) :
    (ComponentArguments.argumentFindings source c e p).filterMap Finding.fix =
      ((c.deprecation? p.1).bind fun d =>
        d.fix.bind (ComponentArguments.migrationFix? source e p.2)).toList := by
  obtain ⟨name, a⟩ := p
  unfold ComponentArguments.argumentFindings
  dsimp only
  cases c.deprecation? name with
  | some d =>
    rw [Option.bind_some]
    cases hd : d.fix.bind (ComponentArguments.migrationFix? source e a) <;> simp [hd]
  | none =>
    rw [Option.bind_none, Option.toList_none]
    dsimp only
    split <;> simp

/-- The fixes among the findings of an element are those for its attributes. -/
theorem elementFixes_eq {c : ComponentSchema} {e : Tree.Element}
    (hc : Component.schema? e.tag = some c) (source : String) :
    (ComponentArguments.elementFindings source c e).filterMap Finding.fix =
      e.attributes.filterMap (attributeFix? source e) := by
  have hmissing : (ComponentArguments.missing c e).filterMap Finding.fix = [] := by
    simp [ComponentArguments.missing]
  have hfix : ∀ a, attributeFix? source e a = a.argumentName?.bind fun name =>
      (c.deprecation? name).bind fun d =>
        d.fix.bind (ComponentArguments.migrationFix? source e a) := by
    intro a
    simp only [attributeFix?, hc, Option.bind_eq_bind, Option.bind_some]
  rw [ComponentArguments.elementFindings, List.filterMap_append, hmissing, List.nil_append,
    List.filterMap_flatMap, Tree.Element.arguments]
  induction e.attributes with
  | nil => rfl
  | cons a as ih =>
    rw [List.filterMap_cons, List.filterMap_cons, hfix a]
    cases ha : a.argumentName? with
    | none => simpa using ih
    | some name =>
      simp only [Option.map_some, Option.bind_some]
      rw [List.flatMap_cons, ih, argumentFixes_eq]
      cases (c.deprecation? name).bind fun d =>
        d.fix.bind (ComponentArguments.migrationFix? source e a) <;> rfl

/-- The fixes at an element are those for its attributes. -/
theorem fixesAt_element (source : String) (e : Tree.Element) :
    f.fixesAt source (.element e) =
      if f.arguments then e.attributes.filterMap (attributeFix? source e) else [] := by
  cases hf : f.arguments with
  | false => simp [Fixers.fixesAt, hf, Rule.visit, NegatedCondition.rule, Tree.Node.kind]
  | true =>
    have hother : NegatedCondition.rule.visit source (.element e) = [] := by
      simp [Rule.visit, NegatedCondition.rule, Tree.Node.kind]
    simp only [Fixers.fixesAt, hf, if_true, hother, List.filterMap_nil, ite_self, List.nil_append]
    cases hc : Component.schema? e.tag with
    | none =>
      have hnone : attributeFix? source e = fun _ => none := by
        funext a
        simp [attributeFix?, hc]
      simp [hnone, Rule.visit, ComponentArguments.rule, Tree.Node.kind,
        ComponentArguments.findings, hc]
    | some c =>
      rw [← elementFixes_eq hc]
      simp [Rule.visit, ComponentArguments.rule, Tree.Node.kind, ComponentArguments.findings, hc]

theorem Attribute.at_argumentName? (a : Attribute) (k : Nat) :
    (a.at k).argumentName? = a.argument? :=
  congrArg (fun cs : List Char => match cs with
    | '@' :: name => some (String.ofList name)
    | _ => none) String.toList_ofList

theorem hasAttribute_offsets (name : String) (items : List Spaced) (k : Nat) :
    (((Spaced.offsets k items).filterMap fun
      | (k, .attribute a) => some (a.at k)
      | _ => none).any fun a => a.name == name) = items.any fun s => s.item.hasName name := by
  induction items generalizing k with
  | nil => rfl
  | cons s ss ih =>
    obtain ⟨lead, item⟩ := s
    match item with
    | .attribute a =>
      have hss := ih (k + size (Spaced.mk lead (.attribute a)).chars)
      exact congrArg (String.ofList a.name == name || ·) hss
    | .modifier m => exact ih _
    | .note n => exact ih _
    | .params p => exact ih _

theorem OpeningTag.hasAttribute_at (t : OpeningTag) (k : Nat) (name : String) :
    (t.at k).hasAttribute name = t.items.any fun s => s.item.hasName name :=
  hasAttribute_offsets name t.items (k + 1 + size t.name)

/-- The fix for an attribute is its change. -/
theorem Attribute.Stands.attributeFix?_eq {a : Attribute} {rest : List Char} (h : a.Stands rest)
    (t : OpeningTag) (j : Nat) (u v : List Char) (src : String)
    (hsrc : src = String.ofList (u ++ (a.chars ++ v))) {k : Nat} (hk : k = size u) :
    attributeFix? src (t.at j) (a.at k) = (t.change? a).map (Change.fix k a) := by
  unfold attributeFix? OpeningTag.change?
  rw [Attribute.at_argumentName?, show (t.at j).tag = String.ofList t.name from rfl]
  cases Component.schema? (String.ofList t.name) with
  | none => rfl
  | some c =>
    cases a.argument? with
    | none => rfl
    | some argument =>
      simp only [Option.bind_eq_bind, Option.bind_some]
      cases c.deprecation? argument with
      | none => rfl
      | some d =>
        simp only [Option.bind_some]
        cases d.fix with
        | none => rfl
        | some migration =>
          simp only [Option.bind_some]
          cases migration with
          | «attribute» name =>
            simp only [ComponentArguments.migrationFix?, OpeningTag.hasAttribute_at]
            split
            · rfl
            · simp [Change.fix, Attribute.at]
          | event name =>
            obtain ⟨attr, assigned⟩ := a
            cases assigned with
            | none => rfl
            | some w =>
              obtain ⟨-, -, -, -, hv⟩ := h
              have hhandler := hv.handler?_at (u ++ attr ++ (w.before ++ ['='] ++ w.after)) v
                src (by rw [hsrc]; simp [Attribute.chars, Assigned.chars])
                (k := k + size attr + size w.before + 1 + size w.after)
                (by
                  have hone : size ['='] = 1 := rfl
                  rw [hk]
                  simp only [Text.size_append, hone]
                  omega)
              simp only [ComponentArguments.migrationFix?, Attribute.at, hhandler,
                Option.bind_eq_bind, Option.bind_some]
              cases w.value.handler? with
              | none => rfl
              | some handler => simp [Change.fix]

@[simp] theorem fixesAt_elementModifier (src : String) (m : Tree.ElementModifier) :
    f.fixesAt src (.elementModifier m) = [] := by
  simp [Fixers.fixesAt, Rule.visit, NegatedCondition.rule, ComponentArguments.rule, Tree.Node.kind]

@[simp] theorem fixesAt_mustacheComment (src : String) (c : Tree.Comment) :
    f.fixesAt src (.mustacheComment c) = [] := by
  simp [Fixers.fixesAt, Rule.visit, NegatedCondition.rule, ComponentArguments.rule, Tree.Node.kind]

/-- The fixes for the items of a tag are those for its attributes and those inside of all items. -/
theorem Spaced.AllStand.fixes_perm {ss : List Spaced} {rest : List Char}
    (h : Spaced.AllStand ss rest) (t : OpeningTag) (j : Nat) (u v : List Char) (src : String)
    (hsrc : src = String.ofList (u ++ (ss.flatMap Spaced.chars ++ v))) {k : Nat} (hk : k = size u) :
    ((if f.arguments then (attributesAt k ss).filterMap (attributeFix? src (t.at j)) else []) ++
      (f.fixesIn src ((attributesAt k ss).flatMap Tree.Attribute.nodes) ++
        f.fixesIn src ((modifiersAt k ss).flatMap Tree.ElementModifier.nodes))).Perm
          ((Spaced.draftAll f t ss).fixes k) := by
  induction ss generalizing u k with
  | nil => simp [attributesAt, modifiersAt, Spaced.offsets, Spaced.draftAll, Draft.fixes]
  | cons s ss ih =>
    obtain ⟨lead, item⟩ := s
    obtain ⟨-, hitem, hss⟩ := h
    have hnext : k + size (Spaced.mk lead item).chars = k + size lead + size item.chars := by
      rw [Spaced.chars, Text.size_append, Nat.add_assoc]
    have hss := ih hss (u ++ lead ++ item.chars) (by rw [hsrc]; simp [Spaced.chars])
      (k := k + size lead + size item.chars) (by rw [hk, Text.size_append, Text.size_append])
    rw [Spaced.draftAll, attributesAt_cons, modifiersAt_cons, hnext]
    simp only [Draft.fixes, Draft.chars, List.nil_append, Item.chars_draft]
    cases item with
    | «attribute» a =>
      have hfix := Attribute.Stands.attributeFix?_eq hitem t j (u ++ lead)
        (ss.flatMap Spaced.chars ++ v) src
        (by rw [hsrc]; simp [Spaced.chars, Item.chars]) (k := k + size lead)
        (by rw [hk, Text.size_append])
      have hperm := Attribute.Stands.fixes_perm (f := f) hitem (f.change? t a) (u ++ lead)
        (ss.flatMap Spaced.chars ++ v) src
        (by rw [hsrc]; simp [Spaced.chars, Item.chars]) (k := k + size lead)
        (by rw [hk, Text.size_append])
      have hchange : ∀ as : List Tree.Attribute,
          (if f.arguments then (a.at (k + size lead) :: as).filterMap (attributeFix? src (t.at j))
            else []) = ((f.change? t a).map (Change.fix (k + size lead) a)).toList ++
              if f.arguments then as.filterMap (attributeFix? src (t.at j)) else [] := by
        intro as
        rw [List.filterMap_cons, hfix, Fixers.change?]
        cases f.arguments with
        | false => rfl
        | true => cases t.change? a <;> rfl
      simp only [List.cons_append, List.nil_append, List.flatMap_cons, Fixers.fixesIn_append, hchange,
        List.append_assoc]
      refine .trans ?_ (hperm.append hss)
      rw [List.append_assoc]
      exact (List.perm_append_comm_assoc _ _ _).append_left _
    | modifier m =>
      have hm := hitem.1.fixes_permInner (f := f) (u ++ lead) (ss.flatMap Spaced.chars ++ v) src
        (by rw [hsrc]; simp [Spaced.chars, Item.chars]) (k := k + size lead)
        (by rw [hk, Text.size_append])
      simp only [List.cons_append, List.nil_append, List.flatMap_cons, Tree.ElementModifier.nodes,
        Fixers.fixesIn_append, Fixers.fixesIn_cons, fixesAt_elementModifier]
      refine .trans ?_ (hm.append hss)
      refine .trans ((List.perm_append_comm_assoc _ _ _).append_left _) ?_
      exact List.perm_append_comm_assoc _ _ _
    | note n => exact hss
    | params p => exact hss

theorem fixesIn_comments (src : String) (cs : List Tree.Comment) :
    f.fixesIn src (cs.map .mustacheComment) = [] := by
  induction cs with
  | nil => rfl
  | cons c cs ih => simp [ih]

/-- The fixes for an element and those inside of its opening tag. -/
theorem OpeningTag.Stands.fixes_perm {t : OpeningTag} (h : t.Stands) (u v : List Char)
    (src : String) (hsrc : src = String.ofList (u ++ (t.chars ++ v))) {k : Nat} (hk : k = size u) :
    (f.fixesAt src (.element (t.at k)) ++ f.fixesIn src (t.at k).openingNodes).Perm
      ((t.draft f).fixes k) := by
  have htag : t.chars = (Token.tagOpen.chars ++ t.name) ++ (t.items.flatMap Spaced.chars ++
      (t.trail ++ tagClosing t.selfClosing)) := by
    simp [OpeningTag.chars, tagClosing]
  have hitems := h.2.2.2.1.fixes_perm (f := f) t k (u ++ (Token.tagOpen.chars ++ t.name))
    (t.trail ++ tagClosing t.selfClosing ++ v) src (by rw [hsrc, htag]; simp)
    (k := k + size (Token.tagOpen.chars ++ t.name)) (by rw [hk, ← Text.size_append])
  have hoffset : k + 1 + size t.name = k + size (Token.tagOpen.chars ++ t.name) := by
    rw [Text.size_append, Nat.add_assoc]
    rfl
  have hattributes : (t.at k).attributes =
      attributesAt (k + size (Token.tagOpen.chars ++ t.name)) t.items := by
    rw [← hoffset]
    rfl
  have hmodifiers : (t.at k).modifiers =
      modifiersAt (k + size (Token.tagOpen.chars ++ t.name)) t.items := by
    rw [← hoffset]
    rfl
  rw [fixesAt_element, Tree.Element.openingNodes, hattributes, hmodifiers]
  simp only [Fixers.fixesIn_append, fixesIn_comments, List.append_nil, OpeningTag.draft, Draft.fixes,
    Draft.chars, List.nil_append]
  exact hitems

theorem attributeEndAhead_of_isAlpha {c : Char} (hc : c.isAlpha = true) (s : List Char) :
    attributeEndAhead (c :: s) = false := by
  have hn : 65 ≤ c.toNat ∧ c.toNat ≤ 122 := by
    have hletter := toNat_of_isAlpha hc
    omega
  have hne : ∀ d : Char, (d.toNat < 65 ∨ 122 < d.toNat) → c ≠ d := by
    rintro d hd rfl
    omega
  have hb : isBlank c = false := isBlank_of_startsTag (by simp [startsTag, hc])
  simp [attributeEndAhead, hb, startsWith, Text.after?, Token.chars,
    hne '=' (by decide), hne '>' (by decide), hne '\"' (by decide), hne '\'' (by decide),
    (hne '/' (by decide)).symm, (hne '{' (by decide)).symm]

theorem clear_of_plain {cs : List Char} (h : isPlainName cs = true) (rest : List Char) :
    Clear attributeEndAhead cs rest := by
  have hall : ∀ c ∈ cs, c.isAlpha = true := by
    simp only [isPlainName, Bool.and_eq_true, List.all_eq_true] at h
    exact h.2
  clear h
  induction cs with
  | nil => trivial
  | cons c cs ih =>
    refine ⟨?_, ih fun d hd => hall d (List.mem_cons_of_mem c hd)⟩
    exact attributeEndAhead_of_isAlpha (hall c (by simp)) _

theorem Attribute.Stands.editValue {a : Attribute} {rest : List Char} (h : a.Stands rest)
    (k : Nat) : (a.editValue f g k).Stands rest := by
  obtain ⟨name, assigned⟩ := a
  cases assigned with
  | none => exact h
  | some v =>
    obtain ⟨hne, hclear, hbefore, hafter, hv⟩ := h
    exact ⟨hne, hclear, hbefore, hafter, hv.edit _⟩

theorem Attribute.Stands.named {a : Attribute} {rest : List Char} (h : a.Stands rest)
    {name : List Char} (hn : isPlainName name = true) (has : name ≠ Token.asWord.chars) :
    (a.named name).Stands rest := by
  obtain ⟨old, assigned⟩ := a
  have hne : name ≠ [] := by
    rintro rfl
    cases hn
  cases assigned with
  | none =>
    obtain ⟨-, -, hend, hsign, -⟩ := h
    exact ⟨hne, clear_of_plain hn rest, hend, hsign, fun h => absurd h has⟩
  | some v =>
    obtain ⟨-, -, hbefore, hafter, hv⟩ := h
    exact ⟨hne, clear_of_plain hn _, hbefore, hafter, hv⟩

theorem Attribute.Stands.edit {a : Attribute} {rest : List Char} (h : a.Stands rest)
    {t : OpeningTag} {c : Option Change} (hc : ∀ d, c = some d → t.change? a = some d) (k : Nat) :
    (a.edit f g k c).Stands rest := by
  match c with
  | none => exact h.editValue k
  | some (.name new) =>
    obtain ⟨-, ⟨new', hnew, hplain, has⟩ | ⟨s, hs⟩⟩ := eq_of_change? (hc _ rfl)
    · cases hnew
      apply pick_induction (p := fun a : Attribute => (Item.attribute a).Stands rest)
      · intro b hb
        cases hb
        exact (h.editValue k).named hplain has
      · exact h.editValue k
    · cases hs
  | some (.whole text) =>
    obtain ⟨-, ⟨new', hnew, -⟩ | ⟨s, hs⟩⟩ := eq_of_change? (hc _ rfl)
    · cases hnew
    · cases hs
      apply pick_induction (p := fun i : Item => i.Stands rest)
      · intro i hi
        obtain ⟨m, rfl, htext, hm⟩ := eq_of_modifier? hi
        refine ⟨hm, ?_⟩
        rw [← htext]
        rfl
      · exact h.editValue k

theorem Item.Stands.edit {t : OpeningTag} {i : Item} {rest : List Char} (h : i.Stands rest)
    (k : Nat) : (i.edit f g t k).Stands rest := by
  match i, h with
  | .attribute a, ha =>
    exact Attribute.Stands.edit ha (fun d hd => (Fixers.eq_of_change? hd).2) k
  | .modifier m, hm => exact ⟨hm.1.editInner k, hm.1.ahead_editInner hm.2 k⟩
  | .note n, hn => exact hn
  | .params p, hp => exact hp

theorem attributeEndAhead_of_bareEndAhead {s : List Char} (h : bareEndAhead s = true) :
    attributeEndAhead s = true := by
  cases s with
  | nil => cases h
  | cons c s =>
    simp only [bareEndAhead, Bool.or_eq_true, beq_iff_eq] at h
    rcases h with (h | rfl) | h
    · simp [attributeEndAhead, h]
    · simp [attributeEndAhead]
    · simp [attributeEndAhead, h]

/-- An item sees the text after it only where a name could end there. -/
theorem Item.Stands.congr_end {i : Item} {s t : List Char} (h : i.Stands s)
    (hf : attributeEndAhead s = true → Follows s t) : i.Stands t := by
  match i, h with
  | .attribute ⟨name, none⟩, ha =>
    exact Attribute.Stands.congr ha (hf ha.2.2.1)
  | .attribute ⟨name, some v⟩, ha =>
    obtain ⟨hne, hclear, hbefore, hafter, hv⟩ := ha
    refine ⟨hne, hclear, hbefore, hafter, ?_⟩
    cases hvalue : v.value with
    | quoted mark parts =>
      rw [hvalue] at hv
      exact hv
    | mustache m =>
      rw [hvalue] at hv
      exact hv
    | bare cs =>
      rw [hvalue] at hv
      exact AttrValue.Stands.congr hv (hf (attributeEndAhead_of_bareEndAhead hv.2.1))
  | .modifier m, hm => exact hm
  | .note n, hn => exact hn
  | .params p, hp => exact hp

theorem follows_open (s t : List Char) : Follows ('{' :: '{' :: s) ('{' :: '{' :: t) := by
  refine ⟨rfl, fun _ => rfl, fun h => ?_, ?_⟩
  · cases h
  · intro c hc _
    simp only [List.mem_cons, List.not_mem_nil, or_false] at hc
    rcases hc with rfl | rfl <;> rfl

theorem follows_blank {c : Char} {lead x y : List Char} (hc : isBlank c = true)
    (hl : AllBlank lead) (hx : opens isBlank x = false) (hy : opens isBlank y = false)
    (hs : ∀ d ∈ ['=', '|'], opens (· == d) x = false → opens (· == d) y = false) :
    Follows (c :: (lead ++ x)) (c :: (lead ++ y)) := by
  refine ⟨rfl, fun _ => by simp [attributeEndAhead, hc], fun _ => by simp [bareEndAhead, hc], ?_⟩
  intro d hd h
  have hdrop : ∀ {z}, opens isBlank z = false → (c :: (lead ++ z)).dropWhile isBlank = z := by
    intro z hz
    rw [List.dropWhile_cons_of_pos hc]
    exact Text.dropWhile_blank hl hz
  rw [hdrop hx] at h
  rw [hdrop hy]
  exact hs d hd h

/-- What an item begins with stays the same, or is what an attribute or a modifier can begin with. -/
theorem Item.Stands.first_edit {t : OpeningTag} {i : Item} {rest : List Char}
    (h : i.Stands rest) (k : Nat) :
    ∃ c u d v, i.chars = c :: u ∧ (i.edit f g t k).chars = d :: v ∧
      (d = c ∨ d.isAlpha = true ∨ d = '{') := by
  have hne := h.front.2.2
  have hne' := (h.edit (f := f) (g := g) (t := t) k).front.2.2
  match i, h with
  | .attribute a, ha =>
    have hname : a.name ≠ [] := ha.1
    obtain ⟨c, name, hname⟩ := List.exists_cons_of_ne_nil hname
    have hold : a.chars = c :: (name ++ (a.assigned.map Assigned.chars).getD []) := by
      rw [Attribute.chars, hname]
      rfl
    have hvalue : (a.editValue f g k).chars =
        c :: (name ++ ((a.editValue f g k).assigned.map Assigned.chars).getD []) := by
      rw [Attribute.chars, show (a.editValue f g k).name = a.name from rfl, hname]
      rfl
    suffices hs : ∃ d v, (a.edit f g k (f.change? t a)).chars = d :: v ∧
        (d = c ∨ d.isAlpha = true ∨ d = '{') by
      obtain ⟨d, v, hd, hdc⟩ := hs
      exact ⟨c, _, d, v, hold, hd, hdc⟩
    cases hc : f.change? t a with
    | none => exact ⟨c, _, hvalue, Or.inl rfl⟩
    | some change =>
      obtain ⟨-, hc⟩ := Fixers.eq_of_change? hc
      obtain ⟨-, ⟨new, rfl, hplain, -⟩ | ⟨s, rfl⟩⟩ := eq_of_change? hc
      · apply pick_induction (p := fun a : Attribute => ∃ d v, a.chars = d :: v ∧
          (d = c ∨ d.isAlpha = true ∨ d = '{'))
        · intro b hb
          cases hb
          cases new with
          | nil => cases hplain
          | cons d new =>
            simp only [isPlainName, List.isEmpty_cons, List.all_cons, Bool.and_eq_true] at hplain
            exact ⟨d, _, rfl, Or.inr (Or.inl hplain.2.1)⟩
        · exact ⟨c, _, hvalue, Or.inl rfl⟩
      · apply pick_induction (p := fun i : Item => ∃ d v, i.chars = d :: v ∧
          (d = c ∨ d.isAlpha = true ∨ d = '{'))
        · intro i hi
          obtain ⟨m, rfl, htext, -⟩ := eq_of_modifier? hi
          exact ⟨'{', _, htext.symm, Or.inr (Or.inr rfl)⟩
        · exact ⟨c, _, hvalue, Or.inl rfl⟩
  | .modifier m, hm =>
    obtain ⟨u, hu⟩ := m.chars_eq_cons
    obtain ⟨v, hv⟩ := (m.editInner f g k).chars_eq_cons
    exact ⟨_, _, _, _, hu, hv, Or.inl rfl⟩
  | .note n, hn => exact ⟨_, _, _, _, rfl, rfl, Or.inl rfl⟩
  | .params p, hp => exact ⟨_, _, _, _, rfl, rfl, Or.inl rfl⟩

/-- What follows an item that can end there looks the same to it after the fixes. -/
theorem Spaced.AllStand.follows_edit {t : OpeningTag} {ss : List Spaced} {rest : List Char}
    (h : Spaced.AllStand ss rest) (k : Nat)
    (ha : attributeEndAhead (ss.flatMap Spaced.chars ++ rest) = true) :
    Follows (ss.flatMap Spaced.chars ++ rest)
      ((Spaced.editAll f g t k ss).flatMap Spaced.chars ++ rest) := by
  cases ss with
  | nil => exact ⟨rfl, id, id, fun _ _ h => h⟩
  | cons s ss =>
    obtain ⟨lead, item⟩ := s
    obtain ⟨hlead, hitem, -⟩ := h
    have hedit := hitem.edit (f := f) (g := g) (t := t) (k + size lead)
    have hfront := hitem.front
    have hfront' := hedit.front
    obtain ⟨c, u, d, v, hc, hd, hdc⟩ :=
      hitem.first_edit (f := f) (g := g) (t := t) (k + size lead)
    simp only [Spaced.editAll, List.flatMap_cons, Spaced.chars, List.append_assoc] at ha ⊢
    cases lead with
    | cons b lead =>
      have hb : isBlank b = true := hlead b (by simp)
      have hl : AllBlank lead := fun c hc => hlead c (List.mem_cons_of_mem b hc)
      dsimp only at hc hd
      rw [hc] at hfront ⊢
      rw [hd] at hfront' ⊢
      have hcb : ∀ s, opens isBlank (c :: s) = false := fun _ => hfront.2.1
      have hdb : ∀ s, opens isBlank (d :: s) = false := fun _ => hfront'.2.1
      simp only [List.cons_append]
      apply follows_blank hb hl (hcb _) (hdb _)
      intro e he ho
      have hne : e.isAlpha = false ∧ e ≠ '{' := by
        simp only [List.mem_cons, List.not_mem_nil, or_false] at he
        rcases he with rfl | rfl <;> decide
      rcases hdc with rfl | hd | rfl
      · exact ho
      · have hde : d ≠ e := by
          rintro rfl
          rw [hne.1] at hd
          cases hd
        simpa using hde
      · simpa using hne.2.symm
    | nil =>
      cases item with
      | «attribute» a =>
        rw [List.nil_append, Item.chars, Attribute.Stands.front hitem] at ha
        cases ha
      | modifier m =>
        obtain ⟨u, hu⟩ := m.chars_eq_cons
        obtain ⟨v, hv⟩ := (m.editInner f g (k + size ([] : List Char))).chars_eq_cons
        simp only [Item.edit, Item.chars, hu, hv, List.nil_append, List.cons_append]
        exact follows_open _ _
      | note n => exact follows_open _ _
      | params p => cases ha

theorem Spaced.AllStand.edit {t : OpeningTag} {ss : List Spaced} {rest : List Char}
    (h : Spaced.AllStand ss rest) (k : Nat) : Spaced.AllStand (Spaced.editAll f g t k ss) rest := by
  induction ss generalizing k with
  | nil => trivial
  | cons s ss ih =>
    obtain ⟨hlead, hitem, hss⟩ := h
    exact ⟨hlead, (hitem.edit _).congr_end (hss.follows_edit _), ih hss _⟩

theorem OpeningTag.Stands.edit {t : OpeningTag} (h : t.Stands) (k : Nat) :
    (t.edit f g k).Stands := by
  obtain ⟨hname, hclear, hend, hitems, htrail⟩ := h
  have hfollows := hitems.follows_edit (f := f) (g := g) (t := t)
    (k + size (Token.tagOpen.chars ++ t.name)) (attributeEndAhead_of_bareEndAhead hend)
  exact ⟨hname, clear_of_head near_bareEndAhead hfollows.head hclear, hfollows.value hend,
    hitems.edit _, htrail⟩

end Concrete

end TemplateLint
