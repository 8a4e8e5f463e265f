import TemplateLint.Proofs.Migration.Argument

namespace TemplateLint

open Text (size)

namespace Concrete

variable {g : Span → Bool}

theorem start_of_mem_attributesAt {k : Nat} {ss : List Spaced} {a : Tree.Attribute}
    (h : a ∈ attributesAt k ss) : k ≤ a.span.start := by
  induction ss generalizing k with
  | nil => cases h
  | cons s ss ih =>
    obtain ⟨lead, item⟩ := s
    rw [attributesAt_cons] at h
    rcases List.mem_append.1 h with h | h
    · cases item with
      | «attribute» b =>
        obtain rfl := List.mem_singleton.1 h
        exact Nat.le_add_right _ _
      | _ => cases h
    · exact Nat.le_trans (Nat.le_add_right _ _) (ih h)

theorem start_of_mem_modifiersAt {k : Nat} {ss : List Spaced} {m : Tree.ElementModifier}
    (h : m ∈ modifiersAt k ss) : k ≤ m.span.start := by
  induction ss generalizing k with
  | nil => cases h
  | cons s ss ih =>
    obtain ⟨lead, item⟩ := s
    rw [modifiersAt_cons] at h
    rcases List.mem_append.1 h with h | h
    · cases item with
      | modifier b =>
        obtain rfl := List.mem_singleton.1 h
        exact Nat.le_add_right _ _
      | _ => cases h
    · exact Nat.le_trans (Nat.le_add_right _ _) (ih h)

end Concrete

theorem merge_cons_left {α : Type} {le : α → α → Bool} {x : α} {xs ys : List α}
    (h : ∀ y ∈ ys, le x y = true) : (x :: xs).merge ys le = x :: xs.merge ys le := by
  cases ys with
  | nil => simp
  | cons y ys => rw [List.cons_merge_cons, if_pos (h y List.mem_cons_self)]

theorem merge_cons_right {α : Type} {le : α → α → Bool} {xs : List α} {y : α} {ys : List α}
    (h : ∀ x ∈ xs, le x y = false) : xs.merge (y :: ys) le = y :: xs.merge ys le := by
  cases xs with
  | nil => simp
  | cons x xs =>
    rw [List.cons_merge_cons, if_neg (by rw [h x List.mem_cons_self]; exact Bool.false_ne_true)]

namespace Tree

/-- A new modifier stands where its attribute did. -/
theorem span_of_selected? {source : String} {g : Span → Bool} {e : Element} {a : Attribute}
    {m : ElementModifier} (h : e.selected? source g a = some (.modifier m)) : m.span = a.span := by
  obtain ⟨hr, -⟩ := Option.filter_eq_some_iff.1 h
  obtain ⟨migration, -, hr⟩ := Option.bind_eq_some_iff.1 hr
  cases migration with
  | «attribute» name =>
    dsimp only at hr
    split at hr <;> cases hr
  | event event =>
    obtain ⟨expr, -, hr⟩ := Option.map_eq_some_iff.1 hr
    cases hr
    rfl

theorem start_of_mem_newModifiers {source : String} {g : Span → Bool} {e : Element}
    {attributes : List Attribute} {k : Nat} (h : ∀ a ∈ attributes, k ≤ a.span.start)
    {m : ElementModifier} (hm : m ∈ newModifiers (e.selected? source g) attributes) :
    k ≤ m.span.start := by
  obtain ⟨a, ha, hm⟩ := List.mem_filterMap.1 hm
  obtain ⟨r, hr, hm⟩ := Option.bind_eq_some_iff.1 hm
  cases r with
  | name new => cases hm
  | modifier n =>
    cases hm
    rw [span_of_selected? hr]
    exact h a ha

end Tree

namespace Concrete

variable {g : Span → Bool}

/-- The shapes of the attributes and of the modifiers among items, wherever these stand. -/
def bareAttributes (ss : List Spaced) : List Tree.Attribute :=
  (attributesAt 0 ss).map (Tree.Attribute.shape nowhere)

def bareModifiers (ss : List Spaced) : List Tree.ElementModifier :=
  (modifiersAt 0 ss).map (Tree.ElementModifier.shape nowhere)

theorem attributesAt_bare (k : Nat) (ss : List Spaced) :
    (attributesAt k ss).map (Tree.Attribute.shape nowhere) = bareAttributes ss :=
  (Spaced.shape_at ss k 0).1

theorem modifiersAt_bare (k : Nat) (ss : List Spaced) :
    (modifiersAt k ss).map (Tree.ElementModifier.shape nowhere) = bareModifiers ss :=
  (Spaced.shape_at ss k 0).2.1

theorem bareAttributes_cons (lead : List Char) (item : Item) (ss : List Spaced) (k : Nat) :
    bareAttributes (⟨lead, item⟩ :: ss) = (match item with
      | .attribute a => [(a.at k).shape nowhere]
      | _ => []) ++ bareAttributes ss := by
  rw [bareAttributes, attributesAt_cons, List.map_append, attributesAt_bare]
  cases item with
  | «attribute» a =>
    simp only [List.map_cons, List.map_nil]
    rw [a.shape_at (0 + size lead) k]
  | _ => rfl

theorem bareModifiers_cons (lead : List Char) (item : Item) (ss : List Spaced) (k : Nat) :
    bareModifiers (⟨lead, item⟩ :: ss) = (match item with
      | .modifier m => [Tree.ElementModifier.shape nowhere ⟨(m.at k).call, (m.at k).span⟩]
      | _ => []) ++ bareModifiers ss := by
  rw [bareModifiers, modifiersAt_cons, List.map_append, modifiersAt_bare]
  cases item with
  | modifier m =>
    have hcall := Call.shape_at m.call (0 + size lead + size m.opening) (k + size m.opening)
    simp only [List.map_cons, List.map_nil, Mustache.at, Tree.ElementModifier.shape, hcall]
  | _ => rfl

/-- Another name changes nothing else of an attribute. -/
theorem Attribute.shape_named (a : Attribute) (new : List Char) (k : Nat) :
    ((a.named new).at k).shape nowhere =
      Tree.Attribute.shape nowhere { a.at k with name := String.ofList new } := by
  obtain ⟨name, assigned⟩ := a
  cases assigned with
  | none => rfl
  | some v =>
    simp only [Attribute.named, Attribute.at, Tree.Attribute.shape]
    rw [v.value.shape_at _ (k + size name + size v.before + 1 + size v.after)]

/-- Items that are read as these attributes and modifiers of an element, written anew. -/
structure ReadAs (r : Tree.Attribute → Option Tree.Rewrite) (as : List Tree.Attribute)
    (ms : List Tree.ElementModifier) (items : List Spaced) : Prop where
  attributes : bareAttributes items =
    (as.filterMap fun a => a.rewritten? (r a)).map (Tree.Attribute.shape nowhere)
  modifiers : bareModifiers items =
    ((Tree.newModifiers r as).merge ms Tree.ElementModifier.startsFirst).map
      (Tree.ElementModifier.shape nowhere)

section

variable {r : Tree.Attribute → Option Tree.Rewrite} {as : List Tree.Attribute}
  {ms : List Tree.ElementModifier} {items : List Spaced}

/-- An attribute before the others. -/
theorem ReadAs.attribute (h : ReadAs r as ms items) (lead : List Char) {a : Attribute} {k : Nat}
    {item : Item} {new : Option Tree.Rewrite} (ha : a.Becomes k new item) (hr : r (a.at k) = new)
    (hlater : ∀ m ∈ ms, k ≤ m.span.start) :
    ReadAs r (a.at k :: as) ms (⟨lead, item⟩ :: items) := by
  obtain ⟨hattributes, hmodifiers⟩ := h
  have hnew : Tree.newModifiers r (a.at k :: as) =
      (new.bind Tree.Rewrite.modifier?).toList ++ Tree.newModifiers r as := by
    rw [Tree.newModifiers, List.filterMap_cons, hr]
    cases new.bind Tree.Rewrite.modifier? <;> rfl
  have hkept : ((a.at k :: as).filterMap fun b => b.rewritten? (r b)) =
      ((a.at k).rewritten? new).toList ++ as.filterMap fun b => b.rewritten? (r b) := by
    rw [List.filterMap_cons, hr]
    cases (a.at k).rewritten? new <;> rfl
  constructor
  · rw [bareAttributes_cons lead item items k, hkept, List.map_append, ← hattributes]
    cases ha with
    | same => rfl
    | named new => exact congrArg (· :: _) (a.shape_named new k)
    | modifier => rfl
  · rw [bareModifiers_cons lead item items k, hnew, hmodifiers]
    cases ha with
    | same => rfl
    | named new => rfl
    | @modifier m new hspan hshape =>
      have hfirst : ∀ y ∈ ms, new.startsFirst y = true := fun y hy => by
        rw [Tree.ElementModifier.startsFirst, hspan]
        exact decide_eq_true (hlater y hy)
      simp only [Option.bind_some, Tree.Rewrite.modifier?, Option.toList_some, List.singleton_append,
        merge_cons_left hfirst, List.map_cons, hshape k]

/-- A modifier before the others. -/
theorem ReadAs.modifier (h : ReadAs r as ms items) (lead : List Char) {m : Mustache}
    {k : Nat} (hlater : ∀ n ∈ Tree.newModifiers r as, k < n.span.start) :
    ReadAs r as (⟨(m.at k).call, (m.at k).span⟩ :: ms) (⟨lead, .modifier m⟩ :: items) := by
  obtain ⟨hattributes, hmodifiers⟩ := h
  have hfirst : ∀ n ∈ Tree.newModifiers r as,
      n.startsFirst ⟨(m.at k).call, (m.at k).span⟩ = false := fun n hn =>
    decide_eq_false (Nat.not_le.2 (hlater n hn))
  refine ⟨?_, ?_⟩
  · rw [bareAttributes_cons lead _ items k, ← hattributes]
    rfl
  · rw [bareModifiers_cons lead _ items k, hmodifiers, merge_cons_right hfirst]
    rfl

/-- What is neither of both changes neither of both. -/
theorem ReadAs.other (h : ReadAs r as ms items) (lead : List Char) {item : Item}
    (hitem : (∃ n, item = .note n) ∨ ∃ p, item = .params p) :
    ReadAs r as ms (⟨lead, item⟩ :: items) := by
  obtain ⟨hattributes, hmodifiers⟩ := h
  refine ⟨?_, ?_⟩
  · rw [bareAttributes_cons lead _ items 0, ← hattributes]
    obtain ⟨n, rfl⟩ | ⟨p, rfl⟩ := hitem <;> rfl
  · rw [bareModifiers_cons lead _ items 0, ← hmodifiers]
    obtain ⟨n, rfl⟩ | ⟨p, rfl⟩ := hitem <;> rfl

end

/-- The items of a tag are read as those of the element, written anew. -/
theorem Spaced.AllStand.readAs {ss : List Spaced} {rest : List Char} (h : Spaced.AllStand ss rest)
    (t : OpeningTag) (j : Nat) (u v : List Char) (src : String)
    (hsrc : src = String.ofList (u ++ (ss.flatMap Spaced.chars ++ v))) {k : Nat} (hk : k = size u)
    (hread : ∀ a ∈ attributesAt k ss, (t.at j).Carries src g a) :
    ReadAs ((t.at j).selected? src g) (attributesAt k ss) (modifiersAt k ss)
        (Spaced.editAll .migrations g t k ss) ∧
      (Spaced.editAll .migrations g t k ss).flatMap Spaced.chars =
        (Spaced.draftAll .migrations t ss).edited g k := by
  induction ss generalizing u k with
  | nil => exact ⟨⟨rfl, congrArg (List.map _) (List.nil_merge []).symm⟩, rfl⟩
  | cons s ss ih =>
    obtain ⟨lead, item⟩ := s
    obtain ⟨-, hitem, hss⟩ := h
    rw [attributesAt_cons] at hread
    obtain ⟨hafter, hchars⟩ := ih hss (u ++ lead ++ item.chars)
      (by rw [hsrc]; simp [Spaced.chars]) (k := k + size (Spaced.mk lead item).chars)
      (by rw [hk, Spaced.chars, Text.size_append, Text.size_append, Text.size_append, Nat.add_assoc])
      (fun a ha => hread a (List.mem_append_right _ ha))
    have hless : k + size lead < k + size (Spaced.mk lead item).chars := by
      have hpos : 0 < size item.chars := Text.size_pos_of_ne_nil hitem.front.2.2
      have hsize : size (Spaced.mk lead item).chars = size lead + size item.chars :=
        Text.size_append _ _
      omega
    have hlater : ∀ m ∈ modifiersAt (k + size (Spaced.mk lead item).chars) ss,
        k + size lead ≤ m.span.start := fun m hm =>
      Nat.le_trans (Nat.le_of_lt hless) (start_of_mem_modifiersAt hm)
    have hnew : ∀ m ∈ Tree.newModifiers ((t.at j).selected? src g)
        (attributesAt (k + size (Spaced.mk lead item).chars) ss), k + size lead < m.span.start :=
      fun m hm => Nat.lt_of_lt_of_le hless
        (Tree.start_of_mem_newModifiers (fun a ha => start_of_mem_attributesAt ha) hm)
    rw [attributesAt_cons, modifiersAt_cons]
    cases item with
    | «attribute» a =>
      obtain ⟨ha, hedited⟩ := Attribute.Stands.becomes (g := g) hitem t j (u ++ lead)
        (ss.flatMap Spaced.chars ++ v) src (by rw [hsrc]; simp [Spaced.chars, Item.chars])
        (k := k + size lead) (by rw [hk, Text.size_append])
        (hread _ (List.mem_append_left _ (List.mem_singleton_self _)))
      exact ⟨hafter.attribute lead ha rfl hlater, Spaced.chars_editAll_cons _ g hedited hchars⟩
    | modifier m =>
      have hedited := Item.chars_edit .migrations g (t := t) (i := .modifier m) rfl (k + size lead)
      refine ⟨?_, Spaced.chars_editAll_cons _ g hedited hchars⟩
      rw [Spaced.editAll, Item.edit, Mustache.editInner_migrations]
      exact hafter.modifier lead hnew
    | note n =>
      exact ⟨hafter.other lead (.inl ⟨n, rfl⟩), Spaced.chars_editAll_cons _ g rfl hchars⟩
    | params p =>
      exact ⟨hafter.other lead (.inr ⟨p, rfl⟩), Spaced.chars_editAll_cons _ g rfl hchars⟩

/-- The opening tag of an element, with its fixes applied, is read as that of the migrated
element. -/
theorem OpeningTag.Stands.migrated {t : OpeningTag} (h : t.Stands) (u v : List Char) (src : String)
    (hsrc : src = String.ofList (u ++ (t.chars ++ v))) {k : Nat} (hk : k = size u)
    (hread : ∀ a ∈ (t.at k).attributes, (t.at k).Carries src g a) :
    (∀ (j : Nat) (children children' : List Tree.Statement) (close close' : Option Span)
        (span span' : Span), (close'.map fun _ => (default : Span)) = close.map (fun _ => default) →
      Tree.Statement.shapeAll nowhere children' =
        Tree.Statement.shapeAll nowhere (Tree.Statement.mapElementsAll (·.migrated src g) children) →
      Tree.Element.shape nowhere { (t.edit .migrations g k).at j with
          children := children', closeSpan := close', span := span' } =
        (Tree.Element.mapElements (·.migrated src g)
          { t.at k with children, closeSpan := close, span }).shape nowhere) ∧
      (t.edit .migrations g k).chars = (t.draft .migrations).edited g k := by
  obtain ⟨hattributes, hmodifiers, hnotes⟩ := t.at_items k
  obtain ⟨-, -, -, hitems, -⟩ := h
  obtain ⟨hitems, hchars⟩ := hitems.readAs (g := g) t k (u ++ (Token.tagOpen.chars ++ t.name))
    (t.trail ++ (tagClosing t.selfClosing ++ v)) src
    (by rw [hsrc]; simp [OpeningTag.chars, tagClosing])
    (k := k + size (Token.tagOpen.chars ++ t.name)) (by rw [hk, Text.size_append u])
    (by rw [← hattributes]; exact hread)
  refine ⟨fun j children children' close close' span span' hclose hchildren => ?_, ?_⟩
  · obtain ⟨hattributes', hmodifiers', hnotes'⟩ := (t.edit .migrations g k).at_items j
    have hedit : (t.edit .migrations g k).items = Spaced.editAll .migrations g t
        (k + size (Token.tagOpen.chars ++ t.name)) t.items := rfl
    rw [OpeningTag.shape_eq, hattributes', hmodifiers', hnotes', hedit, attributesAt_bare,
      modifiersAt_bare, notesAt_edit, boundBy_edit, hclose, hchildren, hitems.attributes,
      hitems.modifiers, ← hattributes, ← hmodifiers, ← hnotes, ← t.at_blockParams k]
    rfl
  · rw [Text.size_append] at hchars
    simp [OpeningTag.edit, OpeningTag.chars, OpeningTag.draft, Draft.edited, Draft.chars, hchars,
      tagClosing]

/-- Of every element of a tree, the selected fixes are read as what they are to write. -/
def CarriesAll (source : String) (g : Span → Bool) (nodes : List Tree.Node) : Prop :=
  ∀ e, Tree.Node.element e ∈ nodes → ∀ a ∈ e.attributes, e.Carries source g a

mutual

/-- A statement with the fixes of its arguments applied is read as the statement with all elements
migrated. -/
theorem Statement.Stands.migrated : ∀ {s : Statement} {rest : List Char}, s.Stands rest →
    ∀ (u v : List Char) (src : String), src = String.ofList (u ++ (s.chars ++ v)) →
      ∀ k : Nat, k = size u → CarriesAll src g (s.at k).nodes →
        (s.edit .migrations g k).bare =
            ((s.at k).mapElements (·.migrated src g)).shape nowhere ∧
          (s.edit .migrations g k).chars = (s.draft .migrations).edited g k
  | .text cs, _, _, _, _, _, _, _, _, _ => ⟨rfl, rfl⟩
  | .comment value, _, _, _, _, _, _, _, _, _ => ⟨rfl, rfl⟩
  | .note n, _, _, _, _, _, _, _, _, _ => ⟨rfl, rfl⟩
  | .mustache m, _, _, _, _, _, _, k, _, _ => by
    refine ⟨?_, Mustache.chars_edit .migrations g m k⟩
    rw [Statement.edit, Mustache.edit_migrations, ← Statement.at_bare _ k]
    rfl
  | .block opening program sections closing, _, h, u, v, src, hsrc, k, hk, hread => by
    obtain ⟨hopening, hprogram, hsections, -⟩ := h
    have h₁ := BlockTag.chars_edit .migrations g opening k
    obtain ⟨h₂, hchars₂⟩ := Statement.AllStand.migrated hprogram (u ++ opening.chars)
      (Section.charsAll sections ++ (closing.chars ++ v)) src
      (by rw [hsrc]; simp [Statement.chars]) (k + size opening.chars)
      (by rw [hk, Text.size_append])
      fun e he => hread e
        (List.mem_cons_of_mem _ (List.mem_append_left _ (List.mem_append_right _ he)))
    obtain ⟨h₃, hchars₃⟩ := Section.AllStand.migrated hsections
      (u ++ opening.chars ++ Statement.charsAll program) (closing.chars ++ v) src
      (by rw [hsrc]; simp [Statement.chars])
      (k + size opening.chars + size (Statement.charsAll program))
      (by rw [hk, Text.size_append, Text.size_append])
      fun e he => hread e (List.mem_cons_of_mem _ (List.mem_append_right _
        (by rw [← Statement.widthAll_eq] at he; exact he)))
    have hkept : (Statement.block opening program sections closing).edit .migrations g k =
        .block opening (Statement.editAll .migrations g (k + size opening.chars) program)
          (Section.editAll .migrations g (k + size opening.chars + size (Statement.charsAll program))
            sections) closing := by
      rw [Statement.edit, BlockTag.edit_migrations]
      rfl
    rw [BlockTag.edit_migrations] at h₁
    have hdraft : (Statement.block opening program sections closing).draft .migrations =
        .append (opening.draft .migrations) (.append (Statement.draftAll .migrations program)
          (.append (Section.draftAll .migrations sections) (.text closing.chars))) := rfl
    rw [hkept, hdraft]
    refine ⟨?_, by simp [Statement.chars, Draft.edited, hchars₂, hchars₃, ← h₁]⟩
    rw [Statement.bare_block, bareBlock, h₂, h₃, ← Statement.widthAll_eq,
      ← Call.at_bare opening.call (k + opening.callOffset)]
    simp only [Statement.at, Tree.Statement.mapElements, Tree.Block.mapElements,
      Tree.Body.mapElements, Tree.Statement.shape, Tree.Block.shape, pick_nowhere, Tree.Body.shape]
    rfl
  | .whole opening, _, h, u, v, src, hsrc, k, hk, hread => by
    obtain ⟨hshape, hchars⟩ := h.1.migrated (g := g) u v src hsrc hk (hread _ List.mem_cons_self)
    exact ⟨congrArg Tree.Statement.element (hshape 0 [] [] none none _ _ rfl rfl), hchars⟩
  | .element opening children closing, _, h, u, v, src, hsrc, k, hk, hread => by
    obtain ⟨hopening, -, hchildren, -⟩ := h
    have hself := hread _ List.mem_cons_self
    obtain ⟨h₁, hchars₁⟩ := hopening.migrated (g := g) u
      (Statement.charsAll children ++ (Token.closingTagOpen.chars ++ (closing ++ ['>']) ++ v)) src
      (by rw [hsrc]; simp [Statement.chars]) hk hself
    obtain ⟨h₂, hchars₂⟩ := Statement.AllStand.migrated hchildren (u ++ opening.chars)
      (Token.closingTagOpen.chars ++ (closing ++ ['>']) ++ v) src
      (by rw [hsrc]; simp [Statement.chars]) (k + size opening.chars)
      (by rw [hk, Text.size_append])
      fun e he => hread e (List.mem_cons_of_mem _ (List.mem_append_right _ he))
    refine ⟨?_, by simp [Statement.edit, Statement.chars, Statement.draft, Draft.edited, hchars₁,
      hchars₂]⟩
    rw [← Statement.atAll_bare _ (0 + size (opening.edit .migrations g k).chars)] at h₂
    exact congrArg Tree.Statement.element (h₁ 0 _ _ (some _) (some _) _ _ rfl h₂)

theorem Statement.AllStand.migrated : ∀ {ss : List Statement} {rest : List Char},
    Statement.AllStand ss rest → ∀ (u v : List Char) (src : String),
      src = String.ofList (u ++ (Statement.charsAll ss ++ v)) → ∀ k : Nat, k = size u →
        CarriesAll src g (Tree.Statement.nodesAll (Statement.atAll k ss)) →
          Statement.bareAll (Statement.editAll .migrations g k ss) =
              Tree.Statement.shapeAll nowhere
                (Tree.Statement.mapElementsAll (·.migrated src g) (Statement.atAll k ss)) ∧
            Statement.charsAll (Statement.editAll .migrations g k ss) =
              (Statement.draftAll .migrations ss).edited g k
  | [], _, _, _, _, _, _, _, _, _ => ⟨rfl, rfl⟩
  | s :: ss, _, h, u, v, src, hsrc, k, hk, hread => by
    obtain ⟨h₁, hchars₁⟩ := Statement.Stands.migrated h.1 u (Statement.charsAll ss ++ v) src
      (by rw [hsrc]; simp [Statement.charsAll]) k hk
      fun e he => hread e (List.mem_append_left _ he)
    obtain ⟨h₂, hchars₂⟩ := Statement.AllStand.migrated h.2 (u ++ s.chars) v src
      (by rw [hsrc]; simp [Statement.charsAll]) (k + size s.chars) (by rw [hk, Text.size_append])
      fun e he => hread e (List.mem_append_right _
        (by rw [← Statement.width_eq] at he; exact he))
    refine ⟨?_, by simp [Statement.editAll, Statement.charsAll, Statement.draftAll, Draft.edited,
      hchars₁, hchars₂]⟩
    rw [Statement.editAll, Statement.bareAll_cons, h₁, h₂, ← Statement.width_eq]
    rfl

theorem Section.AllStand.migrated : ∀ {ss : List Section} {rest : List Char},
    Section.AllStand ss rest → ∀ (u v : List Char) (src : String),
      src = String.ofList (u ++ (Section.charsAll ss ++ v)) → ∀ k : Nat, k = size u →
        CarriesAll src g (Section.atAll k ss).nodes →
          Section.bareAll (Section.editAll .migrations g k ss) =
              ((Section.atAll k ss).mapElements (·.migrated src g)).shape nowhere ∧
            Section.charsAll (Section.editAll .migrations g k ss) =
              (Section.draftAll .migrations ss).edited g k
  | [], _, _, _, _, _, _, _, _, _ => ⟨rfl, rfl⟩
  | ⟨⟨tilde, lead, .plain trail after⟩, body⟩ :: ss, _, h, u, v, src, hsrc, k, hk, hread => by
    obtain ⟨-, hbody, hlast, -⟩ := h
    obtain rfl := hlast _ _ rfl
    let tag : ElseTag := ⟨tilde, lead, .plain trail after⟩
    obtain ⟨h₁, hchars⟩ := Statement.AllStand.migrated hbody (u ++ tag.chars) v src
      (by rw [hsrc]; simp [Section.charsAll, Section.chars, tag]) (k + size tag.chars)
      (by rw [hk, Text.size_append]) hread
    have htag := ElseTag.chars_edit .migrations g tag k
    rw [Section.editAll]
    rw [ElseTag.edit_migrations] at htag ⊢
    refine ⟨?_, by simp [Section.editAll, Section.charsAll, Section.chars, Section.draftAll,
      Draft.edited, hchars, ← htag, tag]⟩
    rw [Section.editAll, Section.bareAll_plain, h₁]
    rfl
  | ⟨⟨tilde, lead, .chained call ending⟩, body⟩ :: ss, _, h, u, v, src, hsrc, k, hk, hread => by
    obtain ⟨-, hbody, -, hss⟩ := h
    let tag : ElseTag := ⟨tilde, lead, .chained call ending⟩
    obtain ⟨h₁, hchars₁⟩ := Statement.AllStand.migrated hbody (u ++ tag.chars)
      (Section.charsAll ss ++ v) src
      (by rw [hsrc]; simp [Section.charsAll, Section.chars, tag]) (k + size tag.chars)
      (by rw [hk, Text.size_append])
      fun e he => hread e
        (List.mem_cons_of_mem _ (List.mem_append_left _ (List.mem_append_right _ he)))
    obtain ⟨h₂, hchars₂⟩ := Section.AllStand.migrated hss
      (u ++ tag.chars ++ Statement.charsAll body) v src
      (by rw [hsrc]; simp [Section.charsAll, Section.chars, tag])
      (k + size tag.chars + size (Statement.charsAll body))
      (by rw [hk, Text.size_append, Text.size_append])
      fun e he => hread e (List.mem_cons_of_mem _ (List.mem_append_right _
        (by rw [← Statement.widthAll_eq] at he; exact he)))
    have htag := ElseTag.chars_edit .migrations g tag k
    rw [Section.editAll]
    rw [ElseTag.edit_migrations] at htag ⊢
    refine ⟨?_, by simp [Section.charsAll, Section.chars, Section.draftAll,
      Draft.edited, hchars₁, hchars₂, ← htag, tag]⟩
    rw [Section.bareAll_chained, h₁, h₂, ← Call.at_bare call (k + tag.tailOffset),
      ← Statement.widthAll_eq]
    rfl

end

end Concrete

/-- Fixes of arguments, each read as what it is to write, leave a text that is read as the template
with all elements migrated. -/
theorem migrated_of_applyAll {source : String} {t : Tree.Template}
    (ht : Tree.Template.parse source = .ok t) (fixes : List Fix)
    (hfixes : ∀ fix ∈ fixes, ∃ e ∈ t.elements, ∃ a ∈ e.attributes,
      Concrete.attributeFix? source e a = some fix)
    (hread : ∀ e ∈ t.elements, ∀ a ∈ e.attributes, e.Carries source (Draft.selects fixes) a) :
    ∃ applied t', Fix.applyAll source fixes = .ok applied ∧
      Tree.Template.parse applied.output = .ok t' ∧
      t'.shape nowhere =
        (t.mapElements (·.migrated source (Draft.selects fixes))).shape nowhere := by
  obtain ⟨ss, hs, rfl, rfl⟩ := Tree.Template.parse_eq_ok.1 ht
  have hplaces : ∀ fix ∈ fixes, fix ∈ (Concrete.Statement.draftAll .migrations ss).fixes 0 := by
    intro fix hfix
    obtain ⟨e, he, a, ha, hfix⟩ := hfixes fix hfix
    rw [← (Linter.fixesIn_perm_draft .migrations hs).mem_iff]
    refine List.mem_flatMap.2 ⟨.element e,
      List.mem_cons_of_mem _ (Tree.Template.mem_elements.1 he), ?_⟩
    rw [Concrete.fixesAt_element]
    exact List.mem_filterMap.2 ⟨a, ha, hfix⟩
  obtain ⟨skipped, happly⟩ := Draft.applyAll_eq (hs.sound .migrations) hplaces
  obtain ⟨hshape, hchars⟩ := hs.migrated (g := Draft.selects fixes) [] [] _
    (by rw [List.append_nil, List.nil_append]) 0 rfl
    fun e he => hread e (Tree.Template.mem_elements.2 he)
  rw [Concrete.Statement.chars_draftAll, ← hchars] at happly
  have hstands := hs.edit (Concrete.Statement.admitsAll_migrations (g := Draft.selects fixes) ss 0)
  exact ⟨_, _, happly, Tree.Template.parse_eq_ok.2 ⟨_, hstands, rfl, rfl⟩,
    congrArg (Tree.Template.mk · default) hshape⟩

end TemplateLint
