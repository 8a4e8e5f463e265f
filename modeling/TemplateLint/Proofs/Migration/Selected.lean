import TemplateLint.Proofs.Migration.Edited
import TemplateLint.Proofs.Reporting.Places

namespace TemplateLint

open Text (size)

/-- In a list with growing keys, what has the key of a member is that member. -/
theorem filter_eq_singleton {α : Type} {key : α → Nat} {p : α → Bool} {xs : List α}
    (h : xs.Pairwise fun x y => key x < key y) {x : α} (hx : x ∈ xs) (hpx : p x = true)
    (hp : ∀ y ∈ xs, p y = true → key y = key x) : xs.filter p = [x] := by
  induction xs with
  | nil => cases hx
  | cons y ys ih =>
    obtain ⟨hy, hys⟩ := List.pairwise_cons.1 h
    rcases List.mem_cons.1 hx with rfl | hx
    · have hnone : ys.filter p = [] := by
        refine List.filter_eq_nil_iff.2 fun z hz hpz => ?_
        exact absurd (hp z (List.mem_cons_of_mem _ hz) hpz) (Nat.ne_of_gt (hy z hz))
      rw [List.filter_cons_of_pos hpx, hnone]
    · have hpy : ¬ p y = true := fun hpy =>
        absurd (hp y List.mem_cons_self hpy) (Nat.ne_of_lt (hy x hx))
      rw [List.filter_cons_of_neg hpy]
      exact ih hys hx fun z hz => hp z (List.mem_cons_of_mem _ hz)

theorem eq_of_filter_eq_singleton {α : Type} {p : α → Bool} {xs : List α} {x : α}
    (h : xs.filter p = [x]) {y : α} (hy : y ∈ xs) (hpy : p y = true) : y = x := by
  have hmem : y ∈ xs.filter p := List.mem_filter.2 ⟨hy, hpy⟩
  rw [h] at hmem
  exact List.mem_singleton.1 hmem

namespace Tree

variable {source : String} {t : Template} {e x : Element} {a b : Attribute}

theorem Template.starts_pairwise (ht : Template.parse source = .ok t) :
    t.elements.Pairwise fun e e' => e.span.start < e'.span.start := by
  refine (Template.elements_pairwise ht).imp_of_mem fun he he' hbefore => ?_
  have hopens := Template.opens_of_mem_elements ht he
  have hopens' := Template.opens_of_mem_elements ht he'
  have hle := hopens.names.le
  rw [hopens'.start] at hbefore
  omega

/-- An element is the only one with its range. -/
theorem Template.elements_at (ht : Template.parse source = .ok t) (he : e ∈ t.elements) :
    t.elements.filter (·.span == e.span) = [e] :=
  filter_eq_singleton (Template.starts_pairwise ht) he (by simp) fun x _ hx => by
    rw [eq_of_beq hx]

/-- An attribute starts with its name, which is not empty. -/
structure Attribute.Named (a : Attribute) : Prop where
  start : a.span.start = a.nameSpan.start
  pos : a.nameSpan.start < a.nameSpan.stop

theorem Template.attribute_written (ht : Template.parse source = .ok t) (he : e ∈ t.elements)
    (ha : a ∈ e.attributes) :
    ∃ u cs v, source.toList = u ++ (cs ++ v) ∧
      (Piece.node (.attribute a)).WrittenAt (size u) cs := by
  have hpart : Piece.node (.attribute a) ∈ (Piece.node (.element e)).parts :=
    List.mem_append_left _ (List.mem_append_left _ (List.mem_append_left _ (List.mem_map_of_mem ha)))
  exact Template.written ht
    (Piece.Holds.trans (Template.mem_elements_iff.1 he) (.part hpart (.refl _)))

theorem Template.named (ht : Template.parse source = .ok t) (he : e ∈ t.elements)
    (ha : a ∈ e.attributes) : a.Named := by
  obtain ⟨u, cs, v, -, hcs⟩ := Template.attribute_written ht he ha
  obtain ⟨name, rest, -, hname, -, hnameSpan, hspan⟩ := hcs.attribute_name
  refine ⟨by rw [hspan, hnameSpan]; rfl, ?_⟩
  rw [hnameSpan]
  exact Nat.lt_add_of_pos_right (Text.size_pos_of_ne_nil hname)

theorem Template.attribute_starts_pairwise (ht : Template.parse source = .ok t)
    (he : e ∈ t.elements) :
    e.attributes.Pairwise fun a b => a.nameSpan.start < b.nameSpan.start := by
  have hopens := Template.opens_of_mem_elements ht he
  have hnames := (List.pairwise_cons.1 hopens.names.pairwise).2
  refine (List.pairwise_map.1 hnames).imp_of_mem fun ha _ hbefore => ?_
  exact Nat.lt_of_lt_of_le (Template.named ht he ha).pos hbefore

/-- An attribute is the only one with its range. -/
theorem Template.attributes_at (ht : Template.parse source = .ok t) (he : e ∈ t.elements)
    (ha : a ∈ e.attributes) : e.attributes.filter (·.span == a.span) = [a] :=
  filter_eq_singleton (Template.attribute_starts_pairwise ht he) ha (by simp) fun b hb hspan => by
    rw [← (Template.named ht he hb).start, ← (Template.named ht he ha).start, eq_of_beq hspan]

/-- Attributes of a template that start at the same place are the same attribute of the same
element. -/
theorem Template.eq_of_start (ht : Template.parse source = .ok t) (he : e ∈ t.elements)
    (ha : a ∈ e.attributes) (hx : x ∈ t.elements) (hb : b ∈ x.attributes)
    (hstart : b.nameSpan.start = a.nameSpan.start) : x = e ∧ b = a := by
  have hinside : ∀ {e a}, e ∈ t.elements → a ∈ e.attributes →
      e.openSpan.start ≤ a.nameSpan.start ∧ a.nameSpan.start < e.openSpan.stop := by
    intro e a he ha
    have hopens := Template.opens_of_mem_elements ht he
    have hin := hopens.names.within (List.mem_cons_of_mem _ (List.mem_map_of_mem ha))
    have hpos := (Template.named ht he ha).pos
    rw [hopens.start]
    omega
  have hea := hinside he ha
  have hxb := hinside hx hb
  let Away (e x : Element) : Prop := e.openSpan.Apart x.openSpan
  have hsymm : Std.Symm Away := ⟨fun _ _ => Span.Apart.symm⟩
  have hsame : x = e := by
    by_contra hne
    have hpairs : t.elements.Pairwise Away := (Template.elements_pairwise ht).imp .inl
    rcases hpairs.forall hx he hne with h | h <;> omega
  subst hsame
  have hfilter := filter_eq_singleton (p := fun c => c.nameSpan.start == a.nameSpan.start)
    (Template.attribute_starts_pairwise ht he) ha (by simp) fun c _ hc => eq_of_beq hc
  exact ⟨rfl, eq_of_filter_eq_singleton hfilter hb (by simpa using hstart)⟩

end Tree

end TemplateLint
