import TemplateLint.Edit.Builder
import TemplateLint.Proofs.Edit.Selection

namespace TemplateLint

open Text (size slice? splitAt?)

/-- Fixes that follow one another and overlap are the same. -/
theorem Fix.eq_of_overlap {fixes : List Fix} (h : fixes.Pairwise Apart) {f g : Fix}
    (hf : f ∈ fixes) (hg : g ∈ fixes) (hfg : f.range.start < g.range.stop)
    (hgf : g.range.start < f.range.stop) : f = g := by
  induction fixes with
  | nil => cases hf
  | cons a as ih =>
    obtain ⟨ha, has⟩ := List.pairwise_cons.1 h
    rcases List.mem_cons.1 hf with rfl | hf' <;> rcases List.mem_cons.1 hg with rfl | hg'
    · rfl
    · have hapart := ha g hg'
      unfold Apart at hapart
      omega
    · have hapart := ha f hf'
      unfold Apart at hapart
      omega
    · exact ih has hf' hg'

theorem Fix.eq_of_apart {fs gs : List Fix} (hf : fs.Pairwise Apart) (hg : gs.Pairwise Apart)
    (h : ∀ f, f ∈ fs ↔ f ∈ gs) : fs = gs := by
  have nodup : ∀ {l : List Fix}, l.Pairwise Apart → l.Nodup := by
    intro l hl
    apply hl.imp
    rintro a b hab rfl
    exact Nat.lt_irrefl _ hab.1
  have hperm := (List.perm_ext_iff_of_nodup (nodup hf) (nodup hg)).2 h
  apply hperm.eq_of_pairwise _ hf hg
  intro a b _ _ hab hba
  exact absurd hab.1 (Nat.not_lt_of_lt hba.1)

/-- A text with the places that can be replaced. -/
inductive Draft where
  | text (cs : List Char)
  | append (a b : Draft)
  | place (inner : Draft) (replacement : List Char)

namespace Draft

/-- The text without any fix. -/
def chars : Draft → List Char
  | text cs => cs
  | append a b => a.chars ++ b.chars
  | place inner _ => inner.chars

/-- The fixes of the places when the text stands at `k`. -/
def fixes (k : Nat) : Draft → List Fix
  | text _ => []
  | append a b => a.fixes k ++ b.fixes (k + size a.chars)
  | place inner replacement =>
    ⟨⟨k, k + size inner.chars⟩, String.ofList replacement⟩ :: inner.fixes k

/-- The fixes of selected ranges that lie in no other selected range. -/
def taken (sel : Span → Bool) (k : Nat) : Draft → List Fix
  | text _ => []
  | append a b => a.taken sel k ++ b.taken sel (k + size a.chars)
  | place inner replacement =>
    if sel ⟨k, k + size inner.chars⟩ then
      [⟨⟨k, k + size inner.chars⟩, String.ofList replacement⟩]
    else inner.taken sel k

/-- The text with the fixes that are taken. -/
def edited (sel : Span → Bool) (k : Nat) : Draft → List Char
  | text cs => cs
  | append a b => a.edited sel k ++ b.edited sel (k + size a.chars)
  | place inner replacement =>
    if sel ⟨k, k + size inner.chars⟩ then replacement else inner.edited sel k

/-- Whether a character that belongs to no place comes first. -/
def opensPlain : Draft → Bool
  | text cs => !cs.isEmpty
  | append a _ => a.opensPlain
  | place _ _ => false

/-- How two texts first differ: both go on, with different characters. -/
def Differ (s t : List Char) : Prop :=
  ∃ p a b u v, s = p ++ a :: u ∧ t = p ++ b :: v ∧ a ≠ b

/-- No place begins where another does, and every replacement changes its text before its end. -/
def Sound : Draft → Prop
  | text _ => True
  | append a b => a.Sound ∧ b.Sound
  | place inner replacement =>
    inner.Sound ∧ inner.opensPlain = true ∧ Differ inner.chars replacement

theorem Differ.ne {s t : List Char} (h : Differ s t) : s ≠ t := by
  obtain ⟨p, a, b, u, v, rfl, rfl, hab⟩ := h
  intro he
  have he := List.append_cancel_left he
  exact hab (List.cons.inj he).1

theorem Differ.append {s t : List Char} (h : Differ s t) (x y : List Char) :
    Differ (s ++ x) (t ++ y) := by
  obtain ⟨p, a, b, u, v, rfl, rfl, hab⟩ := h
  exact ⟨p, a, b, u ++ x, v ++ y, by simp, by simp, hab⟩

theorem Differ.append_left {s t : List Char} (h : Differ s t) (x : List Char) :
    Differ (x ++ s) (x ++ t) := by
  obtain ⟨p, a, b, u, v, rfl, rfl, hab⟩ := h
  exact ⟨x ++ p, a, b, u, v, by simp, by simp, hab⟩

theorem size_pos_of_opensPlain {d : Draft} (h : d.opensPlain = true) : 0 < size d.chars := by
  induction d with
  | text cs => exact Text.size_pos_of_ne_nil (by simpa [opensPlain, chars] using h)
  | append a b iha ihb =>
    have ha := iha h
    simp only [chars, Text.size_append]
    omega
  | place inner replacement ih => cases h

/-- A fix lies in the text, and at least one character of the text in it. -/
theorem fixes_range {d : Draft} (hd : d.Sound) {k : Nat} {f : Fix} (hf : f ∈ d.fixes k) :
    k ≤ f.range.start ∧ f.range.start < f.range.stop ∧ f.range.stop ≤ k + size d.chars := by
  induction d generalizing k with
  | text cs => cases hf
  | append a b iha ihb =>
    obtain ⟨ha, hb⟩ := hd
    simp only [chars, Text.size_append]
    rcases List.mem_append.1 hf with hf | hf
    · have h := iha ha hf
      omega
    · have h := ihb hb hf
      omega
  | place inner replacement ih =>
    obtain ⟨hinner, hplain, -⟩ := hd
    have hpos := size_pos_of_opensPlain hplain
    rcases List.mem_cons.1 hf with rfl | hf
    · simp only [chars]
      omega
    · exact ih hinner hf

theorem start_lt_of_opensPlain {d : Draft} (hd : d.Sound) (h : d.opensPlain = true) {k : Nat}
    {f : Fix} (hf : f ∈ d.fixes k) : k < f.range.start := by
  induction d generalizing k with
  | text cs => cases hf
  | append a b iha ihb =>
    rcases List.mem_append.1 hf with hf | hf
    · exact iha hd.1 h hf
    · have hpos := size_pos_of_opensPlain (show a.opensPlain = true from h)
      have hrange := fixes_range hd.2 hf
      omega
  | place inner replacement ih => cases h

/-- Two fixes are the same, or one lies before the other, or inside of it but not at its start. -/
theorem fixes_laminar {d : Draft} (hd : d.Sound) {k : Nat} {f g : Fix} (hf : f ∈ d.fixes k)
    (hg : g ∈ d.fixes k) :
    f = g ∨ f.range.stop ≤ g.range.start ∨ g.range.stop ≤ f.range.start ∨
      (f.range.start < g.range.start ∧ g.range.stop ≤ f.range.stop) ∨
      (g.range.start < f.range.start ∧ f.range.stop ≤ g.range.stop) := by
  induction d generalizing k with
  | text cs => cases hf
  | append a b iha ihb =>
    obtain ⟨ha, hb⟩ := hd
    rcases List.mem_append.1 hf with hf | hf <;> rcases List.mem_append.1 hg with hg | hg
    · exact iha ha hf hg
    · have hfr := fixes_range ha hf
      have hgr := fixes_range hb hg
      omega
    · have hfr := fixes_range hb hf
      have hgr := fixes_range ha hg
      omega
    · exact ihb hb hf hg
  | place inner replacement ih =>
    obtain ⟨hinner, hplain, -⟩ := hd
    rcases List.mem_cons.1 hf with rfl | hf <;> rcases List.mem_cons.1 hg with rfl | hg
    · exact Or.inl rfl
    · have hstart := start_lt_of_opensPlain hinner hplain hg
      have hgr := fixes_range hinner hg
      simp only
      omega
    · have hstart := start_lt_of_opensPlain hinner hplain hf
      have hfr := fixes_range hinner hf
      simp only
      omega
    · exact ih hinner hf hg

/-- No two fixes start together. -/
theorem fixes_starts {d : Draft} (hd : d.Sound) (k : Nat) :
    (d.fixes k).Pairwise fun f g => f.range.start ≠ g.range.start := by
  induction d generalizing k with
  | text cs => exact .nil
  | append a b iha ihb =>
    obtain ⟨ha, hb⟩ := hd
    refine List.pairwise_append.2 ⟨iha ha k, ihb hb _, fun f hf g hg => ?_⟩
    have hfr := fixes_range ha hf
    have hgr := fixes_range hb hg
    omega
  | place inner replacement ih =>
    obtain ⟨hinner, hplain, -⟩ := hd
    refine List.pairwise_cons.2 ⟨fun g hg => ?_, ih hinner k⟩
    have hstart := start_lt_of_opensPlain hinner hplain hg
    simp only
    omega

theorem eq_of_range {d : Draft} (hd : d.Sound) {k : Nat} {f g : Fix} (hf : f ∈ d.fixes k)
    (hg : g ∈ d.fixes k) (h : f.range = g.range) : f = g := by
  have hfr := fixes_range hd hf
  have hgr := fixes_range hd hg
  have hstart := congrArg Span.start h
  have hstop := congrArg Span.stop h
  rcases fixes_laminar hd hf hg with hfg | hfg
  · exact hfg
  · omega

theorem mem_fixes_of_taken {sel : Span → Bool} {d : Draft} {k : Nat} {f : Fix}
    (hf : f ∈ d.taken sel k) : f ∈ d.fixes k ∧ sel f.range = true := by
  induction d generalizing k with
  | text cs => cases hf
  | append a b iha ihb =>
    rcases List.mem_append.1 hf with hf | hf
    · have h := iha hf
      exact ⟨List.mem_append_left _ h.1, h.2⟩
    · have h := ihb hf
      exact ⟨List.mem_append_right _ h.1, h.2⟩
  | place inner replacement ih =>
    unfold taken at hf
    split at hf
    · next hsel =>
      obtain rfl := List.mem_singleton.1 hf
      exact ⟨List.mem_cons_self, hsel⟩
    · have h := ih hf
      exact ⟨List.mem_cons_of_mem _ h.1, h.2⟩

/-- The fixes that are taken follow one another. -/
theorem taken_apart (sel : Span → Bool) {d : Draft} (hd : d.Sound) (k : Nat) :
    (d.taken sel k).Pairwise Fix.Apart := by
  induction d generalizing k with
  | text cs => exact List.Pairwise.nil
  | append a b iha ihb =>
    obtain ⟨ha, hb⟩ := hd
    refine List.pairwise_append.2 ⟨iha ha k, ihb hb _, ?_⟩
    intro f hf g hg
    have hfr := fixes_range ha (mem_fixes_of_taken hf).1
    have hgr := fixes_range hb (mem_fixes_of_taken hg).1
    unfold Fix.Apart
    omega
  | place inner replacement ih =>
    unfold taken
    split
    · exact List.pairwise_singleton _ _
    · exact ih hd.1 k

/-- Every selected fix lies in one that is taken. -/
theorem taken_covers {sel : Span → Bool} {d : Draft} (hd : d.Sound) {k : Nat} {f : Fix}
    (hf : f ∈ d.fixes k) (hsel : sel f.range = true) :
    ∃ g ∈ d.taken sel k, g.range.start ≤ f.range.start ∧ f.range.stop ≤ g.range.stop := by
  induction d generalizing k with
  | text cs => cases hf
  | append a b iha ihb =>
    obtain ⟨ha, hb⟩ := hd
    rcases List.mem_append.1 hf with hf | hf
    · obtain ⟨g, hg, h⟩ := iha ha hf
      exact ⟨g, List.mem_append_left _ hg, h⟩
    · obtain ⟨g, hg, h⟩ := ihb hb hf
      exact ⟨g, List.mem_append_right _ hg, h⟩
  | place inner replacement ih =>
    obtain ⟨hinner, hplain, -⟩ := hd
    by_cases hs : sel ⟨k, k + size inner.chars⟩ = true
    · simp only [taken, if_pos hs, List.mem_singleton, exists_eq_left]
      rcases List.mem_cons.1 hf with rfl | hf
      · exact ⟨Nat.le_refl _, Nat.le_refl _⟩
      · have hr := fixes_range hinner hf
        omega
    · simp only [taken, if_neg hs]
      rcases List.mem_cons.1 hf with rfl | hf
      · exact absurd hsel hs
      · exact ih hinner hf

/-- The ranges of some fixes. -/
def selects (fixes : List Fix) (s : Span) : Bool := fixes.any fun f => f.range == s

theorem selects_of_mem {fixes : List Fix} {f : Fix} (hf : f ∈ fixes) :
    selects fixes f.range = true := by
  rw [selects, List.any_eq_true]
  exact ⟨f, hf, by simp⟩

theorem mem_of_selects {d : Draft} (hd : d.Sound) {k : Nat} {fixes : List Fix}
    (h : ∀ f ∈ fixes, f ∈ d.fixes k) {f : Fix} (hf : f ∈ d.fixes k)
    (hsel : selects fixes f.range = true) : f ∈ fixes := by
  rw [selects, List.any_eq_true] at hsel
  obtain ⟨g, hg, hr⟩ := hsel
  obtain rfl := eq_of_range hd (h g hg) hf (by simpa using hr)
  exact hg

/-- Of some fixes of a draft those are chosen that lie in no other of them. -/
theorem choose_sort {d : Draft} (hd : d.Sound) {k : Nat} {fixes : List Fix}
    (h : ∀ f ∈ fixes, f ∈ d.fixes k) :
    (Fix.choose none (Fix.sort fixes)).1 = d.taken (selects fixes) k := by
  have hmem : ∀ f, f ∈ Fix.sort fixes ↔ f ∈ fixes := fun f => (Fix.sort_perm fixes).mem_iff
  have horder := Fix.sort_pairwise fixes
  have hrange : ∀ f ∈ Fix.sort fixes, f.range.start ≤ f.range.stop := by
    intro f hf
    have hr := fixes_range hd (h f ((hmem f).1 hf))
    omega
  have hchosen := (Fix.choose_apart none (Fix.sort fixes) horder (by simp) hrange).2
  have hperm := Fix.choose_perm none (Fix.sort fixes)
  have hsub : ∀ f ∈ (Fix.choose none (Fix.sort fixes)).1, f ∈ fixes := fun f hf =>
    (hmem f).1 (hperm.mem_iff.1 (List.mem_append_left _ hf))
  have htaken := taken_apart (selects fixes) hd k
  -- a taken fix is not skipped: what it conflicts with lies in it and comes later
  have hin : ∀ f ∈ d.taken (selects fixes) k, f ∈ (Fix.choose none (Fix.sort fixes)).1 := by
    intro f hf
    obtain ⟨hfd, hsel⟩ := mem_fixes_of_taken hf
    have hff := mem_of_selects hd h hfd hsel
    rcases List.mem_append.1 (hperm.mem_iff.2 ((hmem f).2 hff)) with hc | hs
    · exact hc
    · obtain ⟨g, hg, hbefore, hconflict⟩ := Fix.choose_skipped none _ horder (by simp) hs
      have hg : g ∈ (Fix.choose none (Fix.sort fixes)).1 := by simpa using hg
      have hgd := h g (hsub g hg)
      obtain ⟨t, ht, htg⟩ := taken_covers hd hgd (selects_of_mem (hsub g hg))
      have hgr := fixes_range hd hgd
      have hfr := fixes_range hd hfd
      have hlap : f.range.start < g.range.stop ∧ g.range.start < f.range.stop := by
        simp only [Fix.conflictsWith, Bool.or_eq_true, beq_iff_eq, Bool.and_eq_true,
          decide_eq_true_eq] at hconflict
        omega
      have htf : t = f := Fix.eq_of_overlap htaken ht hf (by omega) (by omega)
      subst htf
      have hgt : g = t := by
        rcases fixes_laminar hd hgd hfd with heq | hno
        · exact heq
        · unfold Fix.Before at hbefore
          omega
      exact hgt ▸ hg
  apply Fix.eq_of_apart hchosen htaken
  intro f
  constructor
  · intro hf
    have hfd := h f (hsub f hf)
    obtain ⟨t, ht, htf⟩ := taken_covers hd hfd (selects_of_mem (hsub f hf))
    have hfr := fixes_range hd hfd
    have heq : t = f := Fix.eq_of_overlap hchosen (hin t ht) hf (by omega) (by omega)
    exact heq ▸ ht
  · exact hin f

/-- Putting the taken fixes of a draft in place, when the text `w` before the draft is still to be
written. -/
theorem splice_taken (d : Draft) (sel : Span → Bool) {cs u w v : List Char} (stop : Nat)
    (rest : List Fix) (hcs : cs = u ++ (w ++ (d.chars ++ v))) :
    ∃ u' w' e, u' ++ w' = u ++ (w ++ d.chars) ∧
      e ++ w' = w ++ d.edited sel (size u + size w) ∧
      Fix.splice cs (size u) stop (d.taken sel (size u + size w) ++ rest) =
        e ++ Fix.splice cs (size u') stop rest := by
  induction d generalizing u w v rest with
  | text s => exact ⟨u, w ++ s, [], rfl, rfl, rfl⟩
  | append a b iha ihb =>
    obtain ⟨u₁, w₁, e₁, hu₁, he₁, hs₁⟩ := iha (v := b.chars ++ v)
      (b.taken sel (size u + size w + size a.chars) ++ rest) (by simpa [chars] using hcs)
    have hsize : size u₁ + size w₁ = size u + size w + size a.chars := by
      have hsize := congrArg size hu₁
      simp only [Text.size_append] at hsize
      omega
    have hcs₁ : cs = u₁ ++ (w₁ ++ (b.chars ++ v)) := by
      rw [← List.append_assoc, hu₁, hcs]
      simp [chars]
    obtain ⟨u₂, w₂, e₂, hu₂, he₂, hs₂⟩ := ihb rest hcs₁
    rw [hsize] at he₂ hs₂
    refine ⟨u₂, w₂, e₁ ++ e₂, ?_, ?_, ?_⟩
    · rw [hu₂, ← List.append_assoc, hu₁]
      simp [chars]
    · rw [List.append_assoc, he₂, ← List.append_assoc, he₁]
      simp [edited]
    · rw [taken, List.append_assoc, hs₁, hs₂, List.append_assoc]
  | place inner replacement ih =>
    by_cases hsel : sel ⟨size u + size w, size u + size w + size inner.chars⟩ = true
    · refine ⟨u ++ (w ++ inner.chars), [], w ++ replacement, by simp [chars], ?_, ?_⟩
      · simp [edited, hsel]
      · have hslice : slice? ⟨size u, size u + size w⟩ cs = some w := by
          rw [hcs]
          exact Text.slice?_append u w (inner.chars ++ v)
        have hstop : size (u ++ (w ++ inner.chars)) = size u + size w + size inner.chars := by
          simp only [Text.size_append]
          omega
        rw [taken, if_pos hsel, hstop, List.cons_append, List.nil_append, Fix.splice, hslice,
          Option.getD_some, String.toList_ofList]
    · obtain ⟨u', w', e, hu, he, hs⟩ := ih rest hcs
      refine ⟨u', w', e, hu, ?_, ?_⟩
      · simp only [edited, if_neg hsel]
        exact he
      · simp only [taken, if_neg hsel]
        exact hs

/-- The fixes of a draft that are taken make its text the edited one. -/
theorem splice_eq (d : Draft) (sel : Span → Bool) (u v : List Char) :
    Fix.splice (u ++ (d.chars ++ v)) (size u) (size u + size d.chars) (d.taken sel (size u)) =
      d.edited sel (size u) := by
  obtain ⟨u', w', e, hu, he, hs⟩ := splice_taken d sel (w := []) (v := v)
    (size u + size d.chars) [] rfl
  simp only [List.nil_append, Text.size_nil, Nat.add_zero, List.append_nil] at hu he hs
  have hslice : slice? ⟨size u', size u + size d.chars⟩ (u ++ (d.chars ++ v)) = some w' := by
    rw [← Text.size_append, ← hu, Text.size_append, ← List.append_assoc, ← hu, List.append_assoc]
    exact Text.slice?_append u' w' v
  rw [hs, Fix.splice, hslice, Option.getD_some, he]

theorem fixes_split {d : Draft} {u v : List Char} {f : Fix} (hf : f ∈ d.fixes (size u)) :
    ∃ a b c, u ++ (d.chars ++ v) = a ++ (b ++ c) ∧ f.range = ⟨size a, size a + size b⟩ := by
  induction d generalizing u v with
  | text cs => cases hf
  | append x y ihx ihy =>
    rw [fixes, ← Text.size_append, List.mem_append] at hf
    rcases hf with hf | hf
    · obtain ⟨a, b, c, he, hr⟩ := ihx (v := y.chars ++ v) hf
      exact ⟨a, b, c, by rw [← he]; simp [chars], hr⟩
    · obtain ⟨a, b, c, he, hr⟩ := ihy (v := v) hf
      exact ⟨a, b, c, by rw [← he]; simp [chars], hr⟩
  | place inner replacement ih =>
    rcases List.mem_cons.1 hf with rfl | hf
    · exact ⟨u, inner.chars, v, rfl, rfl⟩
    · exact ih hf

theorem within_of_mem {d : Draft} {u v : List Char} {f : Fix} (hf : f ∈ d.fixes (size u)) :
    f.Within (u ++ (d.chars ++ v)) := by
  obtain ⟨a, b, c, he, hr⟩ := fixes_split (v := v) hf
  rw [he]
  exact Fix.within_of_range c hr

/-- Applying fixes of a draft puts those in place that lie in no other of them. -/
theorem applyAll_eq {d : Draft} (hd : d.Sound) {fixes : List Fix} (h : ∀ f ∈ fixes, f ∈ d.fixes 0) :
    ∃ skipped, Fix.applyAll (String.ofList d.chars) fixes =
      .ok ⟨String.ofList (d.edited (selects fixes) 0), d.taken (selects fixes) 0, skipped⟩ := by
  have hwithin : ∀ f ∈ fixes, f.Within (String.ofList d.chars).toList := by
    intro f hf
    have hw := within_of_mem (u := []) (v := []) (h f hf)
    simpa using hw
  have hsplice := splice_eq d (selects fixes) [] []
  simp only [List.nil_append, List.append_nil, Text.size_nil, Nat.zero_add] at hsplice
  rw [Fix.applyAll_of_within hwithin, choose_sort hd h, String.toList_ofList, hsplice]
  exact ⟨_, rfl⟩

/-- Only the places of a draft matter for what is selected. -/
theorem edited_congr {sel sel' : Span → Bool} {d : Draft} {k : Nat}
    (h : ∀ f ∈ d.fixes k, sel f.range = sel' f.range) : d.edited sel k = d.edited sel' k := by
  induction d generalizing k with
  | text cs => rfl
  | append a b iha ihb =>
    rw [edited, edited, iha fun f hf => h f (List.mem_append_left _ hf),
      ihb fun f hf => h f (List.mem_append_right _ hf)]
  | place inner replacement ih =>
    have hplace := h _ List.mem_cons_self
    rw [edited, edited, hplace, ih fun f hf => h f (List.mem_cons_of_mem _ hf)]

theorem edited_of_taken_nil {sel : Span → Bool} {d : Draft} {k : Nat} (h : d.taken sel k = []) :
    d.edited sel k = d.chars := by
  induction d generalizing k with
  | text cs => rfl
  | append a b iha ihb =>
    obtain ⟨ha, hb⟩ := List.append_eq_nil_iff.1 h
    rw [edited, iha ha, ihb hb, chars]
  | place inner replacement ih =>
    by_cases hsel : sel ⟨k, k + size inner.chars⟩ = true
    · simp [taken, hsel] at h
    · simp only [taken, edited, if_neg hsel] at h ⊢
      exact ih h

/-- A text with some fix in place differs from the text without. -/
theorem differ_of_taken {sel : Span → Bool} {d : Draft} (hd : d.Sound) {k : Nat}
    (h : d.taken sel k ≠ []) : Differ d.chars (d.edited sel k) := by
  induction d generalizing k with
  | text cs => exact absurd rfl h
  | append a b iha ihb =>
    obtain ⟨ha, hb⟩ := hd
    by_cases hta : a.taken sel k = []
    · rw [taken, hta, List.nil_append] at h
      rw [edited, edited_of_taken_nil hta]
      exact (ihb hb h).append_left a.chars
    · exact (iha ha hta).append b.chars (b.edited sel (k + size a.chars))
  | place inner replacement ih =>
    obtain ⟨hinner, -, hdiffer⟩ := hd
    by_cases hsel : sel ⟨k, k + size inner.chars⟩ = true
    · simp only [edited, if_pos hsel]
      exact hdiffer
    · simp only [taken, edited, if_neg hsel] at h ⊢
      exact ih hinner h

end Draft

end TemplateLint
