import TemplateLint.Proofs.Edit.Sequence

namespace TemplateLint

open Text (size slice?)

namespace Fix

theorem Apart.before {f g : Fix} (h : f.Apart g) : f.Before g := Or.inl h.1

/-- Fixes that follow one another are sorted the same way from any order. -/
theorem sort_eq {fixes sorted : List Fix} (hp : fixes.Perm sorted) (hs : sorted.Pairwise Apart) :
    sort fixes = sorted := by
  have hperm := (sort_perm fixes).trans hp
  have start_ne : ∀ f ∈ sorted, ∀ g ∈ sorted, f.range.start = g.range.start → f = g := by
    clear hp hperm
    induction sorted with
    | nil => simp
    | cons a as ih =>
      obtain ⟨ha, has⟩ := List.pairwise_cons.1 hs
      intro f hf g hg hfg
      rcases List.mem_cons.1 hf with rfl | hf' <;> rcases List.mem_cons.1 hg with rfl | hg'
      · rfl
      · have hapart := (ha g hg').1
        omega
      · have hapart := (ha f hf').1
        omega
      · exact ih has f hf' g hg' hfg
  apply hperm.eq_of_pairwise _ (sort_pairwise fixes) (hs.imp Apart.before)
  intro f g hf hg hfg hgf
  apply start_ne f (hperm.mem_iff.1 hf) g hg
  unfold Before at hfg hgf
  omega

end Fix

/-- The edit puts the text of one range of a source in the place of another. -/
def Fix.Copies (source : String) (f : Fix) (place origin : Span) : Prop :=
  f.range = place ∧ slice? origin source.toList = some f.replacement.toList

theorem Fix.Copies.eq {source : String} {f : Fix} {place origin : Span}
    (h : f.Copies source place origin) : f = ⟨place, Text.slice origin source⟩ := by
  obtain ⟨hplace, horigin⟩ := h
  rw [← hplace, Text.slice, horigin, Option.getD_some, String.ofList_toList]

theorem Fix.copies_of_slice? {source : String} {place origin : Span} {text : List Char}
    (h : slice? origin source.toList = some text) :
    Copies source ⟨place, String.ofList text⟩ place origin :=
  ⟨rfl, by rw [h, String.toList_ofList]⟩

/-- Every place of a draft without any inside another. -/
def Draft.allTaken (k : Nat) (d : Draft) : List Fix := d.taken (fun _ => true) k

def Draft.allEdited (k : Nat) (d : Draft) : List Char := d.edited (fun _ => true) k

/-- A part of a text that is to be replaced, with what stands before it. -/
structure Patch where
  before : List Char
  old : List Char
  new : List Char

namespace Draft

/-- The text of patches one after the other. -/
def patched : List Patch → List Char → Draft
  | [], rest => .text rest
  | p :: ps, rest => .append (.text p.before) (.append (.place (.text p.old) p.new) (patched ps rest))

@[simp] theorem chars_patched_nil (rest : List Char) : (patched [] rest).chars = rest := rfl

@[simp] theorem chars_patched_cons (p : Patch) (ps : List Patch) (rest : List Char) :
    (patched (p :: ps) rest).chars = p.before ++ (p.old ++ (patched ps rest).chars) := rfl

@[simp] theorem allEdited_patched_nil (rest : List Char) (k : Nat) :
    (patched [] rest).allEdited k = rest := rfl

@[simp] theorem allEdited_patched_cons (p : Patch) (ps : List Patch) (rest : List Char) (k : Nat) :
    (patched (p :: ps) rest).allEdited k =
      p.before ++ (p.new ++ (patched ps rest).allEdited (k + size p.before + size p.old)) := rfl

@[simp] theorem allTaken_patched_nil (rest : List Char) (k : Nat) :
    (patched [] rest).allTaken k = [] := rfl

@[simp] theorem allTaken_patched_cons (p : Patch) (ps : List Patch) (rest : List Char) (k : Nat) :
    (patched (p :: ps) rest).allTaken k =
      ⟨⟨k + size p.before, k + size p.before + size p.old⟩, String.ofList p.new⟩ ::
        (patched ps rest).allTaken (k + size p.before + size p.old) := rfl

/-- No two patches begin at the same place. -/
def Spread : List Patch → Prop
  | p :: q :: ps => 0 < size p.old + size q.before ∧ Spread (q :: ps)
  | _ => True

theorem le_start_of_patched {ps : List Patch} {rest : List Char} {k : Nat} {f : Fix}
    (hf : f ∈ (patched ps rest).allTaken k) :
    ∃ p more, ps = p :: more ∧ k + size p.before ≤ f.range.start := by
  induction ps generalizing k with
  | nil => cases hf
  | cons p ps ih =>
    refine ⟨p, ps, rfl, ?_⟩
    rw [allTaken_patched_cons] at hf
    rcases List.mem_cons.1 hf with rfl | hf
    · exact Nat.le_refl _
    · obtain ⟨q, more, -, hstart⟩ := ih hf
      omega

theorem apart_patched {ps : List Patch} (h : Spread ps) (rest : List Char) (k : Nat) :
    ((patched ps rest).allTaken k).Pairwise Fix.Apart := by
  induction ps generalizing k with
  | nil => exact .nil
  | cons p ps ih =>
    rw [allTaken_patched_cons]
    refine List.pairwise_cons.2 ⟨?_, ?_⟩
    · intro f hf
      obtain ⟨q, more, rfl, hstart⟩ := le_start_of_patched hf
      have hpos := h.1
      unfold Fix.Apart
      dsimp only
      omega
    · cases ps with
      | nil => exact .nil
      | cons q ps => exact ih h.2 _

/-- At the range of each patch stands what it replaces. -/
theorem slice?_patched (ps : List Patch) (rest u v : List Char) :
    ((patched ps rest).allTaken (size u)).map
        (fun f => slice? f.range (u ++ ((patched ps rest).chars ++ v))) =
      ps.map fun p => some p.old := by
  induction ps generalizing u with
  | nil => rfl
  | cons p ps ih =>
    have hslice := Text.slice?_append (u ++ p.before) p.old ((patched ps rest).chars ++ v)
    have hps := ih (u ++ (p.before ++ p.old))
    simp only [Text.size_append, ← Nat.add_assoc, List.append_assoc] at hslice hps
    simp only [allTaken_patched_cons, chars_patched_cons, List.map_cons, List.append_assoc, hslice,
      hps]

end Draft

/-- Patches cut a text where their ranges are. -/
theorem Draft.spliced_patched (ps : List Patch) (rest : List Char) (k : Nat) :
    Fix.Spliced k (patched ps rest).chars ((patched ps rest).allTaken k)
      ((patched ps rest).allEdited k) := by
  induction ps generalizing k with
  | nil => exact .rest k rest
  | cons p ps ih =>
    have hcut := Fix.Spliced.cut (f := ⟨⟨k + size p.before, k + size p.before + size p.old⟩,
      String.ofList p.new⟩) p.before p.old rfl (ih (k + size p.before + size p.old))
    rw [String.toList_ofList] at hcut
    exact hcut

namespace Fix

theorem Spliced.splice_eq {k : Nat} {s t : List Char} {fixes : List Fix} (h : Spliced k s fixes t)
    {u : List Char} (v : List Char) (hk : k = size u) :
    splice (u ++ (s ++ v)) k (k + size s) fixes = t := by
  induction h generalizing u with
  | rest k kept =>
    rw [splice, hk, Text.slice?_append, Option.getD_some]
  | @cut k f fs s t kept old hrange more ih =>
    have hkept : slice? ⟨k, k + size kept⟩ (u ++ (kept ++ (old ++ s) ++ v)) = some kept := by
      rw [hk, List.append_assoc]
      exact Text.slice?_append u kept _
    have hmore := ih (u := u ++ (kept ++ old)) (by simp only [hk, Text.size_append, Nat.add_assoc])
    have hsize : k + size (kept ++ (old ++ s)) = k + size kept + size old + size s := by
      simp only [Text.size_append, Nat.add_assoc]
    rw [splice, hrange, hkept, Option.getD_some, hsize, List.append_assoc]
    simp only [List.append_assoc] at hmore ⊢
    rw [hmore]

/-- What is cut out of a text are ranges of it. -/
theorem Spliced.within {k : Nat} {s t : List Char} {fixes : List Fix} (h : Spliced k s fixes t)
    {u : List Char} (v : List Char) (hk : k = size u) {f : Fix} (hf : f ∈ fixes) :
    f.Within (u ++ (s ++ v)) ∧ k ≤ f.range.start ∧ f.range.stop ≤ k + size s := by
  induction h generalizing u with
  | rest k kept => cases hf
  | @cut k g fs s t kept old hrange more ih =>
    rcases List.mem_cons.1 hf with rfl | hf
    · have hwithin : f.Within (u ++ kept ++ (old ++ (s ++ v))) := within_of_range (s ++ v)
        (hrange.trans (by rw [hk, Text.size_append]))
      refine ⟨by simpa using hwithin, ?_, ?_⟩ <;> rw [hrange]
      · exact Nat.le_add_right _ _
      · simp only [Text.size_append]
        omega
    · obtain ⟨hwithin, hstart, hstop⟩ := ih (u := u ++ (kept ++ old))
        (by simp only [hk, Text.size_append, Nat.add_assoc]) hf
      refine ⟨by simpa using hwithin, ?_, ?_⟩
      · omega
      · simp only [Text.size_append]
        omega

/-- Edits of a text at `k`, in any order and none of them over another, and what they make of it. -/
structure Edits (k : Nat) (s : List Char) (edits : List Fix) (t : List Char) : Prop where
  apart : (sort edits).Pairwise Apart
  spliced : Spliced k s (sort edits) t

variable {k : Nat} {s t : List Char} {edits : List Fix}

/-- The ranges of patches, in any order. -/
theorem Edits.of_patched {ps : List Patch} {rest : List Char} (h : Draft.Spread ps)
    (hs : (Draft.patched ps rest).chars = s) (ht : (Draft.patched ps rest).allEdited k = t)
    (hedits : edits.Perm ((Draft.patched ps rest).allTaken k)) : Edits k s edits t := by
  have hapart := Draft.apart_patched h rest k
  have hsort := sort_eq hedits hapart
  subst hs ht
  exact ⟨hsort ▸ hapart, hsort ▸ Draft.spliced_patched ps rest k⟩

/-- A builder puts all edits in place. -/
theorem Edits.build {u : List Char} (h : Edits (size u) s edits t) (v : List Char) {source : String}
    (hsource : source = String.ofList (u ++ (s ++ v))) :
    FixBuilder.build ⟨source, ⟨size u, size u + size s⟩, edits⟩ =
      ⟨⟨size u, size u + size s⟩, String.ofList t⟩ := by
  rw [FixBuilder.build, hsource, String.toList_ofList]
  simp only [h.spliced.splice_eq v rfl]

end Fix

end TemplateLint
