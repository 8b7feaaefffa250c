import Mathlib.Order.Interval.Set.LinearOrder
import Mathlib.Data.List.Basic
import Mathlib.Data.List.Sort

/-!
# Datamancer.Lib.HalfOpen

Half-open pieces `[a, b)` of a linear order, as lists of pairs of endpoints.

Three notions are enough for a store that keeps ranges and for a plan that walks
them: the set a list of pieces covers (`cover`), the normal form a list of pieces
is kept in (`Separated`), and a walk of consecutive pieces from one end of a
range to the other (`Tiling`). `slice` cuts a list of keyed items down to one
piece; a tiling of a range cuts a sorted list into consecutive slices
(`flatMap_slice`), which is how a result assembled piece by piece is compared
with the result over the whole range.
-/

namespace HalfOpen

variable {α β γ : Type*} [LinearOrder α]

/-! ### The set a list of pieces covers -/

/-- The points of the pieces of `segs`. -/
def cover (segs : List (α × α)) : Set α := {x | ∃ s ∈ segs, x ∈ Set.Ico s.1 s.2}

@[simp] theorem cover_nil : cover ([] : List (α × α)) = ∅ := by
  simp [cover]

theorem mem_cover {x : α} {segs : List (α × α)} :
    x ∈ cover segs ↔ ∃ s ∈ segs, s.1 ≤ x ∧ x < s.2 := Iff.rfl

@[simp] theorem cover_cons (s : α × α) (segs : List (α × α)) :
    cover (s :: segs) = Set.Ico s.1 s.2 ∪ cover segs := by
  ext x
  simp [cover]

/-! ### Normal form -/

/-- Nonempty pieces in increasing order, each a positive distance after the last. -/
structure Separated (segs : List (α × α)) : Prop where
  ordered : segs.Pairwise fun a b => a.2 < b.1
  nonempty : ∀ s ∈ segs, s.1 < s.2

theorem Separated.nil : Separated ([] : List (α × α)) := ⟨.nil, by simp⟩

theorem Separated.tail {s : α × α} {segs : List (α × α)} (h : Separated (s :: segs)) :
    Separated segs :=
  ⟨(List.pairwise_cons.mp h.ordered).2, fun u hu => h.nonempty u (List.mem_cons_of_mem _ hu)⟩

theorem Separated.cons {s : α × α} {segs : List (α × α)} (hs : s.1 < s.2)
    (hlt : ∀ u ∈ segs, s.2 < u.1) (h : Separated segs) : Separated (s :: segs) := by
  refine ⟨List.pairwise_cons.mpr ⟨hlt, h.ordered⟩, ?_⟩
  intro u hu
  rcases List.mem_cons.mp hu with rfl | hu
  · exact hs
  · exact h.nonempty u hu

theorem Separated.head_lt {s : α × α} {segs : List (α × α)} (h : Separated (s :: segs)) :
    ∀ u ∈ segs, s.2 < u.1 := (List.pairwise_cons.mp h.ordered).1

/-- In normal form every later piece starts after the head's end. -/
theorem Separated.not_mem_cover_tail {s : α × α} {segs : List (α × α)}
    (h : Separated (s :: segs)) {x : α} (hx : x ≤ s.2) : x ∉ cover segs := by
  rintro ⟨u, hu, hux, -⟩
  exact absurd (lt_of_lt_of_le (h.head_lt u hu) hux) (not_lt.mpr hx)

/-- A piece in normal form starts the set it covers. -/
theorem Separated.fst_le_of_mem_cover {s : α × α} {segs : List (α × α)}
    (h : Separated (s :: segs)) {x : α} (hx : x ∈ cover (s :: segs)) : s.1 ≤ x := by
  rcases mem_cover.mp hx with ⟨u, hu, hux, -⟩
  rcases List.mem_cons.mp hu with rfl | hu
  · exact hux
  · exact ((h.nonempty s List.mem_cons_self).trans (h.head_lt u hu)).le.trans hux

/-- The pieces after the head cover what is covered past its end. -/
theorem Separated.mem_cover_tail {s : α × α} {segs : List (α × α)} (h : Separated (s :: segs))
    {x : α} : x ∈ cover segs ↔ x ∈ cover (s :: segs) ∧ s.2 < x := by
  rw [cover_cons]
  constructor
  · exact fun hx => ⟨.inr hx, not_le.mp fun hle => h.not_mem_cover_tail hle hx⟩
  · rintro ⟨hx | hx, hlt⟩
    · exact absurd (hx.2.trans hlt) (lt_irrefl x)
    · exact hx

/-- The first piece is told by what is covered. -/
theorem Separated.head_le {s u : α × α} {p q : List (α × α)} (hp : Separated (s :: p))
    (hq : Separated (u :: q)) (h : cover (s :: p) = cover (u :: q)) : u.1 ≤ s.1 ∧ u.2 ≤ s.2 := by
  have hs : s.1 ∈ cover (s :: p) :=
    ⟨s, List.mem_cons_self, le_rfl, hp.nonempty s List.mem_cons_self⟩
  have hfst : u.1 ≤ s.1 := hq.fst_le_of_mem_cover (h ▸ hs)
  refine ⟨hfst, not_lt.mp fun hlt => ?_⟩
  -- Otherwise the end of `s` would be covered.
  have hend : s.2 ∈ cover (s :: p) := by
    rw [h]
    exact ⟨u, List.mem_cons_self, hfst.trans (hp.nonempty s List.mem_cons_self).le, hlt⟩
  rw [cover_cons] at hend
  rcases hend with hend | hend
  · exact absurd hend.2 (lt_irrefl _)
  · exact hp.not_mem_cover_tail le_rfl hend

/-- Lists of pieces in normal form that cover the same are equal. -/
theorem Separated.ext {p q : List (α × α)} (hp : Separated p) (hq : Separated q)
    (h : cover p = cover q) : p = q := by
  induction p generalizing q with
  | nil =>
      cases q with
      | nil => rfl
      | cons u q =>
          have hu : u.1 ∈ cover (u :: q) :=
            ⟨u, List.mem_cons_self, le_rfl, hq.nonempty u List.mem_cons_self⟩
          rw [← h] at hu
          simp at hu
  | cons s p ih =>
      cases q with
      | nil =>
          have hs : s.1 ∈ cover (s :: p) :=
            ⟨s, List.mem_cons_self, le_rfl, hp.nonempty s List.mem_cons_self⟩
          rw [h] at hs
          simp at hs
      | cons u q =>
          obtain ⟨hfst, hsnd⟩ := hp.head_le hq h
          obtain ⟨hfst', hsnd'⟩ := hq.head_le hp h.symm
          have hhead : s = u := Prod.ext (le_antisymm hfst' hfst) (le_antisymm hsnd' hsnd)
          subst hhead
          refine congrArg _ (ih hp.tail hq.tail (Set.ext fun x => ?_))
          rw [hp.mem_cover_tail, hq.mem_cover_tail, h]

/-! ### Inserting a piece -/

/-- `p` joined into `segs`, absorbing the pieces it overlaps or touches. -/
def insert (p : α × α) : List (α × α) → List (α × α)
  | [] => [p]
  | s :: segs =>
      if s.2 < p.1 then s :: insert p segs
      else if p.2 < s.1 then p :: s :: segs
      else insert (min p.1 s.1, max p.2 s.2) segs

theorem lt_of_mem_insert {c : α} {p u : α × α} {segs : List (α × α)} (hp : c < p.1)
    (hs : ∀ s ∈ segs, c < s.1) (hu : u ∈ insert p segs) : c < u.1 := by
  induction segs generalizing p with
  | nil =>
      obtain rfl := List.mem_singleton.mp hu
      exact hp
  | cons s segs ih =>
      obtain ⟨hs, hrest⟩ := List.forall_mem_cons.mp hs
      rw [insert] at hu
      split_ifs at hu with h1 h2
      · rcases List.mem_cons.mp hu with rfl | hu
        · exact hs
        · exact ih hp hrest hu
      · rcases List.mem_cons.mp hu with rfl | hu
        · exact hp
        · rcases List.mem_cons.mp hu with rfl | hu
          · exact hs
          · exact hrest u hu
      · exact ih (lt_min hp hs) hrest hu

/-- Insertion keeps the normal form. -/
theorem Separated.insert {p : α × α} {segs : List (α × α)} (h : Separated segs) (hp : p.1 < p.2) :
    Separated (insert p segs) := by
  induction segs generalizing p with
  | nil => exact .cons hp (by simp) .nil
  | cons s segs ih =>
      have hs : s.1 < s.2 := h.nonempty s List.mem_cons_self
      rw [HalfOpen.insert]
      split_ifs with h1 h2
      · exact .cons hs (fun u hu => lt_of_mem_insert h1 h.head_lt hu) (ih h.tail hp)
      · refine .cons hp (fun u hu => ?_) h
        rcases List.mem_cons.mp hu with rfl | hu
        · exact h2
        · exact (h2.trans hs).trans (h.head_lt u hu)
      · exact ih h.tail ((min_le_left _ _).trans_lt (hp.trans_le (le_max_left _ _)))

/-- Insertion adds exactly the points of the new piece. -/
theorem cover_insert {p : α × α} {segs : List (α × α)} (h : Separated segs) (hp : p.1 < p.2) :
    cover (insert p segs) = Set.Ico p.1 p.2 ∪ cover segs := by
  induction segs generalizing p with
  | nil => simp [insert]
  | cons s segs ih =>
      have hs : s.1 < s.2 := h.nonempty s List.mem_cons_self
      rw [insert]
      split_ifs with h1 h2
      · rw [cover_cons, ih h.tail hp, cover_cons, Set.union_left_comm]
      · rw [cover_cons]
      · have hjoin : Set.Ico p.1 p.2 ∪ Set.Ico s.1 s.2
            = Set.Ico (min p.1 s.1) (max p.2 s.2) :=
          Set.Ico_union_Ico' (not_lt.mp h2) (not_lt.mp h1)
        rw [ih h.tail ((min_le_left _ _).trans_lt (hp.trans_le (le_max_left _ _))), cover_cons,
          ← Set.union_assoc, hjoin]

/-! ### Consecutive pieces -/

/-- `Tiling f t segs`: nonempty consecutive pieces leading from `f` to `t`. -/
inductive Tiling : α → α → List (α × α) → Prop
  | done (t : α) : Tiling t t []
  | step {f m t : α} {segs : List (α × α)} (hlt : f < m) (rest : Tiling m t segs) :
      Tiling f t ((f, m) :: segs)

theorem Tiling.le {f t : α} {segs : List (α × α)} (h : Tiling f t segs) : f ≤ t := by
  induction h with
  | done => exact le_rfl
  | step hlt _ ih => exact hlt.le.trans ih

/-- A tiling covers exactly its range. -/
theorem Tiling.cover_eq {f t : α} {segs : List (α × α)} (h : Tiling f t segs) :
    cover segs = Set.Ico f t := by
  induction h with
  | done => simp
  | step hlt rest ih => rw [cover_cons, ih, Set.Ico_union_Ico_eq_Ico hlt.le rest.le]

theorem Tiling.append {f m t : α} {p q : List (α × α)} (hp : Tiling f m p) (hq : Tiling m t q) :
    Tiling f t (p ++ q) := by
  induction hp with
  | done => exact hq
  | step hlt _ ih => exact .step hlt (ih hq)

/-- The pieces of a tiling come one after the other. -/
theorem Tiling.ordered {f t : α} {segs : List (α × α)} (h : Tiling f t segs) :
    segs.Pairwise (fun a b => a.2 ≤ b.1) ∧ ∀ s ∈ segs, f ≤ s.1 ∧ s.1 < s.2 ∧ s.2 ≤ t := by
  induction h with
  | done => exact ⟨.nil, by simp⟩
  | @step f m t segs hlt rest ih =>
      refine ⟨List.pairwise_cons.mpr ⟨fun u hu => (ih.2 u hu).1, ih.1⟩, ?_⟩
      intro u hu
      rcases List.mem_cons.mp hu with rfl | hu
      · exact ⟨le_rfl, hlt, rest.le⟩
      · exact ⟨hlt.le.trans (ih.2 u hu).1, (ih.2 u hu).2⟩

/-! ### Pieces that leave no hole -/

/-- Every piece starts at or before the furthest point reached so far, from `c` on. -/
def Connected : α → List (α × α) → Prop
  | _, [] => True
  | c, s :: segs => s.1 ≤ c ∧ Connected (max c s.2) segs

theorem Connected.mono {c d : α} {segs : List (α × α)} (h : Connected c segs) (hcd : c ≤ d) :
    Connected d segs := by
  induction segs generalizing c d with
  | nil => trivial
  | cons s segs ih => exact
      ⟨h.1.trans hcd, ih h.2 (max_le (hcd.trans (le_max_left _ _)) (le_max_right _ _))⟩

/-- Up to the furthest point any initial run of connected pieces reaches, that run
leaves no point out. -/
theorem Connected.mem_cover {c x : α} {pre post : List (α × α)} (h : Connected c (pre ++ post))
    (hc : c ≤ x) (hx : ∃ s ∈ pre, x < s.2) : x ∈ cover pre := by
  induction pre generalizing c with
  | nil => simp at hx
  | cons s pre ih =>
      by_cases hs : x < s.2
      · exact ⟨s, List.mem_cons_self, h.1.trans hc, hs⟩
      · have hrest : ∃ u ∈ pre, x < u.2 := by
          obtain ⟨u, hu, hxu⟩ := hx
          rcases List.mem_cons.mp hu with rfl | hu
          · exact absurd hxu hs
          · exact ⟨u, hu, hxu⟩
        rw [cover_cons]
        exact .inr (ih h.2 (max_le hc (not_lt.mp hs)) hrest)

/-! ### Slices of a keyed list -/

variable (key : β → α)

/-- The items whose key lies in `[f, t)`, in the list's order. -/
def slice (f t : α) (l : List β) : List β := l.filter fun e => f ≤ key e ∧ key e < t

@[simp] theorem mem_slice {f t : α} {l : List β} {e : β} :
    e ∈ slice key f t l ↔ e ∈ l ∧ f ≤ key e ∧ key e < t := by
  simp [slice]

theorem slice_eq_nil {f t : α} (h : t ≤ f) (l : List β) : slice key f t l = [] := by
  rw [List.eq_nil_iff_forall_not_mem]
  intro e he
  obtain ⟨-, hf, ht⟩ := (mem_slice key).mp he
  exact absurd (lt_of_le_of_lt hf ht) (not_lt.mpr h)

theorem slice_sublist (f t : α) (l : List β) : (slice key f t l).Sublist l := List.filter_sublist

/-- Cutting a slice at a point of its range and joining the parts restores it. -/
theorem slice_append_slice {f m t : α} (hf : f ≤ m) (ht : m ≤ t) {l : List β}
    (hl : l.Pairwise fun a b => key a ≤ key b) :
    slice key f m l ++ slice key m t l = slice key f t l := by
  induction l with
  | nil => rfl
  | cons e l ih =>
      obtain ⟨he, hl⟩ := List.pairwise_cons.mp hl
      specialize ih hl
      by_cases hem : key e < m
      · -- `e` opens the left part or neither.
        have hr : slice key m t (e :: l) = slice key m t l := by
          simp [slice, not_le.mpr hem]
        by_cases hef : f ≤ key e
        · have h1 : slice key f m (e :: l) = e :: slice key f m l := by
            simp [slice, hef, hem]
          have h2 : slice key f t (e :: l) = e :: slice key f t l := by
            simp [slice, hef, hem.trans_le ht]
          rw [hr, h1, h2, List.cons_append, ih]
        · have h1 : slice key f m (e :: l) = slice key f m l := by simp [slice, hef]
          have h2 : slice key f t (e :: l) = slice key f t l := by simp [slice, hef]
          rw [hr, h1, h2, ih]
      · -- From here on nothing lies left of `m`.
        have hme : m ≤ key e := not_lt.mp hem
        have hnil : slice key f m (e :: l) = [] := by
          rw [List.eq_nil_iff_forall_not_mem]
          intro x hx
          obtain ⟨hxm, -, hlt⟩ := (mem_slice key).mp hx
          rcases List.mem_cons.mp hxm with rfl | hxl
          · exact hem hlt
          · exact absurd (hme.trans (he x hxl)) (not_le.mpr hlt)
        rw [hnil, List.nil_append]
        refine List.filter_congr fun x hx => ?_
        have hmx : m ≤ key x := by
          rcases List.mem_cons.mp hx with rfl | hxl
          · exact hme
          · exact hme.trans (he x hxl)
        simp [hmx, hf.trans hmx]

/-- The slices of a tiling, joined, are the slice of the whole range. -/
theorem flatMap_slice {f t : α} {segs : List (α × α)} (h : Tiling f t segs) {l : List β}
    (hl : l.Pairwise fun a b => key a ≤ key b) :
    segs.flatMap (fun s => slice key s.1 s.2 l) = slice key f t l := by
  induction h with
  | done t => simp [slice_eq_nil key le_rfl]
  | step hlt rest ih =>
      rw [List.flatMap_cons, ih, slice_append_slice key hlt.le rest.le hl]

/-- A slice of a sorted list is strictly increasing where no key occurs twice. -/
theorem slice_strict [DecidableEq α] {f t : α} {l : List β}
    (hl : l.Pairwise fun a b => key a ≤ key b)
    (hone : ∀ x, f ≤ x → x < t → (l.filter fun e => key e = x).length ≤ 1) :
    (slice key f t l).Pairwise fun a b => key a < key b := by
  induction l with
  | nil => exact .nil
  | cons e l ih =>
      obtain ⟨he, hl⟩ := List.pairwise_cons.mp hl
      have hrest : (slice key f t l).Pairwise fun a b => key a < key b := by
        refine ih hl fun x hf ht => (List.Sublist.length_le ?_).trans (hone x hf ht)
        exact (List.sublist_cons_self e l).filter _
      by_cases hin : f ≤ key e ∧ key e < t
      · have hcons : slice key f t (e :: l) = e :: slice key f t l := by simp [slice, hin]
        rw [hcons, List.pairwise_cons]
        refine ⟨fun a ha => ?_, hrest⟩
        obtain ⟨hal, -, -⟩ := (mem_slice key).mp ha
        refine lt_of_le_of_ne (he a hal) fun heq => ?_
        -- Otherwise `e` and `a` are two occurrences of one key.
        have hmem : a ∈ l.filter fun b => key b = key e := by
          simpa using ⟨hal, heq.symm⟩
        have htwo := hone (key e) hin.1 hin.2
        rw [List.filter_cons_of_pos (by simp), List.length_cons] at htwo
        have := List.length_pos_of_mem hmem
        omega
      · have hskip : slice key f t (e :: l) = slice key f t l := by
          simp only [slice]
          rw [List.filter_cons_of_neg (by simpa using hin)]
        rw [hskip]
        exact hrest

/-- Two strictly increasing lists with the same members are equal. -/
theorem eq_of_strictly_increasing {l l' : List β}
    (hl : l.Pairwise fun a b => key a < key b) (hl' : l'.Pairwise fun a b => key a < key b)
    (h : ∀ e, e ∈ l ↔ e ∈ l') : l = l' := by
  have hne : ∀ {a b : β}, key a < key b → a ≠ b := fun hab hEq => absurd (hEq ▸ hab) (lt_irrefl _)
  have hp : l.Perm l' :=
    (List.perm_ext_iff_of_nodup (hl.imp hne) (hl'.imp hne)).mpr h
  exact hp.eq_of_pairwise (fun a b _ _ hab hba => absurd (hab.trans hba) (lt_irrefl _)) hl hl'

end HalfOpen
