import Mathlib.Data.List.Basic
import Mathlib.Data.List.Sort
import Mathlib.Data.List.Nodup

/-!
# Datamancer.Lib.KeyedTable

A table under a primary key, with the statements a store needs of it: `DELETE`
with a `WHERE` clause, `INSERT OR REPLACE`, and `SELECT` with a `WHERE` clause,
counted or in the order of one column.

The primary key is part of the type: a `KeyedTable pk` cannot hold two rows of
one key, so a table is a partial function from keys to rows (`lookup`) and every
statement is characterised by what it does to it (`lookup_deleteWhere`,
`lookup_insertOrReplace`, `lookup_insertAll`). A `WHERE` clause that a statement
does not reach selects the very same list of rows before and after it
(`select_deleteWhere_of_disjoint`, `select_insertOrReplace_of_disjoint`).
-/

/-- Rows under the primary key `pk`, in insertion order. -/
structure KeyedTable {ρ κ : Type*} (pk : ρ → κ) where
  rows : List ρ
  unique : (rows.map pk).Nodup

namespace KeyedTable

variable {ρ κ α : Type*} {pk : ρ → κ}

/-- The table before any insert. -/
def empty : KeyedTable pk := ⟨[], by simp⟩

/-- Two rows of one table with the same key are the same row. -/
theorem eq_of_pk_eq (t : KeyedTable pk) {r s : ρ} (hr : r ∈ t.rows) (hs : s ∈ t.rows)
    (h : pk r = pk s) : r = s :=
  List.inj_on_of_nodup_map t.unique hr hs h

/-! ### Statements -/

/-- `DELETE FROM … WHERE p`. -/
def deleteWhere (t : KeyedTable pk) (p : ρ → Bool) : KeyedTable pk where
  rows := t.rows.filter fun r => !p r
  unique := t.unique.sublist (List.filter_sublist.map pk)

/-- `SELECT … WHERE p`. -/
def select (t : KeyedTable pk) (p : ρ → Bool) : List ρ := t.rows.filter p

/-- `SELECT count(*) … WHERE p`. -/
def count (t : KeyedTable pk) (p : ρ → Bool) : Nat := (t.select p).length

/-- `SELECT … WHERE p ORDER BY col ASC`. -/
def selectOrdered [LE α] [DecidableLE α] (t : KeyedTable pk) (p : ρ → Bool) (col : ρ → α) :
    List ρ :=
  (t.select p).insertionSort fun a b => col a ≤ col b

@[simp] theorem mem_deleteWhere {t : KeyedTable pk} {p : ρ → Bool} {r : ρ} :
    r ∈ (t.deleteWhere p).rows ↔ r ∈ t.rows ∧ p r = false := by
  simp [deleteWhere]

@[simp] theorem mem_select {t : KeyedTable pk} {p : ρ → Bool} {r : ρ} :
    r ∈ t.select p ↔ r ∈ t.rows ∧ p r = true := by
  simp [select]

/-- A `DELETE` that reaches none of the rows a `WHERE` clause selects. -/
theorem select_deleteWhere_of_disjoint {t : KeyedTable pk} {p q : ρ → Bool}
    (h : ∀ r, p r = true → q r = false) : (t.deleteWhere q).select p = t.select p := by
  simp only [select, deleteWhere, List.filter_filter]
  refine List.filter_congr fun r _ => ?_
  by_cases hp : p r = true
  · simp [hp, h r hp]
  · simp [hp]

/-! ### Ordered selection -/

section Ordered

variable [LinearOrder α]

theorem selectOrdered_perm (t : KeyedTable pk) (p : ρ → Bool) (col : ρ → α) :
    (t.selectOrdered p col).Perm (t.select p) := List.perm_insertionSort _ _

@[simp] theorem mem_selectOrdered {t : KeyedTable pk} {p : ρ → Bool} {col : ρ → α} {r : ρ} :
    r ∈ t.selectOrdered p col ↔ r ∈ t.rows ∧ p r = true := by
  rw [(t.selectOrdered_perm p col).mem_iff, mem_select]

theorem selectOrdered_pairwise (t : KeyedTable pk) (p : ρ → Bool) (col : ρ → α) :
    (t.selectOrdered p col).Pairwise fun a b => col a ≤ col b := by
  have : Std.Total fun a b => col a ≤ col b := ⟨fun a b => le_total (col a) (col b)⟩
  have : IsTrans ρ fun a b => col a ≤ col b := ⟨fun _ _ _ => le_trans⟩
  exact List.pairwise_insertionSort _ _

/-- Where the ordering column determines the key among the selected rows, the
selection is strictly increasing in it. -/
theorem selectOrdered_strict (t : KeyedTable pk) (p : ρ → Bool) (col : ρ → α)
    (h : ∀ r s, p r = true → p s = true → col r = col s → pk r = pk s) :
    (t.selectOrdered p col).Pairwise fun a b => col a < col b := by
  have hnd : (t.selectOrdered p col).Nodup := by
    rw [(t.selectOrdered_perm p col).nodup_iff]
    exact (List.Nodup.of_map pk t.unique).filter _
  have hle := t.selectOrdered_pairwise p col
  refine (hle.and hnd).imp_of_mem fun {a b} ha hb hab => lt_of_le_of_ne hab.1 fun hEq => ?_
  obtain ⟨ha, hpa⟩ := mem_selectOrdered.mp ha
  obtain ⟨hb, hpb⟩ := mem_selectOrdered.mp hb
  exact hab.2 (t.eq_of_pk_eq ha hb (h a b hpa hpb hEq))

end Ordered

/-! ### `INSERT OR REPLACE` -/

variable [DecidableEq κ]

/-- `INSERT OR REPLACE INTO … VALUES r`. -/
def insertOrReplace (t : KeyedTable pk) (r : ρ) : KeyedTable pk where
  rows := (t.rows.filter fun x => pk x ≠ pk r) ++ [r]
  unique := by
    rw [List.map_append, List.nodup_append]
    refine ⟨t.unique.sublist (List.filter_sublist.map pk), by simp, ?_⟩
    intro k hk k' hk'
    obtain ⟨x, hx, rfl⟩ := List.mem_map.mp hk
    obtain rfl : k' = pk r := by simpa using hk'
    simpa using (List.mem_filter.mp hx).2

@[simp] theorem mem_insertOrReplace {t : KeyedTable pk} {r x : ρ} :
    x ∈ (t.insertOrReplace r).rows ↔ x = r ∨ (x ∈ t.rows ∧ pk x ≠ pk r) := by
  simp [insertOrReplace, or_comm]

/-- An insert under a key that no row of the `WHERE` clause carries. -/
theorem select_insertOrReplace_of_disjoint {t : KeyedTable pk} {p : ρ → Bool} {r : ρ}
    (h : ∀ x, p x = true → pk x ≠ pk r) : (t.insertOrReplace r).select p = t.select p := by
  have hr : p r = false := by
    by_contra hp
    exact h r (by simpa using hp) rfl
  simp only [select, insertOrReplace, List.filter_append, List.filter_filter]
  rw [List.filter_cons_of_neg (by simp [hr]), List.filter_nil, List.append_nil]
  refine List.filter_congr fun x _ => ?_
  by_cases hp : p x = true
  · simp [hp, h x hp]
  · simp [hp]

/-- Insert a batch in order. -/
def insertAll (t : KeyedTable pk) (rs : List ρ) : KeyedTable pk := rs.foldl insertOrReplace t

@[simp] theorem insertAll_nil (t : KeyedTable pk) : t.insertAll [] = t := rfl

@[simp] theorem insertAll_cons (t : KeyedTable pk) (r : ρ) (rs : List ρ) :
    t.insertAll (r :: rs) = (t.insertOrReplace r).insertAll rs := rfl

/-! ### `INSERT` -/

/-- `INSERT INTO … VALUES r`, which fails where the key is taken. -/
def insert (t : KeyedTable pk) (r : ρ) : Option (KeyedTable pk) :=
  if h : pk r ∈ t.rows.map pk then none
  else some ⟨t.rows ++ [r], by
    rw [List.map_append]
    exact List.nodup_append.mpr ⟨t.unique, by simp, fun k hk k' hk' he => h (by
      rw [List.map_singleton, List.mem_singleton] at hk'
      rwa [← hk', ← he])⟩⟩

theorem insert_eq_some {t t' : KeyedTable pk} {r : ρ} :
    t.insert r = some t' ↔ pk r ∉ t.rows.map pk ∧ t'.rows = t.rows ++ [r] := by
  unfold insert
  by_cases h : pk r ∈ t.rows.map pk
  · rw [dif_pos h]
    exact ⟨fun h' => (by cases h'), fun h' => absurd h h'.1⟩
  · rw [dif_neg h]
    refine ⟨fun h' => ?_, fun h' => ?_⟩
    · cases h'
      exact ⟨h, rfl⟩
    · obtain ⟨rows, unique⟩ := t'
      cases h'.2
      rfl

/-! ### The row under a key -/

/-- The row a key holds. -/
def lookup (t : KeyedTable pk) (k : κ) : Option ρ := t.rows.find? fun r => pk r = k

theorem lookup_eq_some {t : KeyedTable pk} {k : κ} {r : ρ} :
    t.lookup k = some r ↔ r ∈ t.rows ∧ pk r = k := by
  constructor
  · intro h
    exact ⟨List.mem_of_find?_eq_some h, by simpa using List.find?_some h⟩
  · rintro ⟨hr, rfl⟩
    obtain ⟨s, hs⟩ : ∃ s, t.lookup (pk r) = some s :=
      Option.isSome_iff_exists.mp (List.find?_isSome.mpr ⟨r, hr, by simp⟩)
    have hsk : pk s = pk r := by simpa using List.find?_some hs
    rw [hs, t.eq_of_pk_eq (List.mem_of_find?_eq_some hs) hr hsk]

theorem lookup_eq_none {t : KeyedTable pk} {k : κ} :
    t.lookup k = none ↔ ∀ r ∈ t.rows, pk r ≠ k := by
  simp [lookup]

/-- Two tables agree on a key as soon as they hold the same rows under it. -/
theorem lookup_congr {t u : KeyedTable pk} {k : κ}
    (h : ∀ r, pk r = k → (r ∈ t.rows ↔ r ∈ u.rows)) : t.lookup k = u.lookup k := by
  refine Option.ext fun r => ?_
  rw [lookup_eq_some, lookup_eq_some]
  exact and_congr_left (h r)

/-- A `DELETE` whose `WHERE` clause is read off the key. -/
theorem lookup_deleteWhere {t : KeyedTable pk} {p : ρ → Bool} {q : κ → Bool}
    (hpq : ∀ r, p r = q (pk r)) (k : κ) :
    (t.deleteWhere p).lookup k = if q k then none else t.lookup k := by
  split_ifs with hk
  · rw [lookup_eq_none]
    rintro r hr rfl
    rw [mem_deleteWhere, hpq, hk] at hr
    exact absurd hr.2 (by simp)
  · refine lookup_congr fun r hr => ?_
    rw [mem_deleteWhere, hpq, hr]
    simp [hk]

theorem lookup_insertOrReplace (t : KeyedTable pk) (r : ρ) (k : κ) :
    (t.insertOrReplace r).lookup k = if pk r = k then some r else t.lookup k := by
  split_ifs with hk
  · rw [lookup_eq_some, mem_insertOrReplace]
    exact ⟨Or.inl rfl, hk⟩
  · refine lookup_congr fun x hx => ?_
    rw [mem_insertOrReplace]
    constructor
    · rintro (rfl | ⟨hxt, -⟩)
      · exact absurd hx hk
      · exact hxt
    · exact fun hxt => Or.inr ⟨hxt, fun h => hk (h.symm.trans hx)⟩

/-- A batch leaves under each key the last of its rows that carries it, and the
keys it does not carry as they were. -/
theorem lookup_insertAll (t : KeyedTable pk) (rs : List ρ) (k : κ) :
    (t.insertAll rs).lookup k = (rs.reverse.find? fun r => pk r = k).or (t.lookup k) := by
  induction rs generalizing t with
  | nil => rfl
  | cons r rs ih =>
      rw [insertAll_cons, ih, lookup_insertOrReplace, List.reverse_cons, List.find?_append,
        Option.or_assoc]
      congr 1
      by_cases hk : pk r = k <;> simp [hk]

end KeyedTable
