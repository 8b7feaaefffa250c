import Mathlib.Algebra.Order.Ring.Int
import Mathlib.Data.List.Basic
import Mathlib.Data.List.Infix

/-!
# Datamancer.Lib.Text

What texts are read with: the last occurrence of a pattern in a list (`rfind`), a list split at
its separators, and the decimal numerals of the natural numbers. A numeral is canonical where
it is the one the number is printed as, and it is that exactly where it has no leading zero
(`toDigits_ofDigitChars_iff`).
-/

namespace Datamancer

/-! ### The last occurrence -/

section Rfind

variable {α : Type*} [DecidableEq α]

/-- Where the last occurrence of `pat` begins. -/
def rfind (pat : List α) : List α → Option Nat
  | [] => if pat = [] then some 0 else none
  | c :: cs =>
      match rfind pat cs with
      | some n => some (n + 1)
      | none => if pat.isPrefixOf (c :: cs) then some 0 else none

/-- What was found is there. -/
theorem eq_of_rfind {pat s : List α} {n : Nat} (h : rfind pat s = some n) :
    s = s.take n ++ pat ++ s.drop (n + pat.length) := by
  induction s generalizing n with
  | nil =>
      rw [rfind] at h
      split_ifs at h with hpat
      simp [hpat]
  | cons c cs ih =>
      rw [rfind] at h
      split at h
      · rename_i m hm
        obtain rfl := Option.some.inj h
        have htail := ih hm
        rw [Nat.add_right_comm, List.take_succ_cons, List.drop_succ_cons, List.cons_append,
          List.cons_append, ← htail]
      · split_ifs at h with hpat
        obtain rfl := Option.some.inj h
        obtain ⟨t, ht⟩ := List.isPrefixOf_iff_prefix.mp hpat
        rw [← ht]
        simp

theorem rfind_eq_none {pat s : List α} (h : ¬ pat <:+: s) : rfind pat s = none := by
  cases hn : rfind pat s with
  | none => rfl
  | some n => exact absurd ⟨_, _, (eq_of_rfind hn).symm⟩ h

/-- An occurrence that no other follows is the last. -/
theorem rfind_append {pat : List α} (a : List α) {b : List α} (hne : pat ≠ [])
    (h : ¬ pat <:+: (pat ++ b).tail) : rfind pat (a ++ (pat ++ b)) = some a.length := by
  induction a with
  | nil =>
      obtain ⟨x, xs, rfl⟩ := List.exists_cons_of_ne_nil hne
      have hnone : rfind (x :: xs) (xs ++ b) = none := rfind_eq_none h
      have hhead : (x :: xs).isPrefixOf (x :: (xs ++ b)) = true :=
        List.isPrefixOf_iff_prefix.mpr ⟨b, rfl⟩
      rw [List.nil_append, List.cons_append, rfind, hnone]
      exact if_pos hhead
  | cons c cs ih =>
      rw [List.cons_append, rfind, ih]
      rfl

end Rfind

/-! ### Splitting -/

section Split

variable {α : Type*} [DecidableEq α]

/-- What stands before the first `c`, and what stands after it. -/
def splitOnce (c : α) : List α → Option (List α × List α)
  | [] => none
  | x :: xs => if x = c then some ([], xs) else (splitOnce c xs).map fun r => (x :: r.1, r.2)

theorem splitOnce_append {c : α} {a : List α} (b : List α) (h : c ∉ a) :
    splitOnce c (a ++ c :: b) = some (a, b) := by
  induction a with
  | nil => exact if_pos rfl
  | cons x xs ih =>
      rw [List.mem_cons, not_or] at h
      rw [List.cons_append, splitOnce, if_neg (Ne.symm h.1), ih h.2]
      rfl

theorem splitOnce_eq_none {c : α} {l : List α} : splitOnce c l = none ↔ c ∉ l := by
  induction l with
  | nil => simp [splitOnce]
  | cons x xs ih =>
      rw [splitOnce]
      split_ifs with hx
      · simp [hx]
      · simp [ih, Ne.symm hx]

theorem eq_of_splitOnce {c : α} {l a b : List α} (h : splitOnce c l = some (a, b)) :
    l = a ++ c :: b ∧ c ∉ a := by
  induction l generalizing a with
  | nil => cases h
  | cons x xs ih =>
      rw [splitOnce] at h
      split_ifs at h with hx
      · cases h
        exact ⟨by rw [hx]; rfl, List.not_mem_nil⟩
      · obtain ⟨⟨a', b'⟩, hr, hab⟩ := Option.map_eq_some_iff.mp h
        cases hab
        obtain ⟨rfl, hc⟩ := ih hr
        exact ⟨rfl, by simp [hc, Ne.symm hx]⟩

/-- No part of a split text has the separator. -/
theorem not_mem_of_mem_splitOn {c : α} {l part : List α} (h : part ∈ l.splitOn c) : c ∉ part := by
  induction l generalizing part with
  | nil =>
      rw [List.splitOn_nil, List.mem_singleton] at h
      rw [h]
      exact List.not_mem_nil
  | cons x xs ih =>
      rw [List.splitOn_cons_eq_if_modifyHead] at h
      split_ifs at h with hx
      · rcases List.mem_cons.mp h with rfl | h
        · exact List.not_mem_nil
        · exact ih h
      · obtain ⟨head, tail, hsplit⟩ := List.exists_cons_of_ne_nil (List.splitOn_ne_nil c xs)
        rw [hsplit, List.modifyHead_cons] at h
        rcases List.mem_cons.mp h with rfl | h
        · have hhead := ih (hsplit ▸ List.mem_cons_self)
          have hne : c ≠ x := fun hc => hx (by simp [hc])
          simp [hhead, hne]
        · exact ih (hsplit ▸ List.mem_cons_of_mem _ h)

/-- Three parts, none with the separator in it. -/
theorem splitOn_eq_three {c : α} {l x y z : List α} :
    l.splitOn c = [x, y, z] ↔ l = x ++ c :: (y ++ c :: z) ∧ c ∉ x ∧ c ∉ y ∧ c ∉ z := by
  constructor
  · intro h
    have hparts : ∀ part ∈ [x, y, z], c ∉ part := by
      rw [← h]
      exact fun part => not_mem_of_mem_splitOn
    refine ⟨?_, hparts x (by simp), hparts y (by simp), hparts z (by simp)⟩
    have hjoin : [c].intercalate (l.splitOn c) = l := List.intercalate_splitOn c
    rw [← hjoin, h]
    simp [List.intercalate]
  · rintro ⟨rfl, hx, hy, hz⟩
    rw [List.splitOn_append_cons_self_of_not_mem hx, List.splitOn_append_cons_self_of_not_mem hy,
      List.splitOn_eq_singleton hz]

end Split

/-! ### Decimal numerals -/

/-- One or more digits. -/
structure IsNumeral (ds : List Char) : Prop where
  ne_nil : ds ≠ []
  digits : ∀ c ∈ ds, c.isDigit = true

instance (ds : List Char) : Decidable (IsNumeral ds) :=
  decidable_of_iff (ds ≠ [] ∧ ds.all Char.isDigit = true)
    ⟨fun h => ⟨h.1, List.all_eq_true.mp h.2⟩, fun h => ⟨h.ne_nil, List.all_eq_true.mpr h.digits⟩⟩

/-- A zero with more digits after it. -/
def IsPadded (ds : List Char) : Prop := ∃ d rest, ds = '0' :: d :: rest

theorem isNumeral_toDigits (n : Nat) : IsNumeral (Nat.toDigits 10 n) :=
  ⟨Nat.toDigits_ne_nil, fun _ hc => Nat.isDigit_of_mem_toDigits (by decide) (by decide) hc⟩

theorem digitChar_of_isDigit {c : Char} (h : c.isDigit = true) :
    (c.toNat - '0'.toNat).digitChar = c ∧ c.toNat - '0'.toNat < 10 := by
  obtain ⟨hlo, hhi⟩ := Char.isDigit_iff_toNat.mp h
  simp only [Char.reduceToNat] at hlo hhi ⊢
  have hlt : c.toNat - 48 < 10 := by omega
  refine ⟨Char.toNat_inj.mp ?_, hlt⟩
  rw [Nat.toNat_digitChar_of_lt_ten hlt]
  omega

/-- As many digits as the power of ten has zeros stay below it. -/
theorem ofDigitChars_lt {ds : List Char} (hds : ∀ c ∈ ds, c.isDigit = true) :
    Nat.ofDigitChars 10 ds 0 < 10 ^ ds.length := by
  induction ds with
  | nil => decide
  | cons c cs ih =>
      have hlt := (digitChar_of_isDigit (hds c List.mem_cons_self)).2
      have hrest := ih fun d hd => hds d (List.mem_cons_of_mem _ hd)
      rw [Nat.ofDigitChars_cons, Nat.mul_zero, Nat.zero_add, Nat.ofDigitChars_eq_ofDigitChars_zero,
        List.length_cons, Nat.pow_succ]
      have hmul := Nat.mul_le_mul_left (10 ^ cs.length) (Nat.le_of_lt_succ hlt)
      omega

/-- A numeral read after a number that is not zero is printed after it. -/
theorem toDigits_append_digits {ds : List Char} (hds : ∀ c ∈ ds, c.isDigit = true) {n : Nat}
    (hn : 0 < n) : Nat.toDigits 10 (Nat.ofDigitChars 10 ds n) = Nat.toDigits 10 n ++ ds := by
  induction ds generalizing n with
  | nil => simp
  | cons c cs ih =>
      obtain ⟨hc, hlt⟩ := digitChar_of_isDigit (hds c List.mem_cons_self)
      have hstep : Nat.toDigits 10 (10 * n + (c.toNat - '0'.toNat)) = Nat.toDigits 10 n ++ [c] := by
        rw [← Nat.toDigits_append_toDigits (by decide) hn hlt, Nat.toDigits_of_lt_base hlt, hc]
      rw [Nat.ofDigitChars_cons,
        ih (fun d hd => hds d (List.mem_cons_of_mem _ hd)) (by omega), hstep,
        List.append_assoc, List.singleton_append]

/-- A positive number is printed with a first digit that is not zero. -/
theorem exists_head_toDigits {n : Nat} (hn : 0 < n) :
    ∃ c cs, Nat.toDigits 10 n = c :: cs ∧ c ≠ '0' := by
  induction n using Nat.strongRecOn with
  | ind n ih =>
      by_cases hlt : n < 10
      · refine ⟨n.digitChar, [], Nat.toDigits_of_lt_base hlt, fun h => ?_⟩
        have hval := Nat.toNat_digitChar_of_lt_ten hlt
        rw [h] at hval
        simp only [Char.reduceToNat] at hval
        omega
      · obtain ⟨c, cs, hcs, hc⟩ := ih (n / 10) (by omega) (by omega)
        exact ⟨c, cs ++ [(n % 10).digitChar],
          by rw [Nat.toDigits_of_base_le (by decide) (by omega), hcs, List.cons_append], hc⟩

/-- A numeral is the one its number is printed as exactly where no zero pads it. -/
theorem toDigits_ofDigitChars_iff {ds : List Char} (h : IsNumeral ds) :
    Nat.toDigits 10 (Nat.ofDigitChars 10 ds 0) = ds ↔ ¬ IsPadded ds := by
  constructor
  · rintro hprint ⟨d, rest, rfl⟩
    rcases Nat.eq_zero_or_pos (Nat.ofDigitChars 10 ('0' :: d :: rest) 0) with hzero | hpos
    · rw [hzero, Nat.toDigits_zero] at hprint
      cases hprint
    · obtain ⟨c, cs, hcs, hc⟩ := exists_head_toDigits hpos
      rw [hprint] at hcs
      exact hc (List.cons.inj hcs).1.symm
  · intro hpad
    obtain ⟨c, cs, rfl⟩ := List.exists_cons_of_ne_nil h.ne_nil
    obtain ⟨hc, hlt⟩ := digitChar_of_isDigit (h.digits c List.mem_cons_self)
    have hread : Nat.ofDigitChars 10 (c :: cs) 0
        = Nat.ofDigitChars 10 cs (c.toNat - '0'.toNat) := by
      rw [Nat.ofDigitChars_cons, Nat.mul_zero, Nat.zero_add]
    rw [hread]
    cases cs with
    | nil => rw [Nat.ofDigitChars_nil, Nat.toDigits_of_lt_base hlt, hc]
    | cons d rest =>
        have hpos : 0 < c.toNat - '0'.toNat := by
          rw [Nat.pos_iff_ne_zero]
          intro hzero
          rw [hzero] at hc
          exact hpad ⟨d, rest, by rw [← hc]; rfl⟩
        rw [toDigits_append_digits (fun e he => h.digits e (List.mem_cons_of_mem _ he)) hpos,
          Nat.toDigits_of_lt_base hlt, hc, List.singleton_append]

end Datamancer
