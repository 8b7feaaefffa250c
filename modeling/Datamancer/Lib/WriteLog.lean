import Mathlib.Data.List.Induction
import Mathlib.Logic.Function.Basic

/-!
# Datamancer.Lib.WriteLog

A keyed store as the replay of its log: each write puts or removes the entry of one key, and
what the store has for a key is what the last write of that key left.
-/

namespace WriteLog

variable {κ ν : Type*}

/-- A write of one key; no value removes the entry. -/
structure Write (κ ν : Type*) where
  key : κ
  value : Option ν
  deriving DecidableEq

variable [DecidableEq κ]

def apply (m : κ → Option ν) (w : Write κ ν) : κ → Option ν := Function.update m w.key w.value

def replay (m : κ → Option ν) (log : List (Write κ ν)) : κ → Option ν := log.foldl apply m

variable {m : κ → Option ν} {log : List (Write κ ν)} {w : Write κ ν} {k : κ}

theorem replay_append (log' : List (Write κ ν)) :
    replay m (log ++ log') = replay (replay m log) log' := List.foldl_append

theorem replay_concat (w : Write κ ν) : replay m (log ++ [w]) = apply (replay m log) w :=
  replay_append [w]

theorem apply_of_ne (h : k ≠ w.key) : apply m w k = m k := Function.update_of_ne h _ _

/-- A write of what is there anyway changes nothing. -/
theorem apply_same (h : m w.key = w.value) : apply m w = m := by
  rw [apply, ← h]
  exact Function.update_eq_self _ _

/-- What the last write that put a value for the key put. -/
def lastPut (k : κ) (log : List (Write κ ν)) : Option ν :=
  (log.filterMap fun w => if w.key = k then w.value else none).getLast?

theorem lastPut_concat_put {v : ν} (h : w.key = k) (hv : w.value = some v) :
    lastPut k (log ++ [w]) = some v := by
  simp [lastPut, h, hv]

theorem lastPut_concat_of_ne (h : w.key ≠ k) : lastPut k (log ++ [w]) = lastPut k log := by
  simp [lastPut, h]

theorem lastPut_concat_remove (h : w.value = none) :
    lastPut k (log ++ [w]) = lastPut k log := by
  simp [lastPut, h]

/-- What was put last was put at some time. -/
theorem mem_of_lastPut {v : ν} (h : lastPut k log = some v) : ⟨k, some v⟩ ∈ log := by
  obtain ⟨w, hw, hput⟩ := List.mem_filterMap.mp (List.mem_of_getLast? h)
  obtain ⟨hkey, hvalue⟩ := Option.ite_none_right_eq_some.mp hput
  rwa [← hkey, ← hvalue]

theorem lastPut_ne_none {v : ν} (h : ⟨k, some v⟩ ∈ log) : lastPut k log ≠ none := by
  intro hnone
  have hmem : v ∈ log.filterMap fun w => if w.key = k then w.value else none :=
    List.mem_filterMap.mpr ⟨_, h, by simp⟩
  rw [List.getLast?_eq_none_iff.mp hnone] at hmem
  exact absurd hmem List.not_mem_nil

/-- After a value is put, and as long as no write removes it, the store has what was put
last. -/
theorem replay_eq_lastPut {v : ν} {after : List (Write κ ν)}
    (h : ∀ w ∈ after, w.key = k → w.value ≠ none) :
    replay m (log ++ ⟨k, some v⟩ :: after) k = lastPut k (log ++ ⟨k, some v⟩ :: after) := by
  induction after using List.reverseRecOn with
  | nil =>
      rw [replay_concat, lastPut_concat_put (w := ⟨k, some v⟩) rfl rfl]
      exact Function.update_self _ _ _
  | append_singleton after w ih =>
      rw [← List.cons_append, ← List.append_assoc, replay_concat]
      by_cases hw : w.key = k
      · obtain ⟨u, hu⟩ := Option.ne_none_iff_exists'.mp (h w (by simp) hw)
        rw [lastPut_concat_put hw hu, ← hu, ← hw]
        exact Function.update_self _ _ _
      · rw [apply_of_ne (Ne.symm hw), lastPut_concat_of_ne hw]
        exact ih fun u hu => h u (List.mem_append_left _ hu)

end WriteLog
