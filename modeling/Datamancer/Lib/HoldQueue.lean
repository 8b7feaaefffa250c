import Mathlib.Data.List.Basic
import Mathlib.Data.List.Perm.Basic
import Mathlib.Data.List.Perm.Subperm

/-!
# Datamancer.Lib.HoldQueue

A queue whose items wait until what they refer to is known. An item may carry a key;
it is released once its key is known, at once if it carries none. Keys become known
in any order relative to the items, and stay known.

Items of one key come out in the order they went in, whatever the order in which the
keys become known (`released_of_key`), and none is lost or released twice
(`held_run`, `released_perm`). Items of different keys may overtake one another:
what is released after a point of a run is told by `released_append`.
-/

namespace HoldQueue

variable {α κ : Type*}

/-- What the queue observes. -/
inductive Input (α κ : Type*)
  | learn (k : κ)
  | offer (x : α)

/-- The items offered among the inputs. -/
def offered : List (Input α κ) → List α
  | [] => []
  | .learn _ :: ins => offered ins
  | .offer x :: ins => x :: offered ins

/-- The keys learnt among the inputs. -/
def learnt : List (Input α κ) → List κ
  | [] => []
  | .learn k :: ins => k :: learnt ins
  | .offer _ :: ins => learnt ins

/-- The known keys, the items held back and the items released so far. -/
structure Queue (α κ : Type*) where
  known : List κ
  held : List α
  released : List α

/-- The queue before any input. -/
def Queue.empty : Queue α κ := ⟨[], [], []⟩

section

variable [DecidableEq κ] (key : α → Option κ)

/-- Whether an item may be released: it carries no key, or a known one. -/
def ready (known : List κ) (x : α) : Bool :=
  match key x with
  | none => true
  | some k => k ∈ known

/-- Release every held item that may be. -/
def drain (q : Queue α κ) : Queue α κ :=
  { q with
    held := q.held.filter fun x => !ready key q.known x
    released := q.released ++ q.held.filter (ready key q.known) }

def step (q : Queue α κ) : Input α κ → Queue α κ
  | .learn k => drain key { q with known := k :: q.known }
  | .offer x => drain key { q with held := q.held ++ [x] }

def run (q : Queue α κ) (ins : List (Input α κ)) : Queue α κ := ins.foldl (step key) q

variable {key}

theorem run_append (q : Queue α κ) (ins ins' : List (Input α κ)) :
    run key q (ins ++ ins') = run key (run key q ins) ins' := List.foldl_append

theorem ready_of_key_none (known : List κ) {x : α} (h : key x = none) :
    ready key known x = true := by
  simp [ready, h]

theorem ready_iff {known : List κ} {x : α} :
    ready key known x = true ↔ ∀ k, key x = some k → k ∈ known := by
  cases h : key x <;> simp [ready, h]

theorem ready_mono {known known' : List κ} (h : ∀ k ∈ known, k ∈ known') {x : α}
    (hx : ready key known x = true) : ready key known' x = true :=
  ready_iff.mpr fun k hk => h k (ready_iff.mp hx k hk)

/-! ### What a run knows and holds -/

theorem mem_known_run {q : Queue α κ} {ins : List (Input α κ)} {k : κ} :
    k ∈ (run key q ins).known ↔ k ∈ q.known ∨ k ∈ learnt ins := by
  induction ins generalizing q with
  | nil => simp [run, learnt]
  | cons i ins ih =>
      show k ∈ (run key (step key q i) ins).known ↔ _
      rw [ih]
      cases i with
      | learn k' =>
          simp only [step, drain, learnt, List.mem_cons]
          tauto
      | offer x => simp [step, drain, learnt]

/-- Nothing held could be released. -/
def Settled (key : α → Option κ) (q : Queue α κ) : Prop :=
  ∀ x ∈ q.held, ready key q.known x = false

theorem settled_drain (q : Queue α κ) : Settled key (drain key q) := by
  intro x hx
  have hnot := (List.mem_filter.mp hx).2
  rwa [Bool.not_eq_true'] at hnot

theorem settled_step (q : Queue α κ) (i : Input α κ) : Settled key (step key q i) := by
  cases i with
  | learn k => exact settled_drain _
  | offer y => exact settled_drain _

theorem Settled.run {q : Queue α κ} (h : Settled key q) (ins : List (Input α κ)) :
    Settled key (run key q ins) := by
  induction ins generalizing q with
  | nil => exact h
  | cons i ins ih => exact ih (settled_step q i)

/-- Where a predicate grows, filtering by its complement twice is filtering by the later
one. -/
theorem filter_not_filter_not {p p' : α → Bool} (h : ∀ x, p x = true → p' x = true)
    (xs : List α) : (xs.filter fun x => !p x).filter (fun x => !p' x)
      = xs.filter fun x => !p' x := by
  rw [List.filter_filter]
  refine List.filter_congr fun x _ => ?_
  cases hp : p x with
  | false => simp
  | true => simp [h x hp]

/-- The items held after a run are those of the earlier held and the offered ones that
are still not ready, in order. -/
theorem held_run {q : Queue α κ} (hq : Settled key q) (ins : List (Input α κ)) :
    (run key q ins).held
      = (q.held ++ offered ins).filter fun x => !ready key (run key q ins).known x := by
  induction ins generalizing q with
  | nil =>
      have hall : ∀ x ∈ q.held, (!ready key q.known x) = true := fun x hx => by simp [hq x hx]
      simp only [run, offered, List.foldl_nil, List.append_nil]
      exact (List.filter_eq_self.mpr hall).symm
  | cons i ins ih =>
      have hmono : ∀ x, ready key (step key q i).known x = true →
          ready key (run key (step key q i) ins).known x = true :=
        fun x hx => ready_mono (fun k hk => mem_known_run.mpr (.inl hk)) hx
      show (run key (step key q i) ins).held
        = List.filter (fun x => !ready key (run key (step key q i) ins).known x) _
      rw [ih (settled_step q i)]
      cases i with
      | learn k =>
          simp only [List.filter_append, offered]
          congr 1
          exact filter_not_filter_not hmono q.held
      | offer x =>
          have hcons : q.held ++ offered (.offer x :: ins)
              = (q.held ++ [x]) ++ offered ins := by simp [offered]
          rw [hcons, List.filter_append, List.filter_append (q.held ++ [x])]
          congr 1
          exact filter_not_filter_not hmono (q.held ++ [x])

/-- An item that came in and is not ready is still held, and only those are. -/
theorem mem_held_run {q : Queue α κ} (hq : Settled key q) {ins : List (Input α κ)} {x : α} :
    x ∈ (run key q ins).held ↔ (x ∈ q.held ∨ x ∈ offered ins)
      ∧ ready key (run key q ins).known x = false := by
  rw [held_run hq, List.mem_filter, List.mem_append]
  simp

/-- Once the keys of all that came in are known, nothing is held. -/
theorem held_eq_nil {q : Queue α κ} (hq : Settled key q) {ins : List (Input α κ)}
    (h : ∀ x, x ∈ q.held ∨ x ∈ offered ins → ready key (run key q ins).known x = true) :
    (run key q ins).held = [] := by
  refine List.eq_nil_iff_forall_not_mem.mpr fun x hx => ?_
  obtain ⟨hin, hnot⟩ := (mem_held_run hq).mp hx
  rw [h x hin] at hnot
  cases hnot

/-- An item that may be released on arrival is, and nothing else with it. -/
theorem Settled.step_offer {q : Queue α κ} (hq : Settled key q) {x : α}
    (hx : ready key q.known x = true) :
    step key q (.offer x) = { q with released := q.released ++ [x] } := by
  have hkeep : q.held.filter (fun y => !ready key q.known y) = q.held :=
    List.filter_eq_self.mpr fun y hy => by simp [hq y hy]
  have hout : q.held.filter (ready key q.known) = [] :=
    List.filter_eq_nil_iff.mpr fun y hy => by simp [hq y hy]
  simp only [step, drain, List.filter_append, hkeep, hout, List.nil_append]
  simp [hx]

/-! ### What a run releases -/

theorem perm_drain (q : Queue α κ) :
    ((drain key q).released ++ (drain key q).held).Perm (q.released ++ q.held) := by
  simp only [drain, List.append_assoc]
  exact (List.filter_append_perm (ready key q.known) q.held).append_left _

/-- No item is lost and none is released twice: what was released and what is held are,
together, what came in. -/
theorem released_perm (q : Queue α κ) (ins : List (Input α κ)) :
    ((run key q ins).released ++ (run key q ins).held).Perm
      (q.released ++ q.held ++ offered ins) := by
  induction ins generalizing q with
  | nil => simp [run, offered]
  | cons i ins ih =>
      refine (ih (step key q i)).trans ?_
      cases i with
      | learn k => exact (perm_drain _).append_right _
      | offer x =>
          have hcons : q.released ++ q.held ++ offered (.offer x :: ins)
              = (q.released ++ (q.held ++ [x])) ++ offered ins := by simp [offered]
          rw [hcons]
          exact (perm_drain _).append_right _

/-- The items of one key, or of none: all of them may be released or none may. -/
theorem drain_of_key (q : Queue α κ) (p : α → Bool)
    (hp : ∀ x y, p x = true → p y = true → key x = key y) :
    (drain key q).released.filter p ++ (drain key q).held.filter p
      = q.released.filter p ++ q.held.filter p := by
  simp only [drain, List.filter_append, List.append_assoc, List.append_cancel_left_eq]
  -- all items of the key are ready, or none is
  by_cases h : ∃ x, p x = true ∧ ready key q.known x = true
  · obtain ⟨x, hx, hready⟩ := h
    have hall : ∀ y, p y = true → ready key q.known y = true := fun y hy => by
      rwa [ready, hp y x hy hx, ← ready]
    have hout : (q.held.filter (ready key q.known)).filter p = q.held.filter p := by
      rw [List.filter_filter]
      refine List.filter_congr fun y _ => ?_
      cases hy : p y with
      | false => rfl
      | true => simp [hall y hy]
    have hheld : (q.held.filter fun y => !ready key q.known y).filter p = [] := by
      refine List.eq_nil_iff_forall_not_mem.mpr fun y hy => ?_
      obtain ⟨hmem, hpy⟩ := List.mem_filter.mp hy
      simpa [hall y hpy] using (List.mem_filter.mp hmem).2
    rw [hout, hheld, List.append_nil]
  · have hnone : ∀ y, p y = true → ready key q.known y = false := fun y hy => by
      cases hr : ready key q.known y with
      | false => rfl
      | true => exact absurd ⟨y, hy, hr⟩ h
    have hout : (q.held.filter (ready key q.known)).filter p = [] := by
      refine List.eq_nil_iff_forall_not_mem.mpr fun y hy => ?_
      obtain ⟨hmem, hpy⟩ := List.mem_filter.mp hy
      simpa [hnone y hpy] using (List.mem_filter.mp hmem).2
    have hheld : (q.held.filter fun y => !ready key q.known y).filter p = q.held.filter p := by
      rw [List.filter_filter]
      refine List.filter_congr fun y _ => ?_
      cases hy : p y with
      | false => rfl
      | true => simp [hnone y hy]
    rw [hout, hheld, List.nil_append]

/-- Among items of one key the released ones, followed by the held ones, are those that
came in, in order. -/
theorem released_of_key (q : Queue α κ) (ins : List (Input α κ)) (p : α → Bool)
    (hp : ∀ x y, p x = true → p y = true → key x = key y) :
    (run key q ins).released.filter p ++ (run key q ins).held.filter p
      = q.released.filter p ++ q.held.filter p ++ (offered ins).filter p := by
  induction ins generalizing q with
  | nil => simp [run, offered]
  | cons i ins ih =>
      refine (ih (step key q i)).trans ?_
      cases i with
      | learn k =>
          show (drain key _).released.filter p ++ (drain key _).held.filter p ++ _ = _
          rw [drain_of_key _ p hp]
          rfl
      | offer x =>
          show (drain key _).released.filter p ++ (drain key _).held.filter p ++ _ = _
          rw [drain_of_key _ p hp]
          cases hx : p x <;> simp [offered, hx]

/-- A run only adds to what was released, and what it adds and what it still holds are
what was held and what it was offered. -/
theorem released_append (q : Queue α κ) (ins : List (Input α κ)) :
    ∃ out, (run key q ins).released = q.released ++ out
      ∧ (out ++ (run key q ins).held).Perm (q.held ++ offered ins) := by
  have hsub : q.released <+: (run key q ins).released := by
    induction ins generalizing q with
    | nil => exact List.prefix_rfl
    | cons i ins ih =>
        refine List.IsPrefix.trans ?_ (ih (step key q i))
        cases i <;> exact List.prefix_append _ _
  obtain ⟨out, hout⟩ := hsub
  refine ⟨out, hout.symm, ?_⟩
  have hperm : ((run key q ins).released ++ (run key q ins).held).Perm _ := released_perm q ins
  rw [← hout, List.append_assoc, List.append_assoc] at hperm
  exact (List.perm_append_left_iff _).mp hperm

end

end HoldQueue
