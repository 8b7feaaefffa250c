import Mathlib.Order.WellFounded
import Datamancer.Lib.ActionSystem

/-!
# Datamancer.Lib.Completion

Systems that come to their end whatever they do: one cannot stall before it is over (`moves`),
and cannot go on for ever (`finite`), since every step from a state of an invariant goes down in a
well-founded order (`acc_of_lt`). Such a system is over wherever it can do nothing more of its
own (`final`), and there is always a way there (`exists_final`).
-/

namespace ActionSystem

variable {σ α : Type*} {step : σ → α → Option σ} {P Final : σ → Prop} {own : α → Prop}

/-- One step leads from `s` to `s'`. -/
def Next (step : σ → α → Option σ) (s' s : σ) : Prop := ∃ a, step s a = some s'

/-- Where every step goes down no run goes on for ever. -/
theorem acc_of_lt {μ : Type*} {lt : μ → μ → Prop} {I : σ → Prop} (hwf : WellFounded lt)
    (measure : σ → μ) (hinv : ∀ {s a s'}, I s → step s a = some s' → I s')
    (hlt : ∀ {s a s'}, I s → step s a = some s' → lt (measure s') (measure s)) {s : σ}
    (h : I s) : Acc (Next step) s := by
  induction s using (InvImage.wf measure hwf).induction with
  | _ s ih => exact ⟨s, fun s' ⟨_, hstep⟩ => ih s' (hlt h hstep) (hinv h hstep)⟩

/-- The system comes to its end, by what is its own. -/
structure Completes (step : σ → α → Option σ) (own : α → Prop) (Final : σ → Prop) (s : σ) :
    Prop where
  finite : Acc (Next step) s
  moves : ∀ as s', run step s as = some s' → ¬ Final s' → ∃ a s'', own a ∧ step s' a = some s''

/-- Where nothing more can be done it is over. -/
theorem Completes.final {s s' : σ} {as : List α} (h : Completes step own Final s)
    (hrun : run step s as = some s') (hstuck : ∀ a, own a → step s' a = none) : Final s' := by
  by_contra hfinal
  obtain ⟨a, s'', hown, hstep⟩ := h.moves as s' hrun hfinal
  rw [hstuck a hown] at hstep
  cases hstep

theorem Completes.after {s s' : σ} {a : α} (h : Completes step own Final s)
    (hstep : step s a = some s') : Completes step own Final s' where
  finite := h.finite.inv ⟨a, hstep⟩
  moves as t hrun := h.moves (a :: as) t (by simp [run, hstep, hrun])

/-- There is a way to the end. -/
theorem Completes.exists_final {s : σ} (h : Completes step own Final s) :
    ∃ as s', (∀ a ∈ as, own a) ∧ run step s as = some s' ∧ Final s' := by
  have hacc := h.finite
  induction hacc with
  | intro s _ ih =>
      by_cases hfinal : Final s
      · exact ⟨[], s, fun a ha => absurd ha List.not_mem_nil, rfl, hfinal⟩
      · obtain ⟨a, t, hown, hstep⟩ := h.moves [] s rfl hfinal
        obtain ⟨as, s', has, hrun, hs'⟩ := ih t ⟨a, hstep⟩ (h.after hstep)
        exact ⟨a :: as, s', List.forall_mem_cons.mpr ⟨hown, has⟩, by simp [run, hstep, hrun], hs'⟩

end ActionSystem
