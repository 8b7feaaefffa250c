import Mathlib.Order.Basic

/-!
# Datamancer.Lib.ActionSystem

Systems that take one labelled action at a time: a partial step function over a
state, run along a schedule of actions. A schedule is one interleaving of whatever
the system is made of; an action that is not enabled has no step.

A claim about every run is an invariant (`invariant`). One that holds only of runs
whose steps all meet some condition of state and action is an invariant of those
(`invariant_of_meets`), and where the condition is also needed, of no others
(`along_iff_meets`).
-/

namespace ActionSystem

variable {σ α : Type*} {step : σ → α → Option σ} {ok : σ → α → Prop} {P : σ → Prop}

/-- The state after a schedule, if each of its actions is enabled in turn. -/
def run (step : σ → α → Option σ) : σ → List α → Option σ
  | s, [] => some s
  | s, a :: as => (step s a).bind fun s' => run step s' as

theorem run_append (s : σ) (as bs : List α) :
    run step s (as ++ bs) = (run step s as).bind fun s' => run step s' bs := by
  induction as generalizing s with
  | nil => rfl
  | cons a as ih =>
      cases h : step s a with
      | none => simp [run, h]
      | some s' => simp [run, h, ih]

/-- What every step preserves together with the actions taken so far holds wherever a
run leads. -/
theorem history_invariant {P : List α → σ → Prop} (past : List α)
    (hstep : ∀ {past s a s'}, P past s → step s a = some s' → P (past ++ [a]) s') {s s' : σ}
    {as : List α} (hinit : P past s) (h : run step s as = some s') : P (past ++ as) s' := by
  induction as generalizing s past with
  | nil =>
      obtain rfl := Option.some.inj h
      rwa [List.append_nil]
  | cons a as ih =>
      obtain ⟨t, ht, hrest⟩ := Option.bind_eq_some_iff.mp h
      have hnext := ih (past ++ [a]) (hstep hinit ht) hrest
      rwa [List.append_assoc] at hnext

/-- A part of the state that only some actions reach runs on those actions alone. -/
theorem run_filter {τ : Type*} {part : σ → τ} {step' : τ → α → Option τ} {keep : α → Bool}
    (hkeep : ∀ {s a s'}, keep a = true → step s a = some s' → step' (part s) a = some (part s'))
    (hskip : ∀ {s a s'}, keep a = false → step s a = some s' → part s' = part s)
    {s s' : σ} {as : List α} (h : run step s as = some s') :
    run step' (part s) (as.filter keep) = some (part s') := by
  induction as generalizing s with
  | nil =>
      obtain rfl := Option.some.inj h
      rfl
  | cons a as ih =>
      obtain ⟨t, ht, hrest⟩ := Option.bind_eq_some_iff.mp h
      have hrun := ih hrest
      cases hk : keep a with
      | false => rwa [List.filter_cons_of_neg (by simp [hk]), ← hskip hk ht]
      | true =>
          rw [List.filter_cons_of_pos (by simp [hk])]
          show (step' (part s) a).bind _ = _
          rw [hkeep hk ht]
          exact hrun

/-- Every action of the schedule meets the condition in the state it is taken in. -/
def Meets (step : σ → α → Option σ) (ok : σ → α → Prop) : σ → List α → Prop
  | _, [] => True
  | s, a :: as => ok s a ∧ ∀ s', step s a = some s' → Meets step ok s' as

theorem meets_cons {s s' : σ} {a : α} {as : List α} (h : step s a = some s') :
    Meets step ok s (a :: as) ↔ ok s a ∧ Meets step ok s' as := by
  refine and_congr_right fun _ => ⟨fun hrest => hrest s' h, fun hrest t ht => ?_⟩
  cases Option.some.inj (h.symm.trans ht)
  exact hrest

/-- A schedule in two parts meets the condition if each part does where it starts. -/
theorem meets_append {s s' : σ} {as bs : List α} (h : run step s as = some s') :
    Meets step ok s (as ++ bs) ↔ Meets step ok s as ∧ Meets step ok s' bs := by
  induction as generalizing s with
  | nil =>
      obtain rfl := Option.some.inj h
      exact ⟨fun hbs => ⟨trivial, hbs⟩, fun hbs => hbs.2⟩
  | cons a as ih =>
      obtain ⟨t, ht, hrest⟩ := Option.bind_eq_some_iff.mp h
      rw [List.cons_append, meets_cons ht, meets_cons ht, ih hrest, and_assoc]

/-- Whether a schedule meets a condition that can be tested is found by running it. -/
instance Meets.decidable [∀ s a, Decidable (ok s a)] :
    ∀ (s : σ) (as : List α), Decidable (Meets step ok s as)
  | _, [] => .isTrue trivial
  | s, a :: as =>
      match h : step s a with
      | none => decidable_of_iff (ok s a)
          ⟨fun hok => ⟨hok, fun s' hs' => by rw [h] at hs'; cases hs'⟩, fun hmeets => hmeets.1⟩
      | some s' =>
          have := Meets.decidable s' as
          decidable_of_iff (ok s a ∧ Meets step ok s' as) (meets_cons h).symm

theorem meets_of_forall (h : ∀ s a, ok s a) (s : σ) (as : List α) : Meets step ok s as := by
  induction as generalizing s with
  | nil => trivial
  | cons a as ih => exact ⟨h s a, fun s' _ => ih s'⟩

theorem meets_of_mem {as : List α} (h : ∀ a ∈ as, ∀ s, ok s a) (s : σ) : Meets step ok s as := by
  induction as generalizing s with
  | nil => trivial
  | cons a as ih =>
      exact ⟨h a (by simp) s, fun s' _ => ih (fun b hb => h b (by simp [hb])) s'⟩

theorem Meets.imp {ok' : σ → α → Prop} (himp : ∀ s a, ok s a → ok' s a) {s : σ} {as : List α}
    (h : Meets step ok s as) : Meets step ok' s as := by
  induction as generalizing s with
  | nil => trivial
  | cons a as ih => exact ⟨himp s a h.1, fun t ht => ih (h.2 t ht)⟩

theorem Meets.and {ok' : σ → α → Prop} {s : σ} {as : List α} (h : Meets step ok s as)
    (h' : Meets step ok' s as) : Meets step (fun s a => ok s a ∧ ok' s a) s as := by
  induction as generalizing s with
  | nil => trivial
  | cons a as ih => exact ⟨⟨h.1, h'.1⟩, fun t ht => ih (h.2 t ht) (h'.2 t ht)⟩

/-- What every step that meets the condition preserves holds wherever a run of such steps
leads. -/
theorem invariant_of_meets
    (hstep : ∀ {s a s'}, P s → ok s a → step s a = some s' → P s') {s s' : σ} {as : List α}
    (hinit : P s) (hok : Meets step ok s as) (h : run step s as = some s') : P s' := by
  induction as generalizing s with
  | nil => exact Option.some.inj h ▸ hinit
  | cons a as ih =>
      obtain ⟨t, ht, hrest⟩ := Option.bind_eq_some_iff.mp h
      exact ih (hstep hinit hok.1 ht) (hok.2 t ht) hrest

/-- What every step preserves holds wherever a run leads. -/
theorem invariant (hstep : ∀ {s a s'}, P s → step s a = some s' → P s') {s s' : σ}
    {as : List α} (hinit : P s) (h : run step s as = some s') : P s' :=
  invariant_of_meets (fun hs _ ht => hstep hs ht) hinit
    (meets_of_forall (fun _ _ => trivial) s as) h

/-- A property that a step keeps exactly when it meets the condition holds all along the runs
whose steps meet it, and along no other. -/
theorem along_iff_meets {I : σ → Prop} (hinv : ∀ {s a s'}, I s → step s a = some s' → I s')
    (hstep : ∀ {s a s'}, I s → P s → step s a = some s' → (P s' ↔ ok s a)) {s s' : σ}
    {as : List α} (hs : I s) (hinit : P s) (h : run step s as = some s') :
    (∀ before t, before <+: as → run step s before = some t → P t) ↔ Meets step ok s as := by
  induction as generalizing s with
  | nil =>
      refine ⟨fun _ => trivial, fun _ before t hbefore ht => ?_⟩
      obtain rfl := List.prefix_nil.mp hbefore
      obtain rfl := Option.some.inj ht
      exact hinit
  | cons a as ih =>
      obtain ⟨t, ht, hrest⟩ := Option.bind_eq_some_iff.mp h
      rw [meets_cons ht]
      constructor
      · intro halong
        have hpt : P t := halong [a] t (by simp) (by simp [run, ht])
        refine ⟨(hstep hs hinit ht).mp hpt, (ih (hinv hs ht) hpt hrest).mp ?_⟩
        intro before u hbefore hu
        exact halong (a :: before) u ((List.prefix_cons_inj a).mpr hbefore) (by simp [run, ht, hu])
      · rintro ⟨hok, hmeets⟩ before u hbefore hu
        cases before with
        | nil =>
            obtain rfl := Option.some.inj hu
            exact hinit
        | cons b before =>
            obtain ⟨rfl, htail⟩ := List.cons_prefix_cons.mp hbefore
            rw [run, ht, Option.bind_some] at hu
            have hpt : P t := (hstep hs hinit ht).mpr hok
            exact (ih (hinv hs ht) hpt hrest).mpr hmeets before u htail hu

/-! ### Logs -/

variable {β : Type*} {emit : σ → α → List β}

/-- What a run logs, each of its steps in turn. -/
def logOf (step : σ → α → Option σ) (emit : σ → α → List β) : σ → List α → List β
  | _, [] => []
  | s, a :: as => emit s a ++ (step s a).elim [] fun s' => logOf step emit s' as

/-- What every step that meets the condition preserves together with the log so far holds
of the whole log and the state a run leads to. -/
theorem log_invariant {P : List β → σ → Prop}
    (hstep : ∀ {log s a s'}, P log s → ok s a → step s a = some s' → P (log ++ emit s a) s')
    {s s' : σ} {log : List β} {as : List α} (hinit : P log s) (hok : Meets step ok s as)
    (h : run step s as = some s') : P (log ++ logOf step emit s as) s' := by
  induction as generalizing s log with
  | nil =>
      obtain rfl := Option.some.inj h
      rwa [logOf, List.append_nil]
  | cons a as ih =>
      obtain ⟨t, ht, hrest⟩ := Option.bind_eq_some_iff.mp h
      have hnext := ih (hstep hinit hok.1 ht) (hok.2 t ht) hrest
      rw [List.append_assoc] at hnext
      simpa [logOf, ht] using hnext

end ActionSystem
