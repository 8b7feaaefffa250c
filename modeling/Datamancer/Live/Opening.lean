import Datamancer.Live.WellFormed

/-!
# Datamancer.Live.Opening

When a call of `authoritative` returns `Ok` with a subscriber on a controller that is
there. The share path survives a dead controller (`add_subscriber` fails and the call goes
on to create); the lost-race path does not, it hands the failure to its caller. So a run
is fine for a pair as long as no call of it loses the race to a session whose controller
has left its loop or leaves it first (`Clean`), and the first step that is not makes some
call's bad end certain (`Lost`).
-/

namespace Datamancer

open ActionSystem Registry

/-! ### Opens of one pair -/

/-- The provider's `start_live` and `subscribe` succeed for the pair. -/
def Starts (p : Pair) (r : Registry) (act : RegistryAction) : Prop :=
  ∀ k e s, act = .startFailed k e → r.call k ≠ .starting p s

/-- The action takes the controller of a session out of its loop. -/
def Closes (r : Registry) (act : RegistryAction) (s : SessionId) : Prop :=
  match act with
  | .leave t => t = s
  | .remove t => t = s ∧ ∃ a k removals, r.session t = some a ∧ a.removals = k :: removals ∧
      (a.dropSubscriber k).fanout = []
  | .prune t k => t = s ∧ ∃ a, r.session t = some a ∧ a.phase = .looping ∧
      (a.dropSubscriber k).fanout = []
  | .backfilled t => t = s ∧ ∃ a, r.session t = some a ∧ a.fanout = []
  | _ => False

/-- No call of the pair that loses the race for the slot is deferred to a controller that
has left its loop or leaves it before answering, and no controller exits between
registering a subscriber and the return of the call. -/
structure Clean (p : Pair) (r : Registry) (act : RegistryAction) : Prop where
  claims : ∀ k s w a, act = .claim k s → r.call k = .claiming p → r.upgrade p = some (w, a) →
    a.phase.Open
  closes : ∀ k s, r.call k = .joining p s → ¬ Closes r act s
  exits : ∀ k s, r.call k = .registered p s → act ≠ .exit s

/-- The controller a call awaits will answer; the one it has registered with is there. -/
def CallSound (p : Pair) (session : SessionId → Option Authoritative) : CallState → Prop
  | .joining q s => q = p → ∀ a, session s = some a → a.phase.Open
  | .registered q s => q = p → ∀ a, session s = some a → a.phase ≠ .exited
  | .returned q res => q = p → ∃ s, res = .ok s
  | _ => True

theorem CallSound.setSession {p : Pair} {r : Registry} {c : CallState} {s : SessionId}
    {b : Authoritative} (h : CallSound p r.session c)
    (hopen : c = .joining p s → b.phase.Open) (hexited : c = .registered p s → b.phase ≠ .exited) :
    CallSound p (r.setSession s b).session c := by
  cases c with
  | joining q t =>
      rintro rfl d hd
      by_cases ht : t = s
      · subst ht
        cases (setSession_self r t b).symm.trans hd
        exact hopen rfl
      · exact h rfl d (by simpa [ht] using hd)
  | registered q t =>
      rintro rfl d hd
      by_cases ht : t = s
      · subst ht
        cases (setSession_self r t b).symm.trans hd
        exact hexited rfl
      · exact h rfl d (by simpa [ht] using hd)
  | returned q res => exact h
  | _ => trivial

/-- What clean runs keep for a pair. -/
def Sound (p : Pair) (r : Registry) : Prop := ∀ k, CallSound p r.session (r.call k)

namespace Sound

variable {p : Pair} {r : Registry} {k : CallId} {c : CallState} {s : SessionId}
  {a b : Authoritative}

theorem joining (h : Sound p r) (hk : r.call k = .joining p s) (hs : r.session s = some a) :
    a.phase.Open := by
  have hcall := h k
  rw [hk] at hcall
  exact hcall rfl a hs

theorem registered (h : Sound p r) (hk : r.call k = .registered p s)
    (hs : r.session s = some a) : a.phase ≠ .exited := by
  have hcall := h k
  rw [hk] at hcall
  exact hcall rfl a hs

theorem returned {res : Except Error SessionId} (h : Sound p r)
    (hk : r.call k = .returned p res) : ∃ s, res = .ok s := by
  have hcall := h k
  rw [hk] at hcall
  exact hcall rfl

theorem setCall (h : Sound p r) (hc : CallSound p r.session c) : Sound p (r.setCall k c) := by
  intro j
  by_cases hj : j = k
  · simpa [hj] using hc
  · simpa [hj] using h j

theorem setSession (h : Sound p r) (hopen : ∀ j, r.call j = .joining p s → b.phase.Open)
    (hexited : ∀ j, r.call j = .registered p s → b.phase ≠ .exited) :
    Sound p (r.setSession s b) :=
  fun j => (h j).setSession (hopen j) (hexited j)

/-- A session whose controller stays where it is. -/
theorem setSession_phase (h : Sound p r) (hs : r.session s = some a)
    (hphase : b.phase = a.phase) : Sound p (r.setSession s b) :=
  h.setSession (fun _ hj => hphase ▸ h.joining hj hs) (fun _ hj => hphase ▸ h.registered hj hs)

/-- A controller is in its loop after the step, unless the step closes it. -/
theorem serve {act : RegistryAction} (h : Sound p r) (hclean : Clean p r act)
    (hphase : b.phase.Serving ∨ b.phase = .leaving)
    (hcloses : b.phase = .leaving → Closes r act s) : Sound p (r.setSession s b) := by
  refine h.setSession ?_ ?_
  · intro j hj
    rcases hphase with hphase | hphase
    · exact .inr hphase
    · exact absurd (hcloses hphase) (hclean.closes j s hj)
  · intro _ _ hb
    simp [hb, Phase.Serving] at hphase

theorem step {r' : Registry} {act : RegistryAction} (h : Sound p r) (hwf : WF r)
    (hstarts : Starts p r act) (hclean : Clean p r act) (hstep : r.step act = some r') :
    Sound p r' := by
  cases step_cases hstep with
  | invoke hk => exact h.setCall trivial
  | probeShare hk hup =>
      obtain ⟨-, hs, -⟩ := upgrade_some hup
      refine setCall (h.setSession_phase hs rfl) ?_
      trivial
  | probeMiss hk hup => exact h.setCall trivial
  | @claimJoin k s q w a hk hs hup =>
      obtain ⟨-, hw, -⟩ := upgrade_some hup
      refine setCall (h.setSession_phase hw rfl) ?_
      rintro rfl d hd
      cases (setSession_self r w _).symm.trans hd
      exact hclean.claims k s w a rfl hk hup
  | @claimOpen k s q hk hs hup =>
      have hset : Sound p (r.setSession s (opened q k)) := by
        refine h.setSession (fun _ _ => .inl rfl) (fun _ _ => ?_)
        simp [opened]
      exact setCall (r := (r.setSession s (opened q k)).setSlot q (some s)) hset trivial
  | @started backfill k q s a hk hs =>
      have hserving : (if backfill then Phase.backfilling else .looping).Serving := by
        cases backfill <;> simp [Phase.Serving]
      have hexited : (if backfill then Phase.backfilling else .looping) ≠ .exited := by
        cases backfill <;> simp
      refine setCall (h.setSession (fun _ _ => .inr hserving) (fun _ _ => hexited)) ?_
      rintro - d hd
      cases (setSession_self r s _).symm.trans hd
      exact hexited
  | @startFailed k e q s a hk hs =>
      -- a session the call has opened for another pair has no calls of this one
      have hq : q ≠ p := by
        rintro rfl
        exact hstarts k e s rfl hk
      have hpair : a.pair = q := hwf.pair_of_at hk rfl rfl hs
      refine setCall (h.setSession ?_ ?_) (fun hqp => absurd hqp hq)
      · intro j hj
        exact absurd (hpair.symm.trans (hwf.pair_of_at hj rfl rfl hs)) hq
      · intro j hj
        exact absurd (hpair.symm.trans (hwf.pair_of_at hj rfl rfl hs)) hq
  | @ack s a k cmds q t hs hcmds hserving hk =>
      refine setCall (h.setSession_phase hs rfl) ?_
      rintro - d hd
      cases (setSession_self r s _).symm.trans hd
      exact hserving.ne_exited
  | refusedShare hk hs hexited =>
      refine setCall (h.setSession_phase hs rfl) ?_
      trivial
  | @refusedJoin k q s a hk hs hexited =>
      refine setCall (h.setSession_phase hs rfl) ?_
      rintro rfl
      have hopen := h.joining hk hs
      simp [hexited, Phase.Open, Phase.Serving] at hopen
  | @resume k q s a hk hs =>
      refine setCall (h.setSession_phase hs rfl) ?_
      exact fun _ => ⟨s, rfl⟩
  | @remove s a k removals hs hremovals hserving =>
      refine h.serve hclean (Authoritative.checkTeardown_phase hserving) ?_
      intro hleaving
      refine ⟨rfl, a, k, removals, hs, hremovals, ?_⟩
      exact Authoritative.fanout_of_checkTeardown hserving hleaving
  | pruneBackfill hk hs hphase => exact h.setSession_phase hs rfl
  | @prune s a k q res hk hs hphase =>
      have hserving : (a.dropSubscriber k).phase.Serving := .inr hphase
      refine h.serve hclean (Authoritative.checkTeardown_phase hserving) ?_
      intro hleaving
      exact ⟨rfl, a, hs, hphase, Authoritative.fanout_of_checkTeardown hserving hleaving⟩
  | @backfilled s a hs hphase =>
      refine h.serve hclean (Authoritative.checkTeardown_phase (.inr rfl)) ?_
      intro hleaving
      have hfanout := Authoritative.fanout_of_checkTeardown
        (a := { a with phase := .looping }) (.inr rfl) hleaving
      exact ⟨rfl, a, hs, hfanout⟩
  | leave hs hserving => exact h.serve hclean (.inr rfl) (fun _ => rfl)
  | @exit s a hs hphase =>
      refine h.setSession ?_ ?_
      · intro j hj
        have hopen := h.joining hj hs
        simp [hphase, Phase.Open, Phase.Serving] at hopen
      · intro j hj
        exact absurd rfl (hclean.exits j s hj)
  | dropGuard hs hk => exact h.setSession_phase hs rfl
  | dropHandle hs hk => exact h.setSession_phase hs rfl
  | drop hs ha => exact fun k => by simpa using h k

end Sound

/-! ### Calls that cannot return as promised -/

/-- The call awaits a controller that will not answer, or its subscriber is on a controller
that is gone. -/
inductive Lost (p : Pair) (r : Registry) (k : CallId) : Prop
  | joining {s a} (hk : r.call k = .joining p s) (hs : r.session s = some a)
      (hclosed : ¬ a.phase.Open)
  | registered {s a} (hk : r.call k = .registered p s) (hs : r.session s = some a)
      (hexited : a.phase = .exited)
  | returned {s a} (hk : r.call k = .returned p (.ok s)) (hs : r.session s = some a)
      (hexited : a.phase = .exited)
  | failed {e} (hk : r.call k = .returned p (.error e))

section

variable {r r' : Registry} {act : RegistryAction} {k : CallId} {p : Pair} {s : SessionId}
  {a : Authoritative}

theorem call_joining (hwf : WF r) (hk : r.call k = .joining p s) (hs : r.session s = some a)
    (hclosed : ¬ a.phase.Open) (hstep : r.step act = some r') :
    r'.call k = .joining p s ∨ r'.call k = .returned p (.error .sessionClosed) := by
  cases step_cases hstep with
  | @ack t d j cmds q u ht hcmds hserving hj =>
      -- the controller of the session does not poll its commands
      have hjk : k ≠ j := by
        rintro rfl
        have hawaits := (hwf.session t d ht).queued k (by simp [hcmds])
        rw [hk] at hawaits
        cases hawaits
        cases hs.symm.trans ht
        exact hclosed (.inr hserving)
      exact .inl (by simpa [hjk] using hk)
  | _ => grind

theorem call_registered (hk : r.call k = .registered p s) (hstep : r.step act = some r') :
    r'.call k = .registered p s ∨ r'.call k = .returned p (.ok s) := by
  cases step_cases hstep <;> grind

theorem call_returned {res : Except Error SessionId} (hk : r.call k = .returned p res)
    (hstep : r.step act = some r') : r'.call k = .returned p res := by
  cases step_cases hstep <;> grind

theorem Lost.step (h : Lost p r k) (hwf : WF r) (hstep : r.step act = some r') :
    Lost p r' k := by
  have gone : ∀ {s a}, r.session s = some a → a.phase = .exited →
      ∃ b, r'.session s = some b ∧ b.phase = .exited := by
    intro s a hs hexited
    obtain ⟨b, hb, hphase⟩ := hwf.closed_step hstep hs
      (by simp [hexited, Phase.Open, Phase.Serving])
    exact ⟨b, hb, hphase.elim (·.trans hexited) id⟩
  cases h with
  | joining hk hs hclosed =>
      rcases call_joining hwf hk hs hclosed hstep with hk' | hk'
      · obtain ⟨b, hb, hphase⟩ := hwf.closed_step hstep hs hclosed
        refine .joining hk' hb ?_
        rcases hphase with hphase | hphase
        · exact hphase ▸ hclosed
        · simp [hphase, Phase.Open, Phase.Serving]
      · exact .failed hk'
  | registered hk hs hexited =>
      obtain ⟨b, hb, hphase⟩ := gone hs hexited
      rcases call_registered hk hstep with hk' | hk'
      · exact .registered hk' hb hphase
      · exact .returned hk' hb hphase
  | returned hk hs hexited =>
      obtain ⟨b, hb, hphase⟩ := gone hs hexited
      exact .returned (call_returned hk hstep) hb hphase
  | failed hk => exact .failed (call_returned hk hstep)

theorem not_open_of_teardown {a : Authoritative} (h : a.fanout = []) :
    ¬ a.checkTeardown.phase.Open := by
  simp [Authoritative.checkTeardown, h, Phase.Open, Phase.Serving]

/-- A step that closes a session leaves its controller out of the loop, and no call moves
with it. -/
theorem Closes.closed (h : Closes r act s) (hstep : r.step act = some r') :
    r'.call = r.call ∧ ∃ a, r'.session s = some a ∧ ¬ a.phase.Open := by
  cases step_cases hstep with
  | leave hs hserving =>
      cases h
      exact ⟨rfl, _, setSession_self r s _, by simp [Phase.Open, Phase.Serving]⟩
  | @remove t d k removals hs hremovals hserving =>
      obtain ⟨rfl, d', k', removals', hd, hremovals', hfanout⟩ := h
      cases hs.symm.trans hd
      cases hremovals.symm.trans hremovals'
      exact ⟨rfl, _, setSession_self r t _, not_open_of_teardown hfanout⟩
  | @prune t d k q res hk hs hphase =>
      obtain ⟨rfl, d', hd, -, hfanout⟩ := h
      cases hs.symm.trans hd
      exact ⟨rfl, _, setSession_self r t _, not_open_of_teardown hfanout⟩
  | @pruneBackfill t d k q res hk hs hphase =>
      obtain ⟨rfl, d', hd, hphase', -⟩ := h
      cases hs.symm.trans hd
      cases hphase.symm.trans hphase'
  | @backfilled t d hs hphase =>
      obtain ⟨rfl, d', hd, hfanout⟩ := h
      cases hs.symm.trans hd
      exact ⟨rfl, _, setSession_self r t _, not_open_of_teardown hfanout⟩
  | _ => cases h

/-- The condition is no stronger than it has to be: a step that does not meet it loses a
call that has not returned. -/
theorem lost_of_not_clean (hstep : r.step act = some r') (h : ¬ Clean p r act) :
    ∃ k, ¬ (r.call k).Returned ∧ Lost p r' k := by
  by_contra hno
  refine h ⟨?_, ?_, ?_⟩
  · intro k s w a hact hk hup
    subst hact
    by_contra hclosed
    refine hno ⟨k, by rw [hk]; exact id, ?_⟩
    cases step_cases hstep with
    | claimJoin hk' hs hup' =>
        cases hk.symm.trans hk'
        cases hup.symm.trans hup'
        exact .joining (s := w) (by simp) (setSession_self r w _) hclosed
    | claimOpen hk' hs hup' =>
        cases hk.symm.trans hk'
        cases hup.symm.trans hup'
  · intro k s hk hcloses
    obtain ⟨hcall, a, ha, hclosed⟩ := hcloses.closed hstep
    exact hno ⟨k, by rw [hk]; exact id, .joining (by rw [hcall]; exact hk) ha hclosed⟩
  · intro k s hk hact
    subst hact
    refine hno ⟨k, by rw [hk]; exact id, ?_⟩
    cases step_cases hstep with
    | exit hs hphase => exact .registered hk (setSession_self r s _) rfl

end

/-! ### Every call can return -/

/-- The provider fails an open. -/
def RegistryAction.Fails : RegistryAction → Prop
  | .startFailed _ _ => True
  | _ => False

/-- Without a failure of the provider the call can be brought to its return. -/
def Returns (p : Pair) (k : CallId) (r : Registry) : Prop :=
  ∃ acts r', run Registry.step r acts = some r' ∧ Meets Registry.step (Starts p) r acts ∧
    (r'.call k).Returned

namespace Returns

variable {r r' : Registry} {act : RegistryAction} {k : CallId} {p : Pair} {s : SessionId}
  {a : Authoritative}

theorem of_step (h : Step r act r') (hact : ¬ act.Fails)
    (hr' : Returns p k r') : Returns p k r := by
  obtain ⟨acts, r'', hrun, hstarts, hret⟩ := hr'
  have hstep := step_of h
  refine ⟨act :: acts, r'', ?_, ?_, hret⟩
  · simp [run, hstep, hrun]
  · refine (meets_cons hstep).mpr ⟨?_, hstarts⟩
    intro j e t hj
    exact absurd (by rw [hj]; trivial) hact

theorem registered (hwf : WF r) (hk : r.call k = .registered p s) : Returns p k r := by
  have hcall := hwf.call k
  rw [hk] at hcall
  obtain ⟨a, hs, -⟩ := hcall
  refine of_step (.resume hk hs) id ⟨[], _, rfl, trivial, ?_⟩
  simp [CallState.Returned]

/-- A controller in its loop handles the commands before a call's, then the call's. -/
theorem queued (hwf : WF r) (hs : r.session s = some a) (hserving : a.phase.Serving)
    (hpair : a.pair = p) (hk : k ∈ a.cmds) : Returns p k r := by
  induction hcmds : a.cmds generalizing r a with
  | nil => simp [hcmds] at hk
  | cons j cmds ih =>
      have hmem : j ∈ a.cmds := by simp [hcmds]
      have hawaits := (hwf.session s a hs).queued j hmem
      obtain ⟨q, hj⟩ : ∃ q, r.call j = .sharing q s ∨ r.call j = .joining q s := by
        cases hcall : r.call j with
        | sharing q t | joining q t =>
            rw [hcall] at hawaits
            cases hawaits
            simp
        | _ =>
            rw [hcall] at hawaits
            cases hawaits
      have hq : a.pair = q := by
        rcases hj with hj | hj <;> exact hwf.pair_of_at hj rfl rfl hs
      have hack := Step.ack hs hcmds hserving hj
      have hwf' := hwf.step (step_of hack)
      refine of_step hack id ?_
      by_cases hjk : k = j
      · subst hjk
        refine registered (s := s) hwf' ?_
        simp [← hq, hpair]
      · refine ih hwf' (a := { a with cmds, fanout := a.fanout ++ [j] }) ?_ hserving hpair ?_ rfl
        · simp
        · simpa [hcmds, hjk] using hk

theorem starting (hwf : WF r) (hk : r.call k = .starting p s) : Returns p k r := by
  have hcall := hwf.call k
  rw [hk] at hcall
  obtain ⟨a, hs, -⟩ := hcall
  have hstarted := Step.started false hk hs
  refine of_step hstarted id (registered (s := s) (hwf.step (step_of hstarted)) ?_)
  simp

/-- A session whose answer a call awaits starts and gives it, or goes, and the call finds
that it has. -/
theorem awaiting {c : CallState} (hwf : WF r) (hk : r.call k = c) (hc : c.awaits = some s)
    (hp : c.pair = some p)
    (hexited : ∀ r a, WF r → r.call k = c → r.session s = some a → a.phase = .exited →
      Returns p k r) : Returns p k r := by
  obtain ⟨a, hs, hcmds⟩ : ∃ a, r.session s = some a ∧ (a.phase = .exited ∨ k ∈ a.cmds) := by
    have hcall := hwf.call k
    rw [hk] at hcall
    cases c with
    | sharing q t | joining q t =>
        cases hc
        obtain ⟨a, hs, -, hcmds⟩ := hcall
        exact ⟨a, hs, hcmds⟩
    | _ => cases hc
  have hpair := hwf.pair_of_at hk (CallState.at_of_awaits hc) hp hs
  cases hphase : a.phase with
  -- the opener is let through first, and the session then serves the command
  | starting =>
      obtain ⟨j, hj⟩ := (hwf.session s a hs).opener hphase
      have hstarted := Step.started false hj hs
      refine of_step hstarted id (queued (s := s) (hwf.step (step_of hstarted))
        (a := { a with phase := .looping }) ?_ (.inr rfl) hpair ?_)
      · simp
      · exact hcmds.resolve_left (by simp [hphase])
  | backfilling | looping =>
      exact queued hwf hs (by simp [hphase, Phase.Serving]) hpair
        (hcmds.resolve_left (by simp [hphase]))
  -- it leaves with the command unserved, and the call retries
  | leaving =>
      have hexit := Step.exit hs hphase
      exact of_step hexit id (hexited _ a.exit (hwf.step (step_of hexit)) hk
        (setSession_self r s a.exit) rfl)
  | exited => exact hexited r a hwf hk hs hphase

theorem joining (hwf : WF r) (hk : r.call k = .joining p s) : Returns p k r := by
  refine awaiting hwf hk rfl rfl ?_
  intro r a hwf hk hs hexited
  refine of_step (.refusedJoin hk hs hexited) id ⟨[], _, rfl, trivial, ?_⟩
  simp [CallState.Returned]

theorem claiming (hwf : WF r) (hk : r.call k = .claiming p) : Returns p k r := by
  obtain ⟨n, hn⟩ := hwf.fresh
  have hs := hn n (Nat.le_refl n)
  cases hup : r.upgrade p with
  | none =>
      have hclaim := Step.claimOpen hk hs hup
      refine of_step hclaim id (starting (s := n) (hwf.step (step_of hclaim)) ?_)
      simp
  | some w =>
      have hclaim := Step.claimJoin hk hs hup
      refine of_step hclaim id (joining (s := w.1) (hwf.step (step_of hclaim)) ?_)
      simp

theorem sharing (hwf : WF r) (hk : r.call k = .sharing p s) : Returns p k r := by
  refine awaiting hwf hk rfl rfl ?_
  intro r a hwf hk hs hexited
  have hrefused := Step.refusedShare hk hs hexited
  refine of_step hrefused id (claiming (hwf.step (step_of hrefused)) ?_)
  simp

theorem probing (hwf : WF r) (hk : r.call k = .probing p) : Returns p k r := by
  cases hup : r.upgrade p with
  | none =>
      have hprobe := Step.probeMiss hk hup
      refine of_step hprobe id (claiming (hwf.step (step_of hprobe)) ?_)
      simp
  | some w =>
      have hprobe := Step.probeShare hk hup
      refine of_step hprobe id (sharing (s := w.1) (hwf.step (step_of hprobe)) ?_)
      simp

end Returns

theorem returns {r : Registry} {k : CallId} {p : Pair} (hwf : WF r)
    (hk : (r.call k).pair = some p) : Returns p k r := by
  cases hcall : r.call k with
  | idle =>
      rw [hcall] at hk
      cases hk
  | probing q =>
      rw [hcall] at hk
      cases hk
      exact .probing hwf hcall
  | sharing q s =>
      rw [hcall] at hk
      cases hk
      exact .sharing hwf hcall
  | claiming q =>
      rw [hcall] at hk
      cases hk
      exact .claiming hwf hcall
  | joining q s =>
      rw [hcall] at hk
      cases hk
      exact .joining hwf hcall
  | starting q s =>
      rw [hcall] at hk
      cases hk
      exact .starting hwf hcall
  | registered q s =>
      rw [hcall] at hk
      cases hk
      exact .registered hwf hcall
  | returned q res => exact ⟨[], r, rfl, trivial, by rw [hcall]; trivial⟩

/-! ### Runs -/

/-- The call has returned `Ok` with its subscriber registered on a controller that has not
exited. -/
def Answered (p : Pair) (r : Registry) (k : CallId) : Prop :=
  ∃ s a, r.call k = .returned p (.ok s) ∧ r.session s = some a ∧ k ∈ a.fanout ∧ a.phase ≠ .exited

variable {p : Pair} {r r' : Registry}

theorem wf_run {acts : List RegistryAction} (hrun : run Registry.step init acts = some r) :
    WF r :=
  invariant WF.step WF.init hrun

theorem sound_run {acts : List RegistryAction} (hrun : run Registry.step init acts = some r)
    (hstarts : Meets Registry.step (Starts p) init acts)
    (hclean : Meets Registry.step (Clean p) init acts) : Sound p r := by
  have hinv : WF r ∧ Sound p r := by
    refine invariant_of_meets (P := fun r => WF r ∧ Sound p r) ?_ ⟨WF.init, fun _ => trivial⟩
      (hstarts.and hclean) hrun
    intro r act r' h hok hstep
    exact ⟨h.1.step hstep, h.2.step h.1 hok.1 hok.2 hstep⟩
  exact hinv.2

theorem lost_run {acts : List RegistryAction} {k : CallId} (h : Lost p r k) (hwf : WF r)
    (hrun : run Registry.step r acts = some r') : Lost p r' k := by
  have hinv : WF r' ∧ Lost p r' k := by
    refine invariant (P := fun r => WF r ∧ Lost p r k) ?_ ⟨hwf, h⟩ hrun
    intro r act r' h hstep
    exact ⟨h.1.step hstep, h.2.step h.1 hstep⟩
  exact hinv.2

/-- A clean step that returns a call answers it. -/
theorem answered_of_step {act : RegistryAction} {k : CallId} {res : Except Error SessionId}
    (hwf : WF r) (hsound : Sound p r) (hsound' : Sound p r') (hstep : r.step act = some r')
    (hk : ¬ (r.call k).Returned) (hret : r'.call k = .returned p res) : Answered p r' k := by
  obtain ⟨s, rfl⟩ := hsound'.returned hret
  cases step_cases hstep with
  | @resume j q t a hj ht =>
      by_cases hkj : k = j
      · subst hkj
        obtain ⟨rfl, rfl⟩ : q = p ∧ t = s := by simpa using hret
        have hcall := hwf.call k
        rw [hj] at hcall
        obtain ⟨d, hd, -, hfanout⟩ := hcall
        cases ht.symm.trans hd
        have hphase := hsound.registered hj ht
        exact ⟨t, a.settle k, hret, by simp, hfanout, hphase⟩
      · have hold : r.call k = .returned p (.ok s) := by simpa [hkj] using hret
        exact absurd (by rw [hold]; trivial) hk
  | _ => grind [CallState.Returned]

/-- Along a run whose steps all meet the condition every call of the pair can be brought to
its return, and a step that returns one returns `Ok` with a subscriber on a controller that
is there. The first step that does not meet it loses a call for good. -/
theorem opens_of_clean {acts : List RegistryAction}
    (hrun : run Registry.step init acts = some r)
    (hstarts : Meets Registry.step (Starts p) init acts)
    (hclean : Meets Registry.step (Clean p) init acts) :
    (∀ k, (r.call k).pair = some p → Returns p k r) ∧
    (∀ act r', Starts p r act → r.step act = some r' →
      (Clean p r act → ∀ k res, ¬ (r.call k).Returned → r'.call k = .returned p res →
        Answered p r' k) ∧
      (¬ Clean p r act → ∃ k, ¬ (r.call k).Returned ∧
        ∀ acts r'', run Registry.step r' acts = some r'' → Lost p r'' k)) := by
  have hwf := wf_run hrun
  have hsound := sound_run hrun hstarts hclean
  refine ⟨fun k hk => returns hwf hk, ?_⟩
  intro act r' hstart hstep
  refine ⟨?_, ?_⟩
  · intro hmeets k res hk hret
    exact answered_of_step hwf hsound (hsound.step hwf hstart hmeets hstep) hstep hk hret
  · intro hnot
    obtain ⟨k, hk, hlost⟩ := lost_of_not_clean hstep hnot
    exact ⟨k, hk, fun acts r'' h => lost_run hlost (hwf.step hstep) h⟩

/-- A second call shares the session the first has opened. -/
theorem opens_of_clean_shared :
    ∃ (p : Pair) (acts : List RegistryAction) (r r' : Registry),
      run Registry.step init acts = some r ∧ r.step (.resume 1) = some r' ∧ Answered p r' 1 := by
  let p : Pair := (⟨"alpaca", .equity, "SPY"⟩, .trade)
  let acts : List RegistryAction :=
    [.invoke 0 p, .probe 0, .claim 0 0, .started 0 false, .resume 0, .invoke 1 p, .probe 1, .ack 0]
  obtain ⟨r, r', hrun, hstep, hcall, hret⟩ : ∃ r r', run Registry.step init acts = some r ∧
      r.step (.resume 1) = some r' ∧ ¬ (r.call 1).Returned ∧ r'.call 1 = .returned p (.ok 0) :=
    ⟨_, _, rfl, rfl, id, rfl⟩
  have hstarts : Meets Registry.step (Starts p) init acts := by
    refine meets_of_mem ?_ init
    intro act hact r k e s h
    simp [acts, h] at hact
  -- All but the claim of the slot are clean in any state.
  have hcalm : ∀ act ∈ RegistryAction.resume 1 :: acts.eraseIdx 2, ∀ r, Clean p r act := by
    intro act hact r
    simp only [acts, List.eraseIdx, List.mem_cons, List.not_mem_nil, or_false] at hact
    rcases hact with rfl | rfl | rfl | rfl | rfl | rfl | rfl | rfl <;>
      exact ⟨fun _ _ _ _ h => (by cases h), fun _ _ _ => id, fun _ _ _ h => (by cases h)⟩
  have hclean : Meets Registry.step (Clean p) init acts := by
    refine ⟨hcalm _ (by simp [acts]) _, fun r₁ h₁ => ⟨hcalm _ (by simp [acts]) _, fun r₂ h₂ =>
      ⟨⟨?_, fun _ _ _ => id, fun _ _ _ h => (by cases h)⟩, fun r₃ _ => meets_of_mem ?_ r₃⟩⟩⟩
    · intro k s w a _ _ hup
      cases h₁
      cases h₂
      cases hup
    · intro act hact r
      exact hcalm act (by simp_all [acts]) r
  have h := opens_of_clean hrun hstarts hclean
  exact ⟨p, acts, r, r', hrun, hstep,
    (h.2 (.resume 1) r' (fun _ _ _ hfailed => (by cases hfailed)) hstep).1
      (hcalm _ List.mem_cons_self r) 1 (.ok 0) hcall hret⟩

/-- A provider channel closes under a caller that keeps its `Session` handle: the next call
for the pair is refused by the session the handle keeps in the slot, then defers to it. -/
theorem not_opens_of_held_handle :
    ∃ (p : Pair) (acts : List RegistryAction) (r : Registry) (k : CallId),
      run Registry.step init acts = some r ∧ Meets Registry.step (Starts p) init acts ∧
        r.call k = .returned p (.error .sessionClosed) := by
  let p : Pair := (⟨"alpaca", .equity, "SPY"⟩, .trade)
  let acts : List RegistryAction :=
    [.invoke 0 p, .probe 0, .claim 0 0, .started 0 false, .resume 0, .leave 0, .exit 0,
      .invoke 1 p, .probe 1, .refused 1, .claim 1 1, .refused 1]
  obtain ⟨r, hrun, hret⟩ : ∃ r, run Registry.step init acts = some r ∧
      r.call 1 = .returned p (.error .sessionClosed) := ⟨_, rfl, rfl⟩
  refine ⟨p, acts, r, 1, hrun, meets_of_mem ?_ init, hret⟩
  intro act hact r k e s h
  simp [acts, h] at hact

end Datamancer
