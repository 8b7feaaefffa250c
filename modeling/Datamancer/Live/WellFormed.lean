import Datamancer.Live.Registry

/-!
# Datamancer.Live.WellFormed

What every schedule of the registry keeps: the session a call holds exists, is of its
pair, and has the call's command or its subscriber; a queued command is of a call that
still waits for it; a removal is of a call that has returned.
-/

namespace Datamancer

open ActionSystem Registry

/-! ### What a call in flight relies on -/

/-- The session whose answer a call awaits. -/
def CallState.awaits : CallState → Option SessionId
  | .sharing _ s | .joining _ s => some s
  | _ => none

/-- The session a call in flight holds a reference to. -/
def CallState.at : CallState → Option SessionId
  | .starting _ s | .registered _ s => some s
  | c => c.awaits

/-- The pair a call is for. -/
def CallState.pair : CallState → Option Pair
  | .idle => none
  | .probing p | .claiming p | .sharing p _ | .joining p _ | .starting p _ | .registered p _
  | .returned p _ => some p

theorem CallState.at_of_awaits {c : CallState} {s : SessionId} (h : c.awaits = some s) :
    c.at = some s := by
  cases c with
  | starting _ _ | registered _ _ => cases h
  | _ => exact h

def CallState.Returned : CallState → Prop
  | .returned _ _ => True
  | _ => False

/-- A session a call awaits has its command, unless the controller is gone; one it has
opened or registered on has its subscriber. -/
def CallOk (session : SessionId → Option Authoritative) (k : CallId) : CallState → Prop
  | .sharing p s | .joining p s =>
      ∃ a, session s = some a ∧ a.pair = p ∧ (a.phase = .exited ∨ k ∈ a.cmds)
  | .starting p s =>
      ∃ a, session s = some a ∧ a.pair = p ∧ k ∈ a.fanout ∧ a.phase = .starting
  | .registered p s => ∃ a, session s = some a ∧ a.pair = p ∧ k ∈ a.fanout
  | _ => True

structure SessionOk (call : CallId → CallState) (s : SessionId) (a : Authoritative) : Prop where
  queued : ∀ k ∈ a.cmds, (call k).awaits = some s
  nodup : a.cmds.Nodup
  opener : a.phase = .starting → ∃ k, call k = .starting a.pair s
  exited : a.phase = .exited → a.cmds = []
  referrer : ∀ k, .guard k ∈ a.arcs ∨ k ∈ a.removals → (call k).Returned

structure WF (r : Registry) : Prop where
  slot : ∀ p s, r.slot p = some s → ∃ a, r.session s = some a ∧ a.pair = p
  call : ∀ k, CallOk r.session k (r.call k)
  session : ∀ s a, r.session s = some a → SessionOk r.call s a
  unique : ∀ j k p q s, r.call j = .starting p s → r.call k = .starting q s → j = k
  fresh : ∃ n : Nat, ∀ s : Nat, n ≤ s → r.session s = none

/-- In place of `a`, `b` keeps what a call relies on in a session. -/
structure Keeps (k : CallId) (c : CallState) (s : SessionId) (a b : Authoritative) : Prop where
  cmds : a.phase = .exited ∨ k ∈ a.cmds → b.phase = .exited ∨ k ∈ b.cmds
  fanout : k ∈ a.fanout → k ∈ b.fanout
  starting : (∃ p, c = .starting p s) → a.phase = .starting → b.phase = .starting

theorem CallOk.setSession {r : Registry} {k : CallId} {c : CallState} {s : SessionId}
    {a b : Authoritative} (h : CallOk r.session k c) (hs : r.session s = some a)
    (hpair : b.pair = a.pair) (hkeeps : ¬ c.Returned → Keeps k c s a b) :
    CallOk (r.setSession s b).session k c := by
  cases c with
  | sharing p t | joining p t =>
      obtain ⟨d, hd, hp, hcmds⟩ := h
      by_cases ht : t = s
      · subst ht
        cases hs.symm.trans hd
        exact ⟨b, by simp, hpair.trans hp, (hkeeps id).cmds hcmds⟩
      · exact ⟨d, by simpa [ht] using hd, hp, hcmds⟩
  | starting p t =>
      obtain ⟨d, hd, hp, hfanout, hphase⟩ := h
      by_cases ht : t = s
      · subst ht
        cases hs.symm.trans hd
        have hkeeps := hkeeps id
        exact ⟨b, by simp, hpair.trans hp, hkeeps.fanout hfanout, hkeeps.starting ⟨p, rfl⟩ hphase⟩
      · exact ⟨d, by simpa [ht] using hd, hp, hfanout, hphase⟩
  | registered p t =>
      obtain ⟨d, hd, hp, hfanout⟩ := h
      by_cases ht : t = s
      · subst ht
        cases hs.symm.trans hd
        exact ⟨b, by simp, hpair.trans hp, (hkeeps id).fanout hfanout⟩
      · exact ⟨d, by simpa [ht] using hd, hp, hfanout⟩
  | _ => trivial

/-- A call that concerned another session, or none, moves. -/
theorem SessionOk.setCall {r : Registry} {k : CallId} {s : SessionId} {a : Authoritative}
    (h : SessionOk r.call s a) (c : CallState) (hk : (r.call k).at ≠ some s)
    (hret : ¬ (r.call k).Returned) : SessionOk (r.setCall k c).call s a := by
  have hother : ∀ {j}, (r.call j).at = some s → j ≠ k := by
    intro j hj hjk
    exact hk (hjk ▸ hj)
  refine ⟨?_, h.nodup, ?_, h.exited, ?_⟩
  · intro j hj
    have hawaits := h.queued j hj
    simpa [hother (CallState.at_of_awaits hawaits)] using hawaits
  · intro hphase
    obtain ⟨j, hj⟩ := h.opener hphase
    have hjk : j ≠ k := hother (by rw [hj]; rfl)
    exact ⟨j, by simpa [hjk] using hj⟩
  · intro j hj
    have hjret := h.referrer j hj
    have hjk : j ≠ k := fun hjk => hret (hjk ▸ hjret)
    simpa [hjk] using hjret

theorem SessionOk.not_queued {call : CallId → CallState} {k : CallId} {s : SessionId}
    {a : Authoritative} (h : SessionOk call s a) (hk : (call k).awaits = none) : k ∉ a.cmds := by
  intro hmem
  simp [h.queued k hmem] at hk

/-- A session moves on under its calls. -/
theorem SessionOk.weaken {call : CallId → CallState} {s : SessionId} {a b : Authoritative}
    (h : SessionOk call s a) (hpair : b.pair = a.pair) (hcmds : b.cmds = a.cmds ∨ b.cmds = [])
    (hstarting : b.phase = .starting → a.phase = .starting)
    (hexited : b.phase = .exited → a.phase = .exited ∨ b.cmds = [])
    (hreferrer : ∀ j, .guard j ∈ b.arcs ∨ j ∈ b.removals → .guard j ∈ a.arcs ∨ j ∈ a.removals) :
    SessionOk call s b := by
  refine ⟨?_, ?_, ?_, ?_, ?_⟩
  · intro j hj
    rcases hcmds with hcmds | hcmds
    · exact h.queued j (hcmds ▸ hj)
    · simp [hcmds] at hj
  · rcases hcmds with hcmds | hcmds
    · exact hcmds ▸ h.nodup
    · simp [hcmds]
  · intro hphase
    rw [hpair]
    exact h.opener (hstarting hphase)
  · intro hphase
    rcases hcmds with hcmds | hcmds
    · rcases hexited hphase with ha | hb
      · exact hcmds.trans (h.exited ha)
      · exact hb
    · exact hcmds
  · intro j hj
    exact h.referrer j (hreferrer j hj)

namespace WF

variable {r : Registry} {k : CallId} {c : CallState} {s : SessionId} {a b : Authoritative}

/-- The session a call holds is of the call's pair. -/
theorem pair_of_at {p : Pair} (h : WF r) (hk : r.call k = c) (hat : c.at = some s)
    (hc : c.pair = some p) (hs : r.session s = some a) : a.pair = p := by
  have hcall := h.call k
  rw [hk] at hcall
  cases c with
  | sharing _ _ | joining _ _ | starting _ _ | registered _ _ =>
      cases hat
      cases hc
      obtain ⟨d, hd, hp, -⟩ := hcall
      cases hs.symm.trans hd
      exact hp
  | _ => cases hat

theorem slot_setSession (h : WF r) (hs : r.session s = some a) (hpair : b.pair = a.pair)
    (p : Pair) (t : SessionId) (ht : r.slot p = some t) :
    ∃ d, (r.setSession s b).session t = some d ∧ d.pair = p := by
  obtain ⟨d, hd, hp⟩ := h.slot p t ht
  by_cases hts : t = s
  · subst hts
    cases hs.symm.trans hd
    exact ⟨b, by simp, hpair.trans hp⟩
  · exact ⟨d, by simpa [hts] using hd, hp⟩

theorem fresh_setSession (h : WF r) (s : SessionId) (b : Authoritative) :
    ∃ n : Nat, ∀ t : Nat, n ≤ t → (r.setSession s b).session t = none := by
  obtain ⟨n, hn⟩ := h.fresh
  refine ⟨max n (Nat.succ s), ?_⟩
  intro t ht
  have hts : t ≠ s := by omega
  simpa [hts] using hn t (by omega)

theorem unique_setCall
    (h : ∀ j k p q s, r.call j = .starting p s → r.call k = .starting q s → j = k)
    (hc : ∀ p t, c ≠ .starting p t) (i j : CallId) (p q : Pair) (t : SessionId)
    (hi : (r.setCall k c).call i = .starting p t)
    (hj : (r.setCall k c).call j = .starting q t) : i = j := by
  have hold : ∀ {j q}, (r.setCall k c).call j = .starting q t → r.call j = .starting q t := by
    intro j q hj
    rw [setCall_call] at hj
    split at hj
    · exact absurd hj (hc q t)
    · exact hj
  exact h i j p q t (hold hi) (hold hj)

/-- A call that holds no session moves to where it holds none. -/
theorem setCall (h : WF r) (hk : (r.call k).at = none) (hret : ¬ (r.call k).Returned)
    (hc : c.at = none) : WF (r.setCall k c) where
  slot := h.slot
  call j := by
    by_cases hj : j = k
    · subst hj
      rw [setCall_call, if_pos rfl]
      cases c <;> trivial
    · simpa [hj] using h.call j
  session t d hd := (h.session t d hd).setCall c (by simp [hk]) hret
  unique := unique_setCall h.unique (by rintro p t rfl; cases hc)
  fresh := h.fresh

/-- A session changes under its calls. -/
theorem setSession (h : WF r) (hs : r.session s = some a) (hpair : b.pair = a.pair)
    (hkeeps : ∀ j, ¬ (r.call j).Returned → Keeps j (r.call j) s a b) (hb : SessionOk r.call s b) :
    WF (r.setSession s b) where
  slot := h.slot_setSession hs hpair
  call j := (h.call j).setSession hs hpair (hkeeps j)
  session t d hd := by
    by_cases ht : t = s
    · subst ht
      rw [setSession_session, if_pos rfl] at hd
      cases hd
      exact hb
    · exact h.session t d (by simpa [ht] using hd)
  unique := h.unique
  fresh := h.fresh_setSession s b

/-- A session changes, and with it a call that holds no other. -/
theorem set (h : WF r) (hs : r.session s = some a) (hpair : b.pair = a.pair)
    (hk : ∀ t, (r.call k).at = some t → t = s) (hret : ¬ (r.call k).Returned)
    (hkeeps : ∀ j, j ≠ k → ¬ (r.call j).Returned → Keeps j (r.call j) s a b)
    (hstart : ∀ p t, c ≠ .starting p t) (hc : CallOk (r.setSession s b).session k c)
    (hb : SessionOk (r.setCall k c).call s b) :
    WF ((r.setSession s b).setCall k c) where
  slot := h.slot_setSession hs hpair
  call j := by
    by_cases hj : j = k
    · subst hj
      simpa using hc
    · simpa [hj] using (h.call j).setSession hs hpair (hkeeps j hj)
  session t d hd := by
    by_cases ht : t = s
    · subst ht
      rw [setCall_session, setSession_session, if_pos rfl] at hd
      cases hd
      exact hb
    · have hd' : r.session t = some d := by simpa [ht] using hd
      exact (h.session t d hd').setCall c (fun hat => ht (hk t hat)) hret
  unique := unique_setCall (r := r.setSession s b) h.unique hstart
  fresh := h.fresh_setSession s b

/-- A call has its command queued at the session it found. -/
theorem addSubscriber (h : WF r) {p : Pair} (hk : (r.call k).at = none)
    (hret : ¬ (r.call k).Returned) (hup : r.upgrade p = some (s, a))
    (hc : c = .sharing p s ∨ c = .joining p s) :
    WF ((r.setSession s (a.addSubscriber k)).setCall k c) := by
  obtain ⟨hslot, hs, -⟩ := upgrade_some hup
  obtain ⟨d, hd, hp⟩ := h.slot p s hslot
  cases hs.symm.trans hd
  have hawaits : c.awaits = some s := by rcases hc with rfl | rfl <;> rfl
  have hok := (h.session s a hs).setCall c (by simp [hk]) hret
  have hnew : k ∉ a.cmds := by
    intro hmem
    have hat := CallState.at_of_awaits ((h.session s a hs).queued k hmem)
    simp [hk] at hat
  refine h.set hs rfl (by simp [hk]) hret ?_ ?_ ?_ ?_
  · intro j _ _
    refine ⟨?_, id, fun _ => id⟩
    simp only [Authoritative.addSubscriber]
    grind
  · rcases hc with rfl | rfl <;> nofun
  -- a controller that has exited takes no command, and the call finds that out later
  · have hcmds : a.phase = .exited ∨ k ∈ (a.addSubscriber k).cmds := by
      simp only [Authoritative.addSubscriber]
      grind
    rcases hc with rfl | rfl <;> exact ⟨a.addSubscriber k, by simp, hp, hcmds⟩
  · refine ⟨?_, ?_, hok.opener, ?_, ?_⟩
    · intro j hj
      by_cases hjk : j = k
      · simpa [hjk] using hawaits
      · refine hok.queued j ?_
        simp only [Authoritative.addSubscriber] at hj
        grind
    · have hnodup := hok.nodup
      simp only [Authoritative.addSubscriber]
      grind
    · intro hphase
      simpa [Authoritative.addSubscriber, show a.phase = .exited from hphase]
        using hok.exited hphase
    · intro j hj
      exact hok.referrer j (by simpa [Authoritative.addSubscriber] using hj)

/-- A new session takes the free slot of a pair. -/
theorem claim (h : WF r) {p : Pair} (hk : (r.call k).at = none)
    (hret : ¬ (r.call k).Returned) (hs : r.session s = none) :
    WF (((r.setSession s (opened p k)).setSlot p (some s)).setCall k (.starting p s)) := by
  have hne : ∀ {t d}, r.session t = some d → t ≠ s := by
    rintro t d hd rfl
    cases hs.symm.trans hd
  refine ⟨?_, ?_, ?_, ?_, ?_⟩
  · intro q t ht
    by_cases hq : q = p
    · obtain rfl : s = t := by simpa [hq] using ht
      exact ⟨opened p k, by simp, hq.symm⟩
    · obtain ⟨d, hd, hp⟩ := h.slot q t (by simpa [hq] using ht)
      exact ⟨d, by simpa [hne hd] using hd, hp⟩
  · intro j
    by_cases hj : j = k
    · subst hj
      simp [CallOk, opened]
    · have hcall := h.call j
      simp only [setCall_call, hj, if_false, setSession_call, setSlot_call]
      cases hcj : r.call j with
      | sharing _ _ | joining _ _ | starting _ _ | registered _ _ =>
          rw [hcj] at hcall
          obtain ⟨d, hd, hrest⟩ := hcall
          exact ⟨d, by simpa [hne hd] using hd, hrest⟩
      | _ => trivial
  · intro t d hd
    by_cases ht : t = s
    · obtain rfl : opened p k = d := by simpa [ht] using hd
      exact ⟨by simp [opened], by simp [opened], fun _ => ⟨k, by simp [opened, ht]⟩,
        by simp [opened], by simp [opened]⟩
    · exact (h.session t d (by simpa [ht] using hd)).setCall _ (by simp [hk]) hret
  -- `s` is a session no call has seen, so no other opener holds it
  · have hfree : ∀ {i q t}, r.call i = .starting q t → t ≠ s := by
      intro i q t hi
      have hcall := h.call i
      rw [hi] at hcall
      exact hne hcall.choose_spec.1
    intro i j q q' t hi hj
    simp only [setCall_call, setSession_call, setSlot_call] at hi hj
    split at hi <;> split at hj
    · simp_all
    · cases hi
      exact absurd rfl (hfree hj)
    · cases hj
      exact absurd rfl (hfree hi)
    · exact h.unique i j q q' t hi hj
  · exact h.fresh_setSession s (opened p k)

/-- A call moves on at the session it holds. -/
theorem move (h : WF r) (hs : r.session s = some a) (hpair : b.pair = a.pair)
    (hk : (r.call k).at = some s) (hret : ¬ (r.call k).Returned)
    (hcmds : b.cmds = a.cmds.erase k ∧ (b.phase = .exited ↔ a.phase = .exited) ∨
      b.phase = .exited ∧ b.cmds = [])
    (hfanout : ∀ j, j ∈ a.fanout → j ∈ b.fanout)
    (hphase : b.phase = a.phase ∧ (∀ p, r.call k ≠ .starting p s) ∨
      b.phase ≠ .starting ∧ ∃ p, r.call k = .starting p s)
    (hreferrer : ∀ j, .guard j ∈ b.arcs ∨ j ∈ b.removals →
      j = k ∧ c.Returned ∨ .guard j ∈ a.arcs ∨ j ∈ a.removals)
    (hstart : ∀ p t, c ≠ .starting p t) (hc : CallOk (r.setSession s b).session k c) :
    WF ((r.setSession s b).setCall k c) := by
  have hok := h.session s a hs
  refine h.set hs hpair ?_ hret ?_ hstart hc ⟨?_, ?_, ?_, ?_, ?_⟩
  · intro t ht
    exact Option.some.inj (ht.symm.trans hk)
  · intro j hj _
    refine ⟨?_, hfanout j, ?_⟩
    · intro hcall
      rcases hcmds with ⟨hcmds, hexited⟩ | ⟨hexited, -⟩
      · rw [hcmds, hexited]
        exact hcall.imp id fun hmem => (List.mem_erase_of_ne hj).mpr hmem
      · exact .inl hexited
    · rintro ⟨p, hjp⟩ ha
      rcases hphase with ⟨hphase, -⟩ | ⟨-, q, hkq⟩
      · exact hphase.trans ha
      · exact absurd (h.unique j k p q s hjp hkq) hj
  · intro j hj
    rcases hcmds with ⟨hcmds, -⟩ | ⟨-, hcmds⟩
    · obtain ⟨hjk, hmem⟩ := hok.nodup.mem_erase_iff.mp (hcmds ▸ hj)
      simpa [hjk] using hok.queued j hmem
    · simp [hcmds] at hj
  · rcases hcmds with ⟨hcmds, -⟩ | ⟨-, hcmds⟩
    · exact hcmds ▸ hok.nodup.erase k
    · simp [hcmds]
  · intro hb
    rcases hphase with ⟨hphase, hne⟩ | ⟨hne, -⟩
    · obtain ⟨j, hj⟩ := hok.opener (hphase ▸ hb)
      have hjk : j ≠ k := fun hjk => hne _ (hjk ▸ hj)
      exact ⟨j, by simpa [hjk, hpair] using hj⟩
    · exact absurd hb hne
  · intro hexited
    rcases hcmds with ⟨hcmds, hphase⟩ | ⟨-, hcmds⟩
    · rw [hcmds, hok.exited (hphase.mp hexited)]
      rfl
    · exact hcmds
  · intro j hj
    by_cases hjk : j = k
    · rcases hreferrer j hj with hnew | hold
      · simpa [hjk] using hnew.2
      · exact absurd (hjk ▸ hok.referrer j hold) hret
    · rcases hreferrer j hj with hnew | hold
      · exact absurd hnew.1 hjk
      · simpa [hjk] using hok.referrer j hold

/-- A controller that polls its commands goes on to do so or leaves. -/
theorem serve (h : WF r) (hs : r.session s = some a) (hserving : a.phase.Serving)
    (hpair : b.pair = a.pair) (hcmds : b.cmds = a.cmds)
    (hphase : b.phase.Serving ∨ b.phase = .leaving)
    (hfanout : ∀ j, ¬ (r.call j).Returned → j ∈ a.fanout → j ∈ b.fanout)
    (hreferrer : ∀ j, .guard j ∈ b.arcs ∨ j ∈ b.removals → .guard j ∈ a.arcs ∨ j ∈ a.removals) :
    WF (r.setSession s b) := by
  have hexited : b.phase ≠ .exited := by
    intro hb
    simp [hb, Phase.Serving] at hphase
  have hstarting : b.phase ≠ .starting := by
    intro hb
    simp [hb, Phase.Serving] at hphase
  refine h.setSession hs hpair ?_ ((h.session s a hs).weaken hpair (.inl hcmds)
    (fun hb => absurd hb hstarting) (fun hb => absurd hb hexited) hreferrer)
  intro j hj
  refine ⟨?_, hfanout j hj, ?_⟩
  · intro hcall
    refine .inr (hcmds ▸ hcall.resolve_left ?_)
    intro ha
    simp [ha, Phase.Serving] at hserving
  · intro _ ha
    simp [ha, Phase.Serving] at hserving

/-- References come and go. -/
theorem refer (h : WF r) (hs : r.session s = some a) (hpair : b.pair = a.pair)
    (hcmds : b.cmds = a.cmds) (hphase : b.phase = a.phase) (hfanout : b.fanout = a.fanout)
    (hreferrer : ∀ j, .guard j ∈ b.arcs ∨ j ∈ b.removals → .guard j ∈ a.arcs ∨ j ∈ a.removals) :
    WF (r.setSession s b) := by
  refine h.setSession hs hpair ?_ ((h.session s a hs).weaken hpair (.inl hcmds)
    (fun hb => hphase ▸ hb) (fun hb => .inl (hphase ▸ hb)) hreferrer)
  intro j _
  refine ⟨?_, ?_, ?_⟩
  · rw [hcmds, hphase]
    exact id
  · rw [hfanout]
    exact id
  · intro _ ha
    exact hphase.trans ha

theorem step {r' : Registry} {act : RegistryAction} (h : WF r) (hstep : r.step act = some r') :
    WF r' := by
  cases step_cases hstep with
  | invoke hk => exact h.setCall (by rw [hk]; rfl) (by rw [hk]; exact id) rfl
  | probeShare hk hup =>
      exact h.addSubscriber (by rw [hk]; rfl) (by rw [hk]; exact id) hup (.inl rfl)
  | probeMiss hk hup => exact h.setCall (by rw [hk]; rfl) (by rw [hk]; exact id) rfl
  | claimJoin hk hs hup =>
      exact h.addSubscriber (by rw [hk]; rfl) (by rw [hk]; exact id) hup (.inr rfl)
  | claimOpen hk hs hup => exact h.claim (by rw [hk]; rfl) (by rw [hk]; exact id) hs
  | @started backfill k p s a hk hs =>
      have hcall := h.call k
      rw [hk] at hcall
      obtain ⟨d, hd, hp, hfanout, hphase⟩ := hcall
      cases hs.symm.trans hd
      have hnew := (h.session s a hs).not_queued (k := k) (by rw [hk]; rfl)
      refine h.move hs rfl (by rw [hk]; rfl) (by rw [hk]; exact id)
        (.inl ⟨(List.erase_of_not_mem hnew).symm, ?_⟩) (fun _ => id) (.inr ⟨?_, p, hk⟩)
        (fun _ => .inr) nofun ⟨_, setSession_self r s _, hp, hfanout⟩
      · cases backfill <;> simp [hphase]
      · cases backfill <;> simp
  | @startFailed k e p s a hk hs =>
      refine h.move hs rfl (by rw [hk]; rfl) (by rw [hk]; exact id) (.inr ⟨rfl, rfl⟩)
        (fun _ => id) (.inr ⟨nofun, p, hk⟩) ?_ nofun trivial
      intro j hj
      exact .inr (hj.imp_left List.mem_of_mem_erase)
  -- the first command of the queue is of a call that awaits this very session
  | @ack s a k cmds p t hs hcmds hserving hk =>
      have hmem : k ∈ a.cmds := by simp [hcmds]
      have hawaits := (h.session s a hs).queued k hmem
      obtain rfl : t = s := by
        rcases hk with hk | hk <;> rw [hk] at hawaits <;> exact Option.some.inj hawaits
      have hp : a.pair = p := by
        have hcall := h.call k
        rcases hk with hk | hk <;> rw [hk] at hcall <;> obtain ⟨d, hd, hp, -⟩ := hcall <;>
          cases hs.symm.trans hd <;> exact hp
      have hret : ¬ (r.call k).Returned := by rcases hk with hk | hk <;> rw [hk] <;> exact id
      have hne : ∀ q, r.call k ≠ .starting q t := by
        intro q
        rcases hk with hk | hk <;> rw [hk] <;> nofun
      refine h.move hs rfl (CallState.at_of_awaits hawaits) hret (.inl ⟨?_, Iff.rfl⟩) ?_
        (.inl ⟨rfl, hne⟩) (fun _ => .inr) nofun ⟨_, setSession_self r t _, hp, ?_⟩
      · simp [hcmds]
      · intro j hj
        exact List.mem_append_left [k] hj
      · simp
  | refusedShare hk hs hexited =>
      refine h.move hs rfl (by rw [hk]; rfl) (by rw [hk]; exact id)
        (.inr ⟨hexited, (h.session _ _ hs).exited hexited⟩) (fun _ => id)
        (.inl ⟨rfl, by rw [hk]; nofun⟩) ?_ nofun trivial
      intro j hj
      exact .inr (hj.imp_left List.mem_of_mem_erase)
  | refusedJoin hk hs hexited =>
      refine h.move hs rfl (by rw [hk]; rfl) (by rw [hk]; exact id)
        (.inr ⟨hexited, (h.session _ _ hs).exited hexited⟩) (fun _ => id)
        (.inl ⟨rfl, by rw [hk]; nofun⟩) ?_ nofun trivial
      intro j hj
      exact .inr (hj.imp_left List.mem_of_mem_erase)
  -- the guard that `settle` adds is of the call that returns here
  | @resume k p s a hk hs =>
      have hnew := (h.session s a hs).not_queued (k := k) (by rw [hk]; rfl)
      refine h.move hs rfl (by rw [hk]; rfl) (by rw [hk]; exact id)
        (.inl ⟨(List.erase_of_not_mem hnew).symm, Iff.rfl⟩) (fun _ => id)
        (.inl ⟨rfl, by rw [hk]; nofun⟩) ?_ nofun trivial
      intro j hj
      by_cases hjk : j = k
      · exact .inl ⟨hjk, trivial⟩
      · refine .inr (hj.imp_left fun hmem => ?_)
        simp only [Authoritative.settle, List.mem_cons, Holder.guard.injEq, hjk, false_or,
          reduceCtorEq] at hmem
        exact List.mem_of_mem_erase hmem
  | @remove s a k removals hs hremovals hserving =>
      have hret : (r.call k).Returned :=
        (h.session s a hs).referrer k (.inr (by simp [hremovals]))
      refine h.serve hs hserving rfl rfl ?_ ?_ ?_
      · exact Authoritative.checkTeardown_phase hserving
      · intro j hj hmem
        have hjk : j ≠ k := fun hjk => hj (hjk ▸ hret)
        exact List.mem_filter.mpr ⟨hmem, by simpa using hjk⟩
      · intro j hj
        exact hj.imp_right fun hmem => hremovals ▸ List.mem_cons_of_mem k hmem
  | @pruneBackfill s a k p res hk hs hphase =>
      refine h.serve hs (.inl hphase) rfl rfl (.inl (.inl hphase)) ?_ (fun _ => id)
      intro j hj hmem
      have hjk : j ≠ k := fun hjk => hj (by rw [hjk, hk]; trivial)
      exact List.mem_filter.mpr ⟨hmem, by simpa using hjk⟩
  | @prune s a k p res hk hs hphase =>
      refine h.serve hs (.inr hphase) rfl rfl ?_ ?_ (fun _ => id)
      · exact Authoritative.checkTeardown_phase (.inr hphase)
      · intro j hj hmem
        have hjk : j ≠ k := fun hjk => hj (by rw [hjk, hk]; trivial)
        exact List.mem_filter.mpr ⟨hmem, by simpa using hjk⟩
  | backfilled hs hphase =>
      exact h.serve hs (.inl hphase) rfl rfl (Authoritative.checkTeardown_phase (.inr rfl))
        (fun _ _ => id) (fun _ => id)
  | leave hs hserving =>
      exact h.serve hs hserving rfl rfl (.inr rfl) (fun _ _ => id) (fun _ => id)
  | @exit s a hs hphase =>
      refine h.setSession hs rfl (fun _ _ => ⟨fun _ => .inl rfl, id, ?_⟩)
        ((h.session s a hs).weaken rfl (.inr rfl) nofun (fun _ => .inr rfl) (fun _ => id))
      intro _ ha
      simp [ha] at hphase
  | @dropGuard s a k hs hk =>
      refine h.refer hs rfl rfl rfl rfl ?_
      intro j hj
      rcases hj with hj | hj
      · exact .inl (List.mem_of_mem_erase hj)
      · rcases List.mem_append.mp hj with hj | hj
        · exact .inr hj
        · cases List.mem_singleton.mp hj
          exact .inl hk
  | dropHandle hs hk =>
      exact h.refer hs rfl rfl rfl rfl (fun _ hj => hj.imp_left List.mem_of_mem_erase)
  -- the cleanup frees the slot, and only if it still holds this session
  | @drop s a hs ha =>
      refine ⟨?_, by simpa using h.call, by simpa using h.session, by simpa using h.unique,
        by simpa using h.fresh⟩
      intro q t ht
      rw [dropCleanup_session]
      rcases dropCleanup_slot r a.pair q with hq | ⟨-, -, hq⟩
      · exact h.slot q t (hq ▸ ht)
      · cases hq.symm.trans ht

theorem starting_phase {p : Pair} (h : WF r) (hk : r.call k = .starting p s)
    (hs : r.session s = some a) : a.phase = .starting := by
  have hcall := h.call k
  rw [hk] at hcall
  obtain ⟨d, hd, -, -, hphase⟩ := hcall
  cases hs.symm.trans hd
  exact hphase

/-- A controller that has left its loop stays out of it. -/
theorem closed_step {r' : Registry} {act : RegistryAction} (h : WF r)
    (hstep : r.step act = some r') (hs : r.session s = some a) (hclosed : ¬ a.phase.Open) :
    ∃ b, r'.session s = some b ∧ (b.phase = a.phase ∨ b.phase = .exited) := by
  -- a step changes one session; all that is left to see is the phase where it is this one
  have touch : ∀ {t d b}, r.session t = some d →
      (d.phase = a.phase → b.phase = a.phase ∨ b.phase = .exited) →
      ∃ b', (r.setSession t b).session s = some b' ∧
        (b'.phase = a.phase ∨ b'.phase = .exited) := by
    intro t d b ht hphase
    by_cases hts : s = t
    · subst hts
      cases hs.symm.trans ht
      exact ⟨b, setSession_self r s b, hphase rfl⟩
    · exact ⟨a, by simpa [hts] using hs, .inl rfl⟩
  cases step_cases hstep with
  | invoke | probeMiss => exact ⟨a, hs, .inl rfl⟩
  | drop ht => exact ⟨a, by simpa using hs, .inl rfl⟩
  | probeShare hk hup | claimJoin hk _ hup =>
      obtain ⟨-, hw, -⟩ := upgrade_some hup
      exact touch hw .inl
  | @claimOpen k t p hk ht hup =>
      have hts : s ≠ t := by
        rintro rfl
        cases hs.symm.trans ht
      exact ⟨a, by simpa [hts] using hs, .inl rfl⟩
  | started _ hk ht =>
      refine touch ht fun hd => absurd (.inl ?_) hclosed
      exact hd.symm.trans (h.starting_phase hk ht)
  | startFailed hk ht => exact touch ht fun _ => .inr rfl
  | ack ht | refusedShare _ ht | refusedJoin _ ht | resume _ ht | pruneBackfill _ ht
  | dropGuard ht | dropHandle ht => exact touch ht .inl
  | remove ht _ hserving | leave ht hserving =>
      exact touch ht fun hd => absurd (.inr (hd ▸ hserving)) hclosed
  | prune _ ht hphase =>
      exact touch ht fun hd => absurd (.inr (.inr (hd.symm.trans hphase))) hclosed
  | backfilled ht hphase =>
      exact touch ht fun hd => absurd (.inr (.inl (hd.symm.trans hphase))) hclosed
  | exit ht hphase => exact touch ht fun _ => .inr rfl

theorem init : WF Registry.init where
  slot p w h := by cases h
  call _ := trivial
  session s a h := by cases h
  unique j k p q s hj := by cases hj
  fresh := ⟨0, fun _ _ => rfl⟩

end WF

end Datamancer
