import Datamancer.Live.FanOutLoss
import Datamancer.Live.WellFormed

/-!
# Datamancer.Live.Singleton

The authoritative session of a pair is one for all its referrers.

The registry runs here together with the stamped stream of each session: what the
registry makes a controller do to its fan-out (the opener is in it from the start, an
`AddSubscriber` joins, a removal leaves) and what the controller forwards. Whoever
holds a session owns the slot of its pair (`Owned`), so two guards of one pair are on
one session; every event a referrer accepts is one its session stamped, so equal `seq`s
are equal events.
-/

namespace Datamancer

open ActionSystem

/-! ### The streams of the sessions -/

/-- What the referrers of a session see of its controller. -/
structure Substream where
  nextSeq : UInt64
  fanout : FanOut

namespace Substream

/-- The controller as it is spawned, with its opener in the fan-out. -/
def opened (k : SubscriberId) : Substream := ⟨0, FanOut.new.add k (.new defaultBuffer)⟩

/-- `forward` on the live path: stamp, then fan out. The counter stops short of
`Seq::SYNTHETIC`; reaching it panics. -/
def forward (st : Substream) (ev : MarketEvent) : Option Substream :=
  if st.nextSeq.toNat + 1 < 2 ^ 64 - 1 then
    some ⟨st.nextSeq + 1, st.fanout.fanout (ev.stampSeq ⟨st.nextSeq⟩)⟩
  else none

/-- A subscriber joins, leaves, or drains its channel. -/
def act (st : Substream) (a : FanOutAction) : Option Substream :=
  (st.fanout.step a).map fun fanout => { st with fanout }

end Substream

structure LiveWorld where
  registry : Registry
  stream : SessionId → Substream

inductive LiveAction
  | registry (act : RegistryAction)
  /-- The controller of a session forwards an event. -/
  | forward (s : SessionId) (ev : MarketEvent)
  /-- The receiver of a subscriber takes one event. -/
  | recv (s : SessionId) (k : SubscriberId)
  | close (s : SessionId) (k : SubscriberId)

namespace LiveWorld

def init : LiveWorld := ⟨.init, fun _ => ⟨0, .new⟩⟩

def setStream (w : LiveWorld) (s : SessionId) (st : Substream) : SessionId → Substream :=
  Function.update w.stream s st

/-- The stream an action of the registry changes, and to what. -/
def streamChange (w : LiveWorld) : RegistryAction → Option (SessionId × Substream)
  | .claim k s =>
      match w.registry.call k with
      | .claiming p =>
          match w.registry.upgrade p with
          | some _ => none
          | none => some (s, .opened k)
      | _ => none
  | .ack s =>
      match w.registry.session s with
      | some a => a.cmds.head?.map fun k =>
          (s, { w.stream s with fanout := (w.stream s).fanout.add k (.new defaultBuffer) })
      | none => none
  | .remove s =>
      match w.registry.session s with
      | some a => a.removals.head?.map fun k =>
          (s, { w.stream s with fanout := (w.stream s).fanout.remove k })
      | none => none
  | _ => none

def onStreams (w : LiveWorld) (act : RegistryAction) : SessionId → Substream :=
  match w.streamChange act with
  | some (s, st) => w.setStream s st
  | none => w.stream

def step (w : LiveWorld) : LiveAction → Option LiveWorld
  | .registry act => (w.registry.step act).map fun registry => ⟨registry, w.onStreams act⟩
  | .forward s ev =>
      match w.registry.session s with
      | some a =>
          if a.phase.Serving then
            ((w.stream s).forward ev).map fun st => { w with stream := w.setStream s st }
          else none
      | none => none
  | .recv s k => ((w.stream s).act (.recv k)).map fun st => { w with stream := w.setStream s st }
  | .close s k => ((w.stream s).act (.close k)).map fun st => { w with stream := w.setStream s st }

end LiveWorld

/-! ### A call in flight holds its session -/

/-- A call holds a reference to the session it is at. -/
def Held (r : Registry) : Prop :=
  ∀ k s, (r.call k).at = some s → ∃ a, r.session s = some a ∧ .opener k ∈ a.arcs

namespace Held

variable {r : Registry} {k : CallId} {c : CallState} {s : SessionId} {a b : Authoritative}

theorem setSession (h : Held r) (hs : r.session s = some a)
    (harcs : ∀ j, .opener j ∈ a.arcs → .opener j ∈ b.arcs) : Held (r.setSession s b) := by
  intro j t hj
  obtain ⟨d, hd, hmem⟩ := h j t hj
  by_cases hts : t = s
  · subst hts
    cases hs.symm.trans hd
    exact ⟨b, by simp, harcs j hmem⟩
  · exact ⟨d, by simpa [hts] using hd, hmem⟩

/-- A call moves on at a session: it keeps its reference there or needs none. -/
theorem set (h : Held r) (hs : r.session s = some a)
    (harcs : ∀ j, j ≠ k → .opener j ∈ a.arcs → .opener j ∈ b.arcs)
    (hc : ∀ t, c.at = some t → t = s ∧ .opener k ∈ b.arcs) :
    Held ((r.setSession s b).setCall k c) := by
  intro j t hj
  rw [Registry.setCall_call] at hj
  split_ifs at hj with hjk
  · obtain ⟨rfl, hmem⟩ := hc t hj
    exact ⟨b, by simp, hjk ▸ hmem⟩
  · obtain ⟨d, hd, hmem⟩ := h j t hj
    by_cases hts : t = s
    · subst hts
      cases hs.symm.trans hd
      exact ⟨b, by simp, harcs j hjk hmem⟩
    · exact ⟨d, by simpa [hts] using hd, hmem⟩

theorem setCall (h : Held r) (hc : c.at = none) : Held (r.setCall k c) := by
  intro j t hj
  rw [Registry.setCall_call] at hj
  split_ifs at hj with hjk
  · cases hc.symm.trans hj
  · exact h j t hj

/-- The reference of one call is no other's. -/
theorem mem_erase {arcs : List Holder} {j k : CallId} (hjk : j ≠ k)
    (h : Holder.opener j ∈ arcs) : Holder.opener j ∈ arcs.erase (.opener k) := by
  refine (List.mem_erase_of_ne ?_).mpr h
  intro heq
  exact hjk (Holder.opener.inj heq)

theorem step {r' : Registry} {act : RegistryAction} (h : Held r) (hwf : WF r)
    (hstep : r.step act = some r') : Held r' := by
  cases Registry.step_cases hstep with
  | invoke hk | probeMiss hk => exact h.setCall rfl
  | @probeShare k p s a hk hup | @claimJoin k _ p s a hk _ hup =>
      obtain ⟨-, hs, -⟩ := Registry.upgrade_some hup
      refine h.set hs (fun j _ hmem => List.mem_cons_of_mem _ hmem) ?_
      intro t ht
      exact ⟨(Option.some.inj ht).symm, List.mem_cons_self⟩
  | @claimOpen k s p hk hs hup =>
      intro j t hj
      simp only [Registry.setCall_call, Registry.setSlot_call, Registry.setSession_call] at hj
      split_ifs at hj with hjk
      · cases hj
        exact ⟨Registry.opened p k, by simp, by simp [Registry.opened, hjk]⟩
      · obtain ⟨d, hd, hmem⟩ := h j t hj
        have hts : t ≠ s := fun hts => by simp [hts, hs] at hd
        exact ⟨d, by simpa [hts] using hd, hmem⟩
  | @started backfill k p s a hk hs =>
      obtain ⟨d, hd, hmem⟩ := h k s (by rw [hk]; rfl)
      cases hs.symm.trans hd
      exact h.set hs (fun _ _ => id) fun t ht => ⟨(Option.some.inj ht).symm, hmem⟩
  | startFailed hk hs | refusedShare hk hs | refusedJoin hk hs =>
      exact h.set hs (fun j hj hmem => mem_erase hj hmem) (fun _ ht => by cases ht)
  | @ack s a k cmds p t hs hcmds hserving hk =>
      have hat := CallState.at_of_awaits ((hwf.session s a hs).queued k (by simp [hcmds]))
      obtain ⟨d, hd, hmem⟩ := h k s hat
      cases hs.symm.trans hd
      exact h.set hs (fun _ _ => id) fun t ht => ⟨(Option.some.inj ht).symm, hmem⟩
  | resume hk hs =>
      refine h.set hs (fun j hj hmem => ?_) (fun _ ht => by cases ht)
      exact List.mem_cons_of_mem _ (List.mem_cons_of_mem _ (mem_erase hj hmem))
  | remove hs | pruneBackfill _ hs | prune _ hs | backfilled hs | leave hs | exit hs =>
      exact h.setSession hs fun _ => id
  | dropGuard hs | dropHandle hs =>
      exact h.setSession hs fun j hmem => (List.mem_erase_of_ne (by simp)).mpr hmem
  | drop hs ha => exact fun k t hk => by simpa using h k t (by simpa using hk)

end Held

/-! ### Whoever holds a session owns its slot -/

/-- A session somebody holds is the one in the slot of its pair. -/
def Owned (r : Registry) : Prop :=
  ∀ s a, r.session s = some a → a.arcs ≠ [] → r.slot a.pair = some s

namespace Owned

variable {r : Registry} {s : SessionId} {a b : Authoritative}

/-- A session that was held stays in its slot. -/
theorem setSession (h : Owned r) (hs : r.session s = some a) (hpair : b.pair = a.pair)
    (harcs : b.arcs ≠ [] → a.arcs ≠ []) : Owned (r.setSession s b) := by
  intro t d ht hd
  rw [Registry.setSession_session] at ht
  split_ifs at ht with hts
  · cases ht
    show r.slot b.pair = some t
    rw [hpair, hts]
    exact h s a hs (harcs hd)
  · exact h t d ht hd

/-- A slot without a session that can be upgraded has no session of its pair that is held. -/
theorem arcs_of_upgrade_none (h : Owned r) {p : Pair} (hup : r.upgrade p = none)
    (hs : r.session s = some a) (hpair : a.pair = p) : a.arcs = [] := by
  by_contra harcs
  have hslot := h s a hs harcs
  rw [hpair] at hslot
  simp [Registry.upgrade, hslot, hs, harcs] at hup

theorem release (h : Owned r) (hs : r.session s = some a) (k : Holder)
    (hb : b.arcs = a.arcs.erase k) (hpair : b.pair = a.pair) : Owned (r.setSession s b) := by
  refine h.setSession hs hpair ?_
  rw [hb]
  intro hne hnil
  simp [hnil] at hne

theorem step {r' : Registry} {act : RegistryAction} (h : Owned r) (hheld : Held r)
    (hstep : r.step act = some r') : Owned r' := by
  cases Registry.step_cases hstep with
  | invoke hk => exact h
  | probeShare hk hup | claimJoin hk _ hup =>
      obtain ⟨-, hs, harcs⟩ := Registry.upgrade_some hup
      exact h.setSession hs rfl fun _ => harcs
  | probeMiss hk hup => exact h
  | @claimOpen k s p hk hs hup =>
      intro t d ht hd
      simp only [Registry.setCall_session, Registry.setSlot_session,
        Registry.setSession_session] at ht
      split_ifs at ht with hts
      · cases ht
        simp [Registry.opened, hts]
      · have hne : d.pair ≠ p := fun hpair => hd (h.arcs_of_upgrade_none hup ht hpair)
        simpa [hne] using h t d ht hd
  | started _ hk hs | ack hs _ _ hk | remove hs | pruneBackfill _ hs | prune _ hs
  | backfilled hs | leave hs | exit hs => exact h.setSession hs rfl id
  | startFailed hk hs | refusedShare hk hs | refusedJoin hk hs =>
      exact h.release hs _ rfl rfl
  | @resume k p s a hk hs =>
      obtain ⟨d, hd, hmem⟩ := hheld k s (by rw [hk]; rfl)
      cases hs.symm.trans hd
      exact h.setSession hs rfl fun _ => List.ne_nil_of_mem hmem
  | dropGuard hs | dropHandle hs => exact h.release hs _ rfl rfl
  | @drop s a hs ha =>
      intro t d ht hd
      rw [Registry.dropCleanup_session] at ht
      -- the cleanup takes a slot only where nothing can be upgraded, and then nothing refers to it
      rcases Registry.dropCleanup_slot r a.pair d.pair with hslot | ⟨hpair, hup, -⟩
      · exact hslot.trans (h t d ht hd)
      · exact absurd (h.arcs_of_upgrade_none hup ht hpair) hd

end Owned

/-! ### Every accepted event is one the session stamped -/

/-- What a fan-out caches and its referrers accept, other than `Gap`s, was sent to it. -/
structure Drawn (sent : List MarketEvent) (f : FanOut) : Prop where
  cached : ∀ ev, f.lastSubscriptionChanged = some ev → ev ∈ sent
  accepted : ∀ k r, f.subscribers.lookup k = some r → ∀ ev ∈ r.tx.accepted,
    ev.isGap = false → ev ∈ sent

namespace Referrer

variable {r r' : Referrer} {ev : MarketEvent}

theorem relay_accepted (h : r.relay ev = some r') {x : MarketEvent} (hx : x ∈ r'.tx.accepted) :
    x ∈ r.tx.accepted ∨ x = ev := by
  unfold relay at h
  cases hs : r.tx.trySend ev with
  | sent tx =>
      simp only [hs] at h
      obtain rfl := Option.some.inj h
      change x ∈ tx.accepted at hx
      rw [Channel.accepted_sent hs] at hx
      simpa using hx
  | full =>
      simp only [hs] at h
      obtain rfl := Option.some.inj h
      exact .inl hx
  | closed =>
      simp only [hs] at h
      cases h

/-- One event adds at most itself and an owed gap to what a referrer accepted. -/
theorem fanout_accepted (h : r.fanout ev = some r') {x : MarketEvent}
    (hx : x ∈ r'.tx.accepted) : x ∈ r.tx.accepted ∨ x.isGap = true ∨ x = ev := by
  unfold fanout at h
  cases hp : r.pending with
  | none =>
      simp only [hp] at h
      exact (relay_accepted h hx).imp_right .inr
  | some p =>
      simp only [hp] at h
      cases hs : r.tx.trySend p.toEvent with
      | sent tx =>
          simp only [hs] at h
          rcases relay_accepted h hx with hx | hx
          · change x ∈ tx.accepted at hx
            rw [Channel.accepted_sent hs] at hx
            rcases List.mem_append.mp hx with hx | hx
            · exact .inl hx
            · exact .inr (.inl (by rw [List.mem_singleton.mp hx]; rfl))
          · exact .inr (.inr hx)
      | full =>
          simp only [hs] at h
          obtain rfl := Option.some.inj h
          exact .inl hx
      | closed =>
          simp only [hs] at h
          cases h

end Referrer

theorem Drawn.step {sent : List MarketEvent} {f f' : FanOut} {a : FanOutAction}
    (h : Drawn sent f) (hstep : f.step a = some f') : Drawn (sent ++ sentBy [a]) f' := by
  -- a receiver changes neither the cache nor what a channel accepted
  have hreceiver : ∀ {i : SubscriberId} {act : Referrer → Option Referrer},
      (∀ r r', act r = some r' → r'.tx.accepted = r.tx.accepted) →
      f.onReferrer i act = some f' → Drawn (sent ++ []) f' := by
    intro i act hact hon
    obtain ⟨hlast, ⟨r₀, r₁, hr₀, hr₁, hi⟩, hother⟩ := FanOut.onReferrer_eq_some hon
    rw [List.append_nil]
    refine ⟨fun ev hev => h.cached ev (hlast ▸ hev), ?_⟩
    intro k r hr ev hev hgap
    by_cases hk : k = i
    · subst hk
      obtain rfl := Option.some.inj (hi.symm.trans hr)
      exact h.accepted k r₀ hr₀ ev (hact r₀ r₁ hr₁ ▸ hev) hgap
    · exact h.accepted k r (hother k hk ▸ hr) ev hev hgap
  cases a with
  | add i cap =>
      obtain rfl := Option.some.inj hstep
      refine ⟨fun ev hev => by simpa [sentBy] using h.cached ev hev, ?_⟩
      intro k r hr ev hev hgap
      by_cases hk : k = i
      · subst hk
        rw [FanOut.lookup_add] at hr
        obtain rfl := Option.some.inj hr
        change ev ∈ (f.joined (.new cap)).accepted at hev
        unfold FanOut.joined at hev
        cases hlast : f.lastSubscriptionChanged with
        | none => simp [hlast] at hev
        | some last =>
            rw [hlast] at hev
            rcases Channel.accepted_offer (Channel.new cap) last with hacc | hacc
            · rw [hacc] at hev
              obtain rfl : ev = last := by simpa using hev
              simpa [sentBy] using h.cached ev hlast
            · rw [hacc] at hev
              simp at hev
      · rw [FanOut.lookup_add_ne f hk] at hr
        simpa [sentBy] using h.accepted k r hr ev hev hgap
  | remove i =>
      obtain rfl := Option.some.inj hstep
      refine ⟨fun ev hev => by simpa [sentBy] using h.cached ev hev, ?_⟩
      intro k r hr ev hev hgap
      by_cases hk : k = i
      · subst hk
        rw [FanOut.lookup_remove] at hr
        cases hr
      · rw [FanOut.lookup_remove_ne f hk] at hr
        simpa [sentBy] using h.accepted k r hr ev hev hgap
  | fanout sentEv =>
      obtain rfl := Option.some.inj hstep
      refine ⟨?_, ?_⟩
      · intro ev hev
        change (if sentEv.isActivation then some sentEv else f.lastSubscriptionChanged) = _ at hev
        split_ifs at hev
        · obtain rfl := Option.some.inj hev
          simp [sentBy]
        · exact List.mem_append_left _ (h.cached ev hev)
      · intro k r hr ev hev hgap
        rw [FanOut.lookup_fanout] at hr
        obtain ⟨r₀, hr₀, hfan⟩ := Option.bind_eq_some_iff.mp hr
        rcases Referrer.fanout_accepted hfan hev with hev | hev | rfl
        · exact List.mem_append_left _ (h.accepted k r₀ hr₀ ev hev hgap)
        · rw [hgap] at hev
          cases hev
        · simp [sentBy]
  | recv i =>
      refine hreceiver (fun r r' hr => ?_) hstep
      obtain ⟨tx, htx, rfl⟩ := Option.map_eq_some_iff.mp hr
      exact Channel.accepted_recv htx
  | close i =>
      refine hreceiver (fun r r' hr => ?_) hstep
      obtain rfl := Option.some.inj hr
      rfl

/-- The referrers of a session draw on one list of events, no two of one `seq`. -/
def Substream.Stamped (st : Substream) : Prop :=
  ∃ sent, Drawn sent st.fanout ∧ (sent.map MarketEvent.seq).Nodup ∧
    ∀ ev ∈ sent, ev.seq.toNat < st.nextSeq.toNat

namespace Substream.Stamped

variable {st st' : Substream}

theorem init : Stamped ⟨0, FanOut.new⟩ :=
  ⟨[], ⟨fun _ h => (by cases h), fun k r hr => by cases hr⟩, List.nodup_nil, by simp⟩

/-- An action that fans nothing out. -/
theorem act {a : FanOutAction} (h : st.Stamped) (ha : sentBy [a] = [])
    {fanout : FanOut} (hstep : st.fanout.step a = some fanout) :
    Stamped { st with fanout } := by
  obtain ⟨sent, hdrawn, hnodup, hlt⟩ := h
  have hnext := hdrawn.step hstep
  rw [ha, List.append_nil] at hnext
  exact ⟨sent, hnext, hnodup, hlt⟩

theorem opened (k : SubscriberId) : Stamped (.opened k) :=
  init.act (a := .add k defaultBuffer) rfl rfl

theorem forward {ev : MarketEvent} (h : st.Stamped) (hstep : st.forward ev = some st') :
    Stamped st' := by
  unfold Substream.forward at hstep
  obtain ⟨hroom, hstep⟩ := Option.ite_none_right_eq_some.mp hstep
  obtain rfl := Option.some.inj hstep
  obtain ⟨sent, hdrawn, hnodup, hlt⟩ := h
  have hnext : (st.nextSeq + 1).toNat = st.nextSeq.toNat + 1 := by
    rw [UInt64.toNat_add]
    exact Nat.mod_eq_of_lt (by show st.nextSeq.toNat + 1 < _; omega)
  refine ⟨sent ++ [ev.stampSeq ⟨st.nextSeq⟩],
    hdrawn.step (a := .fanout (ev.stampSeq ⟨st.nextSeq⟩)) rfl, ?_, ?_⟩
  · rw [List.map_append, List.nodup_append]
    refine ⟨hnodup, List.nodup_singleton _, ?_⟩
    intro x hx y hy heq
    obtain ⟨old, hold, rfl⟩ := List.mem_map.mp hx
    obtain rfl : y = ⟨st.nextSeq⟩ := by simpa using hy
    have hold := hlt old hold
    rw [heq] at hold
    exact Nat.lt_irrefl _ hold
  · intro x hx
    show x.seq.toNat < (st.nextSeq + 1).toNat
    rw [hnext]
    rcases List.mem_append.mp hx with hx | hx
    · have := hlt x hx
      omega
    · obtain rfl := List.mem_singleton.mp hx
      rw [MarketEvent.seq_stampSeq]
      exact Nat.lt_succ_self _

/-- Two referrers of a session never disagree on the event of a `seq`. -/
theorem agree (h : st.Stamped) {j k : SubscriberId} {q r : Referrer}
    (hq : st.fanout.subscribers.lookup j = some q) (hr : st.fanout.subscribers.lookup k = some r)
    {ev ev' : MarketEvent} (hev : ev ∈ q.tx.accepted) (hev' : ev' ∈ r.tx.accepted)
    (hgap : ev.isGap = false) (hgap' : ev'.isGap = false) (hseq : ev.seq = ev'.seq) :
    ev = ev' := by
  obtain ⟨sent, hdrawn, hnodup, -⟩ := h
  exact List.inj_on_of_nodup_map hnodup (hdrawn.accepted j q hq ev hev hgap)
    (hdrawn.accepted k r hr ev' hev' hgap') hseq

end Substream.Stamped

/-! ### Every reachable state -/

structure LiveWorld.Inv (w : LiveWorld) : Prop where
  wf : WF w.registry
  held : Held w.registry
  owned : Owned w.registry
  stamped : ∀ s, (w.stream s).Stamped

namespace LiveWorld

variable {w w' : LiveWorld}

theorem stamped_setStream (h : ∀ s, (w.stream s).Stamped) {s : SessionId} {st : Substream}
    (hst : st.Stamped) (t : SessionId) : (w.setStream s st t).Stamped := by
  unfold setStream
  by_cases hts : t = s
  · subst hts
    rw [Function.update_self]
    exact hst
  · rw [Function.update_of_ne hts]
    exact h t

theorem stamped_of_streamChange (h : ∀ s, (w.stream s).Stamped) {act : RegistryAction}
    {s : SessionId} {st : Substream} (hact : w.streamChange act = some (s, st)) : st.Stamped := by
  unfold streamChange at hact
  split at hact
  · split at hact
    · split at hact
      · cases hact
      · cases hact
        exact .opened _
    · cases hact
  · split at hact
    · obtain ⟨k, -, hk⟩ := Option.map_eq_some_iff.mp hact
      cases hk
      exact (h s).act (a := .add k defaultBuffer) rfl rfl
    · cases hact
  · split at hact
    · obtain ⟨k, -, hk⟩ := Option.map_eq_some_iff.mp hact
      cases hk
      exact (h s).act (a := .remove k) rfl rfl
    · cases hact
  · cases hact

theorem stamped_onStreams (h : ∀ s, (w.stream s).Stamped) (act : RegistryAction)
    (t : SessionId) : (w.onStreams act t).Stamped := by
  unfold onStreams
  cases hact : w.streamChange act with
  | none => exact h t
  | some change => exact stamped_setStream h (stamped_of_streamChange h hact) t

theorem Inv.step {a : LiveAction} (h : Inv w) (hstep : w.step a = some w') : Inv w' := by
  cases a with
  | registry act =>
      obtain ⟨r, hr, rfl⟩ := Option.map_eq_some_iff.mp hstep
      exact ⟨h.wf.step hr, h.held.step h.wf hr, h.owned.step h.held hr,
        stamped_onStreams h.stamped act⟩
  | forward s ev =>
      simp only [LiveWorld.step] at hstep
      split at hstep
      · obtain ⟨-, hstep⟩ := Option.ite_none_right_eq_some.mp hstep
        obtain ⟨st, hst, rfl⟩ := Option.map_eq_some_iff.mp hstep
        exact ⟨h.wf, h.held, h.owned, stamped_setStream h.stamped ((h.stamped s).forward hst)⟩
      · cases hstep
  | recv s k | close s k =>
      obtain ⟨st, hst, rfl⟩ := Option.map_eq_some_iff.mp hstep
      obtain ⟨fanout, hfanout, rfl⟩ := Option.map_eq_some_iff.mp hst
      exact ⟨h.wf, h.held, h.owned,
        stamped_setStream h.stamped ((h.stamped s).act rfl hfanout)⟩

theorem Inv.init : Inv init where
  wf := .init
  held _ _ hk := by cases hk
  owned _ _ hs := by cases hs
  stamped _ := .init

/-- Guards of one pair are on one session, whose referrers agree on every event they
receive, and the cleanup of a dropped session leaves the slot of every session that
somebody holds. -/
theorem singleton_agreement {as : List LiveAction} (h : run LiveWorld.step init as = some w) :
    (∀ s t a b j k, w.registry.session s = some a → w.registry.session t = some b →
      a.pair = b.pair → .guard j ∈ a.arcs → .guard k ∈ b.arcs →
      s = t ∧ ∀ q r, (w.stream s).fanout.subscribers.lookup j = some q →
        (w.stream t).fanout.subscribers.lookup k = some r →
        ∀ ev ∈ q.tx.accepted, ∀ ev' ∈ r.tx.accepted, ev.isGap = false → ev'.isGap = false →
          ev.seq = ev'.seq → ev = ev') ∧
    ∀ d w', LiveWorld.step w (.registry (.drop d)) = some w' →
      ∀ s a, w.registry.session s = some a → a.arcs ≠ [] →
        w.registry.slot a.pair = some s ∧ w'.registry.slot a.pair = some s := by
  have hinv : Inv w := invariant Inv.step .init h
  refine ⟨?_, ?_⟩
  · intro s t a b j k hs ht hpair hj hk
    have hslot := hinv.owned s a hs (List.ne_nil_of_mem hj)
    rw [hpair, hinv.owned t b ht (List.ne_nil_of_mem hk)] at hslot
    obtain rfl := Option.some.inj hslot
    refine ⟨rfl, ?_⟩
    intro q r hq hr ev hev ev' hev' hgap hgap' hseq
    exact (hinv.stamped t).agree hq hr hev hev' hgap hgap' hseq
  · intro d w' hdrop s a hs harcs
    refine ⟨hinv.owned s a hs harcs, ?_⟩
    obtain ⟨r, hr, rfl⟩ := Option.map_eq_some_iff.mp hdrop
    have howned := hinv.owned.step hinv.held hr
    cases Registry.step_cases hr with
    | @drop _ b hd hb =>
        show (w.registry.dropCleanup b.pair).slot a.pair = some s
        exact howned s a (by simpa using hs) harcs

/-- The pair of the test trades. -/
def testPair : Pair := (⟨"p", .equity, "AAPL"⟩, .trade)

/-- A call opens a session and lets go of it, the next opens its successor, and a third
shares that. -/
def successorRun : List LiveAction :=
  ([.invoke 0 testPair, .probe 0, .claim 0 0, .started 0 false, .resume 0, .dropGuard 0 0,
    .dropHandle 0 0, .invoke 1 testPair, .probe 1, .claim 1 1, .started 1 false, .resume 1,
    .invoke 2 testPair, .probe 2, .ack 1, .resume 2].map LiveAction.registry) ++
  [.forward 1 (testTrade "AAPL" 100 ⟨7⟩), .recv 1 1, .recv 1 2]

/-- The two referrers of the successor receive one trade alike, and the cleanup of the
first session, late, leaves the successor its slot. -/
theorem singleton_agreement_successor : ∃ w w' q r,
    run LiveWorld.step init successorRun = some w ∧
    (w.stream 1).fanout.subscribers.lookup 1 = some q ∧
    (w.stream 1).fanout.subscribers.lookup 2 = some r ∧
    q.tx.taken = [testTrade "AAPL" 100 ⟨0⟩] ∧ r.tx.taken = [testTrade "AAPL" 100 ⟨0⟩] ∧
    (∀ ev ∈ q.tx.accepted, ∀ ev' ∈ r.tx.accepted, ev.isGap = false → ev'.isGap = false →
      ev.seq = ev'.seq → ev = ev') ∧
    LiveWorld.step w (.registry (.drop 0)) = some w' ∧
    w'.registry.slot testPair = some 1 := by
  obtain ⟨w, hrun, w', hdrop, a, hs, hpair, harcs, q, hq, r, hr, htaken⟩ : ∃ w,
      run LiveWorld.step init successorRun = some w ∧
      ∃ w', LiveWorld.step w (.registry (.drop 0)) = some w' ∧
      ∃ a, w.registry.session 1 = some a ∧ a.pair = testPair ∧
        a.arcs = [.guard 2, .handle 2, .guard 1, .handle 1] ∧
      ∃ q, (w.stream 1).fanout.subscribers.lookup 1 = some q ∧
      ∃ r, (w.stream 1).fanout.subscribers.lookup 2 = some r ∧
        q.tx.taken = [testTrade "AAPL" 100 ⟨0⟩] ∧ r.tx.taken = [testTrade "AAPL" 100 ⟨0⟩] :=
    ⟨_, rfl, _, rfl, _, rfl, rfl, rfl, _, rfl, _, rfl, rfl, rfl⟩
  obtain ⟨hguards, hcleanup⟩ := singleton_agreement hrun
  have hslot := (hcleanup 0 w' hdrop 1 a hs (by simp [harcs])).2
  refine ⟨w, w', q, r, hrun, hq, hr, htaken.1, htaken.2, ?_, hdrop, hpair ▸ hslot⟩
  exact (hguards 1 1 a a 1 2 hs hs rfl (by simp [harcs]) (by simp [harcs])).2 q r hq hr

end LiveWorld

end Datamancer
