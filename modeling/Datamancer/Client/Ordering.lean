import Datamancer.Client.Multiplex

/-!
# Datamancer.Client.Ordering

The ordering key `(instrument, seq)` of the multiplexed stream.

Each subscription's events arrive with increasing `seq`s, for they were stamped by one
counter; the gaps of the resume ring carry the `seq` of the first event they stand for.
The counters are per `(instrument, kind)` pair and start afresh with each authoritative
session, so what one instrument's events are in order of is one counter only as long as
no other subscription of the instrument interferes (`Fresh`).
-/

namespace Datamancer

open ActionSystem

/-- The instrument an event is of; connection-scoped controls are of none. -/
def MarketEvent.subject : MarketEvent → Option Instrument
  | .control ⟨_, _, _, .gap _ instrument _⟩ => some instrument
  | .control ⟨_, _, _, .subscriptionChanged _ instrument _ _⟩ => some instrument
  | .control _ => none
  | .trade t => some t.instrument
  | .quote q => some q.instrument
  | .bar b => some b.instrument

theorem subject_of_ringCoords {x : MarketEvent × String} {c : LossCoords}
    (h : ringCoords x = some c) : x.1.subject = some c.instrument := by
  obtain ⟨ev, provider⟩ := x
  cases ev with
  | control ctl =>
      obtain ⟨_, _, _, kind⟩ := ctl
      cases kind with
      | gap _ _ _ =>
          obtain rfl := Option.some.inj h
          rfl
      | _ => cases h
  | _ =>
      obtain rfl := Option.some.inj h
      rfl

/-- An event that occupies a place in the order of its instrument. -/
def MarketEvent.OrderedFor (i : Instrument) (ev : MarketEvent) : Prop :=
  ev.subject = some i ∧ ev.seq ≠ Seq.synthetic

instance (i : Instrument) (ev : MarketEvent) : Decidable (ev.OrderedFor i) :=
  inferInstanceAs (Decidable (_ ∧ _))

/-- Of one instrument, the first event comes before the second. -/
def MarketEvent.Precedes (x y : MarketEvent) : Prop :=
  ∀ i ∈ x.subject, x.OrderedFor i → y.OrderedFor i → x.seq < y.seq

instance (x y : MarketEvent) : Decidable (x.Precedes y) :=
  inferInstanceAs (Decidable (∀ i ∈ x.subject, _))

/-! ### One feed stamps in order -/

namespace Referrer

/-- The `seq`s a referrer has accepted, then that of the gap it is owed. -/
def seqs (r : Referrer) : List Seq :=
  r.tx.accepted.map MarketEvent.seq ++ (r.pending.map PendingGap.firstSeq).toList

/-- The `seq`s are increasing and below a bound. -/
def Below (s : Seq) (ss : List Seq) : Prop := ss.Pairwise (· < ·) ∧ ∀ x ∈ ss, x < s

theorem Below.append_singleton {s : Seq} {ss : List Seq} (h : Below s ss) :
    (ss ++ [s]).Pairwise (· < ·) := by
  refine List.pairwise_append.mpr ⟨h.1, List.pairwise_singleton _ _, ?_⟩
  intro x hx y hy
  obtain rfl := List.mem_singleton.mp hy
  exact h.2 x hx

variable {r r' : Referrer} {ev : MarketEvent}

/-- The `seq`s of a referrer after one more event end with that event's at most. -/
theorem seqs_relay (hnone : r.pending = none) (h : r.relay ev = some r') :
    r'.seqs = r.seqs ∨ r'.seqs = r.seqs ++ [ev.seq] := by
  unfold relay at h
  cases hs : r.tx.trySend ev with
  | sent tx =>
      simp only [hs] at h
      obtain rfl := Option.some.inj h
      right
      simp [seqs, hnone, Channel.accepted_sent hs]
  | full =>
      simp only [hs] at h
      obtain rfl := Option.some.inj h
      cases hc : gapCoords ev with
      | none =>
          left
          simp [seqs, absorbDrop, hc]
      | some c =>
          right
          simp [seqs, absorbDrop, hc, hnone]
  | closed =>
      simp only [hs] at h
      cases h

theorem seqs_fanout (h : r.fanout ev = some r') :
    r'.seqs = r.seqs ∨ r'.seqs = r.seqs ++ [ev.seq] := by
  unfold fanout at h
  cases hp : r.pending with
  | none =>
      simp only [hp] at h
      exact seqs_relay hp h
  | some p =>
      simp only [hp] at h
      cases hs : r.tx.trySend p.toEvent with
      | sent tx =>
          simp only [hs] at h
          have hflush : Referrer.seqs ⟨tx, none⟩ = r.seqs := by
            simp [seqs, hp, Channel.accepted_sent hs]
          rw [← hflush]
          exact seqs_relay rfl h
      | full =>
          simp only [hs] at h
          obtain rfl := Option.some.inj h
          left
          cases hc : gapCoords ev <;> simp [seqs, absorbDrop, hp, hc, PendingGap.absorb]
      | closed =>
          simp only [hs] at h
          cases h

end Referrer

namespace Feed

/-- What the client's referrer has accepted is in the order it was stamped in. -/
structure Ordered (f : Feed) : Prop where
  cached : ∀ ev, f.solo.1 = some ev → ev.seq < ⟨f.nextSeq⟩
  referrer : ∀ r, f.solo.2 = some r → Referrer.Below ⟨f.nextSeq⟩ r.seqs

theorem ordered_new : Ordered .new :=
  ⟨fun ev h => (by cases h), fun r h => (by cases h)⟩

theorem ordered_join {f : Feed} (h : f.Ordered) : f.join.Ordered := by
  refine ⟨h.cached, ?_⟩
  intro r hr
  obtain rfl := Option.some.inj hr
  change Referrer.Below ⟨f.nextSeq⟩ _
  unfold Referrer.seqs FanOut.joined
  cases hlast : f.solo.1 with
  | none => exact ⟨.nil, by simp⟩
  | some ev =>
      have hlt := h.cached ev hlast
      rcases Channel.accepted_offer (Channel.new defaultBuffer) ev with hacc | hacc
      · simp only [hacc]
        exact ⟨by simp, by simpa using hlt⟩
      · simp only [hacc]
        exact ⟨by simp, by simp⟩

theorem ordered_leave {f : Feed} (h : f.Ordered) : f.leave.Ordered :=
  ⟨h.cached, fun r hr => (by cases hr)⟩

theorem ordered_forward {f f' : Feed} {ev : MarketEvent} (h : f.Ordered)
    (hf : f.forward ev = some f') : f'.Ordered := by
  obtain ⟨hroom, hnext, hcached, hreferrer⟩ := forward_eq_some hf
  have hlt : (⟨f.nextSeq⟩ : Seq) < ⟨f'.nextSeq⟩ := by
    rw [Seq.lt_def, hnext]
    show f.nextSeq.toNat < (f.nextSeq + 1).toNat
    rw [UInt64.toNat_add]
    -- the counter has room, as a forward out of it would not have gone through
    have hmod : (f.nextSeq.toNat + (1 : UInt64).toNat) % 2 ^ 64 = f.nextSeq.toNat + 1 :=
      Nat.mod_eq_of_lt (by show f.nextSeq.toNat + 1 < _; omega)
    omega
  refine ⟨?_, ?_⟩
  · intro last hlast
    rw [hcached] at hlast
    split_ifs at hlast
    · obtain rfl := Option.some.inj hlast
      rw [MarketEvent.seq_stampSeq]
      exact hlt
    · exact (h.cached last hlast).trans hlt
  · intro r' hr'
    rw [hreferrer] at hr'
    obtain ⟨r, hr, hfan⟩ := Option.bind_eq_some_iff.mp hr'
    have hbelow := h.referrer r hr
    rcases Referrer.seqs_fanout hfan with hseqs | hseqs
    · rw [hseqs]
      exact ⟨hbelow.1, fun x hx => (hbelow.2 x hx).trans hlt⟩
    · rw [hseqs, MarketEvent.seq_stampSeq]
      refine ⟨hbelow.append_singleton, ?_⟩
      intro x hx
      rcases List.mem_append.mp hx with hx | hx
      · exact (hbelow.2 x hx).trans hlt
      · obtain rfl := List.mem_singleton.mp hx
        exact hlt

/-- A referrer whose channel is drained keeps its order. -/
theorem Ordered.setQueue {f : Feed} {r : Referrer} (h : f.Ordered) (hr : f.solo.2 = some r)
    {tx : Channel MarketEvent} (htx : tx.accepted = r.tx.accepted) :
    Ordered { f with solo := (f.solo.1, some { r with tx }) } := by
  refine ⟨h.cached, ?_⟩
  intro r' hr'
  obtain rfl := Option.some.inj hr'
  have hseqs : Referrer.seqs { r with tx } = r.seqs := by
    simp [Referrer.seqs, htx]
  rw [hseqs]
  exact h.referrer r hr

end Feed

/-! ### What the client has taken off a substream -/

/-- While its receiver is there a referrer stays, and only the receiver takes. -/
theorem Referrer.fanout_of_open {r : Referrer} (h : r.tx.isOpen = true) (ev : MarketEvent) :
    ∃ r', r.fanout ev = some r' ∧ r'.tx.isOpen = true ∧ r'.tx.taken = r.tx.taken := by
  have hrelay : ∀ r : Referrer, r.tx.isOpen = true →
      ∃ r', r.relay ev = some r' ∧ r'.tx.isOpen = true ∧ r'.tx.taken = r.tx.taken := by
    intro r hopen
    unfold relay
    cases hs : r.tx.trySend ev with
    | sent tx =>
        obtain ⟨-, rfl⟩ := Channel.eq_of_sent hs
        exact ⟨_, rfl, hopen, rfl⟩
    | full => exact ⟨_, rfl, hopen, rfl⟩
    | closed =>
        rw [Channel.isOpen_of_closed hs] at hopen
        cases hopen
  unfold fanout
  cases hp : r.pending with
  | none =>
      dsimp only
      exact hrelay r h
  | some p =>
      cases hs : r.tx.trySend p.toEvent with
      | sent tx =>
          obtain ⟨-, rfl⟩ := Channel.eq_of_sent hs
          simp only [hs]
          exact hrelay _ h
      | full =>
          simp only [hs]
          exact ⟨_, rfl, h, rfl⟩
      | closed =>
          rw [Channel.isOpen_of_closed hs] at h
          cases h

namespace Multiplex

/-- What the client has handed in of a subscription is what it took off its substream. -/
structure Traced (m : Multiplex) : Prop where
  feed : ∀ p, (m.feed p).Ordered
  opened : ∀ p r, (m.feed p).solo.2 = some r → r.tx.isOpen = true
  ended : ∀ p tx, m.ended p = some tx → (tx.accepted.map MarketEvent.seq).Pairwise (· < ·)
  epoch : ∀ h ∈ m.handed, ∀ p n, h.origin = some (p, n) → n ≤ m.epoch p
  taken : ∀ h ∈ m.handed, ∀ p, h.origin = some (p, m.epoch p) →
    ∀ tx, m.substream p = some tx → h.item.1 ∈ tx.taken

variable {m m' : Multiplex}

theorem Traced.increasing (h : m.Traced) {p : Pair} {tx : Channel MarketEvent}
    (htx : m.substream p = some tx) : (tx.accepted.map MarketEvent.seq).Pairwise (· < ·) := by
  unfold substream at htx
  cases hr : (m.feed p).solo.2 with
  | none =>
      rw [hr] at htx
      exact h.ended p tx htx
  | some r =>
      rw [hr] at htx
      obtain rfl := Option.some.inj htx
      exact ((h.feed p).referrer r hr).1.sublist (List.sublist_append_left _ _)

/-- What the client took off a substream comes before what is still in it. -/
theorem Traced.taken_lt (h : m.Traced) {p : Pair} {tx : Channel MarketEvent}
    (htx : m.substream p = some tx) {ev x : MarketEvent} (hev : tx.queue.head? = some ev)
    (hx : x ∈ tx.taken) : x.seq < ev.seq := by
  have hinc := h.increasing htx
  rw [Channel.accepted, List.map_append] at hinc
  exact (List.pairwise_append.mp hinc).2.2 _ (List.mem_map_of_mem hx) _
    (List.mem_map_of_mem (List.mem_of_mem_head? hev))

/-- A step that hands nothing in, after which each substream there is has what it had. -/
theorem Traced.keep (h : m.Traced) (hfeed : ∀ p, (m'.feed p).Ordered)
    (hopened : ∀ p r, (m'.feed p).solo.2 = some r → r.tx.isOpen = true)
    (hended : ∀ p tx, m'.ended p = some tx → (tx.accepted.map MarketEvent.seq).Pairwise (· < ·))
    (hhanded : m'.handed = m.handed) (hepoch : m'.epoch = m.epoch)
    (htaken : ∀ p tx', m'.substream p = some tx' →
      ∃ tx, m.substream p = some tx ∧ ∀ x ∈ tx.taken, x ∈ tx'.taken) : m'.Traced := by
  refine ⟨hfeed, hopened, hended, ?_, ?_⟩
  · rw [hhanded, hepoch]
    exact h.epoch
  · rw [hhanded, hepoch]
    intro g hg p horigin tx' htx'
    obtain ⟨tx, htx, hsub⟩ := htaken p tx' htx'
    exact hsub _ (h.taken g hg p horigin tx htx)

/-- An item is handed in: one of the client's own, or one taken off a substream. -/
theorem Traced.hand (h : m.Traced) {origin : Option Subscription} {x : MarketEvent × String}
    (horigin : ∀ p n, origin = some (p, n) → n = m.epoch p ∧
      ∀ tx, m.substream p = some tx → x.1 ∈ tx.taken) : (m.hand origin x).Traced := by
  refine ⟨h.feed, h.opened, h.ended, ?_, ?_⟩
  · intro g hg p n hgp
    rcases List.mem_append.mp hg with hg | hg
    · exact h.epoch g hg p n hgp
    · obtain rfl := List.mem_singleton.mp hg
      exact (horigin p n hgp).1.le
  · intro g hg p hgp tx htx
    rcases List.mem_append.mp hg with hg | hg
    · exact h.taken g hg p hgp tx htx
    · obtain rfl := List.mem_singleton.mp hg
      exact (horigin p _ hgp).2 tx htx

theorem Traced.route (h : m.Traced) {p : Pair} {ev : MarketEvent}
    (hev : ∀ tx, m.substream p = some tx → ev ∈ tx.taken) : (m.route p ev).Traced := by
  have hclient : Traced { m with client := (m.client.route p ev).2 } :=
    ⟨h.feed, h.opened, h.ended, h.epoch, h.taken⟩
  unfold Multiplex.route
  cases hx : (m.client.route p ev).1 with
  | none => simpa only [hx] using hclient
  | some x =>
      simp only [hx]
      refine hclient.hand ?_
      intro q n hq
      obtain ⟨rfl, rfl⟩ := Prod.mk.inj (Option.some.inj hq)
      refine ⟨rfl, fun tx htx => ?_⟩
      rw [ClientController.route_event hx]
      exact hev tx htx

/-- A step at one pair leaves the substreams of the others. -/
theorem substream_setFeed {p q : Pair} {f : Feed} (hq : q ≠ p) :
    (m.setFeed p f).substream q = m.substream q := by
  simp [substream, setFeed, hq]

theorem substream_setEnded {p q : Pair} {tx : Option (Channel MarketEvent)} (hq : q ≠ p) :
    (m.setEnded p tx).substream q = m.substream q := by
  simp [substream, setEnded, hq]

/-- The feed of one pair changes, to one that is in order, and its channel keeps what was
taken off it. -/
theorem Traced.setFeed (h : m.Traced) {p : Pair} {f : Feed} (hf : f.Ordered)
    (hopened : ∀ r, f.solo.2 = some r → r.tx.isOpen = true)
    (htaken : ∀ tx', (m.setFeed p f).substream p = some tx' →
      ∃ tx, m.substream p = some tx ∧ ∀ x ∈ tx.taken, x ∈ tx'.taken) : (m.setFeed p f).Traced := by
  refine h.keep ?_ ?_ h.ended rfl rfl ?_
  · intro q
    rw [feed_setFeed]
    split_ifs
    · exact hf
    · exact h.feed q
  · intro q r hr
    rw [feed_setFeed] at hr
    split_ifs at hr
    · exact hopened r hr
    · exact h.opened q r hr
  · intro q tx' htx'
    by_cases hq : q = p
    · subst hq
      exact htaken tx' htx'
    · rw [substream_setFeed hq] at htx'
      exact ⟨tx', htx', fun _ => id⟩

/-- A substream without a referrer changes. -/
theorem Traced.setEnded (h : m.Traced) {p : Pair} {tx : Option (Channel MarketEvent)}
    (htx : ∀ t, tx = some t → (t.accepted.map MarketEvent.seq).Pairwise (· < ·))
    (htaken : ∀ tx', (m.setEnded p tx).substream p = some tx' →
      ∃ tx, m.substream p = some tx ∧ ∀ x ∈ tx.taken, x ∈ tx'.taken) :
    (m.setEnded p tx).Traced := by
  refine h.keep h.feed h.opened ?_ rfl rfl ?_
  · intro q t ht
    rw [ended_setEnded] at ht
    split_ifs at ht
    · exact htx t ht
    · exact h.ended q t ht
  · intro q tx' htx'
    by_cases hq : q = p
    · subst hq
      exact htaken tx' htx'
    · rw [substream_setEnded hq] at htx'
      exact ⟨tx', htx', fun _ => id⟩

theorem Traced.giveUp (h : m.Traced) (p : Pair) (provider : String) (now : Timestamp) :
    (m.giveUp p provider now).Traced := by
  have hleave : ∀ q, (((m.setFeed p (m.feed p).leave).setEnded p none).feed q) =
      if q = p then (m.feed p).leave else m.feed q := fun q => feed_setFeed m p q _
  have hgone : Traced ((m.setFeed p (m.feed p).leave).setEnded p none) := by
    refine h.keep ?_ ?_ ?_ rfl rfl ?_
    · intro q
      rw [hleave]
      split_ifs
      · exact Feed.ordered_leave (h.feed p)
      · exact h.feed q
    · intro q r hr
      rw [hleave] at hr
      split_ifs at hr
      · cases hr
      · exact h.opened q r hr
    · intro q tx htx
      rw [ended_setEnded] at htx
      split_ifs at htx
      exact h.ended q tx htx
    · intro q tx htx
      by_cases hq : q = p
      · subst hq
        simp [substream, Multiplex.setFeed, Multiplex.setEnded, Feed.leave] at htx
      · rw [substream_setEnded hq, substream_setFeed hq] at htx
        exact ⟨tx, htx, fun _ => id⟩
  have hclient : Traced { (m.setFeed p (m.feed p).leave).setEnded p none with
      client := { m.client with entries := m.client.entries.erase p } } :=
    ⟨hgone.feed, hgone.opened, hgone.ended, hgone.epoch, hgone.taken⟩
  exact hclient.hand (fun _ _ h => by cases h)

theorem Traced.step {a : MultiplexAction} (h : m.Traced) (hstep : m.step a = some m') :
    m'.Traced := by
  cases step_cases hstep with
  | @forward p ev f hf =>
      have hordered := Feed.ordered_forward (h.feed p) hf
      obtain ⟨-, -, -, hreferrer⟩ := Feed.forward_eq_some hf
      cases hr : (m.feed p).solo.2 with
      | none =>
          rw [hr, Option.bind_none] at hreferrer
          refine h.setFeed hordered (by simp [hreferrer]) ?_
          intro tx' htx'
          refine ⟨tx', ?_, fun _ => id⟩
          rw [substream_of_ended hr]
          rw [substream_of_ended (by simp [Multiplex.setFeed, hreferrer])] at htx'
          exact htx'
      | some r =>
          obtain ⟨r', hr', hopen, htaken⟩ := Referrer.fanout_of_open (h.opened p r hr)
            (ev.stampSeq ⟨(m.feed p).nextSeq⟩)
          rw [hr, Option.bind_some, hr'] at hreferrer
          refine h.setFeed hordered ?_ ?_
          · intro r₁ hr₁
            obtain rfl := Option.some.inj (hreferrer.symm.trans hr₁)
            exact hopen
          · intro tx' htx'
            rw [substream_of_referrer (r := r') (by simp [Multiplex.setFeed, hreferrer])] at htx'
            obtain rfl := Option.some.inj htx'
            exact ⟨r.tx, substream_of_referrer hr, fun x hx => htaken ▸ hx⟩
  | @renewIdle p hr =>
      refine h.setFeed Feed.ordered_new (fun r h => by cases h) ?_
      intro tx' htx'
      refine ⟨tx', ?_, fun _ => id⟩
      rw [substream_of_ended (by simp [Multiplex.setFeed, Feed.new])] at htx'
      rw [substream_of_ended hr]
      exact htx'
  | @renew p r hr =>
      have hsub := substream_of_referrer hr
      have hfeed : ∀ q, ((m.setFeed p .new).setEnded p (some r.tx)).feed q =
          if q = p then .new else m.feed q := fun q => feed_setFeed m p q _
      refine h.keep ?_ ?_ ?_ rfl rfl ?_
      · intro q
        rw [hfeed]
        split_ifs
        · exact Feed.ordered_new
        · exact h.feed q
      · intro q r' hr'
        rw [hfeed] at hr'
        split_ifs at hr'
        · cases hr'
        · exact h.opened q r' hr'
      · intro q tx htx
        rw [ended_setEnded] at htx
        split_ifs at htx
        · obtain rfl := Option.some.inj htx
          exact h.increasing hsub
        · exact h.ended q tx htx
      · intro q tx htx
        by_cases hq : q = p
        · subst hq
          rw [substream_of_ended (by simp [Multiplex.setFeed, Multiplex.setEnded, Feed.new]),
            ended_setEnded, if_pos rfl] at htx
          exact ⟨r.tx, hsub, fun x hx => Option.some.inj htx ▸ hx⟩
        · rw [substream_setEnded hq, substream_setFeed hq] at htx
          exact ⟨tx, htx, fun _ => id⟩
  | @subscribe p provider hidle hp =>
      refine ⟨?_, ?_, h.ended, ?_, ?_⟩
      · intro q
        show ((m.setFeed p (m.feed p).join).feed q).Ordered
        rw [feed_setFeed]
        split_ifs
        · exact Feed.ordered_join (h.feed p)
        · exact h.feed q
      · intro q r hr
        change ((m.setFeed p (m.feed p).join).feed q).solo.2 = some r at hr
        rw [feed_setFeed] at hr
        split_ifs at hr
        · obtain rfl := Option.some.inj hr
          show (FanOut.joined _ _).isOpen = true
          unfold FanOut.joined
          cases (m.feed p).solo.1 with
          | none => rfl
          | some ev => exact Channel.isOpen_offer _ _
        · exact h.opened q r hr
      · intro g hg q n hgq
        have hle := h.epoch g hg q n hgq
        show n ≤ Function.update m.epoch p (m.epoch p + 1) q
        rw [Function.update_apply]
        split_ifs with hq
        · subst hq
          omega
        · exact hle
      · intro g hg q hgq tx htx
        change g.origin = some (q, Function.update m.epoch p (m.epoch p + 1) q) at hgq
        rw [Function.update_apply] at hgq
        split_ifs at hgq with hq
        · -- nothing is handed in yet of the new subscription
          subst hq
          have hle := h.epoch g hg q _ hgq
          omega
        · change (m.setFeed p (m.feed p).join).substream q = some tx at htx
          rw [substream_setFeed hq] at htx
          exact h.taken g hg q hgq tx htx
  | unsubscribe hidle hp => exact h.giveUp _ _ _
  | @receive p ev queue r hidle hr hqueue hopen =>
      have htx : (Channel.accepted { r.tx with queue, taken := r.tx.taken ++ [ev] }) =
          r.tx.accepted := by
        simp [Channel.accepted, hqueue]
      refine Traced.route (h.setFeed ((h.feed p).setQueue hr htx) ?_ ?_) ?_
      · intro r' hr'
        obtain rfl := Option.some.inj hr'
        exact hopen
      · intro tx' htx'
        rw [substream_of_referrer (by simp [Multiplex.setFeed]; rfl)] at htx'
        obtain rfl := Option.some.inj htx'
        exact ⟨r.tx, substream_of_referrer hr, fun x hx => List.mem_append_left _ hx⟩
      · intro tx' htx'
        rw [substream_of_referrer (by simp [Multiplex.setFeed]; rfl)] at htx'
        obtain rfl := Option.some.inj htx'
        simp
  | @receiveEnded p ev queue tx hidle hr htx hqueue hopen =>
      have hinc := h.ended p tx htx
      refine Traced.route (h.setEnded ?_ ?_) ?_
      · intro t ht
        obtain rfl := Option.some.inj ht
        simpa [Channel.accepted, hqueue] using hinc
      · intro tx' htx'
        rw [substream_of_ended (by simpa [Multiplex.setEnded] using hr), ended_setEnded,
          if_pos rfl] at htx'
        obtain rfl := Option.some.inj htx'
        exact ⟨tx, (substream_of_ended hr).trans htx, fun x hx => List.mem_append_left _ hx⟩
      · intro tx' htx'
        rw [substream_of_ended (by simpa [Multiplex.setEnded] using hr), ended_setEnded,
          if_pos rfl] at htx'
        obtain rfl := Option.some.inj htx'
        simp
  | substreamEnd hidle htx hqueue hp => exact h.giveUp _ _ _
  | @close now hidle =>
      have hhand : (m.hand none (clientClosing now, "")).Traced :=
        h.hand (fun _ _ h => by cases h)
      exact ⟨hhand.feed, hhand.opened, hhand.ended, hhand.epoch, hhand.taken⟩
  | sink hdeliver ho => exact ⟨h.feed, h.opened, h.ended, h.epoch, h.taken⟩

theorem Traced.init (ringCapacity : Nat) : (init ringCapacity).Traced where
  feed _ := Feed.ordered_new
  opened p r hr := by cases hr
  ended p tx htx := by cases htx
  epoch g hg := by cases hg
  taken g hg := by cases hg

/-! ### The order of one instrument -/

/-- The next event of a substream comes after all that was handed in of its instrument
from other subscriptions: of another kind, or an earlier one of the pair. -/
def Fresh (m : Multiplex) : MultiplexAction → Prop
  | .receive p => ∀ tx ∈ m.substream p, ∀ ev ∈ tx.queue.head?, ∀ g ∈ m.handed,
      g.origin ≠ some (p, m.epoch p) → g.item.1.Precedes ev
  | _ => True

instance (m : Multiplex) : DecidablePred (Fresh m)
  | .receive p => inferInstanceAs (Decidable (∀ tx ∈ m.substream p, _))
  | .forward .. | .renew .. | .subscribe .. | .unsubscribe .. | .substreamEnd .. | .close ..
  | .sink .. => .isTrue trivial

/-- The events of each instrument are handed in in the order of their `seq`s. -/
def InOrder (xs : List (MarketEvent × String)) : Prop :=
  xs.Pairwise fun x y => x.1.Precedes y.1

theorem inOrder_append_singleton {xs : List (MarketEvent × String)} {y : MarketEvent × String}
    (h : InOrder xs) (hy : ∀ x ∈ xs, x.1.Precedes y.1) : InOrder (xs ++ [y]) := by
  refine List.pairwise_append.mpr ⟨h, List.pairwise_singleton _ _, ?_⟩
  intro x hx z hz
  obtain rfl := List.mem_singleton.mp hz
  exact hy x hx

/-- A control of the client's own has no place in any order. -/
theorem not_orderedFor_synthetic {ev : MarketEvent} (h : ev.seq = Seq.synthetic)
    (i : Instrument) : ¬ ev.OrderedFor i := fun hev => hev.2 h

theorem inOrder_step {a : MultiplexAction} (h : InOrder m.items) (htraced : m.Traced)
    (hfresh : Fresh m a) (hstep : m.step a = some m') : InOrder m'.items := by
  have hroute : ∀ (t : Multiplex) (p : Pair) (ev : MarketEvent) (tx : Channel MarketEvent),
      a = .receive p → m.substream p = some tx → tx.queue.head? = some ev →
      t.handed = m.handed → InOrder (t.route p ev).items := by
    intro t p ev tx ha htx hev hhanded
    have hitems : t.items = m.items := by rw [items, items, hhanded]
    rcases items_route (m := t) p ev with ⟨hi, -⟩ | ⟨x, rfl, hi, -⟩
    · rw [hi, hitems]
      exact h
    · rw [hi, hitems]
      refine inOrder_append_singleton h ?_
      intro y hy i hi hyi hxi
      obtain ⟨g, hg, rfl⟩ := List.mem_map.mp hy
      subst ha
      -- of the same subscription it was stamped before, of another it is fresh
      by_cases hown : g.origin = some (p, m.epoch p)
      · exact htraced.taken_lt htx hev (htraced.taken g hg p hown tx htx)
      · exact hfresh tx htx x.1 hev g hg hown i hi hyi hxi
  have hlocal : ∀ (t : Multiplex) (x : MarketEvent × String), x.1.seq = Seq.synthetic →
      t.items = m.items ++ [x] → InOrder t.items := by
    intro t x hx hi
    rw [hi]
    refine inOrder_append_singleton h ?_
    intro y _ i _ _ hxi
    exact absurd hxi (not_orderedFor_synthetic hx i)
  cases step_cases hstep with
  | forward | renewIdle | renew | subscribe => exact h
  | unsubscribe hidle | substreamEnd hidle =>
      exact hlocal _ _ rfl (items_hand _ _ _)
  | receive hidle hr hqueue =>
      exact hroute _ _ _ _ rfl (substream_of_referrer hr) (by simp [hqueue]) rfl
  | receiveEnded hidle hr htx hqueue =>
      exact hroute _ _ _ _ rfl ((substream_of_ended hr).trans htx) (by simp [hqueue]) rfl
  | close hidle => exact hlocal _ _ rfl (items_hand _ _ _)
  | sink hnot ho => exact h

/-- In the line of what was handed in in order, so are events and gaps. -/
theorem seq_lt_of_before {handed : List (MarketEvent × String)} {line : List Entry}
    {lost : List Nat} (hline : Line handed line lost) (h : InOrder handed) {i : Instrument}
    {e f : Entry} (he : e ∈ line) (hf : f ∈ line) (hbefore : e.Before f)
    (hei : e.event.1.OrderedFor i) (hfi : f.event.1.OrderedFor i) :
    e.event.1.seq < f.event.1.seq := by
  -- an entry has the `seq` and the instrument of the event of its number
  have hsource : ∀ e ∈ line, e.event.1.OrderedFor i → ∃ x, handed[e.idx]? = some x ∧
      x.1.OrderedFor i ∧ x.1.seq = e.event.1.seq := by
    intro e he hi
    cases e with
    | original n x => exact ⟨x, hline.original n x he, hi, rfl⟩
    | eviction n g =>
        obtain ⟨-, x, c, hx, hc, hseq, hinst⟩ := hline.eviction n g he
        refine ⟨x, hx, ⟨?_, ?_⟩, hseq⟩
        · rw [subject_of_ringCoords hc, hinst]
          exact hi.1
        · rw [hseq]
          exact hi.2
  obtain ⟨x, hx, hxi, hxs⟩ := hsource e he hei
  obtain ⟨y, hy, hyi, hys⟩ := hsource f hf hfi
  have hidx : e.idx < f.idx := by
    cases e with
    | original n x => exact hbefore.original_lt
    | eviction n g =>
        cases f with
        | original k x => exact hbefore.idx_lt_of_original
        | eviction k k' =>
            refine hbefore ?_
            exact Option.some.inj (hei.1.trans hfi.1.symm)
  rw [← hxs, ← hys]
  obtain ⟨hn, rfl⟩ := List.getElem?_eq_some_iff.mp hx
  obtain ⟨hm, rfl⟩ := List.getElem?_eq_some_iff.mp hy
  exact List.pairwise_iff_getElem.mp h _ _ hn hm hidx i hxi.1 hxi hyi

end Multiplex

theorem ClientOutput.received_sublist (o : ClientOutput) : o.received.Sublist o.accepted := by
  unfold received accepted
  induction o.streams with
  | nil => exact .refl _
  | cons c cs ih =>
      rw [List.flatMap_cons, List.flatMap_cons]
      exact c.taken_initial.sublist.append ih

namespace Multiplex

/-- In every run in which each event comes after those of its instrument that other
subscriptions have handed in, the consumer receives the events of each instrument in the
order of their `seq`s. -/
theorem received_inOrder_of_fresh {ringCapacity : Nat} {as : List MultiplexAction} {m : Multiplex}
    (hfresh : Meets step Fresh (init ringCapacity) as)
    (h : run step (init ringCapacity) as = some m) (i : Instrument) :
    ((m.client.output.received.filter fun ev => ev.OrderedFor i).map MarketEvent.seq).Pairwise
      (· < ·) := by
  have hinv : m.Traced ∧ InOrder m.items := by
    refine invariant_of_meets (P := fun m => m.Traced ∧ InOrder m.items) ?_ ?_ hfresh h
    · intro m a m' hP hok hstep
      exact ⟨hP.1.step hstep, inOrder_step hP.2 hP.1 hok hstep⟩
    · exact ⟨.init ringCapacity, .nil⟩
  obtain ⟨acc, drops, buf, todo, lost, hledger⟩ := ledger_of_run h
  have haccepted : ((m.client.output.accepted.filter fun ev => ev.OrderedFor i).map
      MarketEvent.seq).Pairwise (· < ·) := by
    rw [hledger.accepted, List.filter_map, List.map_map, List.pairwise_map,
      List.pairwise_filter]
    have hacc := (List.pairwise_append.mp
      (List.pairwise_append.mp hledger.line.ordered).1).1
    refine List.Pairwise.imp_of_mem ?_ hacc
    intro e f he hf hbefore hei hfi
    refine seq_lt_of_before hledger.line hinv.2 (by simp [he]) (by simp [hf]) hbefore
      (i := i) ?_ ?_
    · simpa using hei
    · simpa using hfi
  exact haccepted.sublist ((m.client.output.received_sublist.filter _).map _)

/-- Two kinds of one instrument. -/
def aaplTrades : Pair := (⟨"p", .equity, "AAPL"⟩, .trade)
def aaplQuotes : Pair := (⟨"p", .equity, "AAPL"⟩, .quote)

def testQuote (ts : Timestamp) (seq : Seq) : MarketEvent :=
  .quote ⟨⟨"p", .equity, "AAPL"⟩, ts, ts, seq, ⟨1⟩, ⟨1⟩, ⟨2⟩, ⟨1⟩⟩

/-- Both subscribed and the stream taken, a trade and then a quote go through to the
consumer; `quotes` quotes are stamped before the client joins them. -/
def bothKinds (quotes : Nat) : List MultiplexAction :=
  List.replicate quotes (.forward aaplQuotes (testQuote 50 ⟨0⟩)) ++
  [.subscribe aaplTrades "p", .subscribe aaplQuotes "p", .sink (.take []),
    .forward aaplTrades (testTrade "AAPL" 100 ⟨0⟩), .receive aaplTrades, .sink .proceed,
    .forward aaplQuotes (testQuote 200 ⟨0⟩), .receive aaplQuotes, .sink .proceed,
    .sink .consume, .sink .consume]

/-- One quote went before, so the trade has `seq` 0 and the quote 1. -/
theorem received_inOrder_of_fresh_bothKinds : ∃ m, run step (init 16) (bothKinds 1) = some m ∧
    m.client.output.received = [testTrade "AAPL" 100 ⟨0⟩, testQuote 200 ⟨1⟩] ∧
    ((m.client.output.received.filter fun ev => ev.OrderedFor ⟨"p", .equity, "AAPL"⟩).map
      MarketEvent.seq).Pairwise (· < ·) := by
  have hstate : ∃ m, run step (init 16) (bothKinds 1) = some m ∧
      m.client.output.received = [testTrade "AAPL" 100 ⟨0⟩, testQuote 200 ⟨1⟩] := ⟨_, rfl, rfl⟩
  obtain ⟨m, hrun, hreceived⟩ := hstate
  exact ⟨m, hrun, hreceived, received_inOrder_of_fresh (by decide) hrun _⟩

/-- Each kind has a counter of its own: the trade and the quote both have `seq` 0. -/
theorem not_inOrder_bothKinds : ∃ m, run step (init 16) (bothKinds 0) = some m ∧
    m.client.output.received = [testTrade "AAPL" 100 ⟨0⟩, testQuote 200 ⟨0⟩] ∧
    ¬ ((m.client.output.received.filter fun ev => ev.OrderedFor ⟨"p", .equity, "AAPL"⟩).map
      MarketEvent.seq).Pairwise (· < ·) := by
  refine ⟨_, rfl, rfl, ?_⟩
  decide

end Multiplex

end Datamancer
