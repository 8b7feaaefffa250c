import Datamancer.Lib.ActionSystem
import Datamancer.Storage.TapWriter

/-!
# Datamancer.Storage.TapRefinement

The tap log as an append-only list. In any run of appends, flushes, failing statements, crashes
and reopenings the database holds some of the appended events, each as it was appended and all
in the order of the appends (`World.Persists`), and what it holds later goes on from what it
holds now (`tap_log`). An event is among them once a flush behind it has returned Ok, unless
another flush between the two has reported a failure: a flush reports what is lost once.
-/

namespace Datamancer

namespace TapLog

/-! ### What is persisted -/

/-- No ordinal is used twice, in one shard or in two. -/
def TapDb.OrdsUnique (db : TapDb) : Prop :=
  ∀ shard ∈ db.shards.rows, ∀ shard' ∈ db.shards.rows, ∀ r ∈ shard.rows.rows,
    ∀ r' ∈ shard'.rows.rows, r.ord = r'.ord → shard = shard' ∧ r = r'

/-- The persisted counter is above all ordinals in use. -/
def TapDb.OrdsCounted (db : TapDb) : Prop :=
  ∀ shard ∈ db.shards.rows, ∀ r ∈ shard.rows.rows,
    ∃ m, db.metaRow = some m ∧ r.ord.toUInt64 < m.2.toUInt64

/-- A flush of the lifetime behind the event has returned an error. -/
def Reported (acks : List Ack) (life index : Nat) : Prop :=
  ∃ a ∈ acks, a.life = life ∧ a.res ≠ .ok () ∧ index < a.upto

/-- A flush that has returned Ok has made durable what its lifetime had appended, as far as
no flush before it has reported a failure. -/
def Acked (appended : List Appended) (acks : List Ack) (persisted : List Nat) : Prop :=
  ∀ before a after, acks = before ++ a :: after → a.res = .ok () →
    ∀ i ev, i < a.upto → appended[i]? = some ⟨a.life, ev⟩ → ev.routeKey.isSome →
      Reported before a.life i ∨ i ∈ persisted

/-- What is durable is the appended events of these indices. -/
structure World.Persists (w : World) (persisted : List Nat) : Prop where
  ordered : persisted.Pairwise (· < ·)
  data : ∀ i ∈ persisted, ∃ a, w.appended[i]? = some a ∧ a.ev.routeKey.isSome
  replayed : ∀ request, w.persistedDb.replay request
    = .ok ((persisted.filterMap fun i => w.appended[i]?.map Appended.ev).filter (selects request))
  acked : Acked w.appended w.acks persisted
  unique : w.persistedDb.OrdsUnique
  counted : w.persistedDb.OrdsCounted

/-! ### Flushes -/

variable {appended : List Appended} {acks : List Ack} {persisted persisted' : List Nat}
  {life i : Nat}

theorem Reported.mono (h : Reported acks life i) (acks' : List Ack) :
    Reported (acks ++ acks') life i := by
  obtain ⟨a, ha, hrest⟩ := h
  exact ⟨a, List.mem_append_left _ ha, hrest⟩

theorem Acked.append (h : Acked appended acks persisted)
    (hupto : ∀ a ∈ acks, a.upto ≤ appended.length) (new : List Appended) :
    Acked (appended ++ new) acks persisted := by
  intro before a after hacks hres i ev hi hev hdata
  have hle : a.upto ≤ appended.length := hupto a (by simp [hacks])
  rw [List.getElem?_append_left (by omega)] at hev
  exact h before a after hacks hres i ev hi hev hdata

/-- What is durable stays. -/
theorem Acked.mono (h : Acked appended acks persisted) (hsub : persisted ⊆ persisted') :
    Acked appended acks persisted' := by
  intro before a after hacks hres i ev hi hev hdata
  exact (h before a after hacks hres i ev hi hev hdata).imp_right fun hmem => hsub hmem

/-- The next flush returns. -/
theorem Acked.snoc (h : Acked appended acks persisted) {a : Ack}
    (hlast : a.res = .ok () → ∀ i ev, i < a.upto → appended[i]? = some ⟨a.life, ev⟩ →
      ev.routeKey.isSome → Reported acks a.life i ∨ i ∈ persisted) :
    Acked appended (acks ++ [a]) persisted := by
  intro before b after hacks
  rcases List.eq_nil_or_concat after with rfl | ⟨after, c, rfl⟩
  · obtain ⟨rfl, hab⟩ := List.append_inj' hacks rfl
    obtain rfl := (List.cons.inj hab).1
    exact hlast
  · have hsplit : acks ++ [a] = (before ++ b :: after) ++ [c] := by
      rw [hacks, List.append_assoc, List.cons_append, List.concat_eq_append]
    obtain ⟨rfl, -⟩ := List.append_inj' hsplit rfl
    exact h before b after rfl

/-! ### The queue -/

/-- The queue holds what has been appended and not handled, and each flush is where it was
called. -/
def Queued (appended : List Appended) (life : Nat) : Nat → List WriteCmd → Prop
  | handled, [] => handled = appended.length
  | handled, .event index ev :: queue => index = handled ∧ appended[handled]? = some ⟨life, ev⟩
      ∧ Queued appended life (handled + 1) queue
  | handled, .flush upto :: queue => upto = handled ∧ Queued appended life handled queue

variable {handled : Nat} {queue : List WriteCmd}

theorem Queued.le_length (h : Queued appended life handled queue) : handled ≤ appended.length := by
  induction queue generalizing handled with
  | nil => exact Nat.le_of_eq h
  | cons cmd queue ih =>
      cases cmd with
      | event index ev =>
          have hnext := ih h.2.2
          omega
      | flush upto => exact ih h.2

theorem Queued.event (h : Queued appended life handled queue) (ev : MarketEvent) :
    Queued (appended ++ [⟨life, ev⟩]) life handled
      (queue ++ [.event appended.length ev]) := by
  induction queue generalizing handled with
  | nil =>
      obtain rfl : handled = appended.length := h
      exact ⟨rfl, List.getElem?_concat_length, by simp [Queued]⟩
  | cons cmd queue ih =>
      cases cmd with
      | event index ev' =>
          obtain ⟨hindex, hev, hrest⟩ := h
          obtain ⟨hlt, -⟩ := List.getElem?_eq_some_iff.mp hev
          exact ⟨hindex, (List.getElem?_append_left hlt).trans hev, ih hrest⟩
      | flush upto => exact ⟨h.1, ih h.2⟩

theorem Queued.flush (h : Queued appended life handled queue) :
    Queued appended life handled (queue ++ [.flush appended.length]) := by
  induction queue generalizing handled with
  | nil =>
      obtain rfl : handled = appended.length := h
      exact ⟨rfl, rfl⟩
  | cons cmd queue ih =>
      cases cmd with
      | event index ev => exact ⟨h.1, h.2.1, ih h.2.2⟩
      | flush upto => exact ⟨h.1, ih h.2⟩

/-! ### The written events -/

/-- Written events are appended ones, in the order of the appends, out of the first so many. -/
structure Traced (appended : List Appended) (recs : List Record) (handled : Nat) : Prop where
  source : ∀ r ∈ recs, ∃ life, appended[r.index]? = some ⟨life, r.ev⟩
  data : ∀ r ∈ recs, r.ev.routeKey.isSome
  below : ∀ r ∈ recs, r.index < handled
  sorted : recs.Pairwise fun a b => a.index < b.index

variable {recs recs' : List Record}

theorem Traced.sublist (h : Traced appended recs handled) (hsub : recs'.Sublist recs) :
    Traced appended recs' handled :=
  ⟨fun r hr => h.source r (hsub.subset hr), fun r hr => h.data r (hsub.subset hr),
    fun r hr => h.below r (hsub.subset hr), h.sorted.sublist hsub⟩

theorem Traced.mono (h : Traced appended recs handled) {handled' : Nat} (hle : handled ≤ handled') :
    Traced appended recs handled' :=
  ⟨h.source, h.data, fun r hr => Nat.lt_of_lt_of_le (h.below r hr) hle, h.sorted⟩

theorem Traced.append (h : Traced appended recs handled) (new : List Appended) :
    Traced (appended ++ new) recs handled := by
  refine ⟨fun r hr => ?_, h.data, h.below, h.sorted⟩
  obtain ⟨life, hev⟩ := h.source r hr
  obtain ⟨hlt, -⟩ := List.getElem?_eq_some_iff.mp hev
  exact ⟨life, (List.getElem?_append_left hlt).trans hev⟩

/-- The next event is written after all others. -/
theorem Traced.add (h : Traced appended recs handled) {ev : MarketEvent} (ord : UInt64)
    (hev : appended[handled]? = some ⟨life, ev⟩) (hdata : ev.routeKey.isSome) :
    Traced appended (recs ++ [⟨ord, handled, ev⟩]) (handled + 1) := by
  refine ⟨?_, ?_, ?_, List.pairwise_append.mpr ⟨h.sorted, List.pairwise_singleton _ _, ?_⟩⟩
  · intro r hr
    rcases List.mem_append.mp hr with hr | hr
    · exact h.source r hr
    · exact ⟨life, List.mem_singleton.mp hr ▸ hev⟩
  · intro r hr
    rcases List.mem_append.mp hr with hr | hr
    · exact h.data r hr
    · exact List.mem_singleton.mp hr ▸ hdata
  · intro r hr
    rcases List.mem_append.mp hr with hr | hr
    · exact Nat.lt_succ_of_lt (h.below r hr)
    · exact List.mem_singleton.mp hr ▸ Nat.lt_succ_self handled
  · intro a ha b hb
    exact List.mem_singleton.mp hb ▸ h.below a ha

/-- The events that were appended under the indices. -/
theorem Traced.filterMap_index (h : Traced appended recs handled) :
    (recs.map Record.index).filterMap (fun i => appended[i]?.map Appended.ev)
      = recs.map Record.ev := by
  rw [List.filterMap_map, ← List.filterMap_eq_map]
  refine List.filterMap_congr fun r hr => ?_
  obtain ⟨life, hev⟩ := h.source r hr
  simp [hev]

/-! ### The invariant -/

/-- An event of the lifetime that has been handled is written or reported, or it will be. -/
def Owed (appended : List Appended) (acks : List Ack) (life handled : Nat) (recs : List Record)
    (lastError : Option Error) : Prop :=
  ∀ i ev, i < handled → appended[i]? = some ⟨life, ev⟩ → ev.routeKey.isSome →
    Reported acks life i ∨ i ∈ recs.map Record.index ∨ lastError ≠ none

namespace World

/-- The process is up. -/
structure Up (w : World) (writer : Writer) (kept pending : List Record) (handled : Nat) : Prop where
  inv : writer.Inv kept pending
  traced : Traced w.appended (kept ++ pending) handled
  queued : Queued w.appended w.life handled w.queue
  ord_le : writer.nextOrd.toNat ≤ handled
  shard_le : writer.nextShard.toNat ≤ handled
  owed : Owed w.appended w.acks w.life handled (kept ++ pending) writer.lastError

/-- The process is down. -/
structure Down (w : World) (kept : List Record) : Prop where
  queue : w.queue = []
  keeps : w.db.Keeps (kept.map Record.entry) w.appended.length
  counted : ∀ r ∈ kept, r.ord < w.db.nextOrd
  traced : Traced w.appended kept w.appended.length
  ord_le : w.db.nextOrd.toNat ≤ w.appended.length
  shard_le : w.db.nextShard.toNat ≤ w.appended.length

structure Inv (w : World) (kept : List Record) : Prop where
  up : ∀ writer, w.writer = some writer → ∃ pending handled, w.Up writer kept pending handled
  down : w.writer = none → w.Down kept
  acked : Acked w.appended w.acks (kept.map Record.index)
  lives : ∀ a ∈ w.appended, a.life ≤ w.life
  uptos : ∀ a ∈ w.acks, a.upto ≤ w.appended.length

variable {w w' : World} {writer : Writer} {kept pending : List Record}

theorem inv_init : init.Inv [] := by
  refine ⟨fun writer hwriter => ⟨[], 0, ?_⟩, fun h => (by cases h), ?_, fun a ha => ?_,
    fun a ha => ?_⟩
  · obtain rfl := Option.some.inj hwriter
    have hcounted : ∀ r ∈ ([] : List Record), r.ord < TapDb.fresh.nextOrd :=
      fun r hr => absurd hr List.not_mem_nil
    obtain ⟨hinv, hshard⟩ :=
      Writer.inv_open (by decide) TapDb.keeps_fresh hcounted (Nat.le_refl _)
    refine ⟨hinv, ⟨?_, ?_, ?_, List.Pairwise.nil⟩, rfl, Nat.le_refl _, hshard, ?_⟩
    · exact fun r hr => absurd hr List.not_mem_nil
    · exact fun r hr => absurd hr List.not_mem_nil
    · exact fun r hr => absurd hr List.not_mem_nil
    · exact fun i ev hi => absurd hi (Nat.not_lt_zero i)
  · intro before a after hacks
    exact absurd (congrArg List.length hacks) (by simp [init])
  · cases ha
  · cases ha

/-- Nothing has been appended in a lifetime to come. -/
theorem Inv.not_appended (h : w.Inv kept) {life i : Nat} {ev : MarketEvent} (hlt : w.life < life) :
    w.appended[i]? ≠ some ⟨life, ev⟩ := by
  intro hev
  have := h.lives _ (List.mem_of_getElem? hev)
  exact absurd hlt (Nat.not_lt.mpr this)

/-! ### Steps -/

/-- The writer has done its part of a command. -/
theorem Up.outcome {handled ords names : Nat} {pending' kept' new : List Record}
    {out : Writer × Except Error Unit} {queue : List WriteCmd} {handled' : Nat}
    (h : w.Up writer kept pending handled)
    (hout : Writer.Outcome writer kept pending new ords names out kept' pending')
    (htraced : Traced w.appended (kept ++ pending ++ new) handled')
    (hqueued : Queued w.appended w.life handled' queue)
    (hords : handled + ords ≤ handled') (hnames : handled + names ≤ handled')
    (hnew : ∀ i ev, handled ≤ i → i < handled' → w.appended[i]? = some ⟨w.life, ev⟩ →
      ev.routeKey.isSome → i ∈ new.map Record.index) :
    Up { w with writer := some (out.1.remember out.2), queue } (out.1.remember out.2) kept' pending'
      handled' := by
  have hord := h.ord_le
  have hord' := hout.ord_le
  have hshard := h.shard_le
  have hshard' := hout.shard_le
  refine ⟨hout.inv.remember out.2, htraced.sublist hout.sub, hqueued, ?_, ?_, ?_⟩
  · rw [Writer.remember_nextOrd]
    omega
  · rw [Writer.remember_nextShard]
    omega
  · intro i ev hi hev hdata
    by_cases hold : i < handled
    · refine (h.owed i ev hold hev hdata).imp_right fun hcarry => hout.carried ?_
      exact hcarry.imp_left fun hmem => by
        rw [List.map_append]
        exact List.mem_append_left _ hmem
    · refine .inr (hout.carried (.inl ?_))
      rw [List.map_append]
      exact List.mem_append_right _ (hnew i ev (Nat.le_of_not_lt hold) hi hev hdata)

/-- An append is queued. -/
theorem Inv.append (h : w.Inv kept) (hwriter : w.writer = some writer) (ev : MarketEvent) :
    Inv { w with
      queue := w.queue ++ [.event w.appended.length ev]
      appended := w.appended ++ [⟨w.life, ev⟩] } kept := by
  obtain ⟨pending, handled, hup⟩ := h.up writer hwriter
  have hle := hup.queued.le_length
  refine ⟨fun writer' hwriter' => ⟨pending, handled, ?_⟩, fun hdown => ?_,
    h.acked.append h.uptos _, fun a ha => ?_, fun a ha => ?_⟩
  · obtain rfl := Option.some.inj (hwriter.symm.trans hwriter')
    refine ⟨hup.inv, hup.traced.append _, hup.queued.event ev, hup.ord_le, hup.shard_le, ?_⟩
    intro i ev' hi hev hdata
    rw [List.getElem?_append_left (by omega)] at hev
    exact hup.owed i ev' hi hev hdata
  · exact absurd (hwriter.symm.trans hdown) (by simp)
  · rcases List.mem_append.mp ha with ha | ha
    · exact h.lives a ha
    · rw [List.mem_singleton.mp ha]
  · have := h.uptos a ha
    rw [List.length_append]
    omega

/-- So is a flush. -/
theorem Inv.flush (h : w.Inv kept) (hwriter : w.writer = some writer) :
    Inv { w with queue := w.queue ++ [.flush w.appended.length] } kept := by
  obtain ⟨pending, handled, hup⟩ := h.up writer hwriter
  refine ⟨fun writer' hwriter' => ⟨pending, handled, ?_⟩, fun hdown => ?_, h.acked, h.lives,
    h.uptos⟩
  · obtain rfl := Option.some.inj (hwriter.symm.trans hwriter')
    exact ⟨hup.inv, hup.traced, hup.queued.flush, hup.ord_le, hup.shard_le, hup.owed⟩
  · exact absurd (hwriter.symm.trans hdown) (by simp)

/-- The writer has done its part, and what is durable is more than before. -/
theorem Inv.of_up {writer' : Writer} {kept' pending' : List Record} {handled' : Nat}
    {queue : List WriteCmd} (h : w.Inv kept) (hdurable : kept <+: kept')
    (hup : Up { w with writer := some writer', queue } writer' kept' pending' handled') :
    Inv { w with writer := some writer', queue } kept' := by
  refine ⟨fun writer'' hwriter => ⟨pending', handled', ?_⟩, fun hdown => (by cases hdown),
    h.acked.mono ((hdurable.map _).subset), h.lives, h.uptos⟩
  obtain rfl := Option.some.inj hwriter
  exact hup

/-- The writer handles an event. -/
theorem Inv.handleEvent (h : w.Inv kept) (hlen : w.appended.length < 2 ^ 64)
    (hwriter : w.writer = some writer) {index : Nat} {ev : MarketEvent} {queue : List WriteCmd}
    (hqueue : w.queue = .event index ev :: queue) (faults : Faults) :
    ∃ kept', Inv { w with
      writer := some ((writer.writeEvent faults ev).1.remember (writer.writeEvent faults ev).2)
      queue } kept' ∧ kept <+: kept' := by
  obtain ⟨pending, handled, hup⟩ := h.up writer hwriter
  have hqueued := hup.queued
  rw [hqueue] at hqueued
  obtain ⟨rfl, hev, hrest⟩ := hqueued
  have hle := hrest.le_length
  have hord := hup.ord_le
  have hshard := hup.shard_le
  cases hroute : ev.routeKey with
  | none =>
      -- it is not tapped
      have hskip : writer.writeEvent faults ev = (writer, .ok ()) := by
        simp only [Writer.writeEvent, hroute]
      have hsame : Writer.Outcome writer kept pending [] 0 0 (writer, .ok ()) kept pending :=
        hup.inv.outcome_same rfl (Nat.le_refl _) (Nat.le_refl _)
      rw [hskip]
      refine ⟨kept, h.of_up (List.prefix_refl _) (hup.outcome hsame ?_ hrest (by omega) (by omega)
        ?_), List.prefix_refl _⟩
      · simpa using hup.traced.mono (Nat.le_succ _)
      · intro i ev' hge hlt hev' hdata
        obtain rfl : i = index := by omega
        cases hev.symm.trans hev'
        rw [hroute] at hdata
        cases hdata
  | some route =>
      obtain ⟨ord, kept', pending', hout⟩ :=
        hup.inv.writeEvent (by omega) (by omega) index hroute faults
      have htraced := hup.traced.add ord hev (by simp [hroute])
      refine ⟨kept', h.of_up hout.durable (hup.outcome hout htraced hrest (Nat.le_refl _)
        (Nat.le_refl _) ?_), hout.durable⟩
      intro i ev' hge hlt _ _
      obtain rfl : i = index := by omega
      simp

/-- The writer commits what is open. -/
theorem Inv.settle (h : w.Inv kept) (hwriter : w.writer = some writer) (faults : Faults) :
    ∃ kept', Inv { w with
      writer := some ((writer.commitIfOpen faults).1.remember (writer.commitIfOpen faults).2)
      queue := w.queue } kept' ∧ kept <+: kept' := by
  obtain ⟨pending, handled, hup⟩ := h.up writer hwriter
  obtain ⟨kept', hout, -⟩ := hup.inv.commitIfOpen faults
  refine ⟨kept', h.of_up hout.durable (hup.outcome hout ?_ hup.queued (Nat.le_refl _)
    (Nat.le_refl _) ?_), hout.durable⟩
  · simpa using hup.traced
  · intro i ev hge hlt
    omega

/-- A flush returns. -/
theorem Inv.handleFlush (h : w.Inv kept) (hwriter : w.writer = some writer) {upto : Nat}
    {queue : List WriteCmd} (hqueue : w.queue = .flush upto :: queue) (faults : Faults) :
    ∃ kept', Inv { w with
      writer := some (writer.flush faults).1, queue
      acks := w.acks ++ [⟨w.life, upto, (writer.flush faults).2⟩] } kept' ∧ kept <+: kept' := by
  obtain ⟨pending, handled, hup⟩ := h.up writer hwriter
  have hqueued := hup.queued
  rw [hqueue] at hqueued
  obtain ⟨rfl, hrest⟩ := hqueued
  obtain ⟨kept', hinv, hdurable, hsub, herror, hord, hshard, hdone⟩ := hup.inv.flush faults
  have hkept : kept.map Record.index ⊆ kept'.map Record.index := (hdurable.map _).subset
  -- what it says Ok of is durable
  have hok : (writer.flush faults).2 = .ok () → ∀ i ev, i < upto →
      w.appended[i]? = some ⟨w.life, ev⟩ → ev.routeKey.isSome →
        Reported w.acks w.life i ∨ i ∈ kept'.map Record.index := by
    intro hres i ev hi hev hdata
    obtain ⟨hall, hnone⟩ := hdone hres
    rw [hall]
    rcases hup.owed i ev hi hev hdata with hreported | hmem | hne
    · exact .inl hreported
    · exact .inr hmem
    · exact absurd hnone hne
  refine ⟨kept', ⟨fun writer' hwriter' => ⟨[], upto, ?_⟩, fun hdown => (by cases hdown),
    (h.acked.mono hkept).snoc hok, h.lives, fun a ha => ?_⟩, hdurable⟩
  · obtain rfl := Option.some.inj hwriter'
    refine ⟨hinv, ?_, hrest, hord.trans hup.ord_le, hshard.trans hup.shard_le, ?_⟩
    · rw [List.append_nil]
      exact hup.traced.sublist hsub
    · intro i ev hi hev hdata
      rw [List.append_nil]
      by_cases hres : (writer.flush faults).2 = .ok ()
      · rcases hok hres i ev hi hev hdata with hreported | hmem
        · exact .inl (hreported.mono _)
        · exact .inr (.inl hmem)
      · exact .inl ⟨_, List.mem_append_right _ List.mem_cons_self, rfl, hres, hi⟩
  · rcases List.mem_append.mp ha with ha | ha
    · exact h.uptos a ha
    · rw [List.mem_singleton.mp ha]
      exact hrest.le_length

/-- A crash leaves what is durable. -/
theorem Inv.crash (h : w.Inv kept) (hwriter : w.writer = some writer) :
    Inv { w with db := writer.conn.committed, writer := none, queue := [] } kept := by
  obtain ⟨pending, handled, hup⟩ := h.up writer hwriter
  have hle := hup.queued.le_length
  have hord := UInt64.le_iff_toNat_le.mp hup.inv.nextOrd_le
  have hshard := UInt64.le_iff_toNat_le.mp hup.inv.nextShard_le
  have hord' := hup.ord_le
  have hshard' := hup.shard_le
  refine ⟨fun writer' hwriter' => (by cases hwriter'),
    fun _ => ⟨rfl, ?_, hup.inv.counted, ?_, ?_, ?_⟩,
    h.acked, h.lives, h.uptos⟩
  · exact hup.inv.base.mono (hshard'.trans hle)
  · exact (hup.traced.sublist (List.sublist_append_left _ _)).mono hle
  · exact hord.trans (hord'.trans hle)
  · exact hshard.trans (hshard'.trans hle)

/-- The log is opened again. -/
theorem Inv.reopen (h : w.Inv kept) (hlen : w.appended.length < 2 ^ 64) (hdown : w.writer = none) :
    Inv { w with writer := some (.open w.db), life := w.life + 1 } kept := by
  have hd := h.down hdown
  obtain ⟨hinv, hshard⟩ := Writer.inv_open hlen hd.keeps hd.counted hd.shard_le
  refine ⟨fun writer hwriter => ⟨[], w.appended.length, ?_⟩, fun hdown' => (by cases hdown'),
    h.acked, fun a ha => Nat.le_succ_of_le (h.lives a ha), h.uptos⟩
  obtain rfl := Option.some.inj hwriter
  refine ⟨hinv, ?_, ?_, hd.ord_le, hshard, ?_⟩
  · rw [List.append_nil]
    exact hd.traced
  · exact hd.queue ▸ rfl
  · intro i ev hi hev
    exact absurd hev (h.not_appended (Nat.lt_succ_self _))

/-- Nothing appended is forgotten. -/
theorem length_le_of_step {a : Action} (h : step w a = some w') :
    w.appended.length ≤ w'.appended.length := by
  cases a with
  | append ev =>
      obtain ⟨writer, -, rfl⟩ := Option.map_eq_some_iff.mp h
      simp
  | flush =>
      obtain ⟨writer, -, rfl⟩ := Option.map_eq_some_iff.mp h
      exact Nat.le_refl _
  | handle faults =>
      simp only [step] at h
      split at h <;> cases h <;> exact Nat.le_refl _
  | settle faults =>
      simp only [step] at h
      split at h <;> cases h
      exact Nat.le_refl _
  | crash =>
      obtain ⟨writer, -, rfl⟩ := Option.map_eq_some_iff.mp h
      exact Nat.le_refl _
  | reopen =>
      simp only [step] at h
      split at h <;> cases h
      exact Nat.le_refl _

/-- What is durable only grows. -/
theorem Inv.step (h : w.Inv kept) (hlen : w.appended.length < 2 ^ 64) {a : Action}
    (hstep : step w a = some w') : ∃ kept', w'.Inv kept' ∧ kept <+: kept' := by
  cases a with
  | append ev =>
      obtain ⟨writer, hwriter, rfl⟩ := Option.map_eq_some_iff.mp hstep
      exact ⟨kept, h.append hwriter ev, List.prefix_refl _⟩
  | flush =>
      obtain ⟨writer, hwriter, rfl⟩ := Option.map_eq_some_iff.mp hstep
      exact ⟨kept, h.flush hwriter, List.prefix_refl _⟩
  | handle faults =>
      simp only [World.step] at hstep
      split at hstep
      · next hwriter hqueue =>
          cases hstep
          exact h.handleEvent hlen hwriter hqueue faults
      · next hwriter hqueue =>
          cases hstep
          exact h.handleFlush hwriter hqueue faults
      · cases hstep
  | settle faults =>
      simp only [World.step] at hstep
      split at hstep
      · next hwriter _ =>
          cases hstep
          exact h.settle hwriter faults
      · cases hstep
  | crash =>
      obtain ⟨writer, hwriter, rfl⟩ := Option.map_eq_some_iff.mp hstep
      exact ⟨kept, h.crash hwriter, List.prefix_refl _⟩
  | reopen =>
      simp only [World.step] at hstep
      split at hstep
      · next hdown =>
          cases hstep
          exact ⟨kept, h.reopen hlen hdown, List.prefix_refl _⟩
      · cases hstep

/-! ### Runs -/

theorem length_le_of_run {as : List Action} (h : ActionSystem.run step w as = some w') :
    w.appended.length ≤ w'.appended.length :=
  ActionSystem.invariant (P := fun v => w.appended.length ≤ v.appended.length)
    (fun hle hstep => hle.trans (length_le_of_step hstep)) (Nat.le_refl _) h

theorem Inv.run {as : List Action} (h : w.Inv kept)
    (hrun : ActionSystem.run World.step w as = some w') (hlen : w'.appended.length < 2 ^ 64) :
    ∃ kept', w'.Inv kept' ∧ kept <+: kept' := by
  induction as generalizing w kept with
  | nil =>
      obtain rfl := Option.some.inj hrun
      exact ⟨kept, h, List.prefix_refl _⟩
  | cons a as ih =>
      obtain ⟨v, hstep, hrest⟩ := Option.bind_eq_some_iff.mp hrun
      have hle := (length_le_of_step hstep).trans (length_le_of_run hrest)
      obtain ⟨kept', hv, hpre⟩ := h.step (Nat.lt_of_le_of_lt hle hlen) hstep
      obtain ⟨kept'', hw, hpre'⟩ := ih hv hrest
      exact ⟨kept'', hw, hpre.trans hpre'⟩

theorem persistedDb_up (h : w.writer = some writer) : w.persistedDb = writer.conn.committed := by
  rw [persistedDb, h, Option.elim_some]

theorem persistedDb_down (h : w.writer = none) : w.persistedDb = w.db := by
  rw [persistedDb, h, Option.elim_none]

/-- The database under the invariant, up or down. -/
theorem Inv.durable (h : w.Inv kept) :
    (∃ handed, w.persistedDb.Keeps (kept.map Record.entry) handed)
    ∧ (∀ r ∈ kept, r.ord < w.persistedDb.nextOrd)
    ∧ ∃ handled, Traced w.appended kept handled := by
  cases hwriter : w.writer with
  | none =>
      have hd := h.down hwriter
      rw [persistedDb_down hwriter]
      exact ⟨⟨_, hd.keeps⟩, hd.counted, _, hd.traced⟩
  | some writer =>
      obtain ⟨pending, handled, hup⟩ := h.up writer hwriter
      rw [persistedDb_up hwriter]
      exact ⟨⟨_, hup.inv.base⟩, hup.inv.counted, _,
        hup.traced.sublist (List.sublist_append_left _ _)⟩

/-- What the invariant says is durable is persisted. -/
theorem Inv.persists (h : w.Inv kept) : w.Persists (kept.map Record.index) := by
  obtain ⟨⟨handed, hkeeps⟩, hcounted, handled, htraced⟩ := h.durable
  refine ⟨List.pairwise_map.mpr htraced.sorted, ?_, fun request => ?_, h.acked, ?_, ?_⟩
  · intro i hi
    obtain ⟨r, hr, rfl⟩ := List.mem_map.mp hi
    obtain ⟨life, hev⟩ := htraced.source r hr
    exact ⟨_, hev, htraced.data r hr⟩
  · rw [TapDb.replay_eq hkeeps.wf hkeeps.contents, htraced.filterMap_index, List.map_map]
    rfl
  · intro shard hs shard' hs' r hr r' hr' hord
    exact TapDb.ord_unique hkeeps.wf hkeeps.contents hs hs' hr hr' hord
  · intro shard hs r hr
    obtain ⟨-, -, -, ev, -, -, -, hholds⟩ := hkeeps.wf.holds_of_row hs hr
    obtain ⟨rec, hrec, hentry⟩ := List.mem_map.mp ((hkeeps.contents.holds _).mp hholds)
    have hord : rec.ord = r.ord.toUInt64 := congrArg Prod.fst hentry
    have hlt : r.ord.toUInt64 < w.persistedDb.nextOrd := hord ▸ hcounted rec hrec
    cases hmeta : w.persistedDb.metaRow with
    | none =>
        rw [TapDb.nextOrd, hmeta] at hlt
        exact absurd hlt UInt64.not_lt_zero
    | some m =>
        rw [TapDb.nextOrd, hmeta] at hlt
        exact ⟨m, rfl, hlt⟩

/-- Over fewer than 2 ^ 64 appended events the tap log is an append-only list: what is
persisted in a state is as the list says, and what is later persisted goes on from there. -/
theorem tap_log {as bs : List Action} (h : ActionSystem.run step init as = some w)
    (h' : ActionSystem.run step w bs = some w') (hlen : w'.appended.length < 2 ^ 64) :
    ∃ persisted persisted',
      w.Persists persisted ∧ w'.Persists persisted' ∧ persisted <+: persisted' := by
  obtain ⟨kept, hw, -⟩ := inv_init.run h (Nat.lt_of_le_of_lt (length_le_of_run h') hlen)
  obtain ⟨kept', hw', hpre⟩ := hw.run h' hlen
  exact ⟨_, _, hw.persists, hw'.persists, hpre.map _⟩

def aTrade : MarketEvent := .trade
  { instrument := ⟨"alpaca", .equity, "AAPL"⟩, sourceTs := 1, rxTs := 1, seq := ⟨1⟩
    price := ⟨1⟩, size := ⟨1⟩ }

def everything : ReplayRequest := ⟨[], [], 0, 10⟩

def noFaults : Faults := fun _ => none

def commitFails : Faults := fun stmt => if stmt = .commit then some (.storage "disk full") else none

/-- An event is appended and flushed, the process crashes, and the log is opened again. -/
theorem tap_log_reopened : ∃ w w' persisted persisted',
    ActionSystem.run step init
      [.append aTrade, .handle noFaults, .flush, .handle noFaults] = some w
    ∧ ActionSystem.run step w [.crash, .reopen] = some w'
    ∧ w'.persistedDb.replay everything = .ok [aTrade]
    ∧ w.Persists persisted ∧ w'.Persists persisted' ∧ persisted <+: persisted' := by
  obtain ⟨w, h⟩ : ∃ w, ActionSystem.run step init
      [.append aTrade, .handle noFaults, .flush, .handle noFaults] = some w := ⟨_, rfl⟩
  obtain ⟨w', h', hreplay, hlen⟩ : ∃ w', ActionSystem.run step w [.crash, .reopen] = some w'
      ∧ w'.persistedDb.replay everything = .ok [aTrade] ∧ w'.appended.length < 2 ^ 64 := by
    obtain rfl := Option.some.inj h
    exact ⟨_, rfl, rfl, by decide⟩
  obtain ⟨persisted, persisted', hrest⟩ := tap_log h h' hlen
  exact ⟨w, w', persisted, persisted', h, h', hreplay, hrest⟩

/-- A batch is lost where its commit fails: the first flush reports it, the second says Ok. -/
def lostBatch : List Action :=
  [.append aTrade, .handle noFaults, .settle commitFails, .flush, .handle noFaults, .flush,
    .handle noFaults]

/-- Not every event appended before a flush that has returned Ok is persisted. -/
theorem lostBatch_not_persisted : ∃ w, ActionSystem.run step init lostBatch = some w
    ∧ ¬ ∃ persisted : List Nat,
      (∀ request, w.persistedDb.replay request = .ok
        ((persisted.filterMap fun i => w.appended[i]?.map Appended.ev).filter (selects request)))
      ∧ ∀ a ∈ w.acks, a.res = .ok () → ∀ i x, i < a.upto → w.appended[i]? = some x →
        x.ev.routeKey.isSome → i ∈ persisted := by
  refine ⟨_, rfl, ?_⟩
  rintro ⟨persisted, hreplay, hflushed⟩
  have hmem : 0 ∈ persisted :=
    hflushed ⟨0, 1, .ok ()⟩ (List.mem_cons_of_mem _ List.mem_cons_self) rfl 0 ⟨0, aTrade⟩
      Nat.one_pos rfl rfl
  -- but a replay finds nothing
  have hnone : ∀ ev ∈ persisted.filterMap
      (fun i => ([⟨0, aTrade⟩] : List Appended)[i]?.map Appended.ev), ¬ selects everything ev :=
    List.filter_eq_nil_iff.mp (Except.ok.inj (hreplay everything)).symm
  exact hnone aTrade (List.mem_filterMap.mpr ⟨0, hmem, rfl⟩) (by decide)

end World

end TapLog

end Datamancer
