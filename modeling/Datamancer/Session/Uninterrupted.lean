import Datamancer.Session.Segments

/-!
# Datamancer.Session.Uninterrupted

Sessions nobody closes while they stream. Such a loop ends with its stream
exhausted, unless the source `seq` counter runs out, and whether it does depends on
nothing but how many events are sent (`Controller.Room`): not on what is polled in
between, and not on the path they are sent through.
-/

namespace Datamancer

open Controller (Emits Trail)

variable {σ : Type}

/-- The branches that do not make the controller exit. -/
def Arm.Open : Arm → Prop
  | .cmd c => c ≠ none ∧ c ≠ some .close
  | _ => True

theorem Arm.of_not_open {cmd : Option SessionCommand} (h : ¬ (Arm.cmd cmd).Open) :
    cmd = none ∨ cmd = some .close :=
  (not_and_or.mp h).imp not_not.mp not_not.mp

namespace Controller

/-! ### Room in the counter -/

/-- The counter has room for `n` more stamps. -/
def Room (c : Controller σ) (n : Nat) : Prop := c.nextSeq.toNat + n < 2 ^ 64 - 1

theorem Room.mono {c : Controller σ} {m n : Nat} (h : c.Room n) (hmn : m ≤ n) : c.Room m := by
  unfold Room at h ⊢
  omega

theorem room_congr {c c' : Controller σ} (h : c'.nextSeq = c.nextSeq) (n : Nat) :
    c'.Room n ↔ c.Room n := by
  unfold Room
  rw [h]

theorem Room.toNat_add {c : Controller σ} {n : Nat} (h : c.Room n) :
    (c.nextSeq + UInt64.ofNat n).toNat = c.nextSeq.toNat + n := by
  unfold Room at h
  have hn : (UInt64.ofNat n).toNat = n :=
    UInt64.toNat_ofNat_of_lt' (show n < 2 ^ 64 by omega)
  rw [UInt64.toNat_add, hn]
  exact Nat.mod_eq_of_lt (by omega)

/-- Sending takes up as much room as there are events. -/
theorem Trail.room_iff {c c' : Controller σ} {evs : List MarketEvent} (h : Trail c c' evs)
    (hroom : c.Room evs.length) (n : Nat) : c'.Room n ↔ c.Room (evs.length + n) := by
  unfold Room
  rw [h.nextSeq, hroom.toNat_add]
  omega

theorem isSome_stamp (c : Controller σ) (ev : MarketEvent) :
    (c.stamp ev).isSome = true ↔ c.Room 1 := by
  unfold stamp
  split_ifs with h
  · exact ⟨fun _ => h, fun _ => rfl⟩
  · exact ⟨fun hsome => absurd hsome (by simp), fun hroom => absurd hroom h⟩

theorem isSome_emit (c : Controller σ) (ev : MarketEvent) :
    (c.emit ev).isSome = true ↔ c.Room 1 := by
  rw [← isSome_stamp c ev]
  unfold emit
  cases c.stamp ev <;> simp

theorem isSome_forward (c : Controller σ) (ev : MarketEvent) :
    (c.forward ev).isSome = true ↔ c.Room 1 := by
  rw [← isSome_stamp c ev]
  unfold forward
  cases c.stamp ev <;> simp

/-- A command that does not close leaves the controller running. -/
theorem handleCommand_open {cmd : Option SessionCommand} (h : (Arm.cmd cmd).Open)
    (c : Controller σ) : ∃ c', c.handleCommand cmd = some (true, c') ∧ Emits c c' [] := by
  obtain ⟨c', hc'⟩ : ∃ c', c.handleCommand cmd = some (true, c') := by
    obtain ⟨hnone, hclose⟩ := h
    cases cmd with
    | none => exact absurd rfl hnone
    | some cmd =>
        cases cmd with
        | setPersistence options => exact ⟨_, rfl⟩
        | addSubscriber id => exact ⟨_, rfl⟩
        | close => exact absurd rfl hclose
  obtain ⟨evs, hemit, -, hnil⟩ := emits_handleCommand hc'
  obtain rfl := hnil rfl
  exact ⟨c', hc', hemit⟩

end Controller

/-! ### Loops -/

section Loops

variable {β : Type} {send : Controller σ → MarketEvent → Option (Controller σ)}

/-- Sending a stream event by event succeeds as a whole exactly when there is room for
all of it. -/
theorem isSome_send_bind {α : Type} (hsend : ∀ {c ev c'}, send c ev = some c' → Emits c c' [ev])
    (hroom : ∀ c ev, (send c ev).isSome = true ↔ c.Room 1) {c : Controller σ} {ev : MarketEvent}
    {evs : List MarketEvent} {k : Controller σ → Option α}
    (hk : ∀ c', c'.Room 0 → ((k c').isSome = true ↔ c'.Room evs.length)) :
    ((send c ev).bind k).isSome = true ↔ c.Room (ev :: evs).length := by
  cases hc : send c ev with
  | none =>
      have hno : ¬ c.Room 1 := fun h => by simpa [hc] using (hroom c ev).mpr h
      simp only [Option.bind_none, Option.isSome_none, Bool.false_eq_true, false_iff]
      exact fun h => hno (h.mono (by simp))
  | some c' =>
      have hone : c.Room [ev].length := (hroom c ev).mp (by rw [hc]; rfl)
      have hiff := (hsend hc).toTrail.room_iff hone
      have hzero : c'.Room 0 := (hiff 0).mpr hone
      rw [Option.bind_some, hk c' hzero, hiff, List.length_singleton, List.length_cons,
        Nat.add_comm]

theorem isSome_drain (hsend : ∀ {c ev c'}, send c ev = some c' → Emits c c' [ev])
    (hroom : ∀ c ev, (send c ev).isSome = true ↔ c.Room 1) (account : β → MarketEvent → β)
    (evs : List MarketEvent) {c : Controller σ} (b : β) (hc : c.Room 0) :
    (drain send account evs c b).isSome = true ↔ c.Room evs.length := by
  induction evs generalizing c b with
  | nil => exact ⟨fun _ => hc, fun _ => rfl⟩
  | cons ev evs ih => exact isSome_send_bind hsend hroom fun c' hc' => ih _ hc'

/-- A loop nobody closes sends its whole stream, if there is room for it. -/
theorem selectLoop_open (hsend : ∀ {c ev c'}, send c ev = some c' → Emits c c' [ev])
    (hroom : ∀ c ev, (send c ev).isSome = true ↔ c.Room 1) {arms : List Arm}
    (hopen : ∀ arm ∈ arms, arm.Open) (account : β → MarketEvent → β) (evs : List MarketEvent)
    (st : StreamState σ) (b : β) (hc : st.ctl.Room 0) (hlive : st.live = none) :
    ((selectLoop send account arms evs st b).isSome = true ↔ st.ctl.Room evs.length)
      ∧ ∀ {e st' b'}, selectLoop send account arms evs st b = some (e, st', b') →
        e = .exhausted ∧ st'.live = none := by
  induction arms generalizing evs st b with
  | nil =>
      have hdrain := isSome_drain hsend hroom account evs b hc
      rw [selectLoop]
      cases hd : drain send account evs st.ctl b with
      | none =>
          rw [hd] at hdrain
          exact ⟨hdrain, fun h => absurd h (by simp)⟩
      | some r =>
          rw [hd] at hdrain
          refine ⟨hdrain, fun h => ?_⟩
          cases Option.some.inj h
          exact ⟨rfl, hlive⟩
  | cons arm arms ih =>
      obtain ⟨harm, harms⟩ := List.forall_mem_cons.mp hopen
      cases arm with
      | cmd cmd =>
          obtain ⟨c', hcmd, hemit⟩ := Controller.handleCommand_open harm st.ctl
          have hseq : c'.nextSeq = st.ctl.nextSeq := by simpa using hemit.nextSeq
          have hrest := ih harms evs { st with ctl := c' } b
            ((Controller.room_congr hseq 0).mpr hc) hlive
          rw [selectLoop, hcmd]
          exact ⟨hrest.1.trans (Controller.room_congr hseq _), hrest.2⟩
      | removal teardown =>
          -- without a live side there is no fan-out to be emptied, so no removal tears down
          rw [selectLoop, if_neg (by simp [hlive])]
          exact ih harms evs st b hc hlive
      | live ev =>
          rw [selectLoop]
          exact ih harms evs _ b hc (by simp [hlive])
      | next =>
          cases evs with
          | nil =>
              refine ⟨⟨fun _ => hc, fun _ => rfl⟩, fun h => ?_⟩
              cases Option.some.inj h
              exact ⟨rfl, hlive⟩
          | cons ev evs =>
              refine ⟨isSome_send_bind hsend hroom fun c' hc' =>
                (ih harms evs { st with ctl := c' } _ hc' hlive).1, fun h => ?_⟩
              obtain ⟨c', hc', hrest⟩ := Option.bind_eq_some_iff.mp h
              have hone : st.ctl.Room [ev].length := (hroom _ ev).mp (by rw [hc']; rfl)
              have hzero := ((hsend hc').toTrail.room_iff hone 0).mpr hone
              exact (ih harms evs { st with ctl := c' } _ hzero hlive).2 hrest

end Loops

/-! ### Segments -/

section Segments

variable [HistoricalCache σ] {provider : Provider} {options : PersistenceOptions}

/-- A covered segment hands out its replay, a gap segment what its fetch sends. -/
def HandsOut (provider : Provider) (c : Controller σ) : Segment → List MarketEvent → Prop
  | .covered f t, evs => ∃ cache, c.cache = some cache ∧
      HistoricalCache.open cache (c.cacheKey f t)
        ⟨[c.inner.instrument], [c.inner.kind], f, t⟩ = .ok evs
  | .gap f t, evs => (c.fetch provider f t).sent = evs
      ∧ (c.fetch provider f t).joined.fetchError = none

omit [HistoricalCache σ] in
/-- A segment that goes on once its loop is exhausted ends with `next`, if its loop does. -/
theorem open_bind {β : Type} {m : Option (LoopEnd × StreamState σ × β)} {P : Prop}
    (hm : (m.isSome = true ↔ P) ∧ ∀ {e st b}, m = some (e, st, b) →
      e = .exhausted ∧ st.live = none)
    {k : LoopEnd × StreamState σ × β → Option (SegmentEnd × StreamState σ × SegmentReport)}
    (hk : ∀ st b, ∃ st' report, k (.exhausted, st, b) = some (.next, st', report)
      ∧ st'.live = st.live) :
    ((m.bind k).isSome = true ↔ P) ∧ ∀ {e st' report}, m.bind k = some (e, st', report) →
      e = .next ∧ st'.live = none := by
  obtain ⟨hsome, hend⟩ := hm
  cases hm : m with
  | none =>
      rw [hm] at hsome
      exact ⟨hsome, fun h => absurd h (by simp)⟩
  | some r =>
      obtain ⟨le, st, b⟩ := r
      obtain ⟨rfl, hlive⟩ := hend hm
      obtain ⟨st', report, hst', hkeep⟩ := hk st b
      rw [hm] at hsome
      rw [Option.bind_some, hst']
      refine ⟨hsome, fun h => ?_⟩
      cases Option.some.inj h
      exact ⟨rfl, hkeep.trans hlive⟩

theorem settleGap_of_ok {run : FetchRun} (hok : run.joined.fetchError = none) (f t : Timestamp)
    (p : FetchProgress) (st : StreamState σ) :
    ∃ st' report, settleGap options f t run p st = some (.next, st', report)
      ∧ st'.live = st.live := by
  unfold settleGap
  rw [hok]
  exact ⟨_, _, rfl, rfl⟩

theorem streamSegment_open (options : PersistenceOptions) {arms : List Arm}
    (hopen : ∀ arm ∈ arms, arm.Open) {seg : Segment}
    {st : StreamState σ} {evs : List MarketEvent} (hc : st.ctl.Room 0) (hlive : st.live = none)
    (hands : HandsOut provider st.ctl seg evs) :
    ((streamSegment provider options arms seg st).isSome = true ↔ st.ctl.Room evs.length)
      ∧ ∀ {e st' report}, streamSegment provider options arms seg st = some (e, st', report) →
        e = .next ∧ st'.live = none := by
  cases seg with
  | covered f t =>
      obtain ⟨cache, hcache, hok⟩ := hands
      rw [streamSegment, streamCovered, hcache]
      dsimp only
      rw [hok]
      have hloop := selectLoop_open Controller.emits_emit Controller.isSome_emit hopen
        (fun () _ => ()) evs st () hc hlive
      exact open_bind hloop fun st b => ⟨_, _, rfl, rfl⟩
  | gap f t =>
      obtain ⟨rfl, hok⟩ := hands
      rw [streamSegment, streamGap]
      have hloop := selectLoop_open Controller.emits_emit Controller.isSome_emit hopen
        (FetchProgress.receive (options.writeCache && st.ctl.cache.isSome))
        (st.ctl.fetch provider f t).sent
        { st with ctl := { st.ctl with historyFetches := st.ctl.historyFetches + 1 } }
        ⟨none, []⟩ hc hlive
      exact open_bind hloop fun st₁ p => settleGap_of_ok hok f t p st₁

/-- What a segment that is not the last hands out is what it emits. -/
theorem SegmentStep.trail_of_handsOut {st st' : StreamState σ} {seg : Segment}
    {report : SegmentReport} {evs : List MarketEvent}
    (h : SegmentStep provider options st st' seg .next report)
    (hands : HandsOut provider st.ctl seg evs) : Trail st.ctl st'.ctl evs := by
  cases h with
  | vanished hcache hemit =>
      obtain ⟨cache, hsome, -⟩ := hands
      rw [hcache] at hsome
      cases hsome
  | openFailed hcache hfail hemit =>
      obtain ⟨cache, hsome, hok⟩ := hands
      obtain rfl := Option.some.inj (hcache.symm.trans hsome)
      rw [hfail] at hok
      cases hok
  | replayed hcache hopen hemit =>
      obtain ⟨cache, hsome, hok⟩ := hands
      obtain rfl := Option.some.inj (hcache.symm.trans hsome)
      obtain rfl := Except.ok.inj (hopen.symm.trans hok)
      exact hemit.toTrail
  | fetched hok hstep =>
      obtain ⟨rfl, -⟩ := hands
      simpa using hstep.trail

end Segments

/-! ### The end of a session -/

section Finish

/-- Data events delivered so far. -/
def Controller.dataDelivered (c : Controller σ) : List MarketEvent :=
  c.delivered.filter MarketEvent.isData

open Controller

theorem closingControl_isData (c : Controller σ) : c.closingControl.isData = false := rfl

theorem isSome_shutdown (c : Controller σ) : c.shutdown.isSome = true ↔ c.Room 1 :=
  isSome_emit { c with clockReads := c.clockReads + 1 } c.closingControl

/-- A step whose success depends on the counter alone, and a step after it that does
too, make one that does. -/
theorem isSome_bind_congr {α β : Type} {m m' : Option α} {k k' : α → Option β}
    (h : m.isSome = m'.isSome)
    (hk : ∀ {a a'}, m = some a → m' = some a' → (k a).isSome = (k' a').isSome) :
    (m.bind k).isSome = (m'.bind k').isSome := by
  cases hm : m with
  | none =>
      obtain rfl : m' = none := by simpa [hm] using h
      rfl
  | some a =>
      rw [hm] at h
      obtain ⟨a', ha'⟩ := Option.isSome_iff_exists.mp h.symm
      rw [ha']
      exact hk hm ha'

theorem isSome_shutdown_congr {c c' : Controller σ} (h : c.nextSeq = c'.nextSeq) :
    c.shutdown.isSome = c'.shutdown.isSome := by
  rw [Bool.eq_iff_iff, isSome_shutdown, isSome_shutdown, room_congr h]

/-- Whether the wait for the consumer ends without a panic depends on the counter
alone. -/
theorem isSome_awaitDrop_congr {cmds : List (Option SessionCommand)} {c c' : Controller σ}
    (h : c.nextSeq = c'.nextSeq) :
    (awaitDrop cmds c).isSome = (awaitDrop cmds c').isSome := by
  induction cmds generalizing c c' with
  | nil => exact isSome_shutdown_congr h
  | cons cmd cmds ih =>
      rw [awaitDrop, awaitDrop]
      by_cases hopen : (Arm.cmd cmd).Open
      · obtain ⟨c₁, hc₁, hemit₁⟩ := handleCommand_open hopen c
        obtain ⟨c₂, hc₂, hemit₂⟩ := handleCommand_open hopen c'
        rw [hc₁, hc₂]
        exact ih (by rw [hemit₁.nextSeq, hemit₂.nextSeq, h])
      · rcases Arm.of_not_open hopen with rfl | rfl
        · rfl
        · refine isSome_bind_congr (isSome_bind_congr (isSome_shutdown_congr h) ?_) ?_
          · intro c₁ c₂ hc₁ hc₂
            rfl
          · intro r r' hr hr'
            obtain ⟨c₁, hc₁, hrest₁⟩ := Option.bind_eq_some_iff.mp hr
            obtain ⟨c₂, hc₂, hrest₂⟩ := Option.bind_eq_some_iff.mp hr'
            cases Option.some.inj hrest₁
            cases Option.some.inj hrest₂
            rfl

theorem isSome_awaitDrop {cmds : List (Option SessionCommand)} {c : Controller σ}
    (h : c.Room 1) : (awaitDrop cmds c).isSome = true := by
  induction cmds generalizing c with
  | nil => exact (isSome_shutdown c).mpr h
  | cons cmd cmds ih =>
      rw [awaitDrop]
      by_cases hopen : (Arm.cmd cmd).Open
      · obtain ⟨c₁, hc₁, hemit⟩ := handleCommand_open hopen c
        rw [hc₁]
        exact ih ((room_congr (by simpa using hemit.nextSeq) 1).mpr h)
      · rcases Arm.of_not_open hopen with rfl | rfl
        · rfl
        · obtain ⟨c₁, hc₁⟩ := Option.isSome_iff_exists.mp ((isSome_shutdown c).mpr h)
          unfold handleCommand
          rw [hc₁]
          rfl

theorem isSome_finishHistorical_congr (env : HistoricalEnv σ) {c c' : Controller σ}
    (h : c.nextSeq = c'.nextSeq) :
    (finishHistorical env c).isSome = (finishHistorical env c').isSome := by
  unfold finishHistorical
  by_cases htaken : env.streamTaken = true
  · rw [if_neg (by simp [htaken]), if_neg (by simp [htaken])]
    refine isSome_bind_congr (isSome_shutdown_congr h) fun {c₁ c₂} hc₁ hc₂ => ?_
    have hseq : c₁.nextSeq = c₂.nextSeq := by
      rw [(emits_shutdown hc₁).nextSeq, (emits_shutdown hc₂).nextSeq, h]
      rfl
    by_cases hgone : env.consumerGone = true
    · rw [if_pos hgone, if_pos hgone]
      exact isSome_shutdown_congr hseq
    · rw [if_neg hgone, if_neg hgone]
      exact isSome_awaitDrop_congr hseq
  · rw [if_pos (by simp [htaken]), if_pos (by simp [htaken])]
    exact isSome_shutdown_congr h

/-- Ending a session takes at most two stamps. -/
theorem isSome_finishHistorical (env : HistoricalEnv σ) {c : Controller σ} (h : c.Room 2) :
    (finishHistorical env c).isSome = true := by
  have hshut : ∀ {c : Controller σ}, c.Room 1 → c.shutdown.isSome = true := fun {c} =>
    (isSome_shutdown c).mpr
  unfold finishHistorical
  by_cases htaken : env.streamTaken = true
  · rw [if_neg (by simp [htaken])]
    obtain ⟨c₁, hc₁⟩ := Option.isSome_iff_exists.mp (hshut (h.mono (by decide)))
    have hroom : c₁.Room 1 :=
      ((emits_shutdown hc₁).toTrail.room_iff (h.mono (Nat.le_succ 1)) 1).mpr h
    rw [show c.emitClosing = some c₁ from hc₁]
    dsimp only [Option.bind_eq_bind, Option.bind_some]
    split_ifs
    · exact hshut hroom
    · exact isSome_awaitDrop hroom
  · rw [if_pos (by simp [htaken])]
    exact hshut (h.mono (by decide))

theorem emits_awaitDrop {cmds : List (Option SessionCommand)} {c c' : Controller σ}
    (h : awaitDrop cmds c = some c') :
    ∃ evs, Emits c c' evs ∧ ∀ ev ∈ evs, ev.isData = false := by
  induction cmds generalizing c with
  | nil => exact ⟨_, emits_shutdown h, by simp [closingControl_isData]⟩
  | cons cmd cmds ih =>
      obtain ⟨⟨go, c₁⟩, hcmd, hrest⟩ := Option.bind_eq_some_iff.mp h
      obtain ⟨evs, hemit, hclosing, -⟩ := emits_handleCommand hcmd
      have hevs : ∀ ev ∈ evs, ev.isData = false := fun ev hev => hclosing ev hev ▸ rfl
      cases go with
      | true =>
          obtain ⟨evs', hemit', hevs'⟩ := ih hrest
          refine ⟨evs ++ evs', hemit.trans hemit', fun ev hev => ?_⟩
          exact (List.mem_append.mp hev).elim (hevs ev) (hevs' ev)
      | false =>
          cases Option.some.inj hrest
          exact ⟨evs, hemit, hevs⟩

/-- The end of a session delivers no data. -/
theorem emits_finishHistorical {env : HistoricalEnv σ} {c c' : Controller σ}
    (h : finishHistorical env c = some c') :
    ∃ evs, Emits c c' evs ∧ ∀ ev ∈ evs, ev.isData = false := by
  unfold finishHistorical at h
  by_cases htaken : env.streamTaken = true
  · rw [if_neg (by simp [htaken])] at h
    obtain ⟨c₁, hc₁, hrest⟩ := Option.bind_eq_some_iff.mp h
    have hclosing : Emits c c₁ [c.closingControl] := emits_shutdown hc₁
    obtain ⟨evs, hemit, hevs⟩ : ∃ evs, Emits c₁ c' evs ∧ ∀ ev ∈ evs, ev.isData = false := by
      split_ifs at hrest with hgone
      · exact ⟨_, emits_shutdown hrest, by simp [closingControl_isData]⟩
      · exact emits_awaitDrop hrest
    refine ⟨_, hclosing.trans hemit, fun ev hev => ?_⟩
    rcases List.mem_cons.mp hev with rfl | hev
    · exact closingControl_isData c
    · exact hevs ev hev
  · rw [if_pos (by simp [htaken])] at h
    exact ⟨_, emits_shutdown h, by simp [closingControl_isData]⟩

/-- The single-fetch path never touches the cache. -/
theorem emits_runEphemeral {provider : Provider} {env : HistoricalEnv σ} {f t : Timestamp}
    {c c' : Controller σ} (h : runEphemeral provider env f t c = some c') :
    ∃ evs, Emits { c with historyFetches := c.historyFetches + 1 } c' evs := by
  obtain ⟨⟨le, st, m⟩, hloop, hrest⟩ := Option.bind_eq_some_iff.mp h
  obtain ⟨out, hemit, -, -⟩ := selectLoop_emits Controller.emits_forward hloop
  cases le with
  | closed =>
      cases Option.some.inj hrest
      exact ⟨out, hemit⟩
  | exhausted =>
      dsimp only at hrest
      cases hjoin : (c.fetch provider f t).joined.fetchError with
      | none =>
          rw [hjoin] at hrest
          obtain ⟨evs, hfin, -⟩ := emits_finishHistorical hrest
          exact ⟨out ++ evs, hemit.trans hfin⟩
      | some message =>
          rw [hjoin] at hrest
          obtain ⟨c₁, herr, hfin⟩ := Option.bind_eq_some_iff.mp hrest
          obtain ⟨evs, hfin, -⟩ := emits_finishHistorical hfin
          exact ⟨_, (hemit.trans (emits_emitProviderError herr)).trans hfin⟩

/-! ### Data delivered -/

theorem mem_stampAll {n : UInt64} {evs : List MarketEvent} {ev : MarketEvent}
    (h : ev ∈ stampAll n evs) : ∃ e ∈ evs, ∃ s, ev = e.stampSeq s := by
  induction evs generalizing n with
  | nil => exact absurd h List.not_mem_nil
  | cons e evs ih =>
      rcases List.mem_cons.mp h with rfl | h
      · exact ⟨e, List.mem_cons_self, _, rfl⟩
      · obtain ⟨e', he', hs⟩ := ih h
        exact ⟨e', List.mem_cons_of_mem _ he', hs⟩

/-- After data events and controls, in that order, exactly the former were delivered as
data. -/
theorem Controller.Trail.dataDelivered {c c' : Controller σ} {evs controls : List MarketEvent}
    (h : Trail c c' (evs ++ controls)) (hevs : ∀ ev ∈ evs, ev.isData = true)
    (hcontrols : ∀ ev ∈ controls, ev.isData = false) :
    c'.dataDelivered = c.dataDelivered ++ stampAll c.nextSeq evs := by
  have hall : (stampAll c.nextSeq evs).filter MarketEvent.isData = stampAll c.nextSeq evs := by
    refine List.filter_eq_self.mpr fun ev hev => ?_
    obtain ⟨e, he, s, rfl⟩ := mem_stampAll hev
    rw [MarketEvent.isData_stampSeq, hevs e he]
  have hnone : ∀ n, (stampAll n controls).filter MarketEvent.isData = [] := by
    intro n
    refine List.filter_eq_nil_iff.mpr fun ev hev => ?_
    obtain ⟨e, he, s, rfl⟩ := mem_stampAll hev
    rw [MarketEvent.isData_stampSeq, hcontrols e he]
    exact Bool.false_ne_true
  rw [Controller.dataDelivered, h.delivered, stampAll_append, List.filter_append,
    List.filter_append, hall, hnone, List.append_nil, Controller.dataDelivered]

end Finish

end Datamancer
