import Datamancer.Session.Seam

/-!
# Datamancer.Session.Seed

The latest-value seed of a pure live session (`spawn_latest_seed` and its branch in `run_live`).

The provider is asked for its latest value while the connection is opened, and the answer races
the live stream: the loop takes its branches in any order, and only its flag `data_forwarded`
decides whether the answer is still wanted. `latest_seed` says what comes of the race under every
schedule. What arrives live is forwarded in the order it arrives, and the seed stands among it
exactly when no data stands before it, so it is the first data event of the stream or is not in
it; a session with a backfill is never seeded.
-/

namespace Datamancer

open Controller

variable {σ : Type}

/-! ### Schedules -/

/-- The branch ends the loop; of a channel that is no longer polled nothing is received. -/
def LiveArm.stops (polled : Bool) : LiveArm → Bool
  | .cmd _ | .seed _ => false
  | .removal teardown => teardown
  | .arrival ev => ev.isNone || !polled

/-- The branches the loop takes, up to the one that ends it. -/
def takenArms (polled : Bool) (arms : List LiveArm) : List LiveArm :=
  arms.takeWhile fun arm => !arm.stops polled

def LiveArm.arrival? : LiveArm → Option MarketEvent
  | .arrival ev => ev
  | _ => none

/-- What arrives live. -/
def arrivals (arms : List LiveArm) : List MarketEvent := arms.filterMap LiveArm.arrival?

/-- The answer to the fetch of the latest value comes after `before`, and is still wanted. -/
structure Admitted (before : List LiveArm) : Prop where
  first : ∀ res, .seed res ∉ before
  quiet : ∀ ev ∈ arrivals before, ev.isData = false

/-- What the loop forwards of the branches it takes, given whether a seed is awaited and whether
data has been forwarded. -/
def forwarded (seeding data : Bool) : List LiveArm → List MarketEvent
  | [] => []
  | .arrival (some ev) :: arms => ev :: forwarded seeding (data || ev.isData) arms
  | .seed (some ev) :: arms =>
      if seeding && !data then ev :: forwarded false ev.isData arms else forwarded false data arms
  | .seed none :: arms => forwarded false data arms
  | .cmd _ :: arms | .removal _ :: arms | .arrival none :: arms => forwarded seeding data arms

/-! ### What is forwarded -/

/-- Where no seed is awaited, or data has gone before it, what arrives is what is forwarded. -/
theorem forwarded_unseeded {seeding data : Bool} (h : seeding = true → data = true)
    (arms : List LiveArm) : forwarded seeding data arms = arrivals arms := by
  induction arms generalizing seeding data with
  | nil => rfl
  | cons arm arms ih =>
      cases arm with
      | cmd cmd => exact ih h
      | removal teardown => exact ih h
      | arrival ev =>
          cases ev with
          | none => exact ih h
          | some ev => exact congrArg (ev :: ·) (ih fun hs => by rw [h hs, Bool.true_or])
      | seed res =>
          have hrest : forwarded false data arms = arrivals arms := ih fun hs => by cases hs
          cases res with
          | none => exact hrest
          | some ev =>
              have hlate : (seeding && !data) = false := by cases seeding <;> simp_all
              rw [forwarded, hlate]
              exact hrest

/-- An admitted seed stands where it comes. -/
theorem forwarded_admitted {before : List LiveArm} (h : Admitted before) (ev : MarketEvent)
    (after : List LiveArm) : forwarded true false (before ++ .seed (some ev) :: after)
      = arrivals before ++ ev :: arrivals after := by
  induction before with
  | nil =>
      rw [List.nil_append, forwarded]
      exact congrArg (ev :: ·) (forwarded_unseeded (fun hs => by cases hs) after)
  | cons arm before ih =>
      have hfirst : ∀ res, .seed res ∉ before := fun res hmem =>
        h.first res (List.mem_cons_of_mem _ hmem)
      cases arm with
      | cmd cmd => exact ih ⟨hfirst, h.quiet⟩
      | removal teardown => exact ih ⟨hfirst, h.quiet⟩
      | seed res => exact absurd List.mem_cons_self (h.first res)
      | arrival arrived =>
          cases arrived with
          | none => exact ih ⟨hfirst, h.quiet⟩
          | some e =>
              have hquiet : ∀ ev ∈ e :: arrivals before, ev.isData = false := h.quiet
              obtain ⟨he, hrest⟩ := List.forall_mem_cons.mp hquiet
              rw [List.cons_append, forwarded, he]
              exact congrArg (e :: ·) (ih ⟨hfirst, hrest⟩)

/-- Without an admitted seed, what arrives is what is forwarded. -/
theorem forwarded_refused {arms : List LiveArm}
    (h : ∀ before ev after, arms = before ++ .seed (some ev) :: after → ¬ Admitted before) :
    forwarded true false arms = arrivals arms := by
  induction arms with
  | nil => rfl
  | cons arm arms ih =>
      -- an admitted seed of the rest is one of the whole, unless this branch settles the race
      have hlift : (∀ res, arm ≠ .seed res) → (∀ ev ∈ arm.arrival?.toList, ev.isData = false) →
          ∀ before ev after, arms = before ++ .seed (some ev) :: after → ¬ Admitted before := by
        rintro hseed hquiet before ev after rfl hadm
        refine h (arm :: before) ev after rfl ⟨fun res hmem => ?_, fun e he => ?_⟩
        · rcases List.mem_cons.mp hmem with heq | hmem
          · exact hseed res heq.symm
          · exact hadm.first res hmem
        · rcases List.mem_filterMap.mp he with ⟨a, ha, hea⟩
          rcases List.mem_cons.mp ha with rfl | ha
          · exact hquiet e (by simp [hea])
          · exact hadm.quiet e (List.mem_filterMap.mpr ⟨a, ha, hea⟩)
      cases arm with
      | cmd cmd => exact ih (hlift (fun _ heq => by cases heq) (by simp [LiveArm.arrival?]))
      | removal teardown =>
          exact ih (hlift (fun _ heq => by cases heq) (by simp [LiveArm.arrival?]))
      | arrival arrived =>
          cases arrived with
          | none => exact ih (hlift (fun _ heq => by cases heq) (by simp [LiveArm.arrival?]))
          | some e =>
              rw [forwarded, Bool.false_or]
              refine congrArg (e :: ·) ?_
              cases he : e.isData with
              | false =>
                  exact ih (hlift (fun _ heq => by cases heq) (by simp [LiveArm.arrival?, he]))
              | true => exact forwarded_unseeded (fun _ => rfl) arms
      | seed res =>
          cases res with
          | none => exact forwarded_unseeded (fun hs => by cases hs) arms
          | some ev => exact absurd ⟨fun _ => by simp, by simp [arrivals]⟩ (h [] ev arms rfl)

/-! ### The loop -/

theorem Controller.dataForwarded_forward {c c' : Controller σ} {ev : MarketEvent}
    (h : c.forward ev = some c') : c'.dataForwarded = (c.dataForwarded || ev.isData) := by
  obtain ⟨r, hr, hc⟩ := Option.bind_eq_some_iff.mp h
  obtain rfl := Controller.stamp_eq_some hr
  obtain rfl := Option.some.inj hc
  cases hev : ev.isData with
  | false => simp [Controller.deliver, Controller.tee, hev]
  | true =>
      simp only [Controller.deliver, Controller.tee, hev, MarketEvent.isData_stampSeq, ↓reduceIte]
      split_ifs <;> simp

theorem Controller.dataForwarded_handleCommand {c c' : Controller σ} {cmd : Option SessionCommand}
    (h : c.handleCommand cmd = some (true, c')) : c'.dataForwarded = c.dataForwarded := by
  cases cmd with
  | none => cases h
  | some cmd =>
      cases cmd with
      | setPersistence options =>
          obtain ⟨-, rfl⟩ := Prod.mk.inj (Option.some.inj h)
          have hkept : (c.applyPersistence options).2.dataForwarded = c.dataForwarded := by
            unfold Controller.applyPersistence
            split_ifs <;> rfl
          exact hkept
      | addSubscriber id =>
          obtain ⟨-, rfl⟩ := Prod.mk.inj (Option.some.inj h)
          rfl
      | close =>
          obtain ⟨c₁, -, hrest⟩ := Option.bind_eq_some_iff.mp h
          cases hrest

theorem takenArms_cons {polled : Bool} {arm : LiveArm} (arms : List LiveArm)
    (h : arm.stops polled = false) :
    takenArms polled (arm :: arms) = arm :: takenArms polled arms :=
  List.takeWhile_cons_of_pos (by rw [h]; rfl)

theorem takenArms_stop {polled : Bool} {arm : LiveArm} (arms : List LiveArm)
    (h : arm.stops polled = true) : takenArms polled (arm :: arms) = [] :=
  List.takeWhile_cons_of_neg (by rw [h]; simp)

/-- The events the live loop forwards, under any schedule. -/
theorem liveLoop_later {arms : List LiveArm} {st st' : LiveState σ}
    (hopen : ∀ arm ∈ arms, arm.Open) (h : liveLoop arms st = some st') :
    st'.later
      = st.later ++ forwarded st.seeding st.ctl.dataForwarded (takenArms st.polled arms) := by
  induction arms generalizing st with
  | nil =>
      obtain rfl := Option.some.inj h
      exact (List.append_nil _).symm
  | cons arm arms ih =>
      obtain ⟨harm, harms⟩ := List.forall_mem_cons.mp hopen
      -- the loop ends here
      have hstop : arm.stops st.polled = true → st' = st → st'.later = st.later ++
          forwarded st.seeding st.ctl.dataForwarded (takenArms st.polled (arm :: arms)) := by
        rintro hs rfl
        rw [takenArms_stop arms hs, forwarded, List.append_nil]
      -- one event forwarded, then the rest of the loop
      have hone : ∀ {st₀ : LiveState σ} {ev : MarketEvent}, st₀.ctl = st.ctl →
          st₀.polled = st.polled → st₀.later = st.later →
          ((st₀.forward ev).bind fun st₁ => liveLoop arms st₁) = some st' →
          st'.later = st.later ++ ev :: forwarded st₀.seeding
            (st.ctl.dataForwarded || ev.isData) (takenArms st.polled arms) := by
        intro st₀ ev hctl hpolled hlater hbind
        obtain ⟨st₁, hfwd, hrest⟩ := Option.bind_eq_some_iff.mp hbind
        obtain ⟨c, hc, hst₁⟩ := Option.bind_eq_some_iff.mp hfwd
        obtain rfl := Option.some.inj hst₁
        have hdata := Controller.dataForwarded_forward hc
        rw [ih harms hrest, hdata, hctl, hpolled, hlater, List.append_assoc]
        rfl
      cases arm with
      | cmd cmd =>
          obtain ⟨c', hcmd, -⟩ := Controller.handleCommand_open harm st.ctl
          rw [liveLoop, hcmd] at h
          rw [takenArms_cons arms rfl, forwarded,
            ← Controller.dataForwarded_handleCommand hcmd]
          exact ih harms h
      | removal teardown =>
          rw [liveLoop] at h
          cases teardown with
          | true => exact hstop rfl (Option.some.inj h).symm
          | false =>
              rw [takenArms_cons arms rfl, forwarded]
              exact ih harms h
      | arrival ev =>
          cases ev with
          | none => exact hstop rfl (Option.some.inj h).symm
          | some ev =>
              unfold liveLoop at h
              cases hpolled : st.polled with
              | true =>
                  rw [hpolled] at h hone
                  rw [takenArms_cons arms rfl, forwarded]
                  exact hone rfl hpolled rfl h
              | false =>
                  rw [hpolled] at h hstop
                  exact hstop rfl (Option.some.inj h).symm
      | seed res =>
          rw [takenArms_cons arms rfl]
          have hrefused : liveLoop arms { st with seeding := false } = some st' → st'.later
              = st.later ++ forwarded false st.ctl.dataForwarded (takenArms st.polled arms) :=
            fun hrest => ih harms hrest
          cases res with
          | none => exact hrefused h
          | some ev =>
              unfold liveLoop at h
              rw [forwarded]
              cases hwanted : st.seeding && !st.ctl.dataForwarded with
              | true =>
                  have hdata : st.ctl.dataForwarded = false := by
                    cases hd : st.ctl.dataForwarded <;> simp_all
                  have hlater : st'.later = st.later ++ ev :: forwarded false
                      (st.ctl.dataForwarded || ev.isData) (takenArms st.polled arms) := by
                    rw [hwanted] at h
                    refine hone ?_ ?_ ?_ h <;> rfl
                  rw [hlater, hdata, Bool.false_or]
                  rfl
              | false =>
                  rw [hwanted] at h
                  exact hrefused h

/-! ### The race -/

variable [HistoricalCache σ] {provider : Provider} {ringCapacity : Nat} {env : LiveEnv}

/-- Whatever order the branches are taken in: a pure live session forwards what arrives in the
order it arrives, with the seed in its place if no data precedes it and without it otherwise;
that is all of its stream. A session with a backfill forwards what arrives, and no seed. -/
theorem latest_seed {c : Controller σ} {backfillFrom : Option Timestamp} {run : LiveRun σ}
    (hscope : c.inner.scope = .live backfillFrom) (hnew : c.Fresh) (hdata : c.dataForwarded = false)
    (h : spawnLive provider ringCapacity env c = some run) :
    (backfillFrom = none →
      run.ctl.delivered = stampAll 0 run.later ∧
      (∀ before ev after, takenArms true env.live = before ++ .seed (some ev) :: after →
        Admitted before → run.later = arrivals before ++ ev :: arrivals after) ∧
      ((∀ before ev after, takenArms true env.live = before ++ .seed (some ev) :: after →
        ¬ Admitted before) → run.later = arrivals (takenArms true env.live))) ∧
    (backfillFrom ≠ none → run.backfill.outcome = .done →
      run.later = arrivals (takenArms run.backfill.polled env.live)) := by
  rw [spawnLive, hscope] at h
  cases backfillFrom with
  | none =>
      refine ⟨fun _ => ?_, fun hne => absurd rfl hne⟩
      obtain ⟨st, hloop, hrest⟩ := Option.bind_eq_some_iff.mp h
      obtain rfl := Option.some.inj hrest
      have hlater : st.later = forwarded true false (takenArms true env.live) := by
        have hloop := liveLoop_later env.live_open hloop
        rwa [List.nil_append, hdata] at hloop
      refine ⟨?_, fun before ev after hsplit hadm => ?_, fun hno => ?_⟩
      · obtain ⟨out, hout, hforwards⟩ :=
          liveLoop_forwards env.live_open (fun hfalse : False => hfalse.elim) hloop rfl
        rw [List.nil_append] at hout
        rw [hforwards.trail.delivered, hnew.delivered, hnew.nextSeq, List.nil_append, hout]
      · rw [hsplit] at hlater
        exact hlater.trans (forwarded_admitted hadm ev after)
      · exact hlater.trans (forwarded_refused hno)
  | some f =>
      refine ⟨fun hnone => (by cases hnone), fun _ hdone => ?_⟩
      obtain ⟨⟨c₁, b⟩, -, hrest⟩ := Option.bind_eq_some_iff.mp h
      dsimp only at hrest
      cases houtcome : b.outcome with
      | closed =>
          rw [houtcome] at hrest
          obtain rfl := Option.some.inj hrest
          exact absurd (houtcome.symm.trans hdone) (by simp)
      | done =>
          rw [houtcome] at hrest
          obtain ⟨st, hloop, hrest⟩ := Option.bind_eq_some_iff.mp hrest
          obtain rfl := Option.some.inj hrest
          have hlater := liveLoop_later env.live_open hloop
          exact hlater.trans (forwarded_unseeded (fun hs => (by cases hs)) _)

/-- A controller spawned without a backfill. -/
def pureController : Controller TursoCache :=
  { stitchedController 100 with inner := ⟨⟨"p", .equity, "AAPL"⟩, .trade, .live none, .raw⟩ }

def connected : MarketEvent := .control ⟨98, 98, ⟨0⟩, .providerConnected "p"⟩

/-- The connection comes up, the latest value comes in, and then the first trade. -/
def seededEnv : LiveEnv where
  backfill := fun _ => []
  live := [.arrival (some connected), .seed (some (testTrade "AAPL" 99 ⟨0⟩)),
    .arrival (some (testTrade "AAPL" 101 ⟨0⟩)), .removal true]
  backfill_open := by simp
  live_open := by simp [LiveArm.Open]

/-- The seed is the second event of the stream and the first one with data. -/
theorem latest_seed_first : ∃ run,
    spawnLive oneTradeProvider 1 seededEnv pureController = some run ∧
    run.later = [connected, testTrade "AAPL" 99 ⟨0⟩, testTrade "AAPL" 101 ⟨0⟩] ∧
    run.ctl.delivered = stampAll 0 run.later := by
  obtain ⟨run, hrun⟩ : ∃ run, spawnLive oneTradeProvider 1 seededEnv pureController = some run :=
    ⟨_, rfl⟩
  obtain ⟨hdelivered, hseed, -⟩ := (latest_seed rfl ⟨rfl, rfl, rfl⟩ rfl hrun).1 rfl
  have hadmitted : Admitted [.arrival (some connected)] := ⟨by simp, by decide⟩
  exact ⟨run, hrun, hseed [.arrival (some connected)] (testTrade "AAPL" 99 ⟨0⟩)
    [.arrival (some (testTrade "AAPL" 101 ⟨0⟩))] rfl hadmitted, hdelivered⟩

end Datamancer
