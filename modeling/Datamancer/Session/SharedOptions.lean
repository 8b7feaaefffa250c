import Datamancer.Core.Error
import Datamancer.Lib.ActionSystem
import Datamancer.Session.Controller
import Mathlib.Data.List.Nodup
import Mathlib.Logic.Function.Basic

/-!
# Datamancer.Session.SharedOptions

The persistence options of one authoritative session, which are kept twice: the controller's,
which decides the tee, and the shared copy that every handle's `persistence()` reads. A
`set_persistence` sends a command, and when its reply says the controller took the options it
updates the copy itself: two steps, between which other callers take theirs, and which a
cancelled caller never finishes.

Two ghost fields say what the copies should come to: the newest command sent that the
controller takes, and its options. The copies agree whenever no call is pending in every run
in which no older caller has the last word and the newest is not cancelled
(`options_agree`).
-/

namespace Datamancer

namespace SharedOptions

open ActionSystem

/-! ### The session -/

/-- The stores configured, and the room of the command channel. -/
structure Env where
  cache : Bool
  tapLog : Bool
  capacity : Nat
  deriving DecidableEq, Repr

/-- `Controller::apply_persistence`: what it answers. -/
def applyPersistence (env : Env) (options : PersistenceOptions) : Except Error Unit :=
  if options.usesCache && !env.cache then .error .persistenceRequired
  else if options.writeTapLog && !env.tapLog then .error .persistenceRequired
  else .ok ()

/-- How far a `set_persistence` has come: not sent yet, sent, or answered and not woken yet. -/
inductive Call
  | starting (options : PersistenceOptions)
  | waiting (options : PersistenceOptions)
  | replied (options : PersistenceOptions) (res : Except Error Unit)
  deriving Repr

structure World where
  /-- The controller has not exited. -/
  running : Bool
  /-- `SessionInner::persistence`, the controller's. -/
  ctrl : PersistenceOptions
  /-- `AuthoritativeSession::persistence`, the shared copy. -/
  shared : PersistenceOptions
  /-- The `SetPersistence` commands in the channel, each with its call. -/
  queue : List (Nat × PersistenceOptions)
  calls : Nat → Option Call
  nextCall : Nat
  /-- The newest command sent of those the controller takes. -/
  newest : Option Nat
  latest : PersistenceOptions

/-- The session as it is opened: both copies are the opener's options. -/
def World.opened (options : PersistenceOptions) : World :=
  { running := true, ctrl := options, shared := options, queue := [], calls := fun _ => none
    nextCall := 0, newest := none, latest := options }

/-- `Session::persistence`. -/
def World.persistence (w : World) : PersistenceOptions := w.shared

/-- The options the controller tees with. -/
def World.tees (w : World) : PersistenceOptions := w.ctrl

/-! ### The steps -/

inductive Action
  /-- A handle calls `set_persistence`. -/
  | call (options : PersistenceOptions)
  /-- The call's command goes into the channel, or finds it closed. -/
  | send (c : Nat)
  /-- The controller takes the next command. -/
  | handle
  /-- The caller wakes to the answer, or to the end of the controller. -/
  | wake (c : Nat)
  /-- The caller is cancelled. -/
  | cancel (c : Nat)
  /-- The controller exits. -/
  | exit
  deriving DecidableEq, Repr

def World.setCall (w : World) (c : Nat) (call : Option Call) : World :=
  { w with calls := Function.update w.calls c call }

/-- The command is sent; the ghosts follow it if the controller will take it. -/
def World.sent (env : Env) (w : World) (c : Nat) (options : PersistenceOptions) : World :=
  let w' := { w.setCall c (some (.waiting options)) with queue := w.queue ++ [(c, options)] }
  match applyPersistence env options with
  | .ok _ => { w' with newest := some c, latest := options }
  | .error _ => w'

/-- The answer, to a caller that still waits for it. -/
def World.reply (w : World) (c : Nat) (options : PersistenceOptions) (res : Except Error Unit) :
    World :=
  match w.calls c with
  | some (.waiting _) => w.setCall c (some (.replied options res))
  | _ => w

def step (env : Env) (w : World) : Action → Option World
  | .call options =>
      some { w.setCall w.nextCall (some (.starting options)) with nextCall := w.nextCall + 1 }
  | .send c =>
      match w.calls c with
      | some (.starting options) =>
          if w.running = false then some (w.setCall c none)
          else if w.queue.length < env.capacity then some (w.sent env c options)
          else none
      | _ => none
  | .handle =>
      if w.running then
        match w.queue with
        | [] => none
        | (c, options) :: rest =>
            match applyPersistence env options with
            | .ok _ => some ({ w with queue := rest, ctrl := options }.reply c options (.ok ()))
            | .error e => some ({ w with queue := rest }.reply c options (.error e))
      else none
  | .wake c =>
      match w.calls c with
      | some (.replied options (.ok _)) => some { w.setCall c none with shared := options }
      | some (.replied _ (.error _)) => some (w.setCall c none)
      | some (.waiting _) => if w.running then none else some (w.setCall c none)
      | _ => none
  | .cancel c => if (w.calls c).isSome then some (w.setCall c none) else none
  | .exit => if w.running then some { w with running := false, queue := [] } else none

/-! ### Agreement of the copies -/

/-- While the controller runs and no call is pending, the two copies are one. -/
def Agrees (w : World) : Prop :=
  w.running = true → (∀ c, w.calls c = none) → w.persistence = w.tees

/-- The caller of the newest command has not returned. -/
def World.newestPending (w : World) : Bool :=
  match w.newest with
  | some n => (w.calls n).isSome
  | none => false

/-- No caller updates the copy after the newest command's has returned, but with the same
options; and the newest command's caller is not cancelled, unless it was answered and the copy
has its options already. -/
def kept (w : World) : Action → Bool
  | .wake c =>
      match w.calls c with
      | some (.replied options (.ok _)) => w.newestPending || options = w.latest
      | _ => true
  | .cancel c =>
      w.newest ≠ some c ||
        match w.calls c with
        | some (.replied _ _) => w.shared = w.latest
        | _ => false
  | _ => true

/-! ### The invariant -/

/-- The controller takes the command's options. -/
def taken (env : Env) (e : Nat × PersistenceOptions) : Bool :=
  match applyPersistence env e.2 with
  | .ok _ => true
  | .error _ => false

/-- The newest command that the controller takes is the last of those in the channel, and its
caller waits; once none is in the channel, the controller has its options, and its caller, if
it has not returned, has its answer; and once its caller has returned, so has the copy. -/
structure Inv (env : Env) (w : World) : Prop where
  fresh : ∀ c, w.nextCall ≤ c → w.calls c = none
  queued : ∀ e ∈ w.queue, e.1 < w.nextCall
    ∧ (w.calls e.1 = none ∨ w.calls e.1 = some (.waiting e.2))
  distinct : (w.queue.map Prod.fst).Nodup
  newest_lt : ∀ n, w.newest = some n → n < w.nextCall
  last : ∀ e, (w.queue.filter (taken env)).getLast? = some e →
    w.newest = some e.1 ∧ w.latest = e.2 ∧ w.calls e.1 = some (.waiting e.2)
  settled : w.queue.filter (taken env) = [] → w.ctrl = w.latest
    ∧ ∀ n call, w.newest = some n → w.calls n = some call → call = .replied w.latest (.ok ())
  returned : (∀ n, w.newest = some n → w.calls n = none) → w.shared = w.latest

theorem inv_opened (env : Env) (options : PersistenceOptions) : Inv env (.opened options) where
  fresh := fun _ _ => rfl
  queued := fun e he => absurd he List.not_mem_nil
  distinct := List.nodup_nil
  newest_lt := fun n hn => by cases hn
  last := fun e he => by cases he
  settled := fun _ => ⟨rfl, fun n call hn _ => by cases hn⟩
  returned := fun _ => rfl

/-- Unless the newest command's caller waits, none in the channel is taken. -/
theorem Inv.none_taken {env : Env} {w : World} (h : Inv env w)
    (hanswered : ∀ n options, w.newest = some n → w.calls n ≠ some (.waiting options)) :
    w.queue.filter (taken env) = [] := by
  rw [← List.getLast?_eq_none_iff]
  cases hlast : (w.queue.filter (taken env)).getLast? with
  | none => rfl
  | some e =>
      obtain ⟨hn, -, hwaits⟩ := h.last e hlast
      exact absurd hwaits (hanswered e.1 e.2 hn)

theorem Inv.agrees {env : Env} {w : World} (h : Inv env w) : Agrees w := by
  intro _ hidle
  have hnil : w.queue.filter (taken env) = [] := h.none_taken fun n options _ hwaits => by
    rw [hidle] at hwaits
    cases hwaits
  exact (h.returned fun n _ => hidle n).trans (h.settled hnil).1.symm

@[simp] theorem World.setCall_self (w : World) (c : Nat) (call : Option Call) :
    (w.setCall c call).calls c = call :=
  Function.update_self ..

theorem World.setCall_of_ne (w : World) {c d : Nat} (call : Option Call) (h : d ≠ c) :
    (w.setCall c call).calls d = w.calls d :=
  Function.update_of_ne h ..

/-- A call that is not under way any more, neither queued nor the newest unanswered, can go. -/
theorem Inv.drop {env : Env} {w : World} (h : Inv env w) {c : Nat} {shared : PersistenceOptions}
    (hnewest : w.newest = some c → w.queue.filter (taken env) = [] ∧ shared = w.latest)
    (hshared : (∀ n, w.newest = some n → w.calls n = none) → shared = w.latest) :
    Inv env { w.setCall c none with shared := shared } := by
  have hcalls : ∀ d, (w.setCall c none).calls d = none
      ∨ (w.setCall c none).calls d = w.calls d := by
    intro d
    by_cases hd : d = c
    · subst hd
      exact .inl (w.setCall_self _ _)
    · exact .inr (w.setCall_of_ne _ hd)
  refine ⟨fun d hd => ?_, fun e he => ⟨(h.queued e he).1, ?_⟩, h.distinct, h.newest_lt,
    fun e he => ?_, fun hnone => ⟨(h.settled hnone).1, fun n call hn hcall => ?_⟩, fun hidle => ?_⟩
  · rcases hcalls d with hnone | heq
    · exact hnone
    · exact heq.trans (h.fresh d hd)
  · rcases hcalls e.1 with hnone | heq
    · exact .inl hnone
    · exact (h.queued e he).2.imp heq.trans heq.trans
  · obtain ⟨hn, hl, hwaits⟩ := h.last e he
    refine ⟨hn, hl, ?_⟩
    have hne : e.1 ≠ c := by
      rintro rfl
      have hlast : (w.queue.filter (taken env)).getLast? = some e := he
      rw [(hnewest hn).1] at hlast
      cases hlast
    exact (w.setCall_of_ne _ hne).trans hwaits
  · rcases hcalls n with hgone | heq
    · rw [hgone] at hcall
      cases hcall
    · exact (h.settled hnone).2 n call hn (heq ▸ hcall)
  · by_cases hc : w.newest = some c
    · exact (hnewest hc).2
    · refine hshared fun n hn => ?_
      have hne : n ≠ c := by
        rintro rfl
        exact hc hn
      exact (w.setCall_of_ne _ hne).symm.trans (hidle n hn)

theorem Inv.call {env : Env} {w : World} (h : Inv env w) (options : PersistenceOptions) :
    Inv env { w.setCall w.nextCall (some (.starting options)) with
      nextCall := w.nextCall + 1 } := by
  have hother : ∀ d, d < w.nextCall →
      (w.setCall w.nextCall (some (.starting options))).calls d = w.calls d := fun d hd =>
    w.setCall_of_ne _ (Nat.ne_of_lt hd)
  refine ⟨fun d hd => ?_, fun e he => ?_, h.distinct, fun n hn => ?_, fun e he => ?_,
    fun hnone => ⟨(h.settled hnone).1, fun n call hn hcall => ?_⟩, fun hidle => ?_⟩
  · have hlt : w.nextCall < d := hd
    exact (w.setCall_of_ne _ (Nat.ne_of_gt hlt)).trans (h.fresh d hlt.le)
  · obtain ⟨hlt, hwaits⟩ := h.queued e he
    exact ⟨Nat.lt_succ_of_lt hlt, by rw [← hother e.1 hlt] at hwaits; exact hwaits⟩
  · exact Nat.lt_succ_of_lt (h.newest_lt n hn)
  · obtain ⟨hn, hl, hwaits⟩ := h.last e he
    exact ⟨hn, hl, (hother e.1 (h.newest_lt e.1 hn)).trans hwaits⟩
  · exact (h.settled hnone).2 n call hn ((hother n (h.newest_lt n hn)).symm.trans hcall)
  · exact h.returned fun n hn => (hother n (h.newest_lt n hn)).symm.trans (hidle n hn)

/-- A call that starts is not the newest sent. -/
theorem Inv.newest_ne {env : Env} {w : World} (h : Inv env w) {c n : Nat}
    {options : PersistenceOptions} (hc : w.calls c = some (.starting options))
    (hn : w.newest = some n) : n ≠ c := by
  rintro rfl
  have hnil : w.queue.filter (taken env) = [] := h.none_taken fun m options' hm hwaits => by
    obtain rfl := Option.some.inj (hn.symm.trans hm)
    cases hc.symm.trans hwaits
  cases (h.settled hnil).2 n _ hn hc

theorem Inv.send {env : Env} {w : World} (h : Inv env w) {c : Nat} {options : PersistenceOptions}
    (hc : w.calls c = some (.starting options)) : Inv env (w.sent env c options) := by
  have hlt : c < w.nextCall := by
    by_contra hge
    rw [h.fresh c (Nat.le_of_not_lt hge)] at hc
    cases hc
  have hqueued : ∀ e ∈ w.queue, e.1 ≠ c := by
    rintro e he rfl
    rcases (h.queued e he).2 with hnone | hwaits
    · rw [hc] at hnone
      cases hnone
    · rw [hc] at hwaits
      cases hwaits
  have hself := w.setCall_self c (some (.waiting options))
  have hother : ∀ d, d ≠ c → (w.setCall c (some (.waiting options))).calls d = w.calls d :=
    fun d hd => w.setCall_of_ne _ hd
  have hfresh : ∀ d, w.nextCall ≤ d → (w.setCall c (some (.waiting options))).calls d = none :=
    fun d hd => (hother d (by omega)).trans (h.fresh d hd)
  have hqueue : ∀ e ∈ w.queue ++ [(c, options)], e.1 < w.nextCall
      ∧ ((w.setCall c (some (.waiting options))).calls e.1 = none
        ∨ (w.setCall c (some (.waiting options))).calls e.1 = some (.waiting e.2)) := by
    intro e he
    rcases List.mem_append.mp he with he | he
    · rw [hother e.1 (hqueued e he)]
      exact h.queued e he
    · rw [List.mem_singleton.mp he]
      exact ⟨hlt, .inr hself⟩
  have hdistinct : ((w.queue ++ [(c, options)]).map Prod.fst).Nodup := by
    rw [List.map_append, List.nodup_append]
    refine ⟨h.distinct, List.nodup_singleton c, fun a ha b hb => ?_⟩
    obtain ⟨e, he, rfl⟩ := List.mem_map.mp ha
    rw [List.mem_singleton.mp hb]
    exact hqueued e he
  rw [World.sent]
  cases happly : applyPersistence env options with
  | ok =>
      -- a call the controller will take: it becomes the newest, and the last of the queue is it
      have htaken : taken env (c, options) = true := by rw [taken, happly]
      have hlast : ((w.queue ++ [(c, options)]).filter (taken env)).getLast?
          = some (c, options) := by
        rw [List.filter_append, List.filter_cons_of_pos htaken, List.filter_nil,
          List.getLast?_append, List.getLast?_singleton]
        rfl
      refine ⟨hfresh, hqueue, hdistinct, fun n hn => ?_, fun e he => ?_, fun hnone => ?_,
        fun hidle => ?_⟩
      · cases hn
        exact hlt
      · cases hlast.symm.trans he
        exact ⟨rfl, rfl, hself⟩
      · have hnil : (w.queue ++ [(c, options)]).filter (taken env) = [] := hnone
        rw [hnil] at hlast
        cases hlast
      · have hgone := hself.symm.trans (hidle c rfl)
        cases hgone
  | error err =>
      have htaken : taken env (c, options) = false := by rw [taken, happly]
      -- a call it will refuse changes nothing of what is to be taken
      have hfilter : (w.queue ++ [(c, options)]).filter (taken env)
          = w.queue.filter (taken env) := by
        rw [List.filter_append, List.filter_cons_of_neg (by rw [htaken]; exact Bool.false_ne_true),
          List.filter_nil, List.append_nil]
      refine ⟨hfresh, hqueue, hdistinct, h.newest_lt, fun e he => ?_, fun hnone => ?_,
        fun hidle => ?_⟩
      · obtain ⟨hn, hl, hwaits⟩ := h.last e (hfilter ▸ he)
        exact ⟨hn, hl, (hother e.1 (h.newest_ne hc hn)).trans hwaits⟩
      · obtain ⟨hctrl, hreplied⟩ := h.settled (hfilter ▸ hnone)
        exact ⟨hctrl, fun n call hn hcall =>
          hreplied n call hn ((hother n (h.newest_ne hc hn)).symm.trans hcall)⟩
      · exact h.returned fun n hn => (hother n (h.newest_ne hc hn)).symm.trans (hidle n hn)

/-- An answer reaches the call, if its caller still waits, and changes nothing else. -/
theorem World.reply_eq (w : World) {c : Nat} {options : PersistenceOptions}
    (res : Except Error Unit) (hc : w.calls c = none ∨ w.calls c = some (.waiting options)) :
    ∃ call : Option Call, w.reply c options res = w.setCall c call
      ∧ (call = none ↔ w.calls c = none) ∧ ∀ x, call = some x → x = .replied options res := by
  rcases hc with hnone | hwaits
  · refine ⟨none, ?_, by simp [hnone], fun x hx => by cases hx⟩
    have hsame : w.setCall c none = w := by
      rw [World.setCall, ← hnone, Function.update_eq_self]
    rw [World.reply, hnone, hsame]
  · refine ⟨some (.replied options res), ?_, by simp [hwaits], fun x hx => by cases hx; rfl⟩
    rw [World.reply, hwaits]

/-- The controller takes a command: its options, if it takes them, become its own. -/
theorem Inv.handle {env : Env} {w : World} (h : Inv env w) {c : Nat}
    {options ctrl : PersistenceOptions} {rest : List (Nat × PersistenceOptions)}
    {res : Except Error Unit} (hqueue : w.queue = (c, options) :: rest)
    (hres : applyPersistence env options = res)
    (hctrl : ctrl = if taken env (c, options) then options else w.ctrl) :
    Inv env ({ w with queue := rest, ctrl := ctrl }.reply c options res) := by
  have hhead : (c, options) ∈ w.queue := by
    rw [hqueue]
    exact List.mem_cons_self
  obtain ⟨hlt, hcall⟩ := h.queued _ hhead
  obtain ⟨call, hreply, hnone, hsome⟩ :=
    World.reply_eq { w with queue := rest, ctrl := ctrl } res hcall
  have hdistinct := h.distinct
  rw [hqueue, List.map_cons, List.nodup_cons] at hdistinct
  have hrest : ∀ e ∈ rest, e.1 ≠ c := fun e he heq =>
    hdistinct.1 (List.mem_map.mpr ⟨e, he, heq⟩)
  have hself : (w.setCall c call).calls c = call := w.setCall_self c call
  have hother : ∀ d, d ≠ c → (w.setCall c call).calls d = w.calls d := fun d hd =>
    w.setCall_of_ne call hd
  have hgone : ∀ d, (w.setCall c call).calls d = none ↔ w.calls d = none := by
    intro d
    by_cases hd : d = c
    · subst hd
      rw [hself]
      exact hnone
    · rw [hother d hd]
  rw [hreply]
  refine ⟨fun d hd => (hgone d).mpr (h.fresh d hd), fun e he => ?_, hdistinct.2, h.newest_lt,
    fun e he => ?_, fun hnil => ?_, fun hidle => h.returned fun n hn => (hgone n).mp (hidle n hn)⟩
  · have hmem : e ∈ w.queue := by
      rw [hqueue]
      exact List.mem_cons_of_mem _ he
    have hwaits := (h.queued e hmem)
    rw [← hother e.1 (hrest e he)] at hwaits
    exact hwaits
  · -- The last command of those that remain was the last before.
    have hmem : e ∈ rest := List.mem_of_mem_filter (List.mem_of_getLast? he)
    have hlast : (w.queue.filter (taken env)).getLast? = some e := by
      have he' : (rest.filter (taken env)).getLast? = some e := he
      rw [hqueue, List.filter_cons]
      split_ifs
      · rw [List.getLast?_cons, he']
        rfl
      · exact he'
    obtain ⟨hn, hl, hwaits⟩ := h.last e hlast
    exact ⟨hn, hl, (hother e.1 (hrest e hmem)).trans hwaits⟩
  · have hnil' : rest.filter (taken env) = [] := hnil
    cases res with
    | ok =>
        -- The command was the last that the controller takes, so the newest.
        have htaken : taken env (c, options) = true := by rw [taken, hres]
        have hlast : (w.queue.filter (taken env)).getLast? = some (c, options) := by
          rw [hqueue, List.filter_cons_of_pos htaken, hnil']
          rfl
        obtain ⟨hn, hl, -⟩ := h.last _ hlast
        rw [if_pos htaken] at hctrl
        refine ⟨hctrl.trans hl.symm, fun n x hn' hx => ?_⟩
        obtain rfl := Option.some.inj (hn.symm.trans hn')
        have hx' : call = some x := hself.symm.trans hx
        exact (hsome x hx').trans (congrArg (fun o => Call.replied o (.ok ())) hl.symm)
    | error err =>
        have htaken : taken env (c, options) = false := by rw [taken, hres]
        have hsame : w.queue.filter (taken env) = [] := by
          rw [hqueue, List.filter_cons_of_neg (by rw [htaken]; exact Bool.false_ne_true), hnil']
        obtain ⟨hctrl', hreplied⟩ := h.settled hsame
        rw [if_neg (by rw [htaken]; exact Bool.false_ne_true)] at hctrl
        refine ⟨hctrl.trans hctrl', fun n x hn hx => ?_⟩
        have hne : n ≠ c := by
          rintro rfl
          rcases hcall with hcall | hcall
          · have hx' := hx.symm.trans ((hgone n).mpr hcall)
            cases hx'
          · have hx' := hreplied n _ hn hcall
            cases hx'
        exact hreplied n x hn ((hother n hne).symm.trans hx)

theorem newestPending_iff {w : World} :
    w.newestPending = true ↔ ∃ n, w.newest = some n ∧ w.calls n ≠ none := by
  rw [World.newestPending]
  cases hn : w.newest with
  | none => simp
  | some n => simp [Option.isSome_iff_ne_none]

/-- Once the newest command is answered, none in the channel is taken. -/
theorem Inv.answered {env : Env} {w : World} (h : Inv env w) {c : Nat}
    {options : PersistenceOptions} {res : Except Error Unit} (hn : w.newest = some c)
    (hc : w.calls c = some (.replied options res)) :
    w.queue.filter (taken env) = [] ∧ Call.replied options res = .replied w.latest (.ok ()) := by
  have hnil : w.queue.filter (taken env) = [] := h.none_taken fun m options' hm hwaits => by
    obtain rfl := Option.some.inj (hn.symm.trans hm)
    cases hc.symm.trans hwaits
  exact ⟨hnil, (h.settled hnil).2 c _ hn hc⟩

/-- A caller wakes to its answer, or is gone: the copy is the newest's in the end. -/
theorem Inv.wake {env : Env} {w : World} (h : Inv env w) {c : Nat} {options : PersistenceOptions}
    {u : Unit} (hc : w.calls c = some (.replied options (.ok u)))
    (hkept : w.newestPending = true ∨ options = w.latest) :
    Inv env { w.setCall c none with shared := options } := by
  refine h.drop (fun hn => ?_) fun hidle => ?_
  · obtain ⟨hnil, hcall⟩ := h.answered hn hc
    exact ⟨hnil, (Call.replied.inj hcall).1⟩
  · rcases hkept with hpending | heq
    · obtain ⟨n, hn, hcall⟩ := newestPending_iff.mp hpending
      exact absurd (hidle n hn) hcall
    · exact heq

/-- What does not pend as the newest goes without a trace. -/
theorem Inv.gone {env : Env} {w : World} (h : Inv env w) {c : Nat}
    (hn : w.newest = some c → w.queue.filter (taken env) = [] ∧ w.shared = w.latest) :
    Inv env (w.setCall c none) :=
  h.drop hn h.returned

/-- While the controller runs, a step that is kept keeps the invariant. -/
theorem inv_step {env : Env} {w w' : World} {a : Action} (h : w.running = true → Inv env w)
    (hkept : kept w a = true) (hstep : step env w a = some w') :
    w'.running = true → Inv env w' := by
  intro hrun
  cases a with
  | call options =>
      cases hstep
      exact (h hrun).call options
  | send c =>
      simp only [step] at hstep
      split at hstep
      -- the reply is dropped only where the controller has exited
      · rename_i options hc
        split_ifs at hstep with hstopped hroom
        · cases hstep
          have hrun' : w.running = true := hrun
          rw [hstopped] at hrun'
          cases hrun'
        · cases hstep
          have hrun' : w.running = true := Bool.eq_true_of_not_eq_false hstopped
          exact (h hrun').send hc
      · cases hstep
  | handle =>
      simp only [step] at hstep
      split_ifs at hstep with hrun'
      split at hstep
      · cases hstep
      · rename_i c options rest hqueue
        split at hstep
        · rename_i u hres
          cases hstep
          exact (h hrun').handle hqueue hres (by rw [taken, hres]; rfl)
        · rename_i e hres
          cases hstep
          exact (h hrun').handle hqueue hres (by rw [taken, hres]; rfl)
  | wake c =>
      simp only [step] at hstep
      simp only [kept] at hkept
      split at hstep
      · rename_i options u hc
        cases hstep
        rw [hc] at hkept
        exact (h hrun).wake hc (by simpa using hkept)
      -- a refused call leaves the options alone, and the newest is never refused
      · rename_i options e hc
        cases hstep
        refine (h hrun).gone fun hn => ?_
        obtain ⟨-, hcall⟩ := (h hrun).answered hn hc
        cases hcall
      · rename_i options hc
        split_ifs at hstep with hrun'
        cases hstep
        exact absurd hrun hrun'
      · cases hstep
  | cancel c =>
      simp only [step] at hstep
      simp only [kept] at hkept
      split_ifs at hstep with hsome
      cases hstep
      refine (h hrun).gone fun hn => ?_
      rw [hn] at hkept
      split at hkept
      · rename_i options res hc
        obtain ⟨hnil, -⟩ := (h hrun).answered hn hc
        exact ⟨hnil, by simpa using hkept⟩
      · simp at hkept
  | exit =>
      simp only [step] at hstep
      split_ifs at hstep
      cases hstep
      cases hrun

/-- In every run in which no caller updates the copy after the newest command's has, but with
the same options, and in which the newest command's caller is not cancelled before the copy
has its options, the two copies agree whenever no call is pending. -/
theorem options_agree (env : Env) (options : PersistenceOptions) {as : List Action} {w : World}
    (hkept : Meets (step env) (fun w a => kept w a = true) (.opened options) as)
    (hrun : run (step env) (.opened options) as = some w) : Agrees w := by
  have hinv : w.running = true → Inv env w :=
    invariant_of_meets (P := fun w => w.running = true → Inv env w)
      (fun h hkept hstep => inv_step h hkept hstep) (fun _ => inv_opened env options) hkept hrun
  intro hrunning
  exact (hinv hrunning).agrees hrunning

/-- A tap log, no cache, and room for eight commands. -/
def tapOnly : Env := ⟨false, true, 8⟩

def tapped : PersistenceOptions := { PersistenceOptions.none with writeTapLog := true }

/-- A caller that turns the tap log on, and one that asks for the cache there is not. -/
theorem options_agree_tapped :
    ∃ w, run (step tapOnly) (.opened .none)
        [.call tapped, .call .cached, .send 0, .send 1, .handle, .handle, .wake 1, .wake 0] = some w
      ∧ Agrees w := by
  obtain ⟨w, hrun⟩ : ∃ w, run (step tapOnly) (.opened .none)
      [.call tapped, .call .cached, .send 0, .send 1, .handle, .handle, .wake 1, .wake 0]
        = some w := ⟨_, rfl⟩
  exact ⟨w, hrun, options_agree tapOnly .none (by decide +kernel) hrun⟩

/-- The caller whose command came first wakes last: every handle reads that the session is
teed, and it is not. -/
theorem wake_order_not_agrees :
    ∃ w, run (step tapOnly) (.opened .none)
        [.call tapped, .call .none, .send 0, .send 1, .handle, .handle, .wake 1, .wake 0] = some w
      ∧ ¬ Agrees w := by
  refine ⟨_, rfl, fun h => ?_⟩
  have hcopies := h rfl fun c => ?_
  · exact absurd hcopies (by decide +kernel)
  · rcases c with _ | _ | c <;> rfl

end SharedOptions

end Datamancer
