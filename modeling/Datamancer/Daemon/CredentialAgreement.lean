import Datamancer.Lib.ActionSystem
import Datamancer.Daemon.CredentialHub

/-!
# Datamancer.Daemon.CredentialAgreement

The credential store and the settings of the running providers. What is loaded under the
file's mutex is what is there when it is saved, so the store is the replay of the writes that
succeeded; a provider's lock keeps its writes and their hot applications in one order, so its
watch has what was set last (`credential_agreement`).
-/

namespace Datamancer

open ActionSystem WriteLog

namespace CredentialHub

variable {w₀ w w' : World} {a : Action} {r : RequestId} {op : Op}
  {log written : List (Write String ProviderCredentials)}

/-! ### Agreement at rest -/

def RequestState.Pending (op : Op) : RequestState → Prop
  | waiting op' | queued op' | loading op' | saving op' _ | stored op' _ => op' = op
  | fresh | done _ _ => False

/-- No set for the provider is pending. -/
def World.Settled (w : World) (p : String) : Prop :=
  ∀ r creds, ¬ (w.request r).Pending (.set p creds)

/-- The successful sets and clears of a run, in the order of their store writes. -/
def storeLog : World → List Action → List (Write String ProviderCredentials) :=
  logOf World.step World.writes

/-- The store and the watches after a run. -/
structure Agreeing (w₀ : World) (acts : List Action) (w : World) : Prop where
  /-- The store is the fold of the writes. -/
  stored : w.file.entries = replay w₀.file.entries (storeLog w₀ acts)
  /-- A provider runs with what was set last, or else with its seed. -/
  running : ∀ p, w.Settled p →
    w.running p = ((lastPut p (storeLog w₀ acts)).bind toAlpaca).or (w₀.running p)
  /-- After a set the running and the stored credentials are the same, up to a clear. -/
  following : ∀ p creds before after,
    storeLog w₀ acts = before ++ ⟨p, some creds⟩ :: after →
    (∀ u ∈ after, u.key = p → u.value ≠ none) → w.Settled p →
    (w.running p).isSome ∧ w.running p = (w.file.entries p).bind toAlpaca
  /-- An operation that is answered with an error has changed neither. -/
  failed : ∀ before a after s s', acts = before ++ a :: after →
    run World.step w₀ before = some s → s.step a = some s' →
    ∀ op code, w.request a.owner = .done op (.error code) →
      s'.file.entries = s.file.entries ∧ s'.senders = s.senders
  /-- No operation changes another provider's entry or watch. -/
  framed : ∀ before a after s s', acts = before ++ a :: after →
    run World.step w₀ before = some s → s.step a = some s' →
    ∀ op p, (s'.request a.owner).operation = some op → p ≠ op.provider →
      s'.file.entries p = s.file.entries p ∧ s'.senders p = s.senders p

/-! ### Locks -/

def RequestState.HoldsFile : RequestState → Prop
  | loading _ | saving _ _ => True
  | fresh | waiting _ | queued _ | stored _ _ | done _ _ => False

def RequestState.HoldsLock (op : Op) : RequestState → Prop
  | queued op' | loading op' | saving op' _ | stored op' _ => op' = op ∧ op.Locks
  | fresh | waiting _ | done _ _ => False

/-- Whoever holds a lock is the one it names. -/
structure World.Locked (w : World) : Prop where
  mutex : ∀ r, (w.request r).HoldsFile → w.fileLock = some r
  lock : ∀ r op, (w.request r).HoldsLock op → w.lock op.provider = some r

namespace World

@[simp] theorem setRequest_request (w : World) (st : RequestState) (t : RequestId) :
    (w.setRequest r st).request t = if t = r then st else w.request t := by
  simp [setRequest, Function.update_apply]

@[simp] theorem endTask_request (w : World) (res) (t : RequestId) :
    (w.endTask r op res).request t = if t = r then .stored op res else w.request t :=
  setRequest_request w _ t

@[simp] theorem unlock_request (w : World) (op : Op) : (w.unlock op).request = w.request := by
  cases op <;> rfl

@[simp] theorem hotApply_request (w : World) (op : Op) (res) :
    (w.hotApply op res).request = w.request := by
  cases op <;> cases res <;> rfl

theorem Locked.move (h : w.Locked) (st : RequestState)
    (hrequest : w'.request = Function.update w.request r st)
    (hfile : st.HoldsFile → w'.fileLock = some r)
    (hfiles : ∀ t, t ≠ r → w.fileLock = some t → w'.fileLock = some t)
    (hlock : ∀ op : Op, st.HoldsLock op → w'.lock op.provider = some r)
    (hlocks : ∀ t (op : Op), t ≠ r → w.lock op.provider = some t → w'.lock op.provider = some t) :
    w'.Locked := by
  refine ⟨fun t ht => ?_, fun t op ht => ?_⟩
  · by_cases htr : t = r
    · subst htr
      rw [hrequest, Function.update_self] at ht
      exact hfile ht
    · rw [hrequest, Function.update_of_ne htr] at ht
      exact hfiles t htr (h.mutex t ht)
  · by_cases htr : t = r
    · subst htr
      rw [hrequest, Function.update_self] at ht
      exact hlock op ht
    · rw [hrequest, Function.update_of_ne htr] at ht
      exact hlocks t op htr (h.lock t op ht)

/-- A task that ends gives the mutex back. -/
theorem Locked.endTask (h : w.Locked) (op : Op) (res : Except TaskError _)
    (hr : (w.request r).HoldsFile)
    (hlock : ∀ op', (RequestState.stored op res).HoldsLock op' → (w.request r).HoldsLock op') :
    (w.endTask r op res).Locked := by
  refine h.move _ rfl (fun hf => hf.elim) (fun t ht hl => ?_)
    (fun op' hop => h.lock r op' (hlock op' hop)) fun _ _ _ => id
  cases (h.mutex r hr).symm.trans hl
  exact absurd rfl ht

/-- A request is refused, or its provider is known and what it sets fits. -/
theorem admission_cases (w : World) (op : Op) :
    (∃ code, w.admission op = .done op (.error code)) ∨
    ((w.senders op.provider).isSome ∧ ∀ p creds, op = .set p creds → (toAlpaca creds).isSome) ∧
      (w.admission op = .waiting op ∨ w.admission op = .queued op ∧ ¬ op.Locks) := by
  cases op with
  | set p creds =>
      simp only [admission]
      split_ifs with hknown hfits
      · exact .inl ⟨_, rfl⟩
      · exact .inl ⟨_, rfl⟩
      · refine .inr ⟨⟨by simpa [Option.isSome_iff_ne_none, Op.provider] using hknown, ?_⟩, .inl rfl⟩
        intro p' creds' heq
        cases heq
        simpa [Option.isSome_iff_ne_none] using hfits
  | get p =>
      simp only [admission]
      split_ifs with hknown
      · exact .inl ⟨_, rfl⟩
      · refine .inr ⟨⟨by simpa [Option.isSome_iff_ne_none, Op.provider] using hknown, ?_⟩,
          .inr ⟨rfl, id⟩⟩
        exact fun p' creds' heq => by cases heq
  | clear p =>
      simp only [admission]
      split_ifs with hknown
      · exact .inl ⟨_, rfl⟩
      · refine .inr ⟨⟨by simpa [Option.isSome_iff_ne_none, Op.provider] using hknown, ?_⟩, .inl rfl⟩
        exact fun p' creds' heq => by cases heq

@[simp] theorem hotApply_lock (w : World) (op : Op) (res) :
    (w.hotApply op res).lock = w.lock ∧ (w.hotApply op res).fileLock = w.fileLock
      ∧ (w.hotApply op res).file = w.file := by
  cases op <;> cases res <;> exact ⟨rfl, rfl, rfl⟩

@[simp] theorem unlock_fileLock (w : World) (op : Op) :
    (w.unlock op).fileLock = w.fileLock ∧ (w.unlock op).file = w.file
      ∧ (w.unlock op).senders = w.senders := by
  cases op <;> exact ⟨rfl, rfl, rfl⟩

/-- Only the operation's own lock is given back. -/
theorem unlock_lock_of_ne {op : Op} {q : String} (h : op.Locks → q ≠ op.provider) :
    (w.unlock op).lock q = w.lock q := by
  cases op with
  | get p => rfl
  | set p creds => exact Function.update_of_ne (h trivial) _ _
  | clear p => exact Function.update_of_ne (h trivial) _ _

theorem Locked.step (h : w.Locked) (hstep : Step w a written w') : w'.Locked := by
  cases hstep with
  | @request r op hr =>
      obtain ⟨code, hst⟩ | ⟨-, hst | ⟨hst, hfree⟩⟩ := w.admission_cases op
      all_goals
        rw [hst]
        refine h.move _ rfl (fun hf => hf.elim) (fun _ _ => id) (fun op' hop => ?_) fun _ _ _ => id
      · exact hop.elim
      · exact hop.elim
      · exact absurd (hop.1 ▸ hop.2) hfree
  | @grant r op hr hl =>
      refine h.move _ rfl (fun hf => hf.elim) (fun _ _ => id) (fun op' hop => ?_)
        fun t op' ht hlt => ?_
      · rw [← hop.1]
        exact Function.update_self _ _ _
      · by_cases hp : op'.provider = op.provider
        · cases hl.symm.trans (hp ▸ hlt)
        · exact (Function.update_of_ne hp _ _).trans hlt
  | @abort r op hr =>
      refine h.move _ rfl (fun hf => hf.elim) (fun _ _ => id) (fun op' hop => ?_) fun _ _ _ => id
      exact h.lock r op' (by rw [hr]; exact hop)
  | @enter r op hr hl =>
      refine h.move _ rfl (fun _ => rfl) (fun t _ hlt => ?_) (fun op' hop => ?_) fun _ _ _ => id
      · cases hl.symm.trans hlt
      · exact h.lock r op' (by rw [hr]; exact hop)
  | unread hr | unchanged hr =>
      exact h.endTask _ _ (by rw [hr]; trivial) fun op' hop => by rw [hr]; exact hop
  | @load r ok op map map' hr =>
      refine h.move _ rfl (fun _ => h.mutex r (by rw [hr]; trivial)) (fun _ _ => id)
        (fun op' hop => h.lock r op' (by rw [hr]; exact hop)) fun _ _ _ => id
  | @save r op map hr =>
      have hend := h.endTask (r := r) op (.ok none) (by rw [hr]; trivial)
        fun op' hop => by rw [hr]; exact hop
      exact ⟨hend.mutex, hend.lock⟩
  | unsaved hr =>
      exact h.endTask _ _ (by rw [hr]; trivial) fun op' hop => by rw [hr]; exact hop
  -- the lock of the provider is given back, and nobody else holds it
  | @resume r op res hr =>
      refine h.move (r := r) (.done op (op.reply res)) (by simp [setRequest])
        (fun hf => hf.elim) (fun _ _ => by simp [setRequest]) (fun op' hop => hop.elim)
        fun t op' ht hlt => ?_
      have hself : op.Locks → op'.provider ≠ op.provider := fun hlocks hp => by
        have hmine := h.lock r op (by rw [hr]; exact ⟨rfl, hlocks⟩)
        cases hmine.symm.trans (hp ▸ hlt)
        exact ht rfl
      show ((w.hotApply op res).unlock op).lock op'.provider = some t
      rw [unlock_lock_of_ne hself, (hotApply_lock w op res).1, hlt]

/-! ### Accepted operations -/

/-- A pending operation is of a known provider, and what it sets fits. -/
def Known (w : World) : Prop :=
  ∀ r op, (w.request r).Pending op → (w.senders op.provider).isSome
    ∧ ∀ p creds, op = .set p creds → (toAlpaca creds).isSome

theorem senders_step (hstep : Step w a written w') (p : String) :
    (w'.senders p).isSome = (w.senders p).isSome := by
  cases hstep with
  | @resume r op res hr =>
      show (((w.hotApply op res).unlock op).senders p).isSome = _
      rw [(unlock_fileLock _ op).2.2]
      cases op with
      | set q creds =>
          cases res with
          | error e => rfl
          | ok v =>
              by_cases hp : p = q
              · subst hp
                simp [hotApply]
              · simp [hotApply, Function.update_of_ne hp]
      | get q => rfl
      | clear q => rfl
  | _ => rfl

/-- A step moves one request, within its operation. -/
theorem pending_step {t : RequestId} (hstep : Step w a written w')
    (h : (w'.request t).Pending op) :
    (w.request t).Pending op ∨ (w.senders op.provider).isSome
      ∧ ∀ p creds, op = .set p creds → (toAlpaca creds).isSome := by
  by_cases htr : t = a.owner
  · subst htr
    cases hstep with
    | @request r op' hr =>
        have hnew : (w.admission op').Pending op := by simpa [Action.owner] using h
        obtain ⟨code, hst⟩ | ⟨hknown, hst⟩ := w.admission_cases op'
        · rw [hst] at hnew
          exact hnew.elim
        · have heq : op' = op := by
            rcases hst with hst | ⟨hst, -⟩ <;> rw [hst] at hnew <;> exact hnew
          exact .inr (heq ▸ hknown)
    | resume hr => simp [Action.owner, RequestState.Pending] at h
    | grant hr | abort hr | enter hr | unread hr | load hr | unchanged hr | save hr | unsaved hr =>
        refine .inl ?_
        simp only [Action.owner] at h ⊢
        rw [hr]
        simpa [RequestState.Pending] using h
  · refine .inl ?_
    cases hstep <;> simp_all [Action.owner]

/-- What has been put fits. -/
def Fits (log : List (Write String ProviderCredentials)) : Prop :=
  ∀ p creds, ⟨p, some creds⟩ ∈ log → (toAlpaca creds).isSome

theorem Fits.step (h : Fits log) (hknown : w.Known) (hstep : Step w a written w') :
    Fits (log ++ written) := by
  intro p creds hmem
  refine (List.mem_append.mp hmem).elim (h p creds) fun hnew => ?_
  have hwrite : ∀ {r op}, (w.request r).Pending op → ⟨p, some creds⟩ ∈ op.write →
      (toAlpaca creds).isSome := fun {r op} hpending hmem => by
    cases op with
    | set q creds' =>
        cases List.mem_singleton.mp hmem
        exact (hknown r _ hpending).2 p creds rfl
    | get q => exact absurd hmem List.not_mem_nil
    | clear q => cases List.mem_singleton.mp hmem
  cases hstep with
  | unchanged hr | save hr => exact hwrite (by rw [hr]; rfl) hnew
  | _ => exact absurd hnew List.not_mem_nil

theorem Known.step (h : w.Known) (hstep : Step w a written w') : w'.Known := by
  intro t op ht
  rw [senders_step hstep]
  exact (pending_step hstep ht).elim (h t op) id

/-! ### Store and watches -/

/-- The store and the watches of a state with the writes so far; between a set's store write
and its hot application the watch is behind. -/
structure Sound (w₀ : World) (log : List (Write String ProviderCredentials)) (w : World) :
    Prop where
  saves : ∀ r op map, w.request r = .saving op map → op.update w.file.entries = some map
  stored : w.file.entries = replay w₀.file.entries log
  running : ∀ p, (∀ r creds v, w.request r ≠ .stored (.set p creds) (.ok v)) →
    w.running p = ((lastPut p log).bind toAlpaca).or (w₀.running p)
  applying : ∀ r p creds v, w.request r = .stored (.set p creds) (.ok v) →
    lastPut p log = some creds

theorem load_ok {f : File} {ok : Bool} {map : Entries} (h : f.load ok = .ok map) :
    map = f.entries := by
  cases f <;> cases ok <;> cases h <;> rfl

theorem Sound.move (h : Sound w₀ log w) (st : RequestState)
    (hrequest : w'.request = Function.update w.request r st) (hfile : w'.file = w.file)
    (hsenders : w'.senders = w.senders)
    (hr : ∀ p creds v, w.request r ≠ .stored (.set p creds) (.ok v))
    (hsaves : ∀ op map, st = .saving op map → op.update w.file.entries = some map)
    (hst : ∀ p creds v, st ≠ .stored (.set p creds) (.ok v)) : Sound w₀ log w' := by
  have hself : w'.request r = st := by rw [hrequest, Function.update_self]
  have hother : ∀ t, t ≠ r → w'.request t = w.request t := fun t ht => by
    rw [hrequest, Function.update_of_ne ht]
  refine ⟨fun t op map ht => ?_, hfile ▸ h.stored, fun p hp => ?_, fun t p creds v ht => ?_⟩
  · rw [hfile]
    by_cases htr : t = r
    · exact hsaves op map (hself.symm.trans (htr ▸ ht))
    · exact h.saves t op map ((hother t htr).symm.trans ht)
  · have hsame : w'.running p = w.running p := by rw [World.running, World.running, hsenders]
    rw [hsame]
    refine h.running p fun t creds v ht => ?_
    by_cases htr : t = r
    · exact hr p creds v (htr ▸ ht)
    · exact hp t creds v ((hother t htr).trans ht)
  · by_cases htr : t = r
    · exact absurd (hself.symm.trans (htr ▸ ht)) (hst p creds v)
    · exact h.applying t p creds v ((hother t htr).symm.trans ht)

/-- The clear of what is not there. -/
theorem Sound.remove_absent (h : Sound w₀ log w) {p : String} (hp : w.file.entries p = none) :
    Sound w₀ (log ++ [⟨p, none⟩]) w where
  saves := h.saves
  stored := by rw [replay_concat, ← h.stored, apply_same hp]
  running := fun q hq => by rw [lastPut_concat_remove rfl, h.running q hq]
  applying := fun t q creds v ht => by rw [lastPut_concat_remove rfl, h.applying t q creds v ht]

/-- What is saved is the entries as they are, with the operation's write. -/
theorem update_eq {map map' : Entries} (h : op.update map = some map') :
    ∃ u, op.write = [u] ∧ u.key = op.provider ∧ map' = apply map u ∧ op.Locks := by
  cases op with
  | set p creds =>
      cases h
      exact ⟨_, rfl, rfl, rfl, trivial⟩
  | get p => cases h
  | clear p =>
      simp only [Op.update] at h
      split_ifs at h
      cases h
      exact ⟨_, rfl, rfl, rfl, trivial⟩

theorem Sound.save (h : Sound w₀ log w) (hl : w.Locked) {map : Entries}
    (hr : w.request r = .saving op map) :
    Sound w₀ (log ++ op.write) { w.endTask r op (.ok none) with file := .json map } := by
  obtain ⟨u, hwrite, hkey, hmap, hlocks⟩ := update_eq (h.saves r op map hr)
  have hmine : w.lock op.provider = some r := hl.lock r op (by rw [hr]; exact ⟨rfl, hlocks⟩)
  have hself : (w.endTask r op (.ok none)).request r = .stored op (.ok none) := by simp
  have hother : ∀ t, t ≠ r → (w.endTask r op (.ok none)).request t = w.request t := fun t ht => by
    simp [ht]
  rw [hwrite]
  refine ⟨fun t op' map' ht => ?_, ?_, fun p hp => ?_, fun t p creds v ht => ?_⟩
  -- two requests between load and save would both hold the file
  · have htr : t ≠ r := fun htr => by cases hself.symm.trans (htr ▸ ht)
    have hfile := hl.mutex t (by rw [(hother t htr).symm.trans ht]; trivial)
    cases (hl.mutex r (by rw [hr]; trivial)).symm.trans hfile
    exact absurd rfl htr
  · rw [replay_concat, ← h.stored, ← hmap]
    rfl
  · have hbefore : w.running p = ((lastPut p log).bind toAlpaca).or (w₀.running p) :=
      h.running p fun t creds v ht => by
        have htr : t ≠ r := fun htr => by cases hr.symm.trans (htr ▸ ht)
        exact hp t creds v ((hother t htr).trans ht)
    refine hbefore.trans ?_
    -- a put does not run before it is applied, and a remove leaves running what runs
    by_cases hpk : u.key = p
    · cases op with
      | set q creds => exact absurd hself (by rw [← hpk, hkey] at hp; exact hp r creds none)
      | get q => exact hlocks.elim
      | clear q =>
          cases hwrite
          rw [lastPut_concat_remove rfl]
    · rw [lastPut_concat_of_ne hpk]
  · by_cases htr : t = r
    · cases hself.symm.trans (htr ▸ ht)
      cases hwrite
      exact lastPut_concat_put rfl rfl
    · have hset := (hother t htr).symm.trans ht
      have hpk : u.key ≠ p := fun hpk => htr (by
        have hlock := hl.lock t (.set p creds) (by rw [hset]; exact ⟨rfl, trivial⟩)
        rw [hkey] at hpk
        cases hmine.symm.trans (hpk ▸ hlock)
        rfl)
      rw [lastPut_concat_of_ne hpk]
      exact h.applying t p creds v hset

/-- The hot application: the watch catches up. -/
theorem Sound.apply (h : Sound w₀ log w) (hknown : w.Known) {p : String}
    {creds : ProviderCredentials} {v} (hr : w.request r = .stored (.set p creds) (.ok v))
    (reply : Reply) :
    Sound w₀ log (((w.hotApply (.set p creds) (.ok v)).unlock (.set p creds)).setRequest r
      (.done (.set p creds) reply)) := by
  have hput := h.applying r p creds v hr
  obtain ⟨hsender, hfits⟩ := hknown r (.set p creds) (by rw [hr]; rfl)
  obtain ⟨sender, hsender⟩ := Option.isSome_iff_exists.mp hsender
  obtain ⟨alpaca, halpaca⟩ := Option.isSome_iff_exists.mp (hfits p creds rfl)
  refine ⟨fun t op map ht => ?_, h.stored, fun q hq => ?_, fun t q creds' v' ht => ?_⟩
  · have htr : t ≠ r := fun htr => by simp [htr] at ht
    exact h.saves t op map (by simpa [htr] using ht)
  · by_cases hqp : q = p
    · subst hqp
      have hrunning : World.running (w.hotApply (.set q creds) (.ok v)) q = some alpaca := by
        simp only [Op.provider] at hsender
        simp [World.running, hotApply, hsender, WatchChannel.send, halpaca]
      exact hrunning.trans (by rw [hput, Option.bind_some, halpaca, Option.some_or])
    · have hrunning : World.running (w.hotApply (.set p creds) (.ok v)) q = w.running q := by
        simp [World.running, hotApply, Function.update_of_ne hqp]
      refine hrunning.trans (h.running q fun t creds' v' ht => ?_)
      by_cases htr : t = r
      · cases hr.symm.trans (htr ▸ ht)
        exact hqp rfl
      · exact hq t creds' v' (by simpa [htr] using ht)
  · have htr : t ≠ r := fun htr => by simp [htr] at ht
    exact h.applying t q creds' v' (by simpa [htr] using ht)

theorem Sound.step (h : Sound w₀ log w) (hl : w.Locked) (hknown : w.Known)
    (hstep : Step w a written w') : Sound w₀ (log ++ written) w' := by
  cases hstep with
  | @request r op hr =>
      rw [List.append_nil]
      refine h.move _ rfl rfl rfl (by simp [hr]) ?_ ?_
      all_goals
        obtain ⟨code, hst⟩ | ⟨-, hst | ⟨hst, -⟩⟩ := w.admission_cases op <;> rw [hst] <;> simp
  | grant hr | abort hr | enter hr | unread hr | unsaved hr =>
      rw [List.append_nil]
      exact h.move _ rfl rfl rfl (by simp [hr]) (by simp) (by simp)
  | @load r ok op map map' hr hload hupdate =>
      rw [List.append_nil]
      refine h.move _ rfl rfl rfl (by simp [hr]) (fun op' map'' heq => ?_) (by simp)
      cases heq
      rw [← load_ok hload, hupdate]
  | @unchanged r ok op map hr hload hupdate =>
      have hmove : ∀ {log}, Sound w₀ log w → (∀ p creds, op ≠ .set p creds) →
          Sound w₀ log (w.endTask r op (.ok (op.found map))) := fun h hop =>
        h.move _ rfl rfl rfl (by simp [hr]) (by simp) fun p creds v heq => by
          cases heq
          exact hop p creds rfl
      cases op with
      | set p creds => cases hupdate
      | get p =>
          rw [Op.write, List.append_nil]
          exact hmove h (by simp)
      -- nothing was stored for the provider, so a remove in the log changes nothing
      | clear p =>
          refine hmove (h.remove_absent ?_) (by simp)
          rw [← load_ok hload]
          simpa [Op.update] using hupdate
  | save hr => exact h.save hl hr
  | @resume r op res hr =>
      rw [List.append_nil]
      have hmove : (∀ p creds v, w.request r ≠ .stored (.set p creds) (.ok v)) →
          w.hotApply op res = w →
          Sound w₀ log (((w.hotApply op res).unlock op).setRequest r (.done op (op.reply res))) :=
        fun hset hsame => by
          rw [hsame]
          exact h.move (.done op (op.reply res)) (by simp [setRequest])
            (by simp [setRequest]) (by simp [setRequest]) hset (by simp) (by simp)
      cases op with
      | set p creds =>
          cases res with
          | ok v => exact h.apply hknown hr _
          | error e => exact hmove (by simp [hr]) rfl
      | get p => exact hmove (by simp [hr]) rfl
      | clear p => exact hmove (by simp [hr]) rfl

/-! ### Failures and frames -/

end World

/-- A set or a clear whose store operation has succeeded. -/
def RequestState.Succeeded : RequestState → Prop
  | stored op (.ok _) => op.Locks
  | done _ .ok => True
  | _ => False

namespace World

theorem reply_of_locks (h : op.Locks) (v : Option ProviderCredentials) :
    op.reply (.ok v) = .ok := by
  cases op with
  | set p creds => cases v <;> rfl
  | get p => exact h.elim
  | clear p => cases v <;> rfl

theorem succeeded_step {t : RequestId} (hstep : Step w a written w')
    (h : (w.request t).Succeeded) : (w'.request t).Succeeded := by
  by_cases htr : t = a.owner
  · subst htr
    cases hstep with
    | @resume r op res hr =>
        simp only [Action.owner] at h ⊢
        rw [hr] at h
        cases res with
        | error e => exact h.elim
        | ok v => simp [reply_of_locks h, RequestState.Succeeded]
    | request hr | grant hr | abort hr | enter hr | unread hr | load hr | unchanged hr | save hr
    | unsaved hr =>
        simp only [Action.owner] at h
        rw [hr] at h
        exact h.elim
  · cases hstep <;> simp_all [Action.owner]

/-- Only an operation that succeeds changes anything. -/
theorem changed_step (h : Sound w₀ log w) (hstep : Step w a written w') :
    w'.file.entries = w.file.entries ∧ w'.senders = w.senders
      ∨ (w'.request a.owner).Succeeded := by
  cases hstep with
  | @save r op map hr =>
      obtain ⟨-, -, -, -, hlocks⟩ := update_eq (h.saves r op map hr)
      exact .inr (by simpa [Action.owner, RequestState.Succeeded] using hlocks)
  | @resume r op res hr =>
      cases op with
      | set p creds =>
          cases res with
          | ok v => exact .inr (by simp [Action.owner, Op.reply, RequestState.Succeeded])
          | error e => exact .inl ⟨rfl, rfl⟩
      | get p => exact .inl ⟨rfl, rfl⟩
      | clear p => exact .inl ⟨rfl, rfl⟩
  | _ => exact .inl ⟨rfl, rfl⟩

theorem frame_step (h : Sound w₀ log w) (hstep : Step w a written w') {p : String}
    (hop : (w'.request a.owner).operation = some op) (hp : p ≠ op.provider) :
    w'.file.entries p = w.file.entries p ∧ w'.senders p = w.senders p := by
  cases hstep with
  | @save r op' map hr =>
      obtain ⟨u, -, hkey, hmap, -⟩ := update_eq (h.saves r op' map hr)
      obtain rfl : op' = op := by simpa [Action.owner, RequestState.operation] using hop
      refine ⟨?_, rfl⟩
      show map p = w.file.entries p
      rw [hmap, apply_of_ne (hkey ▸ hp)]
  | @resume r op' res hr =>
      obtain rfl : op' = op := by simpa [Action.owner, RequestState.operation] using hop
      cases op' with
      | set q creds =>
          cases res with
          | ok v => exact ⟨rfl, Function.update_of_ne hp _ _⟩
          | error e => exact ⟨rfl, rfl⟩
      | get q => exact ⟨rfl, rfl⟩
      | clear q => exact ⟨rfl, rfl⟩
  | _ => exact ⟨rfl, rfl⟩

/-! ### Every run -/

/-- The invariants together. -/
def Inv (w₀ : World) (log : List (Write String ProviderCredentials)) (w : World) : Prop :=
  Sound w₀ log w ∧ w.Locked ∧ w.Known ∧ Fits log

theorem inv_init (h : ∀ r, w.request r = .fresh) : Inv w [] w := by
  refine ⟨⟨fun r op map hr => ?_, rfl, fun p _ => rfl, fun r p creds v hr => ?_⟩,
    ⟨fun r hr => ?_, fun r op hr => ?_⟩, fun r op hr => ?_,
    fun p creds hmem => absurd hmem List.not_mem_nil⟩
  · cases (h r).symm.trans hr
  · cases (h r).symm.trans hr
  · rw [h r] at hr
    exact hr.elim
  · rw [h r] at hr
    exact hr.elim
  · rw [h r] at hr
    exact hr.elim

theorem inv_run (h : ∀ r, w₀.request r = .fresh) {acts : List Action}
    (hrun : run World.step w₀ acts = some w) : Inv w₀ (storeLog w₀ acts) w := by
  refine log_invariant (P := Inv w₀) (fun hinv _ hstep => ?_) (inv_init h)
    (meets_of_forall (fun _ _ => trivial) w₀ acts) hrun
  obtain ⟨hs, hl, hk, hf⟩ := hinv
  exact ⟨hs.step hl hk (step_cases hstep), hl.step (step_cases hstep), hk.step (step_cases hstep),
    hf.step hk (step_cases hstep)⟩

theorem succeeded_run {t : RequestId} {acts : List Action}
    (hrun : run World.step w acts = some w') (h : (w.request t).Succeeded) :
    (w'.request t).Succeeded :=
  invariant (P := fun w => (w.request t).Succeeded)
    (fun hs hstep => succeeded_step (step_cases hstep) hs) h hrun

theorem bootstrap_request (file : File) (ok : String → Bool) (ids : List String)
    (env : List (String × Option AlpacaCredentials)) :
    (bootstrap file ok ids env).request = fun _ => .fresh := by
  have hkeep : ∀ (w : World) (e : String × _), (w.envFallback e.1 e.2).request = w.request := by
    intro w e
    simp only [envFallback]
    split
    · split <;> rfl
    · rfl
  suffices h : ∀ w : World,
      (env.foldl (fun w e => w.envFallback e.1 e.2) w).request = w.request from h _
  intro w
  induction env generalizing w with
  | nil => rfl
  | cons e env ih => exact (ih _).trans (hkeep w e)

end World

/-- The credential store and the running credentials over every run of the hub. -/
theorem credential_agreement {file : File} {ok : String → Bool} {ids : List String}
    {env : List (String × Option AlpacaCredentials)} {acts : List Action}
    (hrun : run World.step (.bootstrap file ok ids env) acts = some w) :
    Agreeing (.bootstrap file ok ids env) acts w := by
  have hfresh : ∀ r, (World.bootstrap file ok ids env).request r = .fresh := fun r =>
    congrFun (World.bootstrap_request file ok ids env) r
  obtain ⟨hs, -, -, hf⟩ := World.inv_run hfresh hrun
  have hrunning : ∀ p, w.Settled p → w.running p
      = ((lastPut p (storeLog (.bootstrap file ok ids env) acts)).bind toAlpaca).or
        ((World.bootstrap file ok ids env).running p) := fun p hp =>
    hs.running p fun r creds v hr => hp r creds (by rw [hr]; rfl)
  refine ⟨hs.stored, hrunning, fun p creds before after hlog hafter hp => ?_,
    fun before a after s s' hacts hbefore hstep op code hcode => ?_,
    fun before a after s s' _ hbefore hstep op p hop hp => ?_⟩
  · have hstored : w.file.entries p = lastPut p (storeLog (.bootstrap file ok ids env) acts) := by
      rw [hs.stored, hlog, replay_eq_lastPut hafter]
    obtain ⟨last, hlast⟩ := Option.ne_none_iff_exists'.mp
      (lastPut_ne_none (hlog ▸ List.mem_append_right before List.mem_cons_self))
    obtain ⟨alpaca, halpaca⟩ := Option.isSome_iff_exists.mp (hf p last (mem_of_lastPut hlast))
    rw [hrunning p hp, hstored, hlast, Option.bind_some, halpaca]
    exact ⟨rfl, rfl⟩
  · subst hacts
    obtain ⟨hs', -⟩ := World.inv_run hfresh hbefore
    refine (World.changed_step hs' (World.step_cases hstep)).resolve_right fun hsucc => ?_
    have hrest : run World.step s' after = some w := by
      rw [run_append, hbefore] at hrun
      simpa [run, hstep] using hrun
    have hend := World.succeeded_run hrest hsucc
    rw [hcode] at hend
    exact hend
  · obtain ⟨hs', -⟩ := World.inv_run hfresh hbefore
    exact World.frame_step hs' (World.step_cases hstep) hop hp

/-- Two sets of one provider at once, the second granted once the first has been applied, and
a clear of the other provider among them. -/
def rotation : List Action :=
  [.request 0 (.set "alpaca" (.apiKeyPair "PK1" "s1")),
    .request 1 (.set "alpaca" (.apiKeyPair "PK2" "s2")), .request 2 (.clear "alpaca-crypto"),
    .grant 2, .grant 0, .enter 0, .load 0 true, .save 0 true, .enter 2, .resume 0, .grant 1,
    .load 2 true, .enter 1, .load 1 true, .save 1 true, .resume 2, .resume 1]

theorem credential_agreement_rotation :
    ∃ w, run World.step (.bootstrap .absent (fun _ => true) ["alpaca", "alpaca-crypto"] [])
        rotation = some w
      ∧ w.running "alpaca" = some ⟨"PK2", "s2"⟩
      ∧ Agreeing (.bootstrap .absent (fun _ => true) ["alpaca", "alpaca-crypto"] [])
        rotation w := by
  obtain ⟨w, hrun, hrunning⟩ : ∃ w, run World.step
      (.bootstrap .absent (fun _ => true) ["alpaca", "alpaca-crypto"] []) rotation = some w
        ∧ w.running "alpaca" = some ⟨"PK2", "s2"⟩ := ⟨_, rfl, rfl⟩
  exact ⟨w, hrun, hrunning, credential_agreement hrun⟩

end CredentialHub

end Datamancer
