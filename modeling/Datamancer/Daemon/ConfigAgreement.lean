import Datamancer.Lib.ActionSystem
import Datamancer.Daemon.ConfigHub

/-!
# Datamancer.Daemon.ConfigAgreement

The file, the hub's configuration and the settings watches. The hub's lock is held from the
choice of a candidate to its commit, but by the request: the write is on its own. As long as
no request is dropped between the two, the one write there is belongs to the holder of the
lock, and the three copies agree whenever nothing is pending (`config_agreement`).
-/

namespace Datamancer

open ActionSystem

namespace ConfigHub

variable {O : Type} {F : Format O} {boot : Config O} {w w' : World O} {r : RequestId}

/-! ### Agreement at rest -/

/-- No request and no spawned write is pending. -/
def World.Quiet (w : World O) : Prop :=
  (∀ r, ¬ (w.request r).Pending)
    ∧ ∀ r config save, w.write r = some ⟨config, save⟩ → ∃ res, save = .finished res

/-- The three copies describe one configuration whenever nothing is pending; a request that
returned an error has changed none of them; and the file is at every instant one complete
configuration, of the boot or of a request. -/
structure World.Agreeing (F : Format O) (boot : Config O) (w : World O) : Prop where
  agree : w.Quiet → F.parse w.disk.content = some w.current
    ∧ w.alpacaTx.value = w.current.alpaca.map alpacaSettings
    ∧ w.alpacaCryptoTx.value = w.current.alpacaCrypto.map alpacaCryptoSettings
  unchanged : ∀ r e, w.request r = .done (.error e) → w.touched r = false
  complete : ∃ config, F.parse w.disk.content = some config
    ∧ (config = boot ∨ ∃ r save, w.write r = some ⟨config, save⟩)

/-- No request is dropped once its write is spawned, unless the write has failed. -/
def World.Kept (w : World O) : Action O → Prop
  | .drop r => ∀ config, w.request r = .saving config →
      ∃ config' e, w.write r = some ⟨config', .finished (.error e)⟩
  | _ => True

/-! ### The invariant -/

namespace World

/-- The copies of a world in which every unfinished write is of the request that holds the
lock. -/
structure Sound (F : Format O) (boot : Config O) (w : World O) : Prop where
  holder : ∀ r config, w.request r = .saving config → w.hubLock = some r
  holds : ∀ r, w.hubLock = some r →
    ∃ config save, w.request r = .saving config ∧ w.write r = some ⟨config, save⟩
  spawned : ∀ r, w.write r ≠ none → (∃ config, w.request r = .saving config)
    ∨ ¬ (w.request r).Pending ∧ w.request r ≠ .fresh
  alone : ∀ r config save, w.write r = some ⟨config, save⟩ → w.hubLock ≠ some r →
    ∃ res, save = .finished res
  wf : w.disk.Wf
  writer : ∀ r config text writer, w.write r = some ⟨config, .replacing text writer⟩ →
    F.toToml config = .ok text ∧ ReplaceFile.Alone text w.disk writer
  persisted : ∀ r config, w.hubLock = some r → w.write r = some ⟨config, .finished (.ok ())⟩ →
    F.parse w.disk.content = some config
  file : (∀ r config, w.hubLock = some r → w.write r ≠ some ⟨config, .finished (.ok ())⟩) →
    F.parse w.disk.content = some w.current
  watches : w.alpacaTx.value = w.current.alpaca.map alpacaSettings
    ∧ w.alpacaCryptoTx.value = w.current.alpacaCrypto.map alpacaCryptoSettings
  errors : ∀ r e config, w.request r = .done (.error e) →
    w.write r ≠ some ⟨config, .finished (.ok ())⟩
  asked : ∃ config, F.parse w.disk.content = some config
    ∧ (config = boot ∨ ∃ r save, w.write r = some ⟨config, save⟩)

theorem sound_init {text : List Char} (htext : F.parse text = some boot) :
    Sound F boot (init text boot) where
  holder := fun _ _ h => by cases h
  holds := fun _ h => by cases h
  spawned := fun _ h => absurd rfl h
  alone := fun _ _ _ h => by cases h
  wf := ⟨Nat.zero_lt_one, fun _ h => by cases h⟩
  writer := fun _ _ _ _ h => by cases h
  persisted := fun _ _ h => by cases h
  file := fun _ => htext
  watches := ⟨rfl, rfl⟩
  errors := fun _ _ _ h => by cases h
  asked := ⟨boot, htext, .inl rfl⟩

/-- A request that has not spawned a write has none. -/
theorem Sound.write_none (h : Sound F boot w) (hr : ∀ config, w.request r ≠ .saving config)
    (hpending : (w.request r).Pending ∨ w.request r = .fresh) : w.write r = none := by
  by_contra hwrite
  rcases h.spawned r hwrite with ⟨config, hsaving⟩ | ⟨hover, hfresh⟩
  · exact hr config hsaving
  · exact hpending.elim hover hfresh

/-- A request without a write moves on. -/
theorem Sound.move (h : Sound F boot w) {st : RequestState O}
    (hr : ∀ config, w.request r ≠ .saving config) (hnone : w.write r = none)
    (hst : ∀ config, st ≠ .saving config) (hrequest : w'.request = Function.update w.request r st)
    (hdisk : w'.disk = w.disk) (hcurrent : w'.current = w.current)
    (halpaca : w'.alpacaTx = w.alpacaTx) (hcrypto : w'.alpacaCryptoTx = w.alpacaCryptoTx)
    (hwrite : w'.write = w.write) (hlock : w'.hubLock = w.hubLock) : Sound F boot w' := by
  have hother : ∀ t, t ≠ r → w'.request t = w.request t := fun t ht => by
    rw [hrequest, Function.update_of_ne ht]
  have hself : w'.request r = st := by rw [hrequest, Function.update_self]
  refine ⟨fun t config ht => ?_, fun t ht => ?_, fun t ht => ?_, ?_, ?_, ?_, ?_, ?_, ?_,
    fun t e config ht => ?_, ?_⟩
  · have htr : t ≠ r := fun htr => hst config (hself.symm.trans (htr ▸ ht))
    rw [hlock]
    exact h.holder t config (hother t htr ▸ ht)
  · obtain ⟨config, save, hsaving, hw⟩ := h.holds t (hlock ▸ ht)
    have htr : t ≠ r := fun htr => hr config (htr ▸ hsaving)
    exact ⟨config, save, by rw [hother t htr, hsaving], by rw [hwrite, hw]⟩
  · rw [hwrite] at ht
    have htr : t ≠ r := fun htr => ht (htr ▸ hnone)
    rw [hother t htr]
    exact h.spawned t ht
  · rw [hwrite, hlock]
    exact h.alone
  · rw [hdisk]
    exact h.wf
  · rw [hwrite, hdisk]
    exact h.writer
  · rw [hwrite, hlock, hdisk]
    exact h.persisted
  · rw [hwrite, hlock, hdisk, hcurrent]
    exact h.file
  · rw [halpaca, hcrypto, hcurrent]
    exact h.watches
  · by_cases htr : t = r
    · rw [hwrite, htr, hnone]
      exact fun h => by cases h
    · rw [hwrite]
      exact h.errors t e config (hother t htr ▸ ht)
  · rw [hdisk, hwrite]
    exact h.asked

theorem unlock_of_ne {lock : Option RequestId} (h : lock ≠ some r) : unlock lock r = lock :=
  if_neg h

/-- A request that awaits a lock or the file holds nothing. -/
theorem Sound.finish_waiting (h : Sound F boot w) {st : RequestState O}
    (hr : ∀ config, w.request r ≠ .saving config) (hpending : (w.request r).Pending)
    (hst : ∀ config, st ≠ .saving config) : Sound F boot (w.finish r st) := by
  have hlock : w.hubLock ≠ some r := fun hl => by
    obtain ⟨config, save, hsaving, -⟩ := h.holds r hl
    exact hr config hsaving
  exact h.move hr (h.write_none hr (.inl hpending)) hst rfl rfl rfl rfl rfl rfl
    (unlock_of_ne hlock)

/-- The holder of the lock is one, and with it the write that is not finished. -/
theorem Sound.eq_of_unfinished (h : Sound F boot w) {config : Config O} {save : Save}
    (hw : w.write r = some ⟨config, save⟩) (hsave : ∀ res, save ≠ .finished res) :
    w.hubLock = some r := by
  by_contra hlock
  obtain ⟨res, hres⟩ := h.alone r config save hw hlock
  exact hsave res hres

@[simp] theorem setWrite_write (w : World O) (wr : Write O) (t : RequestId) :
    (w.setWrite r wr).write t = if t = r then some wr else w.write t := by
  simp [setWrite, Function.update_apply]

@[simp] theorem setRequest_request (w : World O) (st : RequestState O) (t : RequestId) :
    (w.setRequest r st).request t = if t = r then st else w.request t := by
  simp [setRequest, Function.update_apply]

/-- The lock is taken and a write spawned. -/
theorem Sound.spawn (h : Sound F boot w) {op : Op O} {config : Config O}
    (hr : w.request r = .waitingHub op) (hl : w.hubLock = none) :
    Sound F boot { (w.setRequest r (.saving config)).setWrite r ⟨config, .queued⟩ with
      hubLock := some r } := by
  have hnone : w.write r = none := h.write_none (by simp [hr]) (by simp [hr, RequestState.Pending])
  -- only a holder of the lock saves, and nobody holds it yet
  have hfree : ∀ t c, w.request t ≠ .saving c := fun t c ht => by
    cases hl.symm.trans (h.holder t c ht)
  have hwrite : ∀ t, t ≠ r →
      ((w.setRequest r (.saving config)).setWrite r ⟨config, .queued⟩).write t = w.write t :=
    fun t ht => by rw [setWrite_write, if_neg ht]; rfl
  have hrequest : ∀ t, t ≠ r →
      ((w.setRequest r (.saving config)).setWrite r ⟨config, .queued⟩).request t = w.request t :=
    fun t ht => (setRequest_request w _ t).trans (if_neg ht)
  have hself : ((w.setRequest r (.saving config)).setWrite r ⟨config, .queued⟩).write r
      = some ⟨config, .queued⟩ := by rw [setWrite_write, if_pos rfl]
  have hsaving : ((w.setRequest r (.saving config)).setWrite r ⟨config, .queued⟩).request r
      = .saving config := (setRequest_request w _ r).trans (if_pos rfl)
  refine ⟨fun t c ht => ?_, fun t ht => ?_, fun t ht => ?_, fun t c s ht hlt => ?_, h.wf,
    fun t c text writer ht => ?_, fun t c ht hw => ?_, fun _ => ?_, h.watches,
    fun t e c ht => ?_, ?_⟩
  · by_cases htr : t = r
    · rw [htr]
    · exact absurd ((hrequest t htr).symm.trans ht) (hfree t c)
  · cases ht
    exact ⟨config, .queued, hsaving, hself⟩
  · by_cases htr : t = r
    · exact .inl ⟨config, htr ▸ hsaving⟩
    · have hold := h.spawned t ((hwrite t htr).symm.trans_ne ht)
      rwa [← hrequest t htr] at hold
  · have htr : t ≠ r := fun htr => hlt (htr ▸ rfl)
    exact h.alone t c s ((hwrite t htr).symm.trans ht) (by simp [hl])
  · by_cases htr : t = r
    · cases hself.symm.trans (htr ▸ ht)
    · exact h.writer t c text writer ((hwrite t htr).symm.trans ht)
  -- the write has not begun, so it has persisted nothing
  · cases ht
    cases hself.symm.trans hw
  · exact h.file fun t c ht => by cases hl.symm.trans ht
  · by_cases htr : t = r
    · cases hsaving.symm.trans (htr ▸ ht)
    · exact fun hw => h.errors t e c ((hrequest t htr).symm.trans ht) ((hwrite t htr).symm.trans hw)
  · obtain ⟨c, hc, hfrom⟩ := h.asked
    refine ⟨c, hc, hfrom.imp_right fun hfrom => ?_⟩
    obtain ⟨t, s, ht⟩ := hfrom
    have htr : t ≠ r := fun htr => by cases hnone.symm.trans (htr ▸ ht)
    exact ⟨t, s, (hwrite t htr).trans ht⟩

/-- The write of the holder goes on: the file stays as it is, or becomes what is to be
saved with the end of the write. -/
theorem Sound.advance (h : Sound F boot w) {config : Config O} {save save' : Save}
    {disk' : ReplaceFile.Disk Char} (hw : w.write r = some ⟨config, save⟩)
    (hsave : ∀ res, save ≠ .finished res) (hwf : disk'.Wf)
    (hwriter : ∀ text writer, save' = .replacing text writer →
      F.toToml config = .ok text ∧ ReplaceFile.Alone text disk' writer)
    (hcontent : disk'.content = w.disk.content ∧ save' ≠ .finished (.ok ())
      ∨ F.parse disk'.content = some config ∧ save' = .finished (.ok ())) :
    Sound F boot { w.setWrite r ⟨config, save'⟩ with disk := disk' } := by
  -- an unfinished write is that of the holder, so every other write is over
  have hl := h.eq_of_unfinished hw hsave
  have hself : (w.setWrite r ⟨config, save'⟩).write r = some ⟨config, save'⟩ := by
    rw [setWrite_write, if_pos rfl]
  have hwrite : ∀ t, t ≠ r → (w.setWrite r ⟨config, save'⟩).write t = w.write t := fun t ht => by
    rw [setWrite_write, if_neg ht]
  have hlock : ∀ t, t ≠ r → w.hubLock ≠ some t := fun t ht hlt => ht (by
    cases hl.symm.trans hlt
    rfl)
  obtain ⟨c', s', hsaving, -⟩ := h.holds r hl
  refine ⟨h.holder, fun t ht => ?_, fun t ht => ?_, fun t c s ht hlt => ?_, hwf,
    fun t c text writer ht => ?_, fun t c ht hfin => ?_, fun hnot => ?_, h.watches,
    fun t e c ht => ?_, ?_⟩
  · obtain ⟨c, s, hsav, hwt⟩ := h.holds t ht
    by_cases htr : t = r
    · subst htr
      cases hw.symm.trans hwt
      exact ⟨config, save', hsav, hself⟩
    · exact absurd ht (hlock t htr)
  · by_cases htr : t = r
    · exact .inl ⟨c', htr ▸ hsaving⟩
    · exact h.spawned t ((hwrite t htr).symm.trans_ne ht)
  · have htr : t ≠ r := fun htr => hlt (htr ▸ hl)
    exact h.alone t c s ((hwrite t htr).symm.trans ht) hlt
  · by_cases htr : t = r
    · cases hself.symm.trans (htr ▸ ht)
      exact hwriter text writer rfl
    · obtain ⟨res, hres⟩ := h.alone t c _ ((hwrite t htr).symm.trans ht) (hlock t htr)
      cases hres
  · by_cases htr : t = r
    · cases hself.symm.trans (htr ▸ hfin)
      rcases hcontent with ⟨-, hne⟩ | ⟨hparse, -⟩
      · exact absurd rfl hne
      · exact hparse
    · exact absurd ht (hlock t htr)
  · rcases hcontent with ⟨hsame, -⟩ | ⟨-, hfin⟩
    · show F.parse disk'.content = some w.current
      rw [hsame]
      refine h.file fun t c ht hfin => ?_
      cases hl.symm.trans ht
      cases hw.symm.trans hfin
      exact hsave _ rfl
    · exact absurd (hself.trans (by rw [hfin])) (hnot r config hl)
  · by_cases htr : t = r
    · cases hsaving.symm.trans (htr ▸ ht)
    · exact fun hfin => h.errors t e c ht ((hwrite t htr).symm.trans hfin)
  · rcases hcontent with ⟨hsame, -⟩ | ⟨hparse, -⟩
    · obtain ⟨c, hc, hfrom⟩ := h.asked
      refine ⟨c, (congrArg F.parse hsame).trans hc, hfrom.imp_right fun hfrom => ?_⟩
      obtain ⟨t, s, ht⟩ := hfrom
      by_cases htr : t = r
      · subst htr
        cases hw.symm.trans ht
        exact ⟨t, save', hself⟩
      · exact ⟨t, s, (hwrite t htr).trans ht⟩
    · exact ⟨config, hparse, .inr ⟨r, save', hself⟩⟩

/-- The holder of the lock is over, with its write finished and what it has persisted taken
over. -/
theorem Sound.release (h : Sound F boot w) {c config : Config O} {res : Except OpError Unit}
    {st : RequestState O} (hr : w.request r = .saving c)
    (hw : w.write r = some ⟨config, .finished res⟩)
    (hst : ∀ c, st ≠ .saving c) (hover : ¬ st.Pending ∧ st ≠ .fresh)
    (herror : ∀ e, st = .done (.error e) → res ≠ .ok ())
    (hrequest : w'.request = Function.update w.request r st) (hdisk : w'.disk = w.disk)
    (hwrite : w'.write = w.write) (hlock : w'.hubLock = unlock w.hubLock r)
    (hcurrent : F.parse w.disk.content = some w'.current)
    (hwatches : w'.alpacaTx.value = w'.current.alpaca.map alpacaSettings
      ∧ w'.alpacaCryptoTx.value = w'.current.alpacaCrypto.map alpacaCryptoSettings) :
    Sound F boot w' := by
  have hl := h.holder r c hr
  have hfree : w'.hubLock = none := by rw [hlock, unlock, if_pos hl]
  have hother : ∀ t, t ≠ r → w'.request t = w.request t := fun t ht => by
    rw [hrequest, Function.update_of_ne ht]
  have hself : w'.request r = st := by rw [hrequest, Function.update_self]
  refine ⟨fun t c' ht => ?_, fun t ht => ?_, fun t ht => ?_, fun t c' s ht _ => ?_, hdisk ▸ h.wf,
    ?_, fun t c' ht => ?_, fun _ => by rwa [hdisk], hwatches, fun t e c' ht => ?_, ?_⟩
  · by_cases htr : t = r
    · exact absurd (hself.symm.trans (htr ▸ ht)) (hst c')
    · have hlt := h.holder t c' ((hother t htr).symm.trans ht)
      cases hl.symm.trans hlt
      exact absurd rfl htr
  · cases hfree.symm.trans ht
  · by_cases htr : t = r
    · rw [htr, hself]
      exact .inr hover
    · rw [hother t htr]
      exact h.spawned t (hwrite ▸ ht)
  · rw [hwrite] at ht
    by_cases htr : t = r
    · subst htr
      cases hw.symm.trans ht
      exact ⟨res, rfl⟩
    -- once the lock is free all writes have to be over: this one is, and the others were
    · exact h.alone t c' s ht fun hlt => htr (by
        cases hl.symm.trans hlt
        rfl)
  · rw [hwrite, hdisk]
    exact h.writer
  · cases hfree.symm.trans ht
  · rw [hwrite]
    by_cases htr : t = r
    · subst htr
      intro hfin
      cases hw.symm.trans hfin
      exact herror e (hself.symm.trans ht) rfl
    · exact h.errors t e c' ((hother t htr).symm.trans ht)
  · rw [hdisk, hwrite]
    exact h.asked

theorem value_sendIfChanged {α : Type} [DecidableEq α] (tx : WatchChannel α) (v : α) :
    (sendIfChanged tx v).value = v := by
  rw [sendIfChanged]
  split_ifs with h
  · exact h
  · rfl

/-- The start of `Config::save` has the text of the configuration. -/
theorem start_spec {config : Config O} :
    (∀ text writer, Save.start F config = .replacing text writer →
      F.toToml config = .ok text ∧ writer = .opening)
    ∧ Save.start F config ≠ .finished (.ok ()) := by
  rw [Save.start]
  split
  · exact ⟨fun _ _ h => (by cases h), by simp⟩
  · exact ⟨fun _ _ h => (by cases h), by simp⟩
  · refine ⟨fun text writer h => ?_, by simp⟩
    cases h
    exact ⟨‹_›, rfl⟩

theorem ofWriter_replacing {text text' : List Char} {writer writer' : ReplaceFile.Writer Char}
    (h : Save.ofWriter text writer = .replacing text' writer') :
    text' = text ∧ writer' = writer := by
  rw [Save.ofWriter.eq_def] at h
  split at h <;> cases h
  exact ⟨rfl, rfl⟩

theorem ofWriter_ne_ok {text : List Char} {writer : ReplaceFile.Writer Char}
    (h : writer ≠ .finished true) : Save.ofWriter text writer ≠ .finished (.ok ()) := by
  rw [Save.ofWriter.eq_def]
  split
  · exact absurd rfl h
  · simp
  · simp

/-- A write that has failed has left the file as the hub has it. -/
theorem Sound.file_of_failed (h : Sound F boot w) {c config : Config O} {e : OpError}
    (hr : w.request r = .saving c) (hw : w.write r = some ⟨config, .finished (.error e)⟩) :
    F.parse w.disk.content = some w.current := by
  refine h.file fun t c' ht hfin => ?_
  cases (h.holder r c hr).symm.trans ht
  cases hw.symm.trans hfin

theorem Sound.act (h : Sound F boot w) (hF : F.RoundTrips) {a : Action O} (hkept : w.Kept a)
    (hact : w.act F a = some w') : Sound F boot w' := by
  cases act_cases hact with
  | @request r op st hr hst =>
      refine h.move (by simp [hr]) (h.write_none (by simp [hr]) (.inr hr)) ?_ rfl rfl rfl rfl rfl
        rfl rfl
      rcases hst with rfl | rfl <;> simp
  | @grantIo r op hr =>
      exact h.move (by simp [hr]) (h.write_none (by simp [hr]) (.inl (by rw [hr]; trivial)))
        (by simp) rfl rfl rfl rfl rfl rfl rfl
  | @read r ok op op' hr =>
      exact h.move (by simp [hr]) (h.write_none (by simp [hr]) (.inl (by rw [hr]; trivial)))
        (by simp) rfl rfl rfl rfl rfl rfl rfl
  | unreadable hr | noCandidate hr | refused hr =>
      exact h.finish_waiting (by simp [hr]) (by rw [hr]; trivial) (by simp)
  | spawn hr hl hc => exact h.spawn hr hl
  | @begin r config hw =>
      refine h.advance hw (by simp) h.wf (fun text writer hstart => ?_)
        (.inl ⟨rfl, start_spec.2⟩)
      obtain ⟨htoml, rfl⟩ := start_spec.1 text writer hstart
      exact ⟨htoml, .of_not_writing h.wf (by simp)⟩
  | abort hw => exact h.advance hw (by simp) h.wf (by simp) (.inl ⟨rfl, by simp⟩)
  | @write r act config text writer disk' writer' hw hstep =>
      obtain ⟨htoml, halone⟩ := h.writer r config text writer hw
      obtain ⟨halone', hcontent⟩ := halone.step hstep
      refine h.advance hw (by simp) halone'.wf (fun text' writer'' hsave => ?_) ?_
      · obtain ⟨rfl, rfl⟩ := ofWriter_replacing hsave
        exact ⟨htoml, halone'⟩
      · rcases hcontent with ⟨hsame, hnot⟩ | ⟨htext, rfl⟩
        · exact .inl ⟨hsame, ofWriter_ne_ok hnot⟩
        · exact .inr ⟨by rw [htext]; exact hF config text htoml, rfl⟩
  | @commit r config config' hr hw =>
      have hl := h.holder r config hr
      obtain ⟨c, s, hsaving, hw'⟩ := h.holds r hl
      cases hr.symm.trans hsaving
      cases hw.symm.trans hw'
      exact h.release hr hw (by simp) (by simp [RequestState.Pending]) (by simp) rfl rfl rfl rfl
        (h.persisted r config hl hw) ⟨value_sendIfChanged _ _, value_sendIfChanged _ _⟩
  | @failed r config config' e hr hw =>
      exact h.release hr hw (by simp) (by simp [RequestState.Pending]) (by simp) rfl rfl rfl rfl
        (h.file_of_failed hr hw) h.watches
  | @drop r hr =>
      by_cases hsaving : ∃ config, w.request r = .saving config
      · obtain ⟨config, hsaving⟩ := hsaving
        obtain ⟨config', e, hw⟩ := hkept config hsaving
        exact h.release hsaving hw (by simp) (by simp [RequestState.Pending]) (by simp) rfl rfl
          rfl rfl (h.file_of_failed hsaving hw) h.watches
      · exact h.finish_waiting (fun config hc => hsaving ⟨config, hc⟩) hr (by simp)

theorem Sound.mark [DecidableEq O] (h : Sound F boot w') (r : RequestId) :
    Sound F boot (w.mark w' r) := by
  rw [World.mark]
  split_ifs
  · exact h
  · exact ⟨h.holder, h.holds, h.spawned, h.alone, h.wf, h.writer, h.persisted, h.file, h.watches,
      h.errors, h.asked⟩

/-! ### Who has changed what -/

/-- Whoever has changed a copy has a write that went through. -/
def Marked (w : World O) : Prop :=
  ∀ r, w.touched r = true → ∃ config, w.write r = some ⟨config, .finished (.ok ())⟩

/-- A write that went through stays so. -/
theorem Sound.finished_act (h : Sound F boot w) {a : Action O} (hact : w.act F a = some w')
    {config : Config O} (hr : w.write r = some ⟨config, .finished (.ok ())⟩) :
    w'.write r = some ⟨config, .finished (.ok ())⟩ := by
  have hset : ∀ {t wr}, t ≠ r → (w.setWrite t wr).write r = some ⟨config, .finished (.ok ())⟩ :=
    fun ht => by rw [setWrite_write, if_neg (Ne.symm ht), hr]
  cases act_cases hact with
  | @spawn t op c ht hl hc =>
      refine hset fun htr => ?_
      have hnone := h.write_none (r := t) (by simp [ht]) (.inl (by rw [ht]; trivial))
      cases hnone.symm.trans (htr ▸ hr)
  | begin hw | abort hw | write hw =>
      refine hset fun htr => ?_
      cases hw.symm.trans (htr ▸ hr)
  | _ => exact hr

/-- What changes a copy is the rename of a write or the commit after it. -/
theorem Sound.copies_act (h : Sound F boot w) {a : Action O} (hact : w.act F a = some w') :
    w'.copies = w.copies ∨ ∃ config, w'.write a.owner = some ⟨config, .finished (.ok ())⟩ := by
  cases act_cases hact with
  | @write r act config text writer disk' writer' hw hstep =>
      rcases ((h.writer r config text writer hw).2.step hstep).2 with ⟨hsame, -⟩ | ⟨-, rfl⟩
      · exact .inl (by simp only [copies, hsame]; rfl)
      · exact .inr ⟨config, (setWrite_write w _ _).trans (if_pos rfl)⟩
  | commit hr hw => exact .inr ⟨_, hw⟩
  | _ => exact .inl rfl

theorem touched_act {a : Action O} (hact : w.act F a = some w') : w'.touched = w.touched := by
  cases act_cases hact <;> rfl

theorem Marked.step [DecidableEq O] (hm : Marked w) (h : Sound F boot w) {a : Action O}
    (hact : w.act F a = some w') : Marked (w.mark w' a.owner) := by
  have hkeep : ∀ r, w'.touched r = true →
      ∃ config, w'.write r = some ⟨config, .finished (.ok ())⟩ := fun r hr => by
    obtain ⟨config, hw⟩ := hm r (touched_act hact ▸ hr)
    exact ⟨config, h.finished_act hact hw⟩
  rw [World.mark]
  split_ifs with hsame
  · exact hkeep
  · intro r hr
    by_cases hra : r = a.owner
    · rw [hra]
      exact (h.copies_act hact).resolve_left hsame
    · exact hkeep r (by simpa [Function.update_of_ne hra] using hr)

/-! ### Frame -/

/-- An action is its request's alone. -/
theorem frame_act {a : Action O} (hact : w.act F a = some w') (hr : a.owner ≠ r) :
    w'.request r = w.request r ∧ w'.write r = w.write r := by
  have hrequest : ∀ t st, t = a.owner → Function.update w.request t st r = w.request r :=
    fun t st ht => Function.update_of_ne (fun h => hr (ht.symm.trans h.symm)) _ _
  have hwrite : ∀ t wr, t = a.owner → Function.update w.write t wr r = w.write r :=
    fun t wr ht => Function.update_of_ne (fun h => hr (ht.symm.trans h.symm)) _ _
  cases act_cases hact with
  | spawn => exact ⟨hrequest _ _ rfl, hwrite _ _ rfl⟩
  | begin | abort | write => exact ⟨rfl, hwrite _ _ rfl⟩
  | _ => exact ⟨hrequest _ _ rfl, rfl⟩

theorem frame_run [DecidableEq O] {acts : List (Action O)}
    (hrun : run (step F) w acts = some w') (hr : ∀ a ∈ acts, a.owner ≠ r) :
    w'.request r = w.request r ∧ w'.write r = w.write r := by
  refine invariant_of_meets
    (P := fun w' => w'.request r = w.request r ∧ w'.write r = w.write r)
    (fun {s a s'} hs hok hstep => ?_) ⟨rfl, rfl⟩ (meets_of_mem (fun a ha _ => hr a ha) w) hrun
  obtain ⟨w₁, hact, rfl⟩ := Option.map_eq_some_iff.mp hstep
  have hframe := frame_act hact hok
  have hmark : (s.mark w₁ a.owner).request r = w₁.request r
      ∧ (s.mark w₁ a.owner).write r = w₁.write r := by
    rw [mark]
    split_ifs <;> exact ⟨rfl, rfl⟩
  exact ⟨hmark.1.trans (hframe.1.trans hs.1), hmark.2.trans (hframe.2.trans hs.2)⟩

end World

/-! ### Every run -/

variable [DecidableEq O]

/-- The configuration over every run from its boot: in every state the copies agree, as long as
no request is dropped once its write is spawned (or only after it has failed). -/
theorem config_agreement (hF : F.RoundTrips) {text : List Char} (htext : F.parse text = some boot)
    {acts : List (Action O)} (hrun : run (World.step F) (.init text boot) acts = some w)
    (hkept : Meets (World.step F) World.Kept (.init text boot) acts) : w.Agreeing F boot := by
  obtain ⟨h, hm⟩ := invariant_of_meets
    (P := fun w => World.Sound F boot w ∧ World.Marked w)
    (fun hinv hok hstep => by
      obtain ⟨w', hact, rfl⟩ := Option.map_eq_some_iff.mp hstep
      exact ⟨(hinv.1.act hF hok hact).mark _, hinv.2.step hinv.1 hact⟩)
    ⟨World.sound_init htext, fun _ ht => by cases ht⟩ hkept hrun
  refine ⟨fun hquiet => ⟨h.file fun r config hl _ => ?_, h.watches⟩, fun r e hr => ?_, h.asked⟩
  · obtain ⟨c, s, hsaving, -⟩ := h.holds r hl
    exact hquiet.1 r (by rw [hsaving]; trivial)
  · by_contra htouched
    obtain ⟨config, hw⟩ := hm r (by simpa using htouched)
    exact h.errors r e config hr hw

/-! ### Two runs -/

/-- All sections but Alpaca's left out. -/
def alpacaOnly (section_ : Option AlpacaSection) : Config Unit := ⟨section_, none, none, ()⟩

def paperSection : AlpacaSection := ⟨.paper, none⟩

def paperToml : List Char := "[provider.alpaca]\naccount_type = \"paper\"\n".toList

/-- The two configurations of the runs below. -/
def twoConfigs : Format Unit where
  validate := fun _ => .ok ()
  toToml := fun config =>
    if config = alpacaOnly none then .ok []
    else if config = alpacaOnly (some paperSection) then .ok paperToml
    else .error "unsupported"
  parse := fun text =>
    if text = [] then some (alpacaOnly none)
    else if text = paperToml then some (alpacaOnly (some paperSection))
    else none

theorem twoConfigs_roundTrips : twoConfigs.RoundTrips := by
  intro config text h
  simp only [twoConfigs] at h ⊢
  split_ifs at h with hnone hpaper
  · cases h
    simp [hnone]
  · cases h
    have hne : paperToml ≠ [] := by decide
    simp [hne, hpaper]

/-- Enabling Alpaca, to the end of the request. -/
def enableAlpaca : List (Action Unit) :=
  [.request 0 (.configureProvider Alpaca.providerId ⟨.ok paperSection, .error ""⟩), .grantHub 0,
    .begin 0, .write 0 .openTmp, .write 0 (.write 41), .write 0 .rename, .resume 0]

theorem config_agreement_enabled :
    ∃ w, run (World.step twoConfigs) (.init [] (alpacaOnly none)) enableAlpaca = some w
      ∧ w.alpacaTx.value = some ⟨.paper, none⟩ ∧ w.Agreeing twoConfigs (alpacaOnly none) := by
  obtain ⟨w, hrun, htx⟩ :
      ∃ w, run (World.step twoConfigs) (.init [] (alpacaOnly none)) enableAlpaca = some w
        ∧ w.alpacaTx.value = some ⟨.paper, none⟩ := ⟨_, rfl, rfl⟩
  refine ⟨w, hrun, htx, config_agreement twoConfigs_roundTrips rfl hrun ?_⟩
  iterate 7 refine (meets_cons rfl).mpr ⟨trivial, ?_⟩
  trivial

/-- The client of a `PUT` is gone while its write is at work. -/
def abandonedPut : List (Action Unit) :=
  [.request 0 (.put (alpacaOnly (some paperSection))), .grantIo 0, .read 0 true, .grantHub 0,
    .begin 0, .write 0 .openTmp, .drop 0, .write 0 (.write 41), .write 0 .rename]

/-- The write replaces the file, and nobody takes it over: with nothing pending the file
enables Alpaca, and the hub and the watch do not. -/
theorem abandonedPut_not_agreeing :
    ∃ w, run (World.step twoConfigs) (.init [] (alpacaOnly none)) abandonedPut = some w
      ∧ twoConfigs.parse w.disk.content = some (alpacaOnly (some paperSection))
      ∧ w.current = alpacaOnly none ∧ w.alpacaTx.value = none
      ∧ ¬ w.Agreeing twoConfigs (alpacaOnly none) := by
  obtain ⟨w, hrun, hfile, hcurrent, htx, hover, hfinished⟩ :
      ∃ w, run (World.step twoConfigs) (.init [] (alpacaOnly none)) abandonedPut = some w
        ∧ twoConfigs.parse w.disk.content = some (alpacaOnly (some paperSection))
        ∧ w.current = alpacaOnly none ∧ w.alpacaTx.value = none
        ∧ w.request 0 = .dropped
        ∧ w.write 0 = some ⟨alpacaOnly (some paperSection), .finished (.ok ())⟩ :=
    ⟨_, rfl, rfl, rfl, rfl, rfl, rfl⟩
  have hothers : ∀ r ≠ 0, w.request r = .fresh ∧ w.write r = none := fun r hr =>
    World.frame_run hrun (by simp [abandonedPut, Action.owner, hr.symm])
  have hquiet : w.Quiet := by
    refine ⟨fun r => ?_, fun r config save h => ?_⟩
    · by_cases hr : r = 0
      · rw [hr, hover]
        exact id
      · rw [(hothers r hr).1]
        exact id
    · by_cases hr : r = 0
      · cases hfinished.symm.trans (hr ▸ h)
        exact ⟨_, rfl⟩
      · cases (hothers r hr).2.symm.trans h
  refine ⟨w, hrun, hfile, hcurrent, htx, fun h => ?_⟩
  have hagree := (h.agree hquiet).1
  rw [hfile, hcurrent] at hagree
  cases hagree

end ConfigHub

end Datamancer
