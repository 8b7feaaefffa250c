import Datamancer.Providers.HubLoop

/-!
# Datamancer.Providers.ParkReason

Why a hub is parked against what is published. A parked hub listens to the one source it
was parked for. The settings come first in the loop, so a hub parked for them is right about
both sources until it is notified. One that is parked for its credentials is right about
those, and about the settings for as long as they are there (`park_agrees`).
-/

namespace Datamancer

open ActionSystem

namespace Alpaca

namespace HubLoop

variable {T C : Type} {l l' : HubLoop T C}

/-! ### Agreement with the latest values -/

/-- A parked hub with nothing unread on what it listens to answers with the error of its park,
and its park is what the latest values call for. -/
def Agrees (m : Market) (l : HubLoop T C) : Prop :=
  ∀ park rx, l.phase = .parked park rx → ¬ l.Notified park rx →
    l.answer m = some (park.error m)
    ∧ (park = .disabled ↔ l.settings.current = none)
    ∧ (park = .missingCredentials ↔ l.settings.current ≠ none ∧ l.credentials.current = .missing)
    ∧ (park = .rejectedCredentials ↔
      l.settings.current ≠ none ∧ ∃ c ∈ l.rejected, l.credentials.current = .creds c)

/-- A hub parked for its credentials with nothing unread there has its settings. -/
def Enabled (l : HubLoop T C) : Prop :=
  ∀ park rx, l.phase = .parked park rx → park ≠ .disabled → ¬ l.Notified park rx →
    l.settings.current ≠ none

/-- Nobody disables a hub that is parked for its credentials, and the hub parks for them only
while its settings are there. -/
structure Heeds (l : HubLoop T C) (act : LoopAction T C) : Prop where
  published : act = .publishSettings none → ∀ park rx, l.phase = .parked park rx →
    park = .disabled
  missing : act = .advance → ∀ rx settings credRx,
    l.phase = .credentialsWatched rx settings (some credRx) →
      l.credentials.current = .missing → l.settings.current ≠ none
  connect : act = .connectFails .unauthenticated → ∀ rx settings credRx creds,
    l.phase = .connecting rx settings (some credRx) creds → l.settings.current ≠ none
  stream : act = .streamFails .unauthenticated → ∀ rx credRx creds,
    l.phase = .serving rx (some credRx) creds → l.settings.current ≠ none

/-- With settings there and staying there is nothing to heed. -/
theorem Heeds.of_current {act : LoopAction T C} (hact : act ≠ .publishSettings none)
    (h : l.settings.current ≠ none) : l.Heeds act :=
  ⟨fun hp => absurd hp hact, fun _ _ _ _ _ _ => h, fun _ _ _ _ _ _ => h, fun _ _ _ _ _ => h⟩

/-! ### What a receiver has found -/

/-- There is a channel, and its value is as the receiver found it unless it is notified. -/
def Found {α : Type} (channel : Option (WatchChannel α)) (rx : Nat) (P : α → Prop) : Prop :=
  ∃ w, channel = some w ∧ w.Knows rx P

theorem Found.value {α : Type} {channel : Option (WatchChannel α)} {rx : Nat} {P : α → Prop}
    (h : Found channel rx P) (hread : ¬ Unread channel rx) :
    ∃ w, channel = some w ∧ P w.value := by
  obtain ⟨w, hw, hknows⟩ := h
  exact ⟨w, hw, hknows.holds fun hun => hread ⟨w, hw, hun⟩⟩

/-- Each receiver the loop holds and what it has found with it. -/
def Sound (l : HubLoop T C) : Prop :=
  match l.phase with
  | .settingsWatched (some rx) => Found l.settings.channel rx fun _ => True
  | .credentialsWatched _ _ (some rx) => Found l.credentials.channel rx fun _ => True
  | .connecting _ _ (some rx) creds | .serving _ (some rx) creds =>
      Found l.credentials.channel rx fun v => ∃ c, v = some c ∧ creds = .creds c
  | .parked .disabled rx => Found l.settings.channel rx (· = none)
  | .parked .missingCredentials rx => Found l.credentials.channel rx (· = none)
  | .parked .rejectedCredentials rx =>
      Found l.credentials.channel rx fun v => ∃ c ∈ l.rejected, v = some c
  | _ => True

/-- The sources change and the loop stays where it is. -/
theorem Sound.of_sources (h : l.Sound) (hphase : l'.phase = l.phase)
    (hrejected : l'.rejected = l.rejected)
    (hsettings : ∀ rx P, Found l.settings.channel rx P → Found l'.settings.channel rx P)
    (hcredentials : ∀ rx P, Found l.credentials.channel rx P →
      Found l'.credentials.channel rx P) : l'.Sound := by
  rw [Sound] at h ⊢
  rw [hphase, hrejected]
  split at h <;> first | exact hsettings _ _ h | exact hcredentials _ _ h | trivial

theorem found_watched_settings {s : SettingsSource T} {rx : Nat} (h : s.watched = some rx) :
    Found s.channel rx fun _ => True := by
  cases s with
  | static s => cases h
  | watch w =>
      cases h
      exact ⟨w, rfl, WatchChannel.knows_version trivial⟩

theorem found_watched_credentials {s : CredentialsSource C} {rx : Nat}
    (h : s.watched = some rx) : Found s.channel rx fun _ => True := by
  cases s with
  | watch w =>
      cases h
      exact ⟨w, rfl, WatchChannel.knows_version trivial⟩
  | _ => cases h

/-- Settings read as absent are absent in the channel. -/
theorem Found.disabled {s : SettingsSource T} {rx : Nat} (h : Found s.channel rx fun _ => True)
    (hnone : s.current = none) : Found s.channel rx (· = none) := by
  obtain ⟨w, hw, hknows⟩ := h
  exact ⟨w, hw, hknows.imp fun _ => (SettingsSource.current_of_channel hw).symm.trans hnone⟩

theorem Found.missing {s : CredentialsSource C} {rx : Nat} (h : Found s.channel rx fun _ => True)
    (hmissing : s.current = .missing) : Found s.channel rx (· = none) := by
  obtain ⟨w, hw, hknows⟩ := h
  refine ⟨w, hw, hknows.imp fun _ => ?_⟩
  rw [CredentialsSource.current_of_channel hw] at hmissing
  cases hv : w.value with
  | none => rfl
  | some c =>
      rw [hv] at hmissing
      cases hmissing

/-- Credentials read from a channel are its value. -/
theorem Found.resolved {s : CredentialsSource C} {rx : Nat}
    (h : Found s.channel rx fun _ => True) (hpresent : s.current ≠ .missing) :
    Found s.channel rx fun v => ∃ c, v = some c ∧ s.current = .creds c := by
  obtain ⟨w, hw, hknows⟩ := h
  refine ⟨w, hw, hknows.imp fun _ => ?_⟩
  rw [CredentialsSource.current_of_channel hw] at hpresent ⊢
  cases hv : w.value with
  | none =>
      rw [hv] at hpresent
      exact absurd rfl hpresent
  | some c => exact ⟨c, rfl, rfl⟩

/-! ### Steps -/

/-- Rejected credentials are those the hub has found. -/
theorem sound_fail {credRx : Option Nat} {creds : Resolved C} (failure : StreamFailure)
    (h : ∀ rx, credRx = some rx →
      Found l.credentials.channel rx fun v => ∃ c, v = some c ∧ creds = .creds c) :
    (l.fail credRx creds failure).Sound := by
  cases failure with
  | transient => trivial
  | unauthenticated =>
      cases credRx with
      | none => trivial
      | some rx =>
          obtain ⟨w, hw, hknows⟩ := h rx rfl
          have hsame : (l.reject creds).credentials = l.credentials := by cases creds <;> rfl
          show Found (l.reject creds).credentials.channel rx _
          rw [hsame]
          refine ⟨w, hw, hknows.imp fun hfound => ?_⟩
          obtain ⟨c, hv, rfl⟩ := hfound
          exact ⟨c, List.mem_cons_self, hv⟩

theorem Sound.step {act : LoopAction T C} (h : l.Sound) (hstep : l.step act = some l') :
    l'.Sound := by
  cases step_cases hstep with
  | @publishSettings w v hs =>
      refine h.of_sources rfl rfl (fun rx P hf => ?_) fun _ _ => id
      obtain ⟨w', hw, hknows⟩ := hs ▸ hf
      cases hw
      exact ⟨_, rfl, hknows.send v⟩
  | @dropSettings w hs =>
      refine h.of_sources rfl rfl (fun rx P hf => ?_) fun _ _ => id
      obtain ⟨w', hw, hknows⟩ := hs ▸ hf
      cases hw
      exact ⟨_, rfl, hknows.close⟩
  | @publishCredentials w v hc =>
      refine h.of_sources rfl rfl (fun _ _ => id) fun rx P hf => ?_
      obtain ⟨w', hw, hknows⟩ := hc ▸ hf
      cases hw
      exact ⟨_, rfl, hknows.send v⟩
  | @dropCredentials w hc =>
      refine h.of_sources rfl rfl (fun _ _ => id) fun rx P hf => ?_
      obtain ⟨w', hw, hknows⟩ := hc ▸ hf
      cases hw
      exact ⟨_, rfl, hknows.close⟩
  | watchSettings hp =>
      cases hw : l.settings.watched with
      | none => trivial
      | some rx => exact found_watched_settings hw
  -- without a receiver the source is static, and what it says cannot change
  | @disabled rx hp hs =>
      cases rx with
      | none => trivial
      | some rx =>
          rw [Sound, hp] at h
          exact Found.disabled h hs
  | watchCredentials hp =>
      cases hw : l.credentials.watched with
      | none => trivial
      | some rx => exact found_watched_credentials hw
  | @missing rx settings credRx hp hc =>
      cases credRx with
      | none => trivial
      | some credRx =>
          rw [Sound, hp] at h
          exact Found.missing h hc
  | @resolved rx settings credRx hp hc =>
      cases credRx with
      | none => trivial
      | some credRx =>
          rw [Sound, hp] at h
          exact Found.resolved h hc
  | @connected rx settings credRx creds hp =>
      cases credRx with
      | none => trivial
      | some credRx => rwa [Sound, hp] at h
  | @connectFails rx settings credRx creds failure hp =>
      refine sound_fail failure fun rx hrx => ?_
      rwa [Sound, hp, hrx] at h
  | @streamFails rx credRx creds failure hp =>
      refine sound_fail failure fun rx hrx => ?_
      rwa [Sound, hp, hrx] at h
  | @settingsGone rx credRx creds hp =>
      cases credRx with
      | none => trivial
      | some credRx => rwa [Sound, hp] at h
  | command => exact h
  -- none of these leads into a park
  | enabled | rotated | credentialsGone | reconfigured | wake | slept | retry | hangUp => trivial

/-- A hub parked for its credentials has its settings. -/
def Present (l : HubLoop T C) : Prop :=
  ∀ park rx, l.phase = .parked park rx → park ≠ .disabled → l.settings.current ≠ none

theorem present_fail {credRx : Option Nat} {creds : Resolved C} {failure : StreamFailure}
    (h : failure = .unauthenticated → ∀ rx, credRx = some rx → l.settings.current ≠ none) :
    (l.fail credRx creds failure).Present := by
  intro park rx hp _
  cases failure with
  | transient => cases hp
  | unauthenticated =>
      cases credRx with
      | none => cases hp
      | some credRx =>
          have hsame : (l.reject creds).settings = l.settings := by cases creds <;> rfl
          show (l.reject creds).settings.current ≠ none
          rw [hsame]
          exact h rfl credRx rfl

theorem Present.step {act : LoopAction T C} (h : l.Present) (hok : l.Heeds act)
    (hstep : l.step act = some l') : l'.Present := by
  cases step_cases hstep with
  | @publishSettings w v hs =>
      rintro park rx hp hne (rfl : v = none)
      exact hne (hok.published rfl park rx hp)
  | @dropSettings w hs =>
      intro park rx hp hne
      have hpresent := h park rx hp hne
      rwa [hs] at hpresent
  | publishCredentials hc => exact h
  | dropCredentials hc => exact h
  | @disabled rx hp hs =>
      intro park rx' hp' hne
      cases rx with
      | none => cases hp'
      | some rx =>
          cases hp'
          exact absurd rfl hne
  | @missing rx settings credRx hp hc =>
      intro park rx' hp' _
      cases credRx with
      | none => cases hp'
      | some credRx =>
          exact hok.missing rfl rx settings credRx hp hc
  | @connectFails rx settings credRx creds failure hp =>
      refine present_fail fun hf rx' hrx => ?_
      exact hok.connect (hf ▸ rfl) rx settings rx' creds (hrx ▸ hp)
  | @streamFails rx credRx creds failure hp =>
      refine present_fail fun hf rx' hrx => ?_
      exact hok.stream (hf ▸ rfl) rx rx' creds (hrx ▸ hp)
  | command => exact h
  | _ =>
      intro park rx hp
      cases hp

/-! ### Every run -/

/-- The park against the values: of a hub without unread notifications the only thing that
can be wrong is that the settings of a credential park are gone. -/
theorem agrees_iff (m : Market) (h : l.Sound) : l.Agrees m ↔ l.Enabled := by
  constructor
  · intro hagrees park rx hp hne hread hnone
    exact hne ((hagrees park rx hp hread).2.1.mpr hnone)
  · intro henabled park rx hp hread
    have hanswer : l.answer m = some (park.error m) := by rw [answer, hp]; rfl
    rw [Sound, hp] at h
    refine ⟨hanswer, ?_⟩
    cases park with
    | disabled =>
        obtain ⟨w, hw, hnone⟩ := h.value hread
        have hcurrent := (SettingsSource.current_of_channel hw).trans hnone
        simp [hcurrent]
    | missingCredentials =>
        have hpresent := henabled _ rx hp (by simp) hread
        obtain ⟨w, hw, hnone⟩ := h.value hread
        have hcurrent := CredentialsSource.current_of_channel hw
        rw [hnone] at hcurrent
        simp [hpresent, hcurrent]
    | rejectedCredentials =>
        have hpresent := henabled _ rx hp (by simp) hread
        obtain ⟨w, hw, c, hc, hsome⟩ := h.value hread
        have hcurrent := CredentialsSource.current_of_channel hw
        rw [hsome] at hcurrent
        simp [hpresent, hcurrent, hc]

theorem sound_init (settings : SettingsSource T) (credentials : CredentialsSource C) :
    (init settings credentials).Sound := trivial

theorem present_init (settings : SettingsSource T) (credentials : CredentialsSource C) :
    (init settings credentials).Present := fun _ _ hp => by cases hp

end HubLoop

/-- The park of a hub, over every run and from any sources: it agrees with the published values
exactly if no hub parked for its credentials is without settings, which no run leads to in
which nobody disables a hub that is parked for its credentials or about to be. -/
theorem park_agrees (m : Market) {T C : Type} (settings : SettingsSource T)
    (credentials : CredentialsSource C) {acts : List (LoopAction T C)} {l : HubLoop T C}
    (hrun : run HubLoop.step (.init settings credentials) acts = some l) :
    (l.Agrees m ↔ l.Enabled)
    ∧ (Meets HubLoop.step HubLoop.Heeds (.init settings credentials) acts → l.Agrees m) := by
  have hsound := invariant (fun hs hstep => HubLoop.Sound.step hs hstep)
    (HubLoop.sound_init settings credentials) hrun
  refine ⟨HubLoop.agrees_iff m hsound, fun hok => (HubLoop.agrees_iff m hsound).mpr ?_⟩
  have hpresent := invariant_of_meets
    (fun hp hok hstep => HubLoop.Present.step hp hok hstep)
    (HubLoop.present_init settings credentials) hok hrun
  exact fun park rx hp hne _ => hpresent park rx hp hne

section Unprovisioned

/-- Enabled, with no credentials yet. -/
def unprovisioned : HubLoop String String :=
  .init (.watch (.new (some "paper"))) (.watch (.new none))

theorem park_agrees_unprovisioned : ∃ l,
    run HubLoop.step unprovisioned [.advance, .advance, .advance, .advance, .command] = some l
    ∧ l.phase = .parked .missingCredentials 0 ∧ l.Agrees .stock := by
  obtain ⟨l, hrun, hphase⟩ : ∃ l,
      run HubLoop.step unprovisioned [.advance, .advance, .advance, .advance, .command] = some l
      ∧ l.phase = .parked .missingCredentials 0 := ⟨_, rfl, rfl⟩
  refine ⟨l, hrun, hphase, (park_agrees .stock _ _ hrun).2 ?_⟩
  iterate 5 refine (meets_cons rfl).mpr ⟨.of_current (by simp) (Option.some_ne_none _), ?_⟩
  trivial

/-- The provider is disabled while its hub waits for credentials. -/
theorem disabled_while_unprovisioned : ∃ l,
    run HubLoop.step unprovisioned
      [.advance, .advance, .advance, .advance, .publishSettings none] = some l
    ∧ ¬ l.Agrees .stock := by
  refine ⟨_, rfl, fun hagrees => ?_⟩
  have hquiet := (hagrees .missingCredentials 0 rfl (by decide)).2.1.mpr rfl
  cases hquiet

end Unprovisioned

end Alpaca

end Datamancer
