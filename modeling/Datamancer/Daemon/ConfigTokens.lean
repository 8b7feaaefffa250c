import Datamancer.Daemon.ConfigAgreement

/-!
# Datamancer.Daemon.ConfigTokens

The token of the `[ws]` section, which is shown to nobody: every view of a configuration has a
placeholder in its stead, and a `PUT /api/config` that sends the placeholder back means the token
that is in the file. Whatever requests overlap, the placeholder is never stored, a token comes from
the boot or from a request that sent it, and clients that send back what they were shown never lose
it (`tokens_kept`).
-/

namespace Datamancer

namespace ConfigHub

open ActionSystem

variable {O : Type} {F : Format O} {boot : Config O} {w w' : World O}

/-! ### Views -/

/-- `redact_secrets`, and what `get_config` does before it answers. -/
def Config.redact (c : Config O) : Config O :=
  { c with ws := c.ws.map fun token => token.map fun _ => redactedSecret }

/-- A view tells whether there is a token, and nothing else of it. -/
theorem Config.redact_eq_iff {c c' : Config O} :
    c.redact = c'.redact ↔
      ∃ ws, c' = { c with ws := ws } ∧ ws.isSome = c.ws.isSome ∧
        (ws.bind id).isSome = (c.ws.bind id).isSome := by
  obtain ⟨a, b, ws, o⟩ := c
  obtain ⟨a', b', ws', o'⟩ := c'
  simp only [redact, mk.injEq]
  constructor
  · rintro ⟨rfl, rfl, hws, rfl⟩
    refine ⟨ws', ⟨rfl, rfl, rfl, rfl⟩, ?_⟩
    rcases ws with _ | _ | _ <;> rcases ws' with _ | _ | _ <;> simp_all
  · rintro ⟨ws'', ⟨rfl, rfl, rfl, rfl⟩, hsome, htoken⟩
    refine ⟨rfl, rfl, ?_, rfl⟩
    rcases ws with _ | _ | _ <;> rcases ws' with _ | _ | _ <;> simp_all

/-- What is shown and sent back as it is means what is in the file. -/
theorem withFile_redact (c : Config O) :
    (Op.put c.redact).withFile (some c) = .ok (.put c) := by
  obtain ⟨a, b, ws, o⟩ := c
  rcases ws with _ | _ | token <;> simp [Op.withFile, Config.redact]

/-! ### What is kept of a configuration -/

/-- A property that the provider sections have no part in. -/
structure Free (P : Config O → Prop) : Prop where
  alpaca : ∀ c section_, P c → P { c with alpaca := section_ }
  alpacaCrypto : ∀ c section_, P c → P { c with alpacaCrypto := section_ }

/-- What a request may ask for: a `PUT` has the property, with whatever token the placeholder
stands for. -/
def Asks (P : Config O → Prop) : Op O → Prop
  | .put config =>
      if config.ws = some (some redactedSecret) then
        ∀ stored, P stored → P { config with ws := some (stored.ws.bind id) }
      else P config
  | _ => True

/-- What a request that has read the file asks for. -/
def Restored (P : Config O → Prop) : Op O → Prop
  | .put config => P config
  | _ => True

/-- Every request asks for such configurations only. -/
def AllAsk (P : Config O → Prop) : Action O → Prop
  | .request _ op => Asks P op
  | _ => True

def RequestState.Guarded (P : Config O → Prop) : RequestState O → Prop
  | .waitingIo op | .holdingIo op => Asks P op
  | .waitingHub op => Restored P op
  | .saving config => P config
  | .fresh | .done _ | .dropped => True

structure Guarded (P : Config O → Prop) (w : World O) : Prop where
  current : P w.current
  request : ∀ r, (w.request r).Guarded P
  write : ∀ r config save, w.write r = some ⟨config, save⟩ → P config

variable {P : Config O → Prop}

theorem guarded_init (text : List Char) (h : P boot) : Guarded P (World.init text boot) where
  current := h
  request := fun _ => trivial
  write := fun _ _ _ hw => by cases hw

/-- What is put after the file is read is what was sent, with the token of the file where the
placeholder was. -/
theorem restored_of_withFile {file : Option (Config O)} {op op' : Op O} (hask : Asks P op)
    (hfile : ∀ c, file = some c → P c) (h : op.withFile file = .ok op') : Restored P op' := by
  cases op with
  | put config =>
      simp only [Op.withFile] at h
      rw [Asks] at hask
      split at h
      next hplaceholder =>
        rw [if_pos hplaceholder] at hask
        split at h
        next stored =>
          cases h
          exact hask stored (hfile stored rfl)
        next => cases h
      next hne =>
        cases h
        rwa [if_neg hne] at hask
  | readDisk =>
      simp only [Op.withFile] at h
      split at h <;> cases h
      trivial
  | configureProvider | removeProvider | getConfig =>
      cases h
      trivial

/-- What is persisted is what the hub has but for a provider, or what was put. -/
theorem guarded_candidate (hP : Free P) {current config : Config O} {op : Op O}
    (hop : Restored P op) (hcurrent : P current) (h : op.candidate current = some (.ok config)) :
    P config := by
  cases op with
  | configureProvider provider settings =>
      simp only [Op.candidate] at h
      repeat' split at h
      all_goals cases h
      · exact hP.alpaca current _ hcurrent
      · exact hP.alpacaCrypto current _ hcurrent
  | removeProvider provider =>
      simp only [Op.candidate] at h
      repeat' split at h
      all_goals cases h
      · exact hP.alpaca current _ hcurrent
      · exact hP.alpacaCrypto current _ hcurrent
  | put config' =>
      cases h
      exact hop
  | getConfig | readDisk => cases h

/-- A request moves on. -/
theorem Guarded.move (h : Guarded P w) {r : RequestId} {st : RequestState O}
    (hrequest : w'.request = Function.update w.request r st) (hwrite : w'.write = w.write)
    (hcurrent : P w'.current) (hst : st.Guarded P) : Guarded P w' where
  current := hcurrent
  request t := by
    rw [hrequest, Function.update_apply]
    split
    · exact hst
    · exact h.request t
  write := by
    rw [hwrite]
    exact h.write

/-- A write is under way, whatever becomes of it. -/
theorem Guarded.setWrite (h : Guarded P w) {r : RequestId} {config : Config O} {save : Save}
    (hconfig : P config) (hcurrent : w'.current = w.current) (hrequest : w'.request = w.request)
    (hwrite : w'.write = Function.update w.write r (some ⟨config, save⟩)) : Guarded P w' where
  current := by
    rw [hcurrent]
    exact h.current
  request := by
    rw [hrequest]
    exact h.request
  write t c s ht := by
    rw [hwrite, Function.update_apply] at ht
    split at ht
    · cases ht
      exact hconfig
    · exact h.write t c s ht

/-- What the file is read as, some request or the boot has had. -/
theorem Guarded.file (h : Guarded P w) (hs : w.Sound F boot) (hboot : P boot) {c : Config O}
    (hc : F.parse w.disk.content = some c) : P c := by
  obtain ⟨config, hparse, hasked⟩ := hs.asked
  obtain rfl : c = config := Option.some.inj (hc.symm.trans hparse)
  rcases hasked with rfl | ⟨r, save, hw⟩
  · exact hboot
  · exact h.write r c save hw

theorem Guarded.act (hP : Free P) (hboot : P boot) (h : Guarded P w) (hs : w.Sound F boot)
    {a : Action O} (ha : AllAsk P a) (hact : w.act F a = some w') : Guarded P w' := by
  cases a with
  | request r op =>
      simp only [World.act] at hact
      split at hact
      · split at hact <;> cases hact
        · exact h.move rfl rfl h.current ha
        · exact h.move rfl rfl h.current ha
        next hput hread =>
          have hrestored : Restored P op := by
            cases op with
            | put c => exact absurd rfl (hput c)
            | _ => trivial
          exact h.move rfl rfl h.current hrestored
      · cases hact
  | grantIo r =>
      have hr := h.request r
      simp only [World.act] at hact
      split at hact
      next op hwaiting _ =>
        cases hact
        rw [hwaiting] at hr
        exact h.move rfl rfl h.current hr
      next => cases hact
  | read r ok =>
      have hr := h.request r
      simp only [World.act] at hact
      split at hact
      next op hholding =>
        rw [hholding] at hr
        split at hact
        next op' hop =>
          cases hact
          refine h.move rfl rfl h.current (restored_of_withFile hr (fun c hc => ?_) hop)
          split at hc
          · exact h.file hs hboot hc
          · cases hc
        next =>
          cases hact
          exact h.move rfl rfl h.current trivial
      next => cases hact
  | grantHub r =>
      have hr := h.request r
      simp only [World.act] at hact
      split at hact
      next op hwaiting _ =>
        rw [hwaiting] at hr
        split at hact
        · cases hact
          exact h.move rfl rfl h.current trivial
        · cases hact
          exact h.move rfl rfl h.current trivial
        next config hcandidate =>
          cases hact
          have hconfig := guarded_candidate hP hr h.current hcandidate
          have hsaving : Guarded P (w.setRequest r (.saving config)) :=
            h.move rfl rfl h.current hconfig
          exact hsaving.setWrite hconfig rfl rfl rfl
      next => cases hact
  | begin r | abort r =>
      simp only [World.act] at hact
      split at hact
      next config hw =>
        cases hact
        exact h.setWrite (h.write r config _ hw) rfl rfl rfl
      next => cases hact
  | write r act =>
      simp only [World.act] at hact
      split at hact
      next config text writer hw =>
        obtain ⟨out, -, rfl⟩ := Option.map_eq_some_iff.mp hact
        exact h.setWrite (h.write r config _ hw) rfl rfl rfl
      next => cases hact
  | resume r =>
      have hr := h.request r
      simp only [World.act] at hact
      split at hact
      next config _ hsaving _ =>
        cases hact
        rw [hsaving] at hr
        exact h.move rfl rfl hr trivial
      next =>
        cases hact
        exact h.move rfl rfl h.current trivial
      next => cases hact
  | drop r =>
      simp only [World.act] at hact
      split at hact <;> cases hact <;> exact h.move rfl rfl h.current trivial

/-! ### Every run -/

variable [DecidableEq O]

/-- A property that the provider sections have no part in and that every request asks for holds
of what the hub and the file have in every state reached. -/
theorem guarded_run (hF : F.RoundTrips) {text : List Char} (htext : F.parse text = some boot)
    {acts : List (Action O)} (hrun : run (World.step F) (.init text boot) acts = some w)
    (hkept : Meets (World.step F) World.Kept (.init text boot) acts) (hP : Free P)
    (hboot : P boot) (hacts : ∀ a ∈ acts, AllAsk P a) {c : Config O}
    (hc : c = w.current ∨ F.parse w.disk.content = some c) : P c := by
  obtain ⟨hs, h⟩ := invariant_of_meets
    (P := fun w => World.Sound F boot w ∧ Guarded P w)
    (fun {s a s'} hinv hok hstep => by
      obtain ⟨hkept, hask⟩ := hok
      obtain ⟨w₁, hact, rfl⟩ := Option.map_eq_some_iff.mp hstep
      have hguarded := hinv.2.act hP hboot hinv.1 hask hact
      refine ⟨(hinv.1.act hF hkept hact).mark _, ?_⟩
      rw [World.mark]
      split_ifs
      · exact hguarded
      · exact ⟨hguarded.current, hguarded.request, hguarded.write⟩)
    ⟨World.sound_init htext, guarded_init text hboot⟩
    (hkept.and (meets_of_mem (fun a ha _ => hacts a ha) _)) hrun
  rcases hc with rfl | hc
  · exact h.current
  · exact h.file hs hboot hc

/-- What every `PUT` but one with the placeholder has in its `[ws]` section, and what the
placeholder stands for has where the file has it, is kept. -/
theorem guarded_run_ws (hF : F.RoundTrips) {text : List Char} (htext : F.parse text = some boot)
    {acts : List (Action O)} (hrun : run (World.step F) (.init text boot) acts = some w)
    (hkept : Meets (World.step F) World.Kept (.init text boot) acts)
    {Q : Option (Option String) → Prop} (hrestored : ∀ ws, Q ws → Q (some (ws.bind id)))
    (hboot : Q boot.ws)
    (hput : ∀ r c, .request r (.put c) ∈ acts → c.ws ≠ some (some redactedSecret) → Q c.ws)
    {c : Config O} (hc : c = w.current ∨ F.parse w.disk.content = some c) : Q c.ws := by
  refine guarded_run hF htext hrun hkept (P := fun c => Q c.ws)
    ⟨fun _ _ h => h, fun _ _ h => h⟩ hboot ?_ hc
  rintro (⟨r, op⟩ | _) ha
  · cases op with
    | put config =>
        rw [AllAsk, Asks]
        split_ifs with h
        · exact fun stored => hrestored stored.ws
        · exact hput r config ha h
    | _ => trivial
  all_goals trivial

/-- Some request sends this token. -/
def Sent (acts : List (Action O)) (token : String) : Prop :=
  ∃ r c, .request r (.put c) ∈ acts ∧ c.ws = some (some token)

/-- Every `PUT` sends back a view. -/
def Echoing (acts : List (Action O)) : Prop :=
  ∀ r c, .request r (.put c) ∈ acts → c.ws = some (some redactedSecret)

/-- What becomes of the token, in the hub and in the file. -/
structure TokenKept (boot : Config O) (acts : List (Action O)) (c : Config O) : Prop where
  /-- The placeholder is not stored. -/
  placeholder : c.ws ≠ some (some redactedSecret)
  origin : ∀ token, c.ws = some (some token) → boot.ws = some (some token) ∨ Sent acts token
  /-- Clients that change what else they were shown leave it as it is. -/
  kept : ∀ token, boot.ws = some (some token) → Echoing acts → c.ws = some (some token)

theorem tokens_kept (hF : F.RoundTrips) {text : List Char} (htext : F.parse text = some boot)
    {acts : List (Action O)} (hrun : run (World.step F) (.init text boot) acts = some w)
    (hkept : Meets (World.step F) World.Kept (.init text boot) acts)
    (hboot : boot.ws ≠ some (some redactedSecret)) {c : Config O}
    (hc : c = w.current ∨ F.parse w.disk.content = some c) : TokenKept boot acts c where
  placeholder := by
    refine guarded_run_ws hF htext hrun hkept (Q := fun ws => ws ≠ some (some redactedSecret)) ?_
      hboot (fun _ _ _ h => h) hc
    rintro ws hws hplaceholder
    exact hws (by rcases ws with _ | _ | _ <;> simp_all)
  origin := by
    refine guarded_run_ws hF htext hrun hkept (Q := fun ws => ∀ token, ws = some (some token) →
      boot.ws = some (some token) ∨ Sent acts token) ?_ (fun _ => .inl) ?_ hc
    · rintro ws hws token htoken
      exact hws token (by rcases ws with _ | _ | _ <;> simp_all)
    · rintro r config ha - token htoken
      exact .inr ⟨r, config, ha, htoken⟩
  kept := by
    intro token htoken hecho
    refine guarded_run_ws hF htext hrun hkept (Q := fun ws => ws = some (some token)) ?_ htoken ?_
      hc
    · rintro ws rfl
      rfl
    · rintro r config ha hne
      exact absurd (hecho r config ha) hne

/-! ### A view sent back -/

/-- A configuration with this token, and Alpaca enabled or not. -/
private def withToken (section_ : Option AlpacaSection) (token : String) : Config Unit :=
  ⟨section_, none, some (some token), ()⟩

private def tokenFormat : Format Unit where
  validate := fun _ => .ok ()
  toToml := fun config =>
    if config = withToken none "s3cret" then .ok ['-']
    else if config = withToken (some paperSection) "s3cret" then .ok ['+']
    else .error "unsupported"
  parse := fun text =>
    if text = ['-'] then some (withToken none "s3cret")
    else if text = ['+'] then some (withToken (some paperSection) "s3cret")
    else none

private theorem tokenFormat_roundTrips : tokenFormat.RoundTrips := by
  intro config text h
  simp only [tokenFormat] at h ⊢
  split_ifs at h with hnone hpaper
  · cases h
    simp [hnone]
  · cases h
    simp [hpaper]

/-- A client enables Alpaca in what it was shown. -/
private def echo : List (Action Unit) :=
  [.request 0 (.put { (withToken none "s3cret").redact with alpaca := some paperSection }),
    .grantIo 0, .read 0 true, .grantHub 0, .begin 0, .write 0 .openTmp, .write 0 (.write 1),
    .write 0 .rename, .resume 0]

theorem tokens_kept_echo :
    ∃ w, run (World.step tokenFormat) (.init ['-'] (withToken none "s3cret")) echo = some w ∧
      w.current.alpaca = some paperSection ∧
      TokenKept (withToken none "s3cret") echo w.current := by
  obtain ⟨w, hrun, halpaca⟩ :
      ∃ w, run (World.step tokenFormat) (.init ['-'] (withToken none "s3cret")) echo = some w ∧
        w.current.alpaca = some paperSection := ⟨_, rfl, rfl⟩
  refine ⟨w, hrun, halpaca, tokens_kept tokenFormat_roundTrips rfl hrun ?_ (by decide) (.inl rfl)⟩
  iterate 9 refine (meets_cons rfl).mpr ⟨trivial, ?_⟩
  trivial

end ConfigHub

end Datamancer
