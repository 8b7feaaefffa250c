import Datamancer.Lib.ActionSystem
import Datamancer.Daemon.ControlServer

/-!
# Datamancer.Daemon.Ownership

Which clients the end of a connection takes with it. A connection remembers one name,
the one it opened last, and forgets it neither when that client is closed nor when it
opens another; the actor knows clients by name only. So a teardown reaches exactly the
connection's own clients as long as the two agree when it is sent and nobody takes the
name while it is queued (`Agreed`, `ownership`).
-/

namespace Datamancer

namespace Daemon

namespace World

/-- The task of the connection has signalled the client part of its teardown. -/
def Down (w : World) (c : ConnId) : Prop :=
  (w.conns c).phase = .leaving ∨ (w.conns c).phase = .gone

/-- The teardown of a connection spares the clients of others and leaves none of its own. -/
structure Owned (w : World) : Prop where
  spares : ∀ client c rest setup w', w.queue = .disconnect client c :: rest →
    w.step (.handle setup) = some w' →
    ∀ e ∈ w.server.clients, e ∉ w'.server.clients → e.owner = c
  reaps : ∀ c, w.Down c → (∀ client, .disconnect client c ∉ w.queue) →
    ∀ e ∈ w.server.clients, e.owner ≠ c

/-- When a connection sends its teardown, its open clients are exactly those open under the
name it opened last; and while a teardown is queued nobody opens its name. -/
def Agreed (w : World) : Act → Prop
  | .disconnect c =>
      ∀ e ∈ w.server.clients, e.owner = c ↔ (w.conns c).openedClient = some e.name
  | .handle _ =>
      ∀ client d rest, w.queue = .request (.openClient client) d :: rest →
        (∀ e ∈ w.server.clients, e.name ≠ client) → ∀ c, .disconnect client c ∉ rest
  | _ => True

/-! ### What a command does to the clients -/

theorem mem_teardownClient {s : Server} {client : String} {e : ClientEntry} :
    e ∈ (s.teardownClient client).clients ↔ e ∈ s.clients ∧ e.name ≠ client := by
  simp [Server.teardownClient]

theorem clients_cancelAll (s : Server) (qs : List QueryId) :
    (qs.foldl (fun s q => (s.cancelQuery q).2) s).clients = s.clients := by
  induction qs generalizing s with
  | nil => rfl
  | cons q qs ih =>
      rw [List.foldl_cons, ih, Server.cancelQuery]
      split_ifs <;> rfl

/-- A request removes clients or adds the one its connection opens. -/
theorem clients_dispatch (s : Server) (conn : ConnId) (setup : Option String) (r : Request) :
    (∀ e ∈ (s.dispatch conn setup r).2.clients, e ∈ s.clients)
      ∨ ∃ client, r = .openClient client ∧ (∀ e ∈ s.clients, e.name ≠ client)
        ∧ (s.dispatch conn setup r).2.clients
          = s.clients ++ [⟨client, s.nextClientId, conn⟩] := by
  cases r with
  | openClient client =>
      simp only [Server.dispatch, Server.openClient]
      split_ifs with hdup hcap
      · exact .inl fun e he => he
      · exact .inl fun e he => he
      · cases setup with
        | some code => exact .inl fun e he => he
        | none =>
            -- the name is free, there is room, and the setup has not failed
            refine .inr ⟨client, rfl, fun e he hname => hdup ?_, rfl⟩
            exact List.any_eq_true.mpr ⟨e, he, by simpa using hname⟩
  | closeClient client =>
      rw [Server.dispatch]
      split_ifs
      · exact .inl fun e he => (mem_teardownClient.mp he).1
      · exact .inl fun e he => he
  | openQuery fromTs toTs =>
      refine .inl fun e he => ?_
      simp only [Server.dispatch, Server.openQuery] at he
      split at he <;> exact he
  | cancelQuery query =>
      refine .inl fun e he => ?_
      simp only [Server.dispatch, Server.cancelQuery] at he
      split_ifs at he <;> exact he
  | shutdown => exact .inl fun e he => he
  | other => exact .inl fun e he => he

/-- What handling a command does to the clients. -/
theorem clients_handle (s : Server) (setup : Option String) (cmd : ServerCommand) :
    (∀ e ∈ (s.handle setup cmd).2.clients, e ∈ s.clients)
      ∨ ∃ client c, cmd = .request (.openClient client) c ∧ (∀ e ∈ s.clients, e.name ≠ client)
        ∧ (s.handle setup cmd).2.clients = s.clients ++ [⟨client, s.nextClientId, c⟩] := by
  cases cmd with
  | disconnect client c => exact .inl fun e he => (mem_teardownClient.mp he).1
  | queryFinished q => exact .inl fun e he => he
  | cancelQueries qs =>
      refine .inl fun e he => ?_
      rwa [Server.handle, clients_cancelAll] at he
  | request r c =>
      rw [Server.handle]
      split_ifs with hdrain hshut
      · exact .inl fun e he => he
      · exact .inl fun e he => absurd he List.not_mem_nil
      · rcases clients_dispatch s c setup r with h | ⟨client, rfl, hfree, hadd⟩
        · exact .inl h
        · exact .inr ⟨client, c, rfl, hfree, hadd⟩

/-! ### The invariant -/

/-- The connection waits for a reply that the actor has not given yet. -/
def Waiting (w : World) (c : ConnId) : Prop := ∃ arm, (w.conns c).phase = .awaiting arm none

def isRequestOf (c : ConnId) : ServerCommand → Bool
  | .request _ d => d = c
  | _ => false

/-- Commands agree with the connections that sent them: a request is queued, once, only
while its connection waits for the reply; a queued teardown names exactly the clients of
its connection; and a connection whose teardown was handled has none. -/
structure Sound (w : World) : Prop where
  once : ∀ c, w.queue.countP (isRequestOf c) ≤ 1
  waiting : ∀ c, ¬ w.Waiting c → w.queue.countP (isRequestOf c) = 0
  sent : ∀ client c, .disconnect client c ∈ w.queue →
    w.Down c ∧ ∀ e ∈ w.server.clients, e.owner = c ↔ e.name = client
  reaped : ∀ c, w.Down c → (∀ client, .disconnect client c ∉ w.queue) →
    ∀ e ∈ w.server.clients, e.owner ≠ c

theorem sound_init (maxClients maxQueries : Nat) : Sound (init maxClients maxQueries) :=
  ⟨by simp [init], by simp [init], by simp [init], by simp [init]⟩

@[simp] theorem conns_setConn (w : World) (c d : ConnId) (x : Connection) :
    (w.setConn c x).conns d = if d = c then x else w.conns d := by
  simp [setConn, Function.update_apply]

theorem down_setConn_of_ne {w : World} {c d : ConnId} {x : Connection} (h : d ≠ c) :
    (w.setConn c x).Down d ↔ w.Down d := by
  simp [Down, h]

theorem waiting_setConn_of_ne {w : World} {c d : ConnId} {x : Connection} (h : d ≠ c) :
    (w.setConn c x).Waiting d ↔ w.Waiting d := by
  simp [Waiting, h]

/-- A connection that is up and has no request queued moves on without going down. -/
theorem Sound.setConn {w : World} (h : Sound w) {c : ConnId} {x : Connection}
    (hup : ¬ w.Down c) (hx : x.phase ≠ .leaving ∧ x.phase ≠ .gone)
    (hnone : w.queue.countP (isRequestOf c) = 0) : Sound (w.setConn c x) := by
  have hup' : ¬ (w.setConn c x).Down c := by simpa [Down] using hx
  refine ⟨h.once, fun d hd => ?_, fun client d hmem => ?_, fun d hd hno => ?_⟩
  · by_cases hdc : d = c
    · rw [hdc]
      exact hnone
    · exact h.waiting d fun hw => hd ((waiting_setConn_of_ne hdc).mpr hw)
  · obtain ⟨hdown, hclients⟩ := h.sent client d hmem
    have hdc : d ≠ c := fun heq => hup (heq ▸ hdown)
    exact ⟨(down_setConn_of_ne hdc).mpr hdown, hclients⟩
  · have hdc : d ≠ c := fun heq => hup' (heq ▸ hd)
    exact h.reaped d ((down_setConn_of_ne hdc).mp hd) hno

/-- A command that is neither a request nor a teardown of a client is queued. -/
theorem Sound.push {w : World} (h : Sound w) {cmd : ServerCommand}
    (hreq : ∀ c, isRequestOf c cmd = false) (hdis : ∀ client c, cmd ≠ .disconnect client c) :
    Sound (w.push cmd) := by
  have hcount : ∀ c, (w.push cmd).queue.countP (isRequestOf c)
      = w.queue.countP (isRequestOf c) := fun c => by simp [World.push, hreq c]
  have hmem : ∀ client c, .disconnect client c ∈ (w.push cmd).queue →
      .disconnect client c ∈ w.queue := fun client c hm =>
    (List.mem_append.mp hm).resolve_right fun hm =>
      hdis client c (List.mem_singleton.mp hm).symm
  refine ⟨fun c => (hcount c).trans_le (h.once c), fun c hc => (hcount c).trans (h.waiting c hc),
    fun client c hm => h.sent client c (hmem client c hm), fun c hc hno => ?_⟩
  exact h.reaped c hc fun client hm => hno client (List.mem_append_left _ hm)

theorem Sound.request {w : World} (h : Sound w) {c : ConnId} (hc : (w.conns c).phase = .serving)
    (r : Request) :
    Sound ((w.push (.request r c)).setPhase c (.awaiting (.ofRequest r) none)) := by
  have hnot : ¬ w.Waiting c := by simp [Waiting, hc]
  have hup : ¬ w.Down c := by simp [Down, hc]
  have hmem : ∀ client d, .disconnect client d ∈ w.queue ++ [.request r c] →
      .disconnect client d ∈ w.queue := fun client d hm =>
    (List.mem_append.mp hm).resolve_right fun hm => by cases List.mem_singleton.mp hm
  refine ⟨fun d => ?_, fun d hd => ?_, fun client d hm => ?_, fun d hd hno => ?_⟩
  · show (w.queue ++ [ServerCommand.request r c]).countP (isRequestOf d) ≤ 1
    rw [List.countP_append]
    by_cases hdc : d = c
    · subst hdc
      simp [h.waiting d hnot, isRequestOf]
    · have hne : ¬ c = d := fun heq => hdc heq.symm
      simpa [isRequestOf, hne] using h.once d
  -- a connection that waits for no reply is another one, and has nothing new queued
  · have hdc : d ≠ c := by
      rintro rfl
      exact hd ⟨.ofRequest r, by simp [setPhase]⟩
    show (w.queue ++ [ServerCommand.request r c]).countP (isRequestOf d) = 0
    have hne : ¬ c = d := fun heq => hdc heq.symm
    have hzero := h.waiting d fun hw => hd ((waiting_setConn_of_ne hdc).mpr hw)
    simpa [isRequestOf, hne] using hzero
  · obtain ⟨hdown, hclients⟩ := h.sent client d (hmem client d hm)
    have hdc : d ≠ c := fun heq => hup (heq ▸ hdown)
    exact ⟨(down_setConn_of_ne hdc).mpr hdown, hclients⟩
  · have hdc : d ≠ c := by
      rintro rfl
      simp [Down, setPhase] at hd
    exact h.reaped d ((down_setConn_of_ne hdc).mp hd) fun client hm =>
      hno client (List.mem_append_left _ hm)

/-- A teardown is sent for exactly the clients the connection has. -/
theorem Sound.disconnect {w : World} (h : Sound w) {c : ConnId}
    (hc : (w.conns c).phase = .broken)
    (hagree : ∀ e ∈ w.server.clients, e.owner = c ↔ (w.conns c).openedClient = some e.name)
    {w' : World} (hs : w.step (.disconnect c) = some w') : Sound w' := by
  have hnot : ¬ w.Waiting c := by simp [Waiting, hc]
  have hup : ¬ w.Down c := by simp [Down, hc]
  rw [step, if_pos hc] at hs
  cases hopened : (w.conns c).openedClient with
  -- no client was opened on it, so no teardown is sent, and there is nothing to reap
  | none =>
      simp only [hopened, Option.some.injEq] at hs
      subst hs
      refine ⟨h.once, fun d hd => ?_, fun client d hm => ?_, fun d hd hno => ?_⟩
      -- the teardown of `c` is queued, so its clients need not be gone yet
      · by_cases hdc : d = c
        · rw [hdc]
          exact h.waiting c hnot
        · exact h.waiting d fun hw => hd ((waiting_setConn_of_ne hdc).mpr hw)
      · obtain ⟨hdown, hclients⟩ := h.sent client d hm
        have hdc : d ≠ c := fun heq => hup (heq ▸ hdown)
        exact ⟨(down_setConn_of_ne hdc).mpr hdown, hclients⟩
      · by_cases hdc : d = c
        · subst hdc
          intro e he howner
          have hname := (hagree e he).mp howner
          rw [hopened] at hname
          cases hname
        · exact h.reaped d ((down_setConn_of_ne hdc).mp hd) hno
  | some client =>
      simp only [hopened, Option.some.injEq] at hs
      subst hs
      refine ⟨fun d => ?_, fun d hd => ?_, fun client' d hm => ?_, fun d hd hno => ?_⟩
      · show (w.queue ++ [ServerCommand.disconnect client c]).countP (isRequestOf d) ≤ 1
        simpa [isRequestOf] using h.once d
      · show (w.queue ++ [ServerCommand.disconnect client c]).countP (isRequestOf d) = 0
        by_cases hdc : d = c
        · rw [hdc]
          simpa [isRequestOf] using h.waiting c hnot
        · have hzero := h.waiting d fun hw => hd ((waiting_setConn_of_ne hdc).mpr hw)
          simpa [isRequestOf] using hzero
      · rcases List.mem_append.mp hm with hm | hm
        · obtain ⟨hdown, hclients⟩ := h.sent client' d hm
          have hdc : d ≠ c := fun heq => hup (heq ▸ hdown)
          exact ⟨(down_setConn_of_ne hdc).mpr hdown, hclients⟩
        · cases List.mem_singleton.mp hm
          refine ⟨.inl (by simp [setPhase]), fun e he => ?_⟩
          rw [hagree e he, hopened, Option.some.injEq]
          exact eq_comm
      · by_cases hdc : d = c
        · subst hdc
          exact absurd (List.mem_append_right _ List.mem_cons_self) (hno client)
        · exact h.reaped d ((down_setConn_of_ne hdc).mp hd) fun client' hm =>
            hno client' (List.mem_append_left _ hm)

/-- The actor takes the oldest command. -/
theorem Sound.pop {w : World} (h : Sound w) {cmd : ServerCommand} {rest : List ServerCommand}
    (hq : w.queue = cmd :: rest) {setup : Option String} (hagree : w.Agreed (.handle setup)) :
    Sound { w with server := (w.server.handle setup cmd).2, queue := rest } := by
  have hle : ∀ c, rest.countP (isRequestOf c) ≤ w.queue.countP (isRequestOf c) := fun c => by
    rw [hq]
    exact (List.sublist_cons_self cmd rest).countP_le
  have hmem : ∀ {x}, x ∈ rest → x ∈ w.queue := fun hx => by
    rw [hq]
    exact List.mem_cons_of_mem _ hx
  -- A client that was not there before was opened by a connection that is up.
  have hnew : ∀ e ∈ (w.server.handle setup cmd).2.clients, e ∈ w.server.clients
      ∨ (∀ c, w.Down c → e.owner ≠ c) ∧ ∀ c, .disconnect e.name c ∉ rest := by
    intro e he
    rcases clients_handle w.server setup cmd with hsub | ⟨client, d, rfl, hfree, hadd⟩
    · exact .inl (hsub e he)
    · rw [hadd] at he
      rcases List.mem_append.mp he with he | he
      · exact .inl he
      · obtain rfl := List.mem_singleton.mp he
        refine .inr ⟨?_, hagree client d rest hq hfree⟩
        rintro c hdown rfl
        have hwait : w.Waiting d := by
          by_contra hnot
          have hzero := h.waiting d hnot
          rw [hq] at hzero
          simp [isRequestOf] at hzero
        obtain ⟨arm, harm⟩ := hwait
        simp [Down, harm] at hdown
  refine ⟨fun c => (hle c).trans (h.once c),
    fun c hc => Nat.le_zero.mp ((hle c).trans (h.waiting c hc).le),
    fun client c hm => ?_, fun c hc hno e he => ?_⟩
  · obtain ⟨hdown, hclients⟩ := h.sent client c (hmem hm)
    refine ⟨hdown, fun e he => ?_⟩
    rcases hnew e he with hold | ⟨howner, hname⟩
    · exact hclients e hold
    · constructor
      · intro heq
        exact absurd heq (howner c hdown)
      · rintro rfl
        exact absurd hm (hname c)
  · rcases hnew e he with hold | ⟨howner, -⟩
    · by_cases hsent : ∃ client, .disconnect client c ∈ w.queue
      · -- The teardown of `c` is the command being handled.
        obtain ⟨client, hclient⟩ := hsent
        have hcmd : cmd = .disconnect client c := by
          rw [hq] at hclient
          rcases List.mem_cons.mp hclient with heq | hm
          · exact heq.symm
          · exact absurd hm (hno client)
        subst hcmd
        intro heq
        have hname := ((h.sent client c hclient).2 e hold).mp heq
        exact (mem_teardownClient.mp he).2 hname
      · exact h.reaped c hc (fun client hm => hsent ⟨client, hm⟩) e hold
    · exact howner c hc

theorem Sound.owned {w : World} (h : Sound w) : Owned w := by
  refine ⟨fun client c rest setup w' hq hs e he hgone => ?_, h.reaped⟩
  have hname : e.name = client := by
    by_contra hne
    refine hgone ?_
    simp only [step, hq, Option.some.injEq] at hs
    subst hs
    exact mem_teardownClient.mpr ⟨he, hne⟩
  exact ((h.sent client c (by rw [hq]; exact List.mem_cons_self)).2 e he).mpr hname

/-- The reply reaches the connection that waits for it, which has no other request queued. -/
theorem Sound.handle {w : World} (h : Sound w) {cmd : ServerCommand} {rest : List ServerCommand}
    (hq : w.queue = cmd :: rest) {setup : Option String} (hagree : w.Agreed (.handle setup)) :
    Sound (({ w with server := (w.server.handle setup cmd).2, queue := rest } : World).answer cmd
      (w.server.handle setup cmd).1) := by
  have hpop := h.pop hq hagree
  cases cmd with
  | request r c =>
      cases (w.server.handle setup (.request r c)).1 with
      | none => exact hpop
      | some reply =>
          cases hphase : (w.conns c).phase with
          | awaiting arm answered =>
              cases answered with
              | some earlier => simpa [answer, hphase] using hpop
              | none =>
                  have hone := h.once c
                  rw [hq, List.countP_cons_of_pos (by simp [isRequestOf])] at hone
                  have hmoved := hpop.setConn (c := c)
                    (x := { w.conns c with phase := .awaiting arm (some reply) })
                    (by simp [Down, hphase]) (by simp) (by simpa using hone)
                  simpa [answer, hphase, setPhase] using hmoved
          | _ => simpa [answer, hphase] using hpop
  | disconnect client c => exact hpop
  | queryFinished q => exact hpop
  | cancelQueries qs => exact hpop

/-- The query part of a teardown leaves the clients alone. -/
theorem Sound.cancelQueries {w w' : World} (h : Sound w) {c : ConnId}
    (hs : w.step (.cancelQueries c) = some w') : Sound w' := by
  rw [step] at hs
  split_ifs at hs with hc
  have hdown : w.Down c := .inl hc
  have hmoved : Sound (w.setPhase c .gone) := by
    have hiff : ∀ d, (w.setPhase c .gone).Down d ↔ w.Down d := fun d => by
      by_cases hdc : d = c
      · subst hdc
        exact ⟨fun _ => hdown, fun _ => .inr (by simp [setPhase])⟩
      · exact down_setConn_of_ne hdc
    refine ⟨h.once, fun d hd => ?_, fun client d hm => ?_, fun d hd hno => ?_⟩
    · by_cases hdc : d = c
      · rw [hdc]
        exact h.waiting c (by simp [Waiting, hc])
      · exact h.waiting d fun hw => hd ((waiting_setConn_of_ne hdc).mpr hw)
    · exact ⟨(hiff d).mpr (h.sent client d hm).1, (h.sent client d hm).2⟩
    · exact h.reaped d ((hiff d).mp hd) hno
  cases hqs : (w.conns c).openedQueries with
  | nil =>
      simp only [hqs, Option.some.injEq] at hs
      exact hs ▸ hmoved
  | cons q qs =>
      simp only [hqs, Option.some.injEq] at hs
      subst hs
      have hpushed : Sound ((w.setPhase c .gone).push (.cancelQueries (q :: qs))) :=
        hmoved.push (fun _ => rfl) (by simp)
      exact hpushed

theorem Sound.step {w w' : World} {a : Act} (h : Sound w) (hok : w.Agreed a)
    (hs : w.step a = some w') : Sound w' := by
  have hidle : ∀ {c}, ¬ w.Waiting c → w.queue.countP (isRequestOf c) = 0 := fun hc =>
    h.waiting _ hc
  cases a with
  | connect c =>
      rw [World.step] at hs
      split_ifs at hs with hc
      cases hs
      exact h.setConn (by simp [Down, hc]) (by simp) (hidle (by simp [Waiting, hc]))
  | request c r =>
      rw [World.step] at hs
      split_ifs at hs with hc
      cases hs
      exact h.request hc r
  | reply c written =>
      rw [World.step] at hs
      split at hs
      · rename_i arm reply hc
        cases hs
        refine h.setConn (by simp [Down, hc]) ?_ (hidle (by simp [Waiting, hc]))
        cases written <;> simp
      · cases hs
  | eof c =>
      rw [World.step] at hs
      split_ifs at hs with hc
      cases hs
      exact h.setConn (by simp [Down, hc]) (by simp) (hidle (by simp [Waiting, hc]))
  | disconnect c =>
      have hc : (w.conns c).phase = .broken := by
        by_contra hne
        simp [World.step, hne] at hs
      exact h.disconnect hc hok hs
  | cancelQueries c => exact h.cancelQueries hs
  | queryFinished q =>
      cases hs
      exact h.push (fun _ => rfl) (by simp)
  | handle setup =>
      rw [World.step] at hs
      split at hs
      · cases hs
      · rename_i cmd rest hq
        cases hs
        exact h.handle hq hok

/-! ### Ownership -/

/-- In every run in which teardowns and names agree, the end of a connection spares the
clients of the others and takes all of its own. -/
theorem ownership {maxClients maxQueries : Nat} {acts : List Act} {w : World}
    (hrun : ActionSystem.run step (init maxClients maxQueries) acts = some w)
    (hok : ActionSystem.Meets step Agreed (init maxClients maxQueries) acts) : Owned w :=
  (ActionSystem.invariant_of_meets (P := Sound) (fun h hok hs => h.step hok hs)
    (sound_init maxClients maxQueries) hok hrun).owned

/-- One connection opens a client and leaves. -/
def oneClient : List Act :=
  [.connect 0, .request 0 (.openClient "x"), .handle none, .reply 0 true, .eof 0,
    .disconnect 0, .handle none]

theorem meets_oneClient : ActionSystem.Meets step Agreed (init 4 4) oneClient := by
  refine (ActionSystem.meets_cons rfl).mpr ⟨trivial, ?_⟩
  refine (ActionSystem.meets_cons rfl).mpr ⟨trivial, ?_⟩
  refine (ActionSystem.meets_cons rfl).mpr ⟨fun client d rest hq _ c => ?_, ?_⟩
  · cases hq
    exact List.not_mem_nil
  refine (ActionSystem.meets_cons rfl).mpr ⟨trivial, ?_⟩
  refine (ActionSystem.meets_cons rfl).mpr ⟨trivial, ?_⟩
  refine (ActionSystem.meets_cons rfl).mpr ⟨?_, ?_⟩
  · show ∀ e ∈ [(⟨"x", 0, 0⟩ : ClientEntry)], e.owner = 0 ↔ some "x" = some e.name
    decide
  exact (ActionSystem.meets_cons rfl).mpr ⟨fun client d rest hq => (by cases hq), trivial⟩

theorem ownership_oneClient : ∃ w, ActionSystem.run step (init 4 4) oneClient = some w
    ∧ w.server.clients = [] ∧ w.Down 0 ∧ Owned w := by
  obtain ⟨w, hrun, hclients, hdown⟩ : ∃ w, ActionSystem.run step (init 4 4) oneClient = some w
    ∧ w.server.clients = [] ∧ w.Down 0 := ⟨_, rfl, rfl, .inl rfl⟩
  exact ⟨w, hrun, hclients, hdown, ownership hrun meets_oneClient⟩

/-- A connection that closed its client still tears down the name, which by then is another
connection's; and one that opened a second client leaves its first one open. -/
theorem not_owned : (∃ acts w, ActionSystem.run step (init 4 4) acts = some w ∧ ¬ Owned w
      ∧ w.queue = [.disconnect "x" 0] ∧ w.server.clients = [⟨"x", 1, 1⟩])
    ∧ ∃ acts w, ActionSystem.run step (init 4 4) acts = some w ∧ ¬ Owned w
      ∧ w.queue = [] ∧ w.Down 0 ∧ w.server.clients = [⟨"x", 0, 0⟩] := by
  refine ⟨⟨[.connect 0, .request 0 (.openClient "x"), .handle none, .reply 0 true,
    .request 0 (.closeClient "x"), .handle none, .reply 0 true,
    .connect 1, .request 1 (.openClient "x"), .handle none, .reply 1 true,
    .eof 0, .disconnect 0], _, rfl, fun h => ?_, rfl, rfl⟩,
    ⟨[.connect 0, .request 0 (.openClient "x"), .handle none, .reply 0 true,
    .request 0 (.openClient "y"), .handle none, .reply 0 true,
    .eof 0, .disconnect 0, .handle none], _, rfl, fun h => ?_, rfl, .inl rfl, rfl⟩⟩
  · have howner : (1 : ConnId) = 0 := h.spares "x" 0 [] none _ rfl rfl ⟨"x", 1, 1⟩
      List.mem_cons_self List.not_mem_nil
    cases howner
  · exact h.reaps 0 (.inl rfl) (fun _ => List.not_mem_nil) ⟨"x", 0, 0⟩ List.mem_cons_self rfl

end World

end Daemon

end Datamancer
