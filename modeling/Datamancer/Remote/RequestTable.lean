import Datamancer.Lib.ActionSystem
import Datamancer.Remote.WsClient

/-!
# Datamancer.Remote.RequestTable

The requests of a WebSocket client over every run. A request that is registered is served: it
gets the reply to its own id, or it waits with its entry in the table, which the reader takes
out when it leaves; and the table is closed in the same go, so nobody comes to wait after it
(`request_table`).
-/

namespace Datamancer

open ActionSystem

namespace WsClient

variable {E V : Type} {w w' : World E V}

/-! ### Each answer to its own request -/

/-- The request is past its registration and not over. -/
def ClientState.Registered (c : CallId) (id : UInt64) : ClientState → Prop
  | sending c' id' | awaiting c' id' => c' = c ∧ id' = id
  | idle | gone => False

structure World.Tabled (w : World E V) : Prop where
  /-- A request succeeds with a reply that carries its id. -/
  own : ∀ o ∈ w.returned, ∀ reply, o.result = .ok reply → reply.id = o.id
  /-- A request that waits has its entry in the table, and the reader is there to clear it. -/
  held : ∀ c id, w.client.Registered c id → w.table.reply c = .waiting →
    (id, c) ∈ w.table.entries ∧ w.reader ≠ .exited
  /-- Once the table is closed it is empty, and no request waits or comes to wait. -/
  latched : w.table.closed = true →
    w.table.entries = [] ∧ ∀ c id, w.client.Registered c id → (w.table.reply c).Ready
  /-- A request that failed to send has no entry. -/
  unsent : ∀ o ∈ w.returned, o.result = .error (.transport .socket) →
    ∃ c, o.call = some c ∧ ∀ e ∈ w.table.entries, e.2 ≠ c

/-! ### The invariant -/

namespace World

structure Sound (w : World E V) : Prop where
  wf : w.table.Wf
  closed : w.reader = .exited → w.table.closed = true
  serves : ∀ c id, w.client.Registered c id → w.table.Serves WsReply.id id c
  own : ∀ o ∈ w.returned, ∀ reply, o.result = .ok reply → reply.id = o.id
  unsent : ∀ o ∈ w.returned, o.result = .error (.transport .socket) →
    ∃ c, o.call = some c ∧ w.table.Absent c

theorem Sound.tabled (h : w.Sound) : w.Tabled where
  own := h.own
  held := fun c id hreg hwaiting => by
    refine ⟨(h.serves c id hreg).entry hwaiting, fun hexited => ?_⟩
    exact (h.serves c id hreg).ready h.wf (h.closed hexited) hwaiting
  latched := fun hclosed =>
    ⟨h.wf.closed hclosed, fun c id hreg => (h.serves c id hreg).ready h.wf hclosed⟩
  unsent := fun o ho hfailed => by
    obtain ⟨c, hc, habsent⟩ := h.unsent o ho hfailed
    exact ⟨c, hc, habsent.ne⟩

theorem sound_connect (eventBuffer : Nat) : (connect eventBuffer : World E V).Sound where
  wf := ReplyTable.wf_new
  closed := fun h => by cases h
  serves := fun _ _ h => h.elim
  own := fun _ ho => absurd ho List.not_mem_nil
  unsent := fun _ ho => absurd ho List.not_mem_nil

/-- The table and the outcomes stay; the reader and the client move. -/
theorem Sound.move (h : w.Sound) (htable : w'.table = w.table)
    (hreturned : w'.returned = w.returned)
    (hreader : w'.reader = .exited → w.reader = .exited)
    (hclient : ∀ c id, w'.client.Registered c id → w.client.Registered c id) : w'.Sound where
  wf := htable ▸ h.wf
  closed := fun hexited => htable ▸ h.closed (hreader hexited)
  serves := fun c id hreg => htable ▸ h.serves c id (hclient c id hreg)
  own := hreturned ▸ h.own
  unsent := htable ▸ hreturned ▸ h.unsent

/-- The table changes under the requests of the client. -/
theorem Sound.table (h : w.Sound) {t : ReplyTable UInt64 WsReply} {reader : Reader E}
    (hwf : t.Wf) (hclosed : reader = .exited → t.closed = true)
    (hserves : ∀ c id, w.client.Registered c id → w.table.Serves WsReply.id id c →
      t.Serves WsReply.id id c)
    (habsent : ∀ c, w.table.Absent c → t.Absent c) :
    Sound { w with table := t, reader := reader } where
  wf := hwf
  closed := hclosed
  serves := fun c id hreg => hserves c id hreg (h.serves c id hreg)
  own := h.own
  unsent := fun o ho hfailed => by
    obtain ⟨c, hc, ha⟩ := h.unsent o ho hfailed
    exact ⟨c, hc, habsent c ha⟩

theorem Sound.finish (h : w.Sound) {call : Option CallId} {id : UInt64}
    {result : Except ClientError WsReply} (hown : ∀ reply, result = .ok reply → reply.id = id)
    (hunsent : result = .error (.transport .socket) → ∃ c, call = some c ∧ w.table.Absent c) :
    (w.finish call id result).Sound where
  wf := h.wf
  closed := h.closed
  serves := fun _ _ hreg => hreg.elim
  own := fun o ho reply hok => by
    rcases List.mem_append.mp ho with ho | ho
    · exact h.own o ho reply hok
    · obtain rfl := List.mem_singleton.mp ho
      exact hown reply hok
  unsent := fun o ho hfailed => by
    rcases List.mem_append.mp ho with ho | ho
    · exact h.unsent o ho hfailed
    · obtain rfl := List.mem_singleton.mp ho
      exact hunsent hfailed

theorem Sound.begin (h : w.Sound) (id : UInt64) (encodes : Bool) : (w.begin id encodes).Sound := by
  rw [World.begin]
  split_ifs with hencodes hclosed
  · exact h.finish (fun _ hok => by cases hok) fun hfailed => by cases hfailed
  · have hopen : w.table.closed = false := by simpa using hclosed
    refine ⟨h.wf.register hopen id, h.closed, fun c id' hreg => ?_, h.own, fun o ho hfailed => ?_⟩
    · obtain ⟨rfl, rfl⟩ := hreg
      exact ReplyTable.serves_register h.wf WsReply.id id
    · obtain ⟨c, hc, ha⟩ := h.unsent o ho hfailed
      exact ⟨c, hc, ha.register id⟩
  · exact h.finish (fun _ hok => by cases hok) fun hfailed => by cases hfailed

theorem Sound.receive (h : w.Sound) (hreader : w.reader = .reading) (msg : Inbound E V) :
    (w.receive msg).Sound := by
  cases msg with
  | event frame =>
      rw [World.receive]
      split_ifs
      · exact h.move rfl rfl (fun he => by cases he) fun _ _ => id
      · exact h
  | reply reply =>
      refine h.table (h.wf.resolve _ _) (fun he => ?_)
        (fun c id _ hs => hs.resolve reply) fun c ha => ha.filter rfl rfl
      cases hreader.symm.trans he
  | health view => exact h.move rfl rfl id fun _ _ => id
  | unknown => exact h

/-- A result is the reply it comes from, or the error that reply stands for. -/
theorem result_cases (reply : WsReply) :
    result reply = .ok reply ∨ ∃ code message, result reply = .error (.control code message) := by
  rw [result]
  split_ifs
  · exact .inl rfl
  · exact .inr ⟨_, _, rfl⟩

theorem Sound.step {a : Action E V} (h : w.Sound) (hstep : w.step a = some w') : w'.Sound := by
  cases a with
  | request encodes =>
      simp only [World.step] at hstep
      split at hstep
      · cases hstep
        have hnext : Sound { w with nextId := w.nextId + 1 } := h.move rfl rfl id fun _ _ => id
        exact hnext.begin _ _
      · cases hstep
  | send ok =>
      simp only [World.step] at hstep
      split at hstep
      · rename_i c id hclient
        have hserves : w.table.Serves WsReply.id id c := h.serves c id (by
          rw [hclient]
          exact ⟨rfl, rfl⟩)
        cases ok with
        | true =>
            cases hstep
            refine h.move rfl rfl (fun he => he) fun _ _ hreg => ?_
            rw [hclient]
            exact hreg
        | false =>
            cases hstep
            -- the request gives up its place, and then its entry
            have hidle : Sound { w with client := .idle } :=
              h.move rfl rfl (fun he => he) fun _ _ hreg => hreg.elim
            have hremoved := hidle.table (h.wf.remove id) h.closed (fun _ _ hreg => hreg.elim)
              fun _ ha => ha.filter rfl rfl
            exact hremoved.finish (fun _ hok => by cases hok) fun _ =>
              ⟨c, rfl, hserves.absent_remove⟩
      · cases hstep
  | resume =>
      simp only [World.step] at hstep
      split at hstep
      · rename_i c id hclient
        split at hstep
        · cases hstep
        · cases hstep
          exact h.finish (fun _ hok => by cases hok) fun hfailed => by cases hfailed
        · rename_i reply hsent
          cases hstep
          have hserves : w.table.Serves WsReply.id id c := h.serves c id (by
            rw [hclient]
            exact ⟨rfl, rfl⟩)
          have hid := hserves.sent reply hsent
          obtain hres | ⟨code, message, hres⟩ := result_cases reply <;> rw [hres]
          · refine h.finish (fun _ hok => ?_) fun hfailed => by cases hfailed
            cases hok
            exact hid
          · exact h.finish (fun _ hok => by cases hok) fun hfailed => by cases hfailed
      · cases hstep
  | cancel =>
      simp only [World.step] at hstep
      split at hstep
      · cases hstep
        exact h.move rfl rfl (fun he => he) fun _ _ hreg => hreg.elim
      · cases hstep
        exact h.move rfl rfl (fun he => he) fun _ _ hreg => hreg.elim
      · cases hstep
  | dropClient =>
      simp only [World.step] at hstep
      split at hstep
      · cases hstep
        exact h.move rfl rfl (fun he => he) fun _ _ hreg => hreg.elim
      · cases hstep
  | frame msg =>
      simp only [World.step] at hstep
      split at hstep
      · cases hstep
        exact h.receive ‹_› msg
      · cases hstep
  | forward =>
      simp only [World.step] at hstep
      split at hstep
      · split at hstep
        · cases hstep
          exact h.move rfl rfl (fun he => by cases he) fun _ _ => id
        · cases hstep
        · cases hstep
          exact h.move rfl rfl (fun he => by cases he) fun _ _ => id
      · cases hstep
  | socketGone =>
      simp only [World.step] at hstep
      split at hstep
      · cases hstep
        exact h.move rfl rfl (fun he => by cases he) fun _ _ => id
      · cases hstep
  | latch =>
      simp only [World.step] at hstep
      split at hstep
      · cases hstep
        exact h.table (ReplyTable.wf_close _) (fun _ => rfl)
          (fun _ _ _ hs => hs.close) fun _ ha => ha.close
      · cases hstep
  | takeEvent =>
      obtain ⟨events, -, rfl⟩ := Option.map_eq_some_iff.mp hstep
      exact h.move rfl rfl id fun _ _ => id
  | dropEvents =>
      cases hstep
      exact h.move rfl rfl id fun _ _ => id
  | takeHealth =>
      obtain ⟨health, -, rfl⟩ := Option.map_eq_some_iff.mp hstep
      exact h.move rfl rfl id fun _ _ => id
  | dropHealth =>
      cases hstep
      exact h.move rfl rfl id fun _ _ => id

end World

/-! ### Every run -/

/-- The table of requests, in every state of every run from the connection on. -/
theorem request_table {eventBuffer : Nat} {acts : List (Action E V)}
    (hrun : run World.step (.connect eventBuffer) acts = some w) : w.Tabled :=
  (invariant (P := World.Sound) (fun hs hstep => hs.step hstep)
    (World.sound_connect eventBuffer) hrun).tabled

/-- A request is cancelled while it sends, a second one fails to send, and a third is waiting
when the socket goes; replies to the first and to nobody come in between. -/
def hangUp : List (Action Unit Unit) :=
  [.request true, .cancel, .request true, .send false, .frame (.reply ⟨1, true, none, none⟩),
    .frame (.event ()), .request true, .send true, .forward,
    .frame (.reply ⟨9, true, none, none⟩), .socketGone, .latch, .resume]

theorem request_table_hangUp :
    ∃ w, run World.step (.connect 64) hangUp = some w ∧ w.table.closed = true
      ∧ w.returned.map (·.id) = [2, 3] ∧ w.Tabled := by
  obtain ⟨w, hrun, hclosed, hids⟩ : ∃ w, run World.step (.connect 64) hangUp = some w
      ∧ w.table.closed = true ∧ w.returned.map (·.id) = [2, 3] := ⟨_, rfl, rfl, rfl⟩
  exact ⟨w, hrun, hclosed, hids, request_table hrun⟩

end WsClient

end Datamancer
