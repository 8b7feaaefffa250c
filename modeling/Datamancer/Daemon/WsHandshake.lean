import Mathlib.Data.List.DropRight
import Datamancer.Lib.Text

/-!
# Datamancer.Daemon.WsHandshake

Who may open a WebSocket connection (`accept_with_auth` of `ws/conn.rs`): one that presents the
bearer token, where one is configured, and that offers the version of the event frames as a
subprotocol. The token is looked at first, so that a peer without it is told nothing else.

The headers are the bytes of their values, in the order of their lines; the rest of the upgrade
is the library's.
-/

namespace Datamancer

namespace Ws

/-! ### Headers -/

abbrev HeaderValue := List UInt8

/-- `is_visible_ascii`. -/
def isVisibleAscii (b : UInt8) : Bool := 32 ≤ b && b < 127 || b = 9

/-- `HeaderValue::to_str`. -/
def toStr (v : HeaderValue) : Option (List Char) :=
  if v.all isVisibleAscii then some (v.map fun b => Char.ofNat b.toNat) else none

/-- The lines of the two headers that are read. -/
structure HandshakeRequest where
  authorization : List HeaderValue
  secWebsocketProtocol : List HeaderValue

def wsSubprotocol : String := "datamancer.v2"

/-- `eq_ignore_ascii_case`. -/
def eqIgnoreAsciiCase (a b : List Char) : Bool := a.map Char.toLower = b.map Char.toLower

/-- `trim`. -/
def trim (s : List Char) : List Char := (s.dropWhile Char.isWhitespace).rdropWhile Char.isWhitespace

/-- The token of the first `Authorization` line, whose scheme is matched in either case. -/
def presented (req : HandshakeRequest) : Option String :=
  req.authorization.head?.bind toStr |>.bind (splitOnce ' ')
    |>.filter (fun x => eqIgnoreAsciiCase x.1 "Bearer".toList) |>.map fun x => String.ofList x.2

/-- The subprotocol is offered in some line. -/
def offered (req : HandshakeRequest) : Bool :=
  (req.secWebsocketProtocol.filterMap toStr).any fun v =>
    (v.splitOn ',').any fun p => trim p = wsSubprotocol.toList

/-- `ct_eq`: all bytes are looked at, whichever differ. -/
def ctEq (a b : List UInt8) : Bool :=
  if a.length ≠ b.length then false
  else (a.zip b).foldl (fun diff x => diff ||| (x.1 ^^^ x.2)) 0 = 0

inductive Refusal
  /-- 401. -/
  | unauthorized
  /-- 400. -/
  | badRequest
  deriving DecidableEq, Repr

def Refusal.status : Refusal → Nat
  | unauthorized => 401
  | badRequest => 400

def Refusal.body : Refusal → String
  | unauthorized => "missing or invalid bearer token"
  | badRequest =>
      "unsupported event-frame wire version: this server speaks subprotocol " ++ wsSubprotocol

def asBytes (s : String) : List UInt8 := s.toByteArray.data.toList

def acceptWithAuth (authToken : Option String) (req : HandshakeRequest) : Except Refusal Unit :=
  if authToken.any fun expected =>
      !(presented req).any fun t => ctEq (asBytes t) (asBytes expected) then
    .error .unauthorized
  else if !offered req then .error .badRequest
  else .ok ()

/-! ### What is compared -/

theorem foldl_diff_eq_zero (l : List (UInt8 × UInt8)) (diff : UInt8) :
    l.foldl (fun diff x => diff ||| (x.1 ^^^ x.2)) diff = 0 ↔ diff = 0 ∧ ∀ x ∈ l, x.1 = x.2 := by
  induction l generalizing diff with
  | nil => simp
  | cons x l ih =>
      rw [List.foldl_cons, ih, UInt8.or_eq_zero_iff, UInt8.xor_eq_zero_iff, List.forall_mem_cons,
        and_assoc]

/-- Looking at all bytes tells what looking for a difference tells. -/
theorem ctEq_iff {a b : List UInt8} : ctEq a b ↔ a = b := by
  rw [ctEq]
  split_ifs with hlen
  · simp only [false_iff]
    rintro rfl
    exact hlen rfl
  · rw [decide_eq_true_eq, foldl_diff_eq_zero]
    have hlen : a.length = b.length := not_not.mp hlen
    constructor
    · rintro ⟨-, heq⟩
      refine List.ext_getElem hlen fun i hi hi' => ?_
      have hmem : (a[i], b[i]) ∈ a.zip b :=
        List.mem_iff_getElem.mpr ⟨i, by simpa using ⟨hi, hi'⟩, by simp⟩
      exact heq _ hmem
    · rintro rfl
      refine ⟨rfl, fun x hx => ?_⟩
      obtain ⟨i, hi, rfl⟩ := List.mem_iff_getElem.mp hx
      simp

theorem asBytes_inj {s t : String} : asBytes s = asBytes t ↔ s = t := by
  rw [asBytes, asBytes, Array.toList_inj, ← String.toByteArray_inj, ByteArray.ext_iff]

/-! ### Who is admitted -/

/-- The first `Authorization` line has the token, after a bearer scheme in whatever case. -/
def Presents (req : HandshakeRequest) (token : String) : Prop :=
  ∃ v rest scheme, req.authorization = v :: rest ∧ toStr v = some (scheme ++ ' ' :: token.toList) ∧
    scheme.map Char.toLower = "bearer".toList

/-- One of the subprotocols in one of the lines is the one that is spoken. -/
def Offers (req : HandshakeRequest) : Prop :=
  ∃ v ∈ req.secWebsocketProtocol, ∃ s, toStr v = some s ∧
    ∃ p ∈ s.splitOn ',', trim p = wsSubprotocol.toList

/-- The token is asked for where there is one. -/
def Authorized (authToken : Option String) (req : HandshakeRequest) : Prop :=
  ∀ expected, authToken = some expected → Presents req expected

theorem presented_eq_some {req : HandshakeRequest} {token : String} :
    presented req = some token ↔ Presents req token := by
  have hspace : ∀ {scheme : List Char}, scheme.map Char.toLower = "bearer".toList →
      ' ' ∉ scheme := by
    intro scheme h hmem
    have : Char.toLower ' ' ∈ "bearer".toList := h ▸ List.mem_map_of_mem hmem
    revert this
    decide
  simp only [presented, Option.map_eq_some_iff, Option.filter_eq_some_iff, Option.bind_eq_some_iff,
    List.head?_eq_some_iff, eqIgnoreAsciiCase, decide_eq_true_eq, Presents]
  constructor
  · rintro ⟨⟨scheme, t⟩, ⟨⟨s, ⟨v, ⟨rest, hv⟩, hs⟩, hsplit⟩, hscheme⟩, rfl⟩
    obtain ⟨rfl, -⟩ := eq_of_splitOnce hsplit
    exact ⟨v, rest, scheme, hv, by rw [hs, String.toList_ofList], hscheme⟩
  · rintro ⟨v, rest, scheme, hv, hs, hscheme⟩
    exact ⟨(scheme, token.toList), ⟨⟨_, ⟨v, ⟨rest, hv⟩, hs⟩,
      splitOnce_append _ (hspace hscheme)⟩, hscheme⟩, String.ofList_toList⟩

theorem offered_iff {req : HandshakeRequest} : offered req ↔ Offers req := by
  simp only [offered, List.any_eq_true, List.mem_filterMap, decide_eq_true_eq, Offers]
  constructor
  · rintro ⟨s, ⟨v, hv, hs⟩, hp⟩
    exact ⟨v, hv, s, hs, hp⟩
  · rintro ⟨v, hv, s, hs, hp⟩
    exact ⟨s, ⟨v, hv, hs⟩, hp⟩

theorem authorized_iff {authToken : Option String} {req : HandshakeRequest} :
    (authToken.any fun expected =>
      !(presented req).any fun t => ctEq (asBytes t) (asBytes expected)) = false
      ↔ Authorized authToken req := by
  have hpresented : ∀ expected, ((presented req).any fun t => ctEq (asBytes t) (asBytes expected))
      = true ↔ Presents req expected := by
    intro expected
    rw [← presented_eq_some, Option.any_eq_true]
    constructor
    · rintro ⟨t, ht, heq⟩
      rwa [← asBytes_inj.mp (ctEq_iff.mp heq)]
    · exact fun h => ⟨expected, h, ctEq_iff.mpr rfl⟩
  cases authToken with
  | none => simp [Authorized]
  | some expected => simp [Authorized, ← hpresented expected]

/-- Admitted is who presents the token and offers the subprotocol; without the token a peer is
refused alike, whatever it offers. -/
theorem acceptWithAuth_eq {authToken : Option String} {req : HandshakeRequest} :
    (acceptWithAuth authToken req = .ok () ↔ Authorized authToken req ∧ Offers req) ∧
    (acceptWithAuth authToken req = .error .unauthorized ↔ ¬ Authorized authToken req) := by
  rw [acceptWithAuth, ← authorized_iff, ← offered_iff]
  split_ifs <;> simp_all

end Ws

end Datamancer
