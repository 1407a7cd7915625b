import Mathlib.Data.List.Sort
import SentinelPass.Lib.Machine
import SentinelPass.Sync.Mac

/-!
# IPC sessions

`session.rs`: the two directional keys of a connection, the frames sealed with
them and the receiver's counter. Two endpoints seal and open frames while an
adversary delivers whatever bytes it likes to either of them.

AES-256-GCM and HKDF-SHA256 are `SessionEnv`; that nothing is decrypted that was
not encrypted under the same key, nonce and data is `Authentic`.
-/

namespace SentinelPass.Ipc

open Lib

/-! ## Frames -/

abbrev SessionKey := Vector UInt8 32

/-- The functions of other crates. -/
structure SessionEnv where
  encrypt : (key : SessionKey) → (nonce aad message : Bytes) → Bytes
  decrypt : (key : SessionKey) → (nonce aad ciphertext : Bytes) → Option Bytes
  sha256 : Bytes → Vector UInt8 32
  hkdfSha256 : (salt ikm info : Bytes) → SessionKey

inductive TransportError
  | other (msg : String)

def sessionProtoVersion : UInt16 := 1

def aadMagic : Bytes := utf8 "SPIS"

def maxMessageSize : Nat := 65536

inductive Direction
  | clientToServer
  | serverToClient
deriving DecidableEq

namespace Direction

def tag : Direction → UInt8
  | clientToServer => 1
  | serverToClient => 2

def info : Direction → String
  | clientToServer => "sentinelpass-ipc v1 client-to-server"
  | serverToClient => "sentinelpass-ipc v1 server-to-client"

end Direction

/-- `DirectionState`: the counter is the last one sent, or the last one accepted. -/
structure DirectionState where
  key : SessionKey
  direction : Direction
  counter : UInt64

def DirectionState.new (key : SessionKey) (direction : Direction) : DirectionState :=
  ⟨key, direction, 0⟩

def DirectionState.nextCounter (s : DirectionState) : Except TransportError DirectionState :=
  if s.counter.toNat + 1 < 2 ^ 64 then .ok { s with counter := s.counter + 1 }
  else .error (.other "session counter exhausted")

def DirectionState.acceptCounter (s : DirectionState) (counter : UInt64) :
    Except TransportError DirectionState :=
  if counter ≤ s.counter then
    .error (.other ("rejected frame: counter " ++ toString counter.toNat ++ " is not newer than "
      ++ toString s.counter.toNat ++ " (replay or reorder)"))
  else .ok { s with counter }

def frameAad (direction : Direction) (proto : UInt16) (counter : UInt64) : Bytes :=
  aadMagic ++ (leBytes 2 proto.toNat ++ (direction.tag :: leBytes 8 counter.toNat))

def counterNonce (counter : UInt64) : Bytes := List.replicate 4 0 ++ u64Bytes counter

open Direction

/-- `derive_directional_keys`: the keys for `c2s` and for `s2c`. -/
def deriveDirectionalKeys (E : SessionEnv) (token : Text)
    (clientRandom serverRandom : Vector UInt8 32) :
    SessionKey × SessionKey :=
  let hashed := (E.sha256 (textBytes (trim token))).toList
  let tokenBytes :=
    match unhex ((trim token).map Char.toLower) with
    | some bytes => if bytes.length = 32 then bytes else hashed
    | none => hashed
  let salt := clientRandom.toList ++ serverRandom.toList
  (E.hkdfSha256 salt tokenBytes (utf8 clientToServer.info),
    E.hkdfSha256 salt tokenBytes (utf8 serverToClient.info))

/-- `SessionCrypto`: one endpoint. -/
structure SessionCrypto where
  (send recv : DirectionState)

namespace SessionCrypto

def client (c2s s2c : SessionKey) : SessionCrypto :=
  ⟨.new c2s .clientToServer, .new s2c .serverToClient⟩

def server (c2s s2c : SessionKey) : SessionCrypto :=
  ⟨.new s2c .serverToClient, .new c2s .clientToServer⟩

/-- `SessionCrypto::seal`. -/
def sealFrame (E : SessionEnv) (s : SessionCrypto) (plaintext : Bytes) :
    Except TransportError (Bytes × SessionCrypto) := do
  let send ← s.send.nextCounter
  let nonce := counterNonce send.counter
  let aad := frameAad send.direction sessionProtoVersion send.counter
  .ok (nonce ++ E.encrypt send.key nonce aad plaintext, { s with send })

/-- The counter that the nonce of a frame carries. -/
def frameCounter (frame : Bytes) : UInt64 := UInt64.ofNat (beValue ((frame.take 12).drop 4))

def InBounds (frame : Bytes) : Prop := 12 < frame.length ∧ frame.length ≤ maxMessageSize + 16

instance (frame : Bytes) : Decidable (InBounds frame) :=
  inferInstanceAs (Decidable (12 < frame.length ∧ frame.length ≤ maxMessageSize + 16))

/-- The plaintext of a frame, if it is authentic for this receiver. -/
def decryptFrame (E : SessionEnv) (recv : DirectionState) (frame : Bytes) : Option Bytes :=
  E.decrypt recv.key (frame.take 12)
    (frameAad recv.direction sessionProtoVersion (frameCounter frame)) (frame.drop 12)

/-- `SessionCrypto::open`: the answer and the state it leaves. -/
def openFrame (E : SessionEnv) (s : SessionCrypto) (frame : Bytes) :
    Except TransportError Bytes × SessionCrypto :=
  if ¬ InBounds frame then
    (.error (.other ("session frame out of bounds: " ++ toString frame.length ++ " bytes")), s)
  else
    match s.recv.acceptCounter (frameCounter frame) with
    | .error e => (.error e, s)
    | .ok recv =>
      -- the counter is stored before the frame is authenticated
      match decryptFrame E recv frame with
      | none =>
        (.error (.other
          "session frame failed authentication (wrong key, direction, or tampered)"),
            { s with recv })
      | some plaintext => (.ok plaintext, { s with recv })

def openAll (E : SessionEnv) : SessionCrypto → List Bytes → List (Except TransportError Bytes)
  | _, [] => []
  | s, frame :: rest => (s.openFrame E frame).1 :: openAll E (s.openFrame E frame).2 rest

end SessionCrypto

variable {n m : UInt64}

/-! ## Reading and writing frames -/

section Frames

variable {E : SessionEnv} {s : SessionCrypto} {frame plaintext : Bytes}

theorem frameAad_inj {d d' n'}
    (h : frameAad d sessionProtoVersion n = frameAad d' sessionProtoVersion n') :
    d = d' ∧ n = n' := by
  have hrest := List.append_cancel_left (List.append_cancel_left h)
  obtain ⟨htag, hcounter⟩ := List.cons.inj hrest
  refine ⟨?_, ?_⟩
  · cases d with
    | clientToServer =>
      cases d' with
      | clientToServer => rfl
      | serverToClient => exact absurd htag (by decide)
    | serverToClient =>
      cases d' with
      | clientToServer => exact absurd htag (by decide)
      | serverToClient => rfl
  · exact UInt64.toNat_inj.mp (leBytes_inj n.toNat_lt n'.toNat_lt hcounter)

open DirectionState

theorem sealFrame_ok {s'} (h : s.sealFrame E plaintext = .ok (frame, s')) :
    s'.recv = s.recv ∧ s'.send.key = s.send.key ∧ s'.send.direction = s.send.direction ∧
      s.send.counter < s'.send.counter := by
  obtain ⟨send, hsend, h⟩ := bind_ok h
  cases h
  unfold nextCounter at hsend
  split at hsend
  · next hlt =>
    cases hsend
    refine ⟨rfl, rfl, rfl, ?_⟩
    rw [UInt64.lt_iff_toNat_lt, UInt64.toNat_add, UInt64.toNat_one, Nat.mod_eq_of_lt hlt]
    omega
  · cases hsend

theorem acceptCounter_ok {d d' : DirectionState} (h : d.acceptCounter n = .ok d') :
    d.counter < n ∧ d' = { d with counter := n } := by
  unfold acceptCounter at h
  rw [ite_error_eq_ok] at h
  obtain ⟨hn, h⟩ := h
  cases h
  exact ⟨UInt64.not_le.mp hn, rfl⟩

open SessionCrypto

theorem openFrame_cases (E) (s : SessionCrypto) (frame) :
    (∃ e, s.openFrame E frame = (.error e, s) ∧
      ¬ (SessionCrypto.InBounds frame ∧ s.recv.counter < frameCounter frame)) ∨
    SessionCrypto.InBounds frame ∧ s.recv.counter < frameCounter frame ∧
      ∃ recv, recv = { s.recv with counter := frameCounter frame } ∧
        ((∃ e, s.openFrame E frame = (.error e, { s with recv }) ∧
            decryptFrame E s.recv frame = none) ∨
          ∃ m, s.openFrame E frame = (.ok m, { s with recv }) ∧
            decryptFrame E s.recv frame = some m) := by
  unfold openFrame
  by_cases hbounds : SessionCrypto.InBounds frame
  · rw [if_neg (not_not.mpr hbounds)]
    cases haccept : s.recv.acceptCounter (frameCounter frame) with
    | error e =>
      refine .inl ⟨e, rfl, ?_⟩
      rintro ⟨-, hnewer⟩
      unfold acceptCounter at haccept
      rw [if_neg (UInt64.not_le.mpr hnewer)] at haccept
      cases haccept
    | ok recv =>
      obtain ⟨hnewer, rfl⟩ := acceptCounter_ok haccept
      refine .inr ⟨hbounds, hnewer, _, rfl, ?_⟩
      -- neither the key nor the direction has changed
      have hsame : decryptFrame E
          { s.recv with counter := frameCounter frame } frame
          = decryptFrame E s.recv frame := rfl
      dsimp only
      rw [hsame]
      cases hdecrypt : decryptFrame E s.recv frame with
      | none => exact .inl ⟨_, rfl, rfl⟩
      | some m => exact .inr ⟨m, rfl, rfl⟩
  · rw [if_pos hbounds]
    exact .inl ⟨_, rfl, fun h => hbounds h.1⟩

end Frames

/-! ## A session and its adversary -/

inductive Side
  | client
  | server
deriving DecidableEq

def Side.peer : Side → Side
  | client => server
  | server => client

/-- An endpoint, and with their counters the plaintexts it sealed and accepted. -/
structure Endpoint where
  crypto : SessionCrypto
  (sealed accepted : List (UInt64 × Bytes))

structure Session where
  (client server : Endpoint)

def Session.at (s : Session) : Side → Endpoint
  | .client => s.client
  | .server => s.server

def Session.set (s : Session) (p : Endpoint) : Side → Session
  | .client => { s with client := p }
  | .server => { s with server := p }

@[simp] theorem Session.at_set (s : Session) (p side) : (s.set p side).at side = p := by
  cases side with
  | client => rfl
  | server => rfl

@[simp] theorem Session.at_set_peer (s : Session) (p side) :
    (s.set p side).at side.peer = s.at side.peer := by
  cases side with
  | client => rfl
  | server => rfl

@[simp] theorem Side.peer_peer (side : Side) : side.peer.peer = side := by
  cases side with
  | client => rfl
  | server => rfl

theorem Side.eq_or_peer (side other : Side) : other = side ∨ other = side.peer := by
  cases side with
  | client =>
    cases other with
    | client => exact .inl rfl
    | server => exact .inr rfl
  | server =>
    cases other with
    | client => exact .inr rfl
    | server => exact .inl rfl

def Session.negotiated (E : SessionEnv) (token : Text)
    (clientRandom serverRandom : Vector UInt8 32) :
    Session :=
  let keys := deriveDirectionalKeys E token clientRandom serverRandom
  ⟨⟨.client keys.1 keys.2, [], []⟩, ⟨.server keys.1 keys.2, [], []⟩⟩

/-- An endpoint seals a frame, or any bytes are delivered to it. -/
inductive SessionAction
  | sealFrame (side : Side) (plaintext : Bytes)
  | deliver (side : Side) (frame : Bytes)

def sessionStep (E : SessionEnv) (s : Session) : SessionAction → Option Session
  | .sealFrame side plaintext =>
    let p := s.at side
    match p.crypto.sealFrame E plaintext with
    | .error _ => some s
    | .ok (_, crypto) =>
      some (s.set { p with crypto, sealed := p.sealed ++ [(crypto.send.counter, plaintext)] } side)
  | .deliver side frame =>
    let p := s.at side
    match p.crypto.openFrame E frame with
    | (.error _, crypto) => some (s.set { p with crypto } side)
    | (.ok plaintext, crypto) =>
      some (s.set { p with
        crypto, accepted := p.accepted ++ [(crypto.recv.counter, plaintext)] } side)

def session (E : SessionEnv) : Machine Session SessionAction where
  init s := ∃ token clientRandom serverRandom, s = .negotiated E token clientRandom serverRandom
  step := sessionStep E

/-- The endpoint encrypted `plaintext` under this key, nonce and data. -/
def Endpoint.Encrypted (p : Endpoint) (key : SessionKey) (nonce aad plaintext : Bytes) : Prop :=
  ∃ e ∈ p.sealed, key = p.crypto.send.key ∧ nonce = counterNonce e.1 ∧
    aad = frameAad p.crypto.send.direction sessionProtoVersion e.1 ∧ plaintext = e.2

/-- The AEAD is ideal: what decrypts was encrypted by an endpoint. -/
def Authentic (E : SessionEnv) (s : Session) : SessionAction → Prop
  | .sealFrame .. => True
  | .deliver side frame =>
    let recv := (s.at side).crypto.recv
    ∀ m ∈ SessionCrypto.decryptFrame E recv frame, ∃ p ∈ [s.client, s.server],
      p.Encrypted recv.key (frame.take 12)
        (frameAad recv.direction sessionProtoVersion (SessionCrypto.frameCounter frame)) m

instance (p : Endpoint) (key : SessionKey) (nonce aad plaintext : Bytes) :
    Decidable (p.Encrypted key nonce aad plaintext) := by
  unfold Endpoint.Encrypted
  infer_instance

instance (E : SessionEnv) (s : Session) (a : SessionAction) : Decidable (Authentic E s a) :=
  match a with
  | .sealFrame .. => .isTrue trivial
  | .deliver .. => by
    unfold Authentic
    infer_instance

/-! ## What is delivered -/

/-- Counters grow along the list and have reached `bound`. -/
structure Counted (l : List (UInt64 × Bytes)) (bound : UInt64) : Prop where
  grow : l.Pairwise fun a b => a.1 < b.1
  le : ∀ a ∈ l, a.1 ≤ bound

theorem Counted.mono {l} (h : Counted l n) (hle : n ≤ m) : Counted l m :=
  ⟨h.grow, fun a ha => UInt64.le_trans (h.le a ha) hle⟩

theorem Counted.concat {l} (h : Counted l n) (hlt : n < m) (b) : Counted (l ++ [(m, b)]) m where
  grow := by
    refine List.pairwise_append.mpr ⟨h.grow, List.pairwise_singleton _ _, ?_⟩
    intro a ha c hc
    rw [List.mem_singleton.mp hc]
    exact UInt64.lt_of_le_of_lt (h.le a ha) hlt
  le := by
    intro a ha
    rcases mem_snoc ha with ha | rfl
    · exact UInt64.le_trans (h.le a ha) (UInt64.le_of_lt hlt)
    · exact UInt64.le_refl _

theorem Counted.nodup {l} (h : Counted l n) : (l.map Prod.fst).Nodup := by
  refine List.pairwise_map.mpr (h.grow.imp ?_)
  intro a b hlt heq
  rw [heq] at hlt
  exact UInt64.lt_irrefl _ hlt

theorem Counted.sublist {l l'} (h : Counted l n) (h' : Counted l' m) (hsub : l ⊆ l') :
    l.Sublist l' := by
  have hanti : Std.Antisymm fun a b : UInt64 × Bytes => a.1 < b.1 :=
    ⟨fun a b hab hba => absurd hab (UInt64.lt_asymm hba)⟩
  have hnodup : l.Nodup := List.Nodup.of_map _ h.nodup
  exact List.sublist_of_subperm_of_pairwise (List.subperm_of_subset hnodup hsub) h.grow h'.grow

/-- One endpoint and what its peer sealed for it. -/
structure LinkInv (p peer : Endpoint) : Prop where
  direction : p.crypto.recv.direction = peer.crypto.send.direction
  other : p.crypto.recv.direction ≠ p.crypto.send.direction
  sealed : Counted p.sealed p.crypto.send.counter
  accepted : Counted p.accepted p.crypto.recv.counter
  genuine : p.accepted ⊆ peer.sealed

def SessionInv (s : Session) : Prop := ∀ side, LinkInv (s.at side) (s.at side.peer)

section Steps

variable {E : SessionEnv} {s t : Session} {side : Side}

theorem SessionInv.initial {token clientRandom serverRandom} :
    SessionInv (.negotiated E token clientRandom serverRandom) := by
  have hempty : ∀ n, Counted [] n := fun n => ⟨List.Pairwise.nil, by simp⟩
  intro side
  cases side with
  | client =>
    refine ⟨rfl, ?_, hempty _, hempty _, List.nil_subset _⟩
    show serverToClient ≠ clientToServer
    decide
  | server =>
    refine ⟨rfl, ?_, hempty _, hempty _, List.nil_subset _⟩
    show clientToServer ≠ serverToClient
    decide

theorem SessionInv.set (h : SessionInv s) {p}
    (hsend : p.crypto.send.direction = (s.at side).crypto.send.direction)
    (hrecv : p.crypto.recv.direction = (s.at side).crypto.recv.direction)
    (hsealed : Counted p.sealed p.crypto.send.counter) (hmore : (s.at side).sealed ⊆ p.sealed)
    (haccepted : Counted p.accepted p.crypto.recv.counter)
    (hgenuine : p.accepted ⊆ (s.at side.peer).sealed) : SessionInv (s.set p side) := by
  intro x
  rcases Side.eq_or_peer side x with rfl | rfl
  · rw [Session.at_set, Session.at_set_peer]
    refine ⟨hrecv.trans (h x).direction, ?_, hsealed, haccepted, hgenuine⟩
    rw [hrecv, hsend]
    exact (h x).other
  · have hpeer := h side.peer
    rw [Side.peer_peer] at hpeer
    rw [Session.at_set_peer, Side.peer_peer, Session.at_set]
    refine ⟨hpeer.direction.trans hsend.symm, hpeer.other, hpeer.sealed, hpeer.accepted, ?_⟩
    intro x hx
    exact hmore (hpeer.genuine hx)

theorem SessionInv.sealed_of_authentic (h : SessionInv s) {frame m : Bytes}
    (hauth : Authentic E s (.deliver side frame))
    (hm : SessionCrypto.decryptFrame E (s.at side).crypto.recv frame = some m) :
    (SessionCrypto.frameCounter frame, m) ∈ (s.at side.peer).sealed := by
  obtain ⟨p, hp, e, he, -, -, haad, rfl⟩ := hauth m hm
  obtain ⟨hdirection, hcounter⟩ := frameAad_inj haad
  have hwhich : p = s.at side ∨ p = s.at side.peer := by
    simp only [List.mem_cons, List.not_mem_nil, or_false] at hp
    cases side with
    | client => exact hp
    | server => exact hp.symm
  rcases hwhich with rfl | rfl
  · -- reflected: its own frames carry the other direction
    exact absurd hdirection (h side).other
  · rw [hcounter]
    exact he

/-- Counters only grow and what is accepted was sealed. -/
theorem SessionInv.step (h : SessionInv s) {a : SessionAction} (hauth : Authentic E s a)
    (hstep : sessionStep E s a = some t) : SessionInv t := by
  cases a with
  | sealFrame side plaintext =>
    simp only [sessionStep] at hstep
    split at hstep
    · cases hstep
      exact h
    rename_i frame crypto hseal
    cases hstep
    obtain ⟨hrecv, -, hdirection, hlt⟩ := sealFrame_ok hseal
    refine h.set hdirection (by rw [hrecv]) ((h side).sealed.concat hlt plaintext)
      (List.subset_append_left _ _) ?_ (h side).genuine
    rw [hrecv]
    exact (h side).accepted
  | deliver side frame =>
    simp only [sessionStep] at hstep
    rcases openFrame_cases E (s.at side).crypto frame with
      ⟨e, hopen, -⟩ | ⟨-, hnewer, recv, rfl, ⟨e, hopen, -⟩ | ⟨m, hopen, hm⟩⟩
    · rw [hopen] at hstep
      cases hstep
      exact h.set rfl rfl (h side).sealed (List.Subset.refl _) (h side).accepted (h side).genuine
    · rw [hopen] at hstep
      cases hstep
      exact h.set rfl rfl (h side).sealed (List.Subset.refl _)
        ((h side).accepted.mono (UInt64.le_of_lt hnewer)) (h side).genuine
    · rw [hopen] at hstep
      cases hstep
      refine h.set rfl rfl (h side).sealed (List.Subset.refl _)
        ((h side).accepted.concat hnewer m) ?_
      intro x hx
      rcases mem_snoc hx with hx | rfl
      · exact (h side).genuine hx
      · exact h.sealed_of_authentic hauth hm

end Steps

/-! ## What is rejected -/

/-- A newer frame within the bounds authenticates. -/
def NewerAuthentic (E : SessionEnv) (s : SessionCrypto) (frame : Bytes) : Prop :=
  SessionCrypto.InBounds frame → s.recv.counter < SessionCrypto.frameCounter frame →
    (SessionCrypto.decryptFrame E s.recv frame).isSome

/-- If the frame is rejected, the state stays, and later frames are answered as if
it had never arrived. -/
def LeavesNoTrace (E : SessionEnv) (s : SessionCrypto) (frame : Bytes) : Prop :=
  ∀ e, (s.openFrame E frame).1 = .error e → (s.openFrame E frame).2 = s ∧
    ∀ later, (s.openFrame E frame).2.openAll E later = s.openAll E later

theorem leavesNoTrace_iff (E s frame) : LeavesNoTrace E s frame ↔ NewerAuthentic E s frame := by
  unfold LeavesNoTrace NewerAuthentic
  rcases openFrame_cases E s frame with
    ⟨e, hopen, hold⟩ | ⟨hbounds, hnewer, recv, hrecv, ⟨e, hopen, hnone⟩ | ⟨m, hopen, hm⟩⟩
  · rw [hopen]
    refine ⟨fun _ hbounds hnewer => absurd ⟨hbounds, hnewer⟩ hold, ?_⟩
    intro _ _ _
    exact ⟨rfl, fun _ => rfl⟩
  · rw [hopen]
    constructor
    · intro h
      have hcounter := congrArg (fun c => c.recv.counter) (h e rfl).1
      rw [hrecv] at hcounter
      exact absurd hcounter.symm (UInt64.ne_of_lt hnewer)
    · intro h
      have hsome := h hbounds hnewer
      rw [hnone] at hsome
      cases hsome
  · rw [hopen]
    refine ⟨fun _ _ _ => by rw [hm]; rfl, ?_⟩
    intro _ e he
    cases he

/-- **Delivery.** Whatever the adversary delivers, each endpoint accepts a
subsequence of what its peer sealed, no frame twice. A rejected frame leaves no
trace exactly when no newer frame fails authentication. -/
theorem session_delivery (E : SessionEnv) : (∀ s, (session E).Reachable (Authentic E) s → ∀ side,
      (s.at side).accepted.Sublist (s.at side.peer).sealed ∧
        ((s.at side).accepted.map Prod.fst).Nodup) ∧
    ∀ crypto frame, LeavesNoTrace E crypto frame ↔ NewerAuthentic E crypto frame := by
  refine ⟨?_, leavesNoTrace_iff E⟩
  intro s hreach side
  have hinv : SessionInv s := by
    refine hreach.invariant ?_ ?_
    · rintro x ⟨token, clientRandom, serverRandom, rfl⟩
      exact .initial
    · intro x y a hx hauth hstep
      exact hx.step hauth hstep
  have hpeer := hinv side.peer
  exact ⟨(hinv side).accepted.sublist hpeer.sealed (hinv side).genuine, (hinv side).accepted.nodup⟩

/-! ## Sample sessions -/

def sampleTag (key : SessionKey) (nonce aad : Bytes) : Bytes := key.toList.take 1 ++ nonce ++ aad

def sampleSessionEnv : SessionEnv where
  encrypt key nonce aad message := sampleTag key nonce aad ++ message
  decrypt key nonce aad ciphertext :=
    let tag := sampleTag key nonce aad
    if tag.isPrefixOf ciphertext then some (ciphertext.drop tag.length) else none
  sha256 _ := Vector.replicate 32 0
  hkdfSha256 _ _ info := Vector.replicate 32 (info.getD 20 0)

def sampleSession : Session :=
  .negotiated sampleSessionEnv [] (Vector.replicate 32 1) (Vector.replicate 32 2)

def clientFrame (counter : UInt64) (plaintext : Bytes) : Bytes :=
  counterNonce counter ++ sampleSessionEnv.encrypt sampleSession.client.crypto.send.key
    (counterNonce counter) (frameAad .clientToServer sessionProtoVersion counter) plaintext

/-- Three frames; the second arrives first, then the first, the second again, the
client's own first frame at the client, and the third. -/
def reorderedRun : List SessionAction :=
  [.sealFrame .client [10], .sealFrame .client [20], .sealFrame .client [30],
    .deliver .server (clientFrame 2 [20]), .deliver .server (clientFrame 1 [10]),
    .deliver .server (clientFrame 2 [20]), .deliver .client (clientFrame 1 [10]),
    .deliver .server (clientFrame 3 [30])]

theorem session_delivery_reorderedRun :
    ∃ s, (session sampleSessionEnv).exec sampleSession reorderedRun = some s ∧
      s.server.accepted = [(2, [20]), (3, [30])] ∧ s.client.accepted = [] ∧
      s.server.accepted.Sublist s.client.sealed ∧
      (LeavesNoTrace sampleSessionEnv s.server.crypto (clientFrame 2 [20]) ↔
        NewerAuthentic sampleSessionEnv s.server.crypto (clientFrame 2 [20])) := by
  have hallowed : (session sampleSessionEnv).Allowed (Authentic sampleSessionEnv) sampleSession
      reorderedRun := by
    decide +kernel
  have hany : ((session sampleSessionEnv).exec sampleSession reorderedRun).any (fun s =>
      s.server.accepted = [(2, [20]), (3, [30])] ∧ s.client.accepted = []) = true := by
    decide +kernel
  obtain ⟨s, hs, h⟩ := (Option.any_eq_true _ _).mp hany
  obtain ⟨hserver, hclient⟩ := of_decide_eq_true h
  have hdelivery := session_delivery sampleSessionEnv
  exact ⟨s, hs, hserver, hclient,
    (hdelivery.1 s ⟨_, ⟨[], _, _, rfl⟩, Machine.run_of_exec hallowed hs⟩ .server).1,
    hdelivery.2 s.server.crypto (clientFrame 2 [20])⟩

def forgedFrame : Bytes := counterNonce 5 ++ [0]

/-- The server rejects the forged frame and keeps its counter, so it rejects the
client's first frame too. -/
theorem forged_frame_blocks_session : (∃ s, (session sampleSessionEnv).exec sampleSession
        [.deliver .server forgedFrame, .sealFrame .client [10],
          .deliver .server (clientFrame 1 [10])] = some s ∧
      s.client.sealed = [(1, [10])] ∧ s.server.accepted = [] ∧ s.server.crypto.recv.counter = 5) ∧
    (∃ s, (session sampleSessionEnv).exec sampleSession
        [.sealFrame .client [10], .deliver .server (clientFrame 1 [10])] = some s ∧
      s.server.accepted = [(1, [10])]) ∧
    (session sampleSessionEnv).Allowed (Authentic sampleSessionEnv) sampleSession
      [.deliver .server forgedFrame, .sealFrame .client [10],
        .deliver .server (clientFrame 1 [10])] ∧
    ¬ LeavesNoTrace sampleSessionEnv sampleSession.server.crypto forgedFrame := by
  have hblocked : ((session sampleSessionEnv).exec sampleSession
      [.deliver .server forgedFrame, .sealFrame .client [10],
        .deliver .server (clientFrame 1 [10])]).any (fun s =>
      s.client.sealed = [(1, [10])] ∧ s.server.accepted = [] ∧ s.server.crypto.recv.counter = 5)
        = true := by
    decide +kernel
  have hplain : ((session sampleSessionEnv).exec sampleSession
      [.sealFrame .client [10], .deliver .server (clientFrame 1 [10])]).any (fun s =>
      s.server.accepted = [(1, [10])]) = true := by
    decide +kernel
  obtain ⟨s, hs, h⟩ := (Option.any_eq_true _ _).mp hblocked
  obtain ⟨u, hu, h'⟩ := (Option.any_eq_true _ _).mp hplain
  refine ⟨⟨s, hs, of_decide_eq_true h⟩, ⟨u, hu, of_decide_eq_true h'⟩, by decide +kernel, ?_⟩
  rw [leavesNoTrace_iff]
  intro h
  exact absurd (h (by decide) (by decide +kernel)) (by decide +kernel)

/-! ## Nonces -/

def Side.sendKey (keys : SessionKey × SessionKey) : Side → SessionKey
  | client => keys.1
  | server => keys.2

/-- The key and the nonce of every frame that the endpoint sealed. -/
def Session.nonces (s : Session) (side : Side) : List (SessionKey × Bytes) :=
  (s.at side).sealed.map fun e => ((s.at side).crypto.send.key, counterNonce e.1)

/-- The keys are the negotiated ones, and the counters of the sealed frames grow. -/
def NonceInv (keys : SessionKey × SessionKey) (s : Session) : Prop :=
  ∀ side, (s.at side).crypto.send.key = side.sendKey keys ∧
    Counted (s.at side).sealed (s.at side).crypto.send.counter

variable {E : SessionEnv} {keys : SessionKey × SessionKey} {s t : Session}

theorem NonceInv.set (h : NonceInv keys s) {side p}
    (hkey : p.crypto.send.key = (s.at side).crypto.send.key)
    (hsealed : Counted p.sealed p.crypto.send.counter) : NonceInv keys (s.set p side) := by
  intro x
  rcases Side.eq_or_peer side x with rfl | rfl
  · rw [Session.at_set]
    exact ⟨hkey.trans (h x).1, hsealed⟩
  · rw [Session.at_set_peer]
    exact h _

theorem NonceInv.step (h : NonceInv keys s) {a} (hstep : sessionStep E s a = some t) :
    NonceInv keys t := by
  cases a with
  | sealFrame side plaintext =>
    simp only [sessionStep] at hstep
    split at hstep
    · cases hstep
      exact h
    · next hseal =>
      cases hstep
      obtain ⟨-, hkey, -, hlt⟩ := sealFrame_ok hseal
      exact h.set hkey ((h side).2.concat hlt plaintext)
  | deliver side frame =>
    -- whatever arrives, the sending half is left alone
    simp only [sessionStep] at hstep
    rcases openFrame_cases E (s.at side).crypto frame with
      ⟨e, hopen, -⟩ | ⟨-, -, recv, -, ⟨e, hopen, -⟩ | ⟨m, hopen, -⟩⟩
    all_goals
      rw [hopen] at hstep
      cases hstep
      exact h.set rfl (h side).2

theorem NonceInv.nodup (h : NonceInv keys s) (side : Side) : (s.nonces side).Nodup := by
  have hmap : s.nonces side = ((s.at side).sealed.map Prod.fst).map fun n =>
      ((s.at side).crypto.send.key, counterNonce n) := by
    rw [Session.nonces, List.map_map]
    rfl
  rw [hmap]
  refine (h side).2.nodup.map fun n n' heq => ?_
  exact u64Bytes_inj (List.append_cancel_left (Prod.mk.inj heq).2)

/-- **No nonce is used twice.** Whatever the two endpoints seal and whatever is delivered to them,
no two frames of the session are encrypted under one key and nonce, if the two keys differ. -/
theorem nonces_never_repeat {token : Text} {clientRandom serverRandom : Vector UInt8 32}
    (hkeys : (deriveDirectionalKeys E token clientRandom serverRandom).1
      ≠ (deriveDirectionalKeys E token clientRandom serverRandom).2)
    (hrun : (session E).Run (fun _ _ => True) (.negotiated E token clientRandom serverRandom) s) :
    (s.nonces .client ++ s.nonces .server).Nodup := by
  have hinv : NonceInv (deriveDirectionalKeys E token clientRandom serverRandom) s := by
    refine hrun.invariant (fun side => ?_) fun h _ hstep => h.step hstep
    cases side <;> exact ⟨rfl, .nil, by simp [Session.negotiated, Session.at]⟩
  refine List.nodup_append.mpr ⟨hinv.nodup .client, hinv.nodup .server, ?_⟩
  intro a ha b hb hab
  obtain ⟨e, -, rfl⟩ := List.mem_map.mp ha
  obtain ⟨e', -, rfl⟩ := List.mem_map.mp hb
  have hsame := (Prod.mk.inj hab).1
  rw [(hinv .client).1, (hinv .server).1] at hsame
  exact hkeys hsame

theorem nonces_never_repeat_sample : ∃ s, (session sampleSessionEnv).exec sampleSession
      [.sealFrame .client [10], .deliver .server forgedFrame, .sealFrame .server [20]] = some s ∧
    (s.nonces .client ++ s.nonces .server).length = 2 ∧
    (s.nonces .client ++ s.nonces .server).Nodup := by
  have hany : ((session sampleSessionEnv).exec sampleSession [.sealFrame .client [10],
      .deliver .server forgedFrame, .sealFrame .server [20]]).any
      (fun s => (s.nonces .client ++ s.nonces .server).length = 2) = true := by
    decide +kernel
  obtain ⟨s, hs, hlen⟩ := (Option.any_eq_true _ _).mp hany
  exact ⟨s, hs, of_decide_eq_true hlen, nonces_never_repeat (by decide +kernel)
    (Machine.run_of_exec (Machine.allowed_true _ _) hs)⟩

end SentinelPass.Ipc
