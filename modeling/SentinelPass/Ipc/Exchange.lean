import SentinelPass.Lib.JsonText
import SentinelPass.Ipc.Session

/-!
# A request and its answer

One `send_on` of the client against one cycle of the daemon's `run_connection`, down to the
bytes on the socket: the JSON text, the sealed frame (`session.rs`), the length and the
payload (`transport/unix.rs`). Neither end is stopped and nothing is lost or late.

A frame is 28 bytes longer than what it seals. A frame of at most `maxMessageSize` bytes
arrives (`transfer`); a longer one is refused by `write_message`, after the request has been
carried out, or, if its length modulo `2 ^ 32` is small enough, cut by the reader
(`transfer_oversize`). In both cases the client has no answer.
-/

namespace SentinelPass.Ipc

open Lib List SessionCrypto DirectionState Json

/-! ## Messages on the socket -/

/-- `TransportError` of a connection. -/
inductive ConnectionError
  | session (e : TransportError)
  | messageTooLarge (size max : Nat)
  | closed
  | timeout

/-- `write_message`: the length is cut to 32 bits before it is checked. -/
def writeMessage (data : Bytes) : Except ConnectionError Bytes :=
  let length := data.length % 2 ^ 32
  if maxMessageSize < length then .error (.messageTooLarge data.length maxMessageSize)
  else .ok (beBytes 4 length ++ data)

/-- `read_message`, of what the peer writes before it waits or closes. -/
def readMessage (wire : Bytes) : Except ConnectionError Bytes :=
  let length := beValue (wire.take 4)
  if wire.length < 4 then .error .closed
  else if length = 0 ∨ maxMessageSize < length then .error (.messageTooLarge length maxMessageSize)
  else if wire.length < 4 + length then .error .closed
  else .ok ((wire.drop 4).take length)

theorem readMessage_append {data length} (hpos : 0 < length) (hmax : length ≤ maxMessageSize)
    (hlen : length ≤ data.length) :
    readMessage (beBytes 4 length ++ data) = .ok (data.take length) := by
  have hsmall : length < 256 ^ 4 := Nat.lt_of_le_of_lt hmax (by decide)
  have htake : (beBytes 4 length ++ data).take 4 = beBytes 4 length :=
    take_left' (length_beBytes 4 length)
  have hdrop : (beBytes 4 length ++ data).drop 4 = data :=
    drop_left' (length_beBytes 4 length)
  have hvalue : beValue ((beBytes 4 length ++ data).take 4) = length := by
    rw [htake, beValue_beBytes, Nat.mod_eq_of_lt hsmall]
  have htotal : (beBytes 4 length ++ data).length = 4 + data.length := by
    rw [length_append, length_beBytes]
  unfold readMessage
  rw [hvalue, hdrop, htotal]
  rw [if_neg (by omega), if_neg (by omega), if_neg (by omega)]

theorem readMessage_zero (data : Bytes) :
    readMessage (beBytes 4 0 ++ data) = .error (.messageTooLarge 0 maxMessageSize) := by
  have htake : (beBytes 4 0 ++ data).take 4 = beBytes 4 0 :=
    take_left' (length_beBytes 4 0)
  have htotal : (beBytes 4 0 ++ data).length = 4 + data.length := by
    rw [length_append, length_beBytes]
  unfold readMessage
  rw [htake, htotal, beValue_beBytes]
  rw [if_neg (by omega)]
  rfl

/-! ## Frames -/

def aeadLimit : Nat := 2 ^ 36

/-- What AES-256-GCM keeps: a tag of 16 bytes, and nothing opens but the whole ciphertext. -/
structure SessionEnv.Seals (E : SessionEnv) : Prop where
  length_encrypt : ∀ key nonce aad m, (E.encrypt key nonce aad m).length = m.length + 16
  decrypt_encrypt : ∀ key nonce aad m, m.length ≤ aeadLimit →
    E.decrypt key nonce aad (E.encrypt key nonce aad m) = some m
  decrypt_take : ∀ key nonce aad m n, m.length ≤ aeadLimit → n < m.length + 16 →
    E.decrypt key nonce aad ((E.encrypt key nonce aad m).take n) = none

/-- `IpcConnection::send_frame` of a secured connection. -/
def sendFrame (E : SessionEnv) (crypto : SessionCrypto) (bytes : Bytes) :
    Except ConnectionError (Bytes × SessionCrypto) :=
  match crypto.sealFrame E bytes with
  | .error e => .error (.session e)
  | .ok (sealed, crypto') =>
    if aeadLimit < bytes.length then .error (.session (.other "session seal failed"))
    else
      match writeMessage sealed with
      | .error e => .error e
      | .ok wire => .ok (wire, crypto')

/-- `IpcConnection::recv_frame` of a secured connection. -/
def recvFrame (E : SessionEnv) (crypto : SessionCrypto) (wire : Bytes) :
    Except ConnectionError Bytes × SessionCrypto :=
  match readMessage wire with
  | .error e => (.error e, crypto)
  | .ok raw =>
    match crypto.openFrame E raw with
    | (.error e, crypto') => (.error (.session e), crypto')
    | (.ok bytes, crypto') => (.ok bytes, crypto')

section Frames

variable {E : SessionEnv} {crypto peer : SessionCrypto} {bytes : Bytes}

@[simp] theorem length_counterNonce (n : UInt64) : (counterNonce n).length = 12 := by
  unfold counterNonce
  rw [length_append, length_replicate, length_u64Bytes]

theorem take_counterNonce (n rest) : (counterNonce n ++ rest).take 12 = counterNonce n :=
  take_left' (length_counterNonce n)

theorem frameCounter_counterNonce (n rest) : frameCounter (counterNonce n ++ rest) = n := by
  have hdrop : (counterNonce n).drop 4 = u64Bytes n := drop_left' length_replicate
  unfold frameCounter
  rw [take_counterNonce, hdrop, u64Bytes, beValue_beBytes]
  exact UInt64.toNat_inj.mp (by simp)

def DirectionState.bump (s : DirectionState) : DirectionState := { s with counter := s.counter + 1 }

/-- The frame that carries the counter of the state. -/
def DirectionState.frame (E : SessionEnv) (s : DirectionState) (bytes : Bytes) : Bytes :=
  counterNonce s.counter ++ E.encrypt s.key (counterNonce s.counter)
    (frameAad s.direction sessionProtoVersion s.counter) bytes

theorem sealFrame_eq (hcounter : crypto.send.counter.toNat + 1 < 2 ^ 64) : crypto.sealFrame E bytes
      = .ok (crypto.send.bump.frame E bytes, { crypto with send := crypto.send.bump }) := by
  unfold sealFrame nextCounter
  rw [if_pos hcounter]
  rfl

theorem length_frame (hE : E.Seals) (s : DirectionState) (bytes : Bytes) :
    (s.frame E bytes).length = bytes.length + 28 := by
  unfold frame
  rw [length_append, length_counterNonce, hE.length_encrypt]
  omega

theorem lt_bump {s : DirectionState} (hcounter : s.counter.toNat + 1 < 2 ^ 64) :
    s.counter < s.bump.counter := by
  show s.counter < s.counter + 1
  rw [UInt64.lt_iff_toNat_lt, UInt64.toNat_add, UInt64.toNat_one, Nat.mod_eq_of_lt hcounter]
  omega

/-- The peer has the key and the direction, and has seen no later counter. -/
structure Follows (peer crypto : SessionCrypto) : Prop where
  key : peer.recv.key = crypto.send.key
  direction : peer.recv.direction = crypto.send.direction
  counter : peer.recv.counter ≤ crypto.send.counter

theorem Follows.of_eq (h : peer.recv = crypto.send) : Follows peer crypto :=
  ⟨by rw [h], by rw [h], by rw [h]; exact UInt64.le_refl _⟩

theorem Follows.accept (h : Follows peer crypto)
    (hcounter : crypto.send.counter.toNat + 1 < 2 ^ 64) :
    peer.recv.acceptCounter crypto.send.bump.counter = .ok crypto.send.bump := by
  have hlater := UInt64.lt_of_le_of_lt h.counter (lt_bump hcounter)
  unfold acceptCounter
  rw [if_neg (UInt64.not_le.mpr hlater), h.key, h.direction]
  rfl

theorem openFrame_next {next} (haccept : peer.recv.acceptCounter next.counter = .ok next) {body}
    (hpos : 0 < body.length) (hmax : body.length ≤ maxMessageSize) :
    peer.openFrame E (counterNonce next.counter ++ body)
      = ((E.decrypt next.key (counterNonce next.counter)
          (frameAad next.direction sessionProtoVersion next.counter) body).elim
        (.error (.other "session frame failed authentication (wrong key, direction, or tampered)"))
        .ok, { peer with recv := next }) := by
  have hbounds : SessionCrypto.InBounds (counterNonce next.counter ++ body) := by
    unfold SessionCrypto.InBounds
    rw [length_append, length_counterNonce]
    omega
  have hdrop : (counterNonce next.counter ++ body).drop 12 = body :=
    drop_left' (length_counterNonce _)
  unfold openFrame
  rw [if_neg (not_not.mpr hbounds), frameCounter_counterNonce, haccept]
  dsimp only
  unfold decryptFrame
  rw [take_counterNonce, hdrop, frameCounter_counterNonce]
  split
  · next hfails => rw [hfails, Option.elim_none]
  · next m hopens => rw [hopens, Option.elim_some]

theorem transfer (hE : E.Seals) (hpeer : Follows peer crypto)
    (hcounter : crypto.send.counter.toNat + 1 < 2 ^ 64)
    (hfits : bytes.length + 28 ≤ maxMessageSize) :
    ∃ wire, sendFrame E crypto bytes = .ok (wire, { crypto with send := crypto.send.bump }) ∧
      recvFrame E peer wire = (.ok bytes, { peer with recv := crypto.send.bump }) := by
  have hlen := length_frame hE crypto.send.bump bytes
  have hlimit : bytes.length ≤ aeadLimit := by
    unfold aeadLimit
    unfold maxMessageSize at hfits
    omega
  have hwrite : writeMessage (crypto.send.bump.frame E bytes)
      = .ok (beBytes 4 (bytes.length + 28) ++ crypto.send.bump.frame E bytes) := by
    unfold writeMessage
    rw [hlen, Nat.mod_eq_of_lt (Nat.lt_of_le_of_lt hfits (by decide))]
    rw [if_neg (by omega)]
  have hread : readMessage (beBytes 4 (bytes.length + 28) ++ crypto.send.bump.frame E bytes)
      = .ok (crypto.send.bump.frame E bytes) := by
    rw [readMessage_append (by omega) hfits (Nat.le_of_eq hlen.symm), ← hlen, take_length]
  have hopen : peer.openFrame E (crypto.send.bump.frame E bytes)
      = (.ok bytes, { peer with recv := crypto.send.bump }) := by
    unfold frame
    rw [openFrame_next (hpeer.accept hcounter)]
    · rw [hE.decrypt_encrypt _ _ _ _ hlimit]
      rfl
    · rw [hE.length_encrypt]
      omega
    · rw [hE.length_encrypt]
      omega
  refine ⟨beBytes 4 (bytes.length + 28) ++ crypto.send.bump.frame E bytes, ?_, ?_⟩
  · unfold sendFrame
    rw [sealFrame_eq hcounter]
    dsimp only
    rw [if_neg (Nat.not_lt.mpr hlimit), hwrite]
  · unfold recvFrame
    rw [hread]
    dsimp only
    rw [hopen]

theorem transfer_oversize (hE : E.Seals) (hpeer : Follows peer crypto)
    (hlong : maxMessageSize < bytes.length + 28) {wire crypto'}
    (hsend : sendFrame E crypto bytes = .ok (wire, crypto')) :
    ∃ e, (recvFrame E peer wire).1 = .error e := by
  unfold sendFrame at hsend
  split at hsend
  · cases hsend
  next sealed sent hseal =>
  split at hsend
  · cases hsend
  next hlimit =>
  have hcounter : crypto.send.counter.toNat + 1 < 2 ^ 64 := by
    unfold sealFrame nextCounter at hseal
    split at hseal
    · assumption
    · cases hseal
  rw [sealFrame_eq hcounter] at hseal
  cases hseal
  have hlen := length_frame hE crypto.send.bump bytes
  split at hsend
  · cases hsend
  next hwrite =>
  cases hsend
  unfold writeMessage at hwrite
  rw [ite_error_eq_ok, hlen] at hwrite
  obtain ⟨hcut, hwrite⟩ := hwrite
  cases hwrite
  -- the length on the wire is that of a front of the frame
  generalize hn : (bytes.length + 28) % 2 ^ 32 = n at hcut ⊢
  have hnlt : n < bytes.length + 28 := by omega
  unfold recvFrame
  by_cases hzero : n = 0
  · rw [hzero, readMessage_zero]
    exact ⟨_, rfl⟩
  · rw [readMessage_append (Nat.pos_of_ne_zero hzero) (Nat.not_lt.mp hcut) (hlen ▸ hnlt.le)]
    dsimp only
    by_cases hshort : n ≤ 12
    · have hbounds : ¬ SessionCrypto.InBounds ((crypto.send.bump.frame E bytes).take n) := by
        unfold SessionCrypto.InBounds
        rw [length_take]
        omega
      unfold openFrame
      rw [if_pos hbounds]
      exact ⟨_, rfl⟩
    · have hfront : (crypto.send.bump.frame E bytes).take n
          = counterNonce crypto.send.bump.counter ++ (E.encrypt crypto.send.bump.key
            (counterNonce crypto.send.bump.counter)
            (frameAad crypto.send.bump.direction sessionProtoVersion crypto.send.bump.counter)
            bytes).take (n - 12) := by
        unfold frame
        rw [take_append, length_counterNonce, take_of_length_le]
        rw [length_counterNonce]
        omega
      rw [hfront, openFrame_next (hpeer.accept hcounter)]
      · rw [hE.decrypt_take _ _ _ _ _ (Nat.not_lt.mp hlimit) (by omega)]
        exact ⟨_, rfl⟩
      · rw [length_take, hE.length_encrypt]
        omega
      · rw [length_take, hE.length_encrypt]
        omega

/-- What is sent arrives. -/
def Delivers (E : SessionEnv) (crypto peer : SessionCrypto) (bytes : Bytes) : Prop :=
  ∃ wire crypto', sendFrame E crypto bytes = .ok (wire, crypto') ∧
    (recvFrame E peer wire).1 = .ok bytes

/-- **A message arrives iff it leaves room for the nonce and the tag**, over every state of a
connection. -/
theorem frame_delivered_iff {E : SessionEnv} (hE : E.Seals) {crypto peer : SessionCrypto}
    (hpeer : Follows peer crypto) (hcounter : crypto.send.counter.toNat + 1 < 2 ^ 64)
    (bytes : Bytes) : Delivers E crypto peer bytes ↔ bytes.length ≤ 65508 := by
  constructor
  · rintro ⟨wire, crypto', hsend, hrecv⟩
    by_contra hlong
    have hover : maxMessageSize < bytes.length + 28 := by
      unfold maxMessageSize
      omega
    obtain ⟨e, he⟩ := transfer_oversize hE hpeer hover hsend
    cases hrecv.symm.trans he
  · intro hfits
    have hframe : bytes.length + 28 ≤ maxMessageSize := by
      unfold maxMessageSize
      omega
    obtain ⟨wire, hsend, hrecv⟩ := transfer hE hpeer hcounter hframe
    exact ⟨wire, _, hsend, by rw [hrecv]⟩

end Frames

/-! ## One cycle -/

/-- `IpcEnvelope`: the token, and everything that goes with it. -/
structure IpcEnvelope (β : Type) where
  token : Text
  body : β

/-- `serde_json`, for envelopes and for messages. -/
structure IpcCodec (β ρ : Type) where
  encodeEnvelope : IpcEnvelope β → Bytes
  decodeEnvelope : Bytes → Option (IpcEnvelope β)
  encodeMessage : ρ → Bytes
  decodeMessage : Bytes → Option ρ

/-- What has been written is read back. -/
structure IpcCodec.Lawful {β ρ : Type} (C : IpcCodec β ρ) : Prop where
  envelope : ∀ env, C.decodeEnvelope (C.encodeEnvelope env) = some env
  message : ∀ m, C.decodeMessage (C.encodeMessage m) = some m

/-- A secured connection between two requests: what one end sends next is what the other
expects, and no more answers have been sent than requests. -/
structure SecuredConnection where
  (client server : SessionCrypto)
  requests : server.recv = client.send
  answers : client.recv = server.send
  answered : server.send.counter ≤ client.send.counter

/-- `ProtocolError::Ipc`, by what it says. -/
inductive ProtocolError
  | failedToWrite (e : ConnectionError)
  | failedToRead (e : ConnectionError)
  | failedToParse

section Exchange

variable {β ρ : Type}

def processFrame (C : IpcCodec β ρ) (authToken : Text) (handleMessage : IpcEnvelope β → ρ)
    (frame : Bytes) : Option Bytes :=
  match C.decodeEnvelope frame with
  | none => none
  | some envelope =>
    if envelope.token = authToken then some (C.encodeMessage (handleMessage envelope)) else none

/-- One cycle of `run_connection`. An error ends the connection. -/
def runCycle (E : SessionEnv) (C : IpcCodec β ρ) (authToken : Text)
    (handleMessage : IpcEnvelope β → ρ) (server : SessionCrypto) (wire : Bytes) :
    Except ConnectionError (Option Bytes × SessionCrypto) :=
  match recvFrame E server wire with
  | (.error e, _) => .error e
  | (.ok frame, server') =>
    match processFrame C authToken handleMessage frame with
    | none => .ok (none, server')
    | some response =>
      match sendFrame E server' response with
      | .error e => .error e
      | .ok (reply, server'') => .ok (some reply, server'')

/-- `send_on`: the answer, and the two ends after it. -/
def sendOn (E : SessionEnv) (C : IpcCodec β ρ) (authToken : Text)
    (handleMessage : IpcEnvelope β → ρ) (conn : SecuredConnection) (envelope : IpcEnvelope β) :
    Except ProtocolError (ρ × SessionCrypto × SessionCrypto) :=
  match sendFrame E conn.client (C.encodeEnvelope envelope) with
  | .error e => .error (.failedToWrite e)
  | .ok (wire, client) =>
    match runCycle E C authToken handleMessage conn.server wire with
    | .error _ => .error (.failedToRead .closed)
    | .ok (none, _) => .error (.failedToRead .timeout)
    | .ok (some reply, server) =>
      match recvFrame E client reply with
      | (.error e, _) => .error (.failedToRead e)
      | (.ok buffer, client') =>
        match C.decodeMessage buffer with
        | none => .error .failedToParse
        | some message => .ok (message, client', server)

variable {E : SessionEnv} {C : IpcCodec β ρ} {handleMessage : IpcEnvelope β → ρ}
  {conn : SecuredConnection} {envelope : IpcEnvelope β}

section

variable (hE : E.Seals) (hC : C.Lawful) (hrequest : (C.encodeEnvelope envelope).length + 28 ≤
    maxMessageSize) (hcounter : conn.client.send.counter.toNat + 1 < 2 ^ 64)

include hE hC hrequest hcounter

theorem sendOn_eq : sendOn E C envelope.token handleMessage conn envelope = match sendFrame E {
    conn.server with recv := conn.client.send.bump }
          (C.encodeMessage (handleMessage envelope)) with
        | .error _ => .error (.failedToRead .closed)
        | .ok (reply, server) =>
          match recvFrame E { conn.client with send := conn.client.send.bump } reply with
          | (.error e, _) => .error (.failedToRead e)
          | (.ok buffer, client') =>
            match C.decodeMessage buffer with
            | none => .error .failedToParse
            | some message => .ok (message, client', server) := by
  obtain ⟨wire, hsend, hrecv⟩ := transfer hE (.of_eq conn.requests) hcounter hrequest
  unfold sendOn runCycle processFrame
  rw [hsend]
  dsimp only
  rw [hrecv]
  dsimp only
  rw [hC.envelope]
  dsimp only
  rw [if_pos rfl]
  dsimp only
  cases sendFrame E { conn.server with recv := conn.client.send.bump }
      (C.encodeMessage (handleMessage envelope)) with
  | error e => rfl
  | ok sent => rfl

/-- An answer that fits in a frame is obtained, and the connection can be used again. -/
theorem sendOn_fits
    (hfits : (C.encodeMessage (handleMessage envelope)).length + 28 ≤ maxMessageSize) :
    ∃ conn' : SecuredConnection, sendOn E C envelope.token handleMessage conn envelope
        = .ok (handleMessage envelope, conn'.client, conn'.server) := by
  have hanswered := UInt64.le_iff_toNat_le.mp conn.answered
  have hserver : conn.server.send.counter.toNat + 1 < 2 ^ 64 := by omega
  let client : SessionCrypto := { conn.client with send := conn.client.send.bump }
  let server : SessionCrypto := { conn.server with recv := conn.client.send.bump }
  have hpeer : Follows client server := .of_eq conn.answers
  obtain ⟨wire, hsend, hrecv⟩ := transfer hE hpeer hserver hfits
  have hanswered' : conn.server.send.bump.counter ≤ conn.client.send.bump.counter := by
    show conn.server.send.counter + 1 ≤ conn.client.send.counter + 1
    rw [UInt64.le_iff_toNat_le, UInt64.toNat_add, UInt64.toNat_add, UInt64.toNat_one,
      Nat.mod_eq_of_lt hserver, Nat.mod_eq_of_lt hcounter]
    omega
  refine ⟨⟨{ client with recv := conn.server.send.bump },
    { server with send := conn.server.send.bump }, rfl, rfl, hanswered'⟩, ?_⟩
  rw [sendOn_eq hE hC hrequest hcounter, hsend]
  dsimp only
  rw [hrecv]
  dsimp only
  rw [hC.message]

theorem sendOn_oversize
    (hlong : maxMessageSize < (C.encodeMessage (handleMessage envelope)).length + 28) :
    ∃ e, sendOn E C envelope.token handleMessage conn envelope = .error (.failedToRead e) :=
    by
  rw [sendOn_eq hE hC hrequest hcounter]
  split
  · exact ⟨_, rfl⟩
  · next reply server hsend =>
    have hpeer : Follows { conn.client with send := conn.client.send.bump }
        { conn.server with recv := conn.client.send.bump } := .of_eq conn.answers
    obtain ⟨e, he⟩ := transfer_oversize hE hpeer hlong hsend
    split
    · exact ⟨_, rfl⟩
    · next hrecv =>
      rw [hrecv] at he
      cases he

end

/-- **An accepted request is answered iff the answer fits in a frame.** The client of a
secured connection, with the right token, obtains what `handle_message` returned, or anything
that names the problem, iff the JSON text of the answer is at most 65508 bytes long. -/
theorem request_answered_iff {β ρ : Type} {E : SessionEnv} (hE : E.Seals) {C : IpcCodec β ρ}
    (hC : C.Lawful) (handleMessage : IpcEnvelope β → ρ) (namesProblem : ρ → Prop)
    (conn : SecuredConnection) (envelope : IpcEnvelope β)
    (hrequest : (C.encodeEnvelope envelope).length + 28 ≤ maxMessageSize)
    (hcounter : conn.client.send.counter.toNat + 1 < 2 ^ 64) :
    (∃ m conn', sendOn E C envelope.token handleMessage conn envelope = .ok (m, conn') ∧
      (m = handleMessage envelope ∨ namesProblem m)) ↔
    (C.encodeMessage (handleMessage envelope)).length ≤ 65508 := by
  constructor
  · rintro ⟨m, conn', hok, -⟩
    by_contra hlong
    have hover : maxMessageSize < (C.encodeMessage (handleMessage envelope)).length + 28 := by
      unfold maxMessageSize
      omega
    obtain ⟨e, he⟩ := sendOn_oversize hE hC hrequest hcounter hover
    rw [he] at hok
    cases hok
  · intro hfits
    have hframe : (C.encodeMessage (handleMessage envelope)).length + 28 ≤ maxMessageSize := by
      unfold maxMessageSize
      omega
    obtain ⟨conn', hok⟩ := sendOn_fits hE hC hrequest hcounter hframe
    exact ⟨_, _, hok, .inl rfl⟩

end Exchange

/-! ## Lists -/

structure ServiceEntrySummary where
  entryId : Int64
  (title username credentialType : Text)
  favorite : Bool

def ServiceEntrySummary.json (s : ServiceEntrySummary) : Json.Value :=
  .obj [("entry_id".toList, .num s.entryId.toInt), ("title".toList, .str s.title),
    ("username".toList, .str s.username), ("credential_type".toList, .str s.credentialType),
    ("favorite".toList, .bool s.favorite)]

/-- The message `ServiceResult` with the outcome `Ok`. -/
def serviceResult (result : Json.Value) : Json.Value :=
  .obj [("ServiceResult".toList, .obj [("outcome".toList,
    .obj [("status".toList, .str "ok".toList), ("result".toList, result)])])]

/-- The answer to `EntryList`. -/
def entryListResult (entries : List ServiceEntrySummary) : Json.Value :=
  serviceResult (.obj [("EntryList".toList, .arr (entries.map ServiceEntrySummary.json))])

theorem length_le_writeItems (items) : items.length < (writeItems items).length := by
  induction items with
  | nil => exact Nat.zero_lt_one
  | cons v rest ih =>
    rw [writeItems, length_cons, length_cons, length_append]
    omega

theorem length_le_write_arr (items) : items.length ≤ (write (.arr items)).length := by
  cases items with
  | nil => exact Nat.zero_le _
  | cons v rest =>
    have := length_le_writeItems rest
    rw [write, length_cons, length_cons, length_append]
    omega

theorem length_le_entryListResult (entries) :
    entries.length ≤ (textBytes (write (entryListResult entries))).length := by
  have harr := length_le_write_arr (entries.map ServiceEntrySummary.json)
  rw [length_map] at harr
  refine Nat.le_trans harr (Nat.le_trans ?_ (length_le_textBytes _))
  unfold entryListResult serviceResult
  simp only [write, writeMembers, length_cons, length_append]
  omega

/-! ## A connection and two vaults -/

def lengthTag (m : Bytes) : Bytes := beBytes 16 m.length ++ m

def untag (c : Bytes) : Option Bytes :=
  if 16 ≤ c.length ∧ beValue (c.take 16) = c.length - 16 then some (c.drop 16) else none

def lengthTagged : SessionEnv where
  encrypt _ _ _ m := lengthTag m
  decrypt _ _ _ c := untag c
  sha256 _ := Vector.replicate 32 0
  hkdfSha256 _ _ _ := Vector.replicate 32 0

theorem length_lengthTag (m : Bytes) : (lengthTag m).length = m.length + 16 := by
  unfold lengthTag
  rw [length_append, length_beBytes, Nat.add_comm]

theorem beValue_lengthTag {m : Bytes} (hm : m.length ≤ aeadLimit) :
    beValue ((lengthTag m).take 16) = m.length := by
  unfold lengthTag
  rw [take_left' (length_beBytes 16 _), beValue_beBytes]
  exact Nat.mod_eq_of_lt (Nat.lt_of_le_of_lt hm (by decide))

theorem untag_lengthTag {m : Bytes} (hm : m.length ≤ aeadLimit) : untag (lengthTag m) = some m := by
  have hlen := length_lengthTag m
  have hdrop : (lengthTag m).drop 16 = m := drop_left' (length_beBytes 16 _)
  unfold untag
  rw [beValue_lengthTag hm, hdrop, if_pos ⟨by omega, by omega⟩]

theorem untag_take {m} (hm : m.length ≤ aeadLimit) {n} (hn : n < m.length + 16) :
    untag ((lengthTag m).take n) = none := by
  have hlen : ((lengthTag m).take n).length = n := by
    rw [length_take, length_lengthTag]
    omega
  unfold untag
  rw [hlen, take_take, if_neg]
  rintro ⟨hlong, hvalue⟩
  rw [Nat.min_eq_left hlong, beValue_lengthTag hm] at hvalue
  omega

theorem lengthTagged_seals : lengthTagged.Seals where
  length_encrypt _ _ _ m := length_lengthTag m
  decrypt_encrypt _ _ _ _ hm := by
    simp only [lengthTagged]
    exact untag_lengthTag hm
  decrypt_take _ _ _ _ _ hm hn := by
    simp only [lengthTagged]
    exact untag_take hm hn

/-- A reader that reads back what has been written. -/
noncomputable def readBack {α : Type} (encode : α → Bytes) (bytes : Bytes) : Option α :=
  open Classical in if h : ∃ a, encode a = bytes then some h.choose else none

theorem readBack_encode {α : Type} {encode} (hinj : Function.Injective encode) (a : α) :
    readBack encode (encode a) = some a := by
  have h : ∃ b, encode b = encode a := ⟨a, rfl⟩
  unfold readBack
  rw [dif_pos h]
  exact congrArg some (hinj h.choose_spec)

def envelopeJson (envelope : IpcEnvelope Json.Value) : Json.Value :=
  .obj [("token".toList, .str envelope.token), ("message".toList, envelope.body)]

noncomputable def jsonCodec : IpcCodec Json.Value Json.Value where
  encodeEnvelope envelope := textBytes (write (envelopeJson envelope))
  decodeEnvelope := readBack fun envelope => textBytes (write (envelopeJson envelope))
  encodeMessage m := textBytes (write m)
  decodeMessage := readBack fun m => textBytes (write m)

theorem jsonCodec_encodeMessage (m) : jsonCodec.encodeMessage m = textBytes (write m) := rfl

theorem jsonCodec_lawful : jsonCodec.Lawful where
  envelope := by
    refine readBack_encode fun a b h => ?_
    have hjson := write_injective (textBytes_injective h)
    unfold envelopeJson at hjson
    cases a
    simp only [Json.Value.obj.injEq, cons.injEq, Prod.mk.injEq, Json.Value.str.injEq, true_and,
      and_true] at hjson
    rw [hjson.1, hjson.2]
  message := readBack_encode fun _ _ h => write_injective (textBytes_injective h)

def freshConnection : SecuredConnection :=
  ⟨.client (Vector.replicate 32 1) (Vector.replicate 32 2),
    .server (Vector.replicate 32 1) (Vector.replicate 32 2), rfl, rfl, UInt64.le_refl _⟩

theorem frame_delivered_iff_byte :
    Delivers lengthTagged freshConnection.client freshConnection.server [1] :=
  (frame_delivered_iff lengthTagged_seals (.of_eq freshConnection.requests) (by decide) [1]).mpr
    (by decide)

/-- The longest legal message is refused by the sender's own transport. -/
theorem longest_message_not_sent : (replicate 65536 (1 : UInt8)).length ≤ maxMessageSize ∧
      ¬ Delivers lengthTagged freshConnection.client freshConnection.server
        (replicate 65536 1) := by
  have hlength : (replicate 65536 (1 : UInt8)).length = 65536 := length_replicate
  refine ⟨Nat.le_of_eq hlength, ?_⟩
  rintro ⟨wire, crypto', hsend, hrecv⟩
  obtain ⟨e, he⟩ := transfer_oversize lengthTagged_seals (.of_eq freshConnection.requests)
    (by rw [hlength]; decide) hsend
  cases hrecv.symm.trans he

def listRequest : IpcEnvelope Json.Value :=
  ⟨"token".toList, .obj [("ServiceCall".toList, .obj [("op".toList, .str "EntryList".toList)])]⟩

def mailSummary : ServiceEntrySummary :=
  ⟨1, "Mail".toList, "user".toList, "password".toList, false⟩

theorem request_answered_one_entry : ∃ m conn', sendOn lengthTagged jsonCodec listRequest.token
      (fun _ => entryListResult [mailSummary]) freshConnection listRequest = .ok (m, conn') ∧
      (m = entryListResult [mailSummary] ∨ False) :=
  (request_answered_iff lengthTagged_seals jsonCodec_lawful (fun _ => entryListResult [mailSummary])
    (fun _ => False) freshConnection listRequest (by decide +kernel) (by decide)).mpr
    (by decide +kernel)

theorem sendOn_long_list {entries} (h : 65509 ≤ entries.length) :
    ∃ e, sendOn lengthTagged jsonCodec listRequest.token (fun _ => entryListResult entries)
      freshConnection listRequest = .error (.failedToRead e) := by
  have hlen := length_le_entryListResult entries
  refine sendOn_oversize lengthTagged_seals jsonCodec_lawful (by decide +kernel) (by decide) ?_
  rw [jsonCodec_encodeMessage]
  unfold maxMessageSize
  omega

/-- A vault with 65509 entries cannot be listed: the client has an error of the transport. -/
theorem long_list_not_answered : ∃ e, sendOn lengthTagged jsonCodec listRequest.token
      (fun _ => entryListResult (replicate 65509 mailSummary)) freshConnection listRequest
        = .error (.failedToRead e) :=
  sendOn_long_list (Nat.le_of_eq length_replicate.symm)

end SentinelPass.Ipc
