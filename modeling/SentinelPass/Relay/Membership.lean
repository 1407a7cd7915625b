import SentinelPass.Relay.Server

/-!
# Device membership

A registration that joins a vault with devices consumes a proof staged for that
vault, and a proof is consumed once. The row itself is written by device id: a
row that exists keeps its vault, its key and its revocation, whatever the
request says, and takes the name. So what a request was answered is true exactly
when the id is new or its row already is what was asked for.
-/

namespace SentinelPass.Relay

open Lib List Option Base64

variable {S : ServerEnv} {s s' : ServerState} {now : Int}

/-! ## Proofs -/

/-- The numbers of the proofs that additions consumed. -/
def usedSerials (additions : List Addition) : List Nat :=
  (additions.filterMap (·.proof)).map (·.serial)

/-- The device came in with an unexpired proof for its vault. -/
def Addition.Proved (a : Addition) : Prop :=
  ∃ row, a.proof = some row ∧ row.vaultId = a.vault ∧ a.time < row.expiresAt

/-- Proofs in the table have distinct numbers that were given out, and a used
number is not there any more, or consumed. -/
structure ProofInv (p : PairingDb) (additions : List Addition) : Prop where
  serial_lt : ∀ hash row, p.proofs.get? hash = some row → row.serial < p.staged
  serial_inj : ∀ h₁ h₂ r₁ r₂, p.proofs.get? h₁ = some r₁ → p.proofs.get? h₂ = some r₂ →
    r₁.serial = r₂.serial → h₁ = h₂
  used_lt : ∀ n ∈ usedSerials additions, n < p.staged
  used : ∀ n ∈ usedSerials additions, ∀ hash row, p.proofs.get? hash = some row →
    row.serial = n → row.consumed = true
  once : (usedSerials additions).Nodup
  proved : ∀ a ∈ additions, a.hadDevices = true → a.Proved

section ProofSteps

variable {p p' : PairingDb} {additions : List Addition}

theorem ProofInv.initial : ProofInv .empty [] where
  serial_lt := by
    intro hash row hrow
    cases hrow
  serial_inj := by
    intro h₁ h₂ r₁ r₂ hr₁
    cases hr₁
  used_lt := by simp [usedSerials]
  used := by simp [usedSerials]
  once := by simp [usedSerials]
  proved := by simp

section

variable (h : ProofInv p additions)

include h

theorem ProofInv.change (hc : ProofChange p p') : ProofInv p' additions := by
  cases hc with
  | kept hstaged hrows =>
    refine ⟨?_, ?_, ?_, ?_, h.once, h.proved⟩
    · intro hash row hrow
      rw [hstaged]
      exact h.serial_lt hash row (hrows hash row hrow)
    · intro h₁ h₂ r₁ r₂ hr₁ hr₂ hserial
      exact h.serial_inj h₁ h₂ r₁ r₂ (hrows _ _ hr₁) (hrows _ _ hr₂) hserial
    · intro n hn
      rw [hstaged]
      exact h.used_lt n hn
    · intro n hn hash row hrow hserial
      exact h.used n hn hash row (hrows _ _ hrow) hserial
  | staged proofHash new hstaged hnew hrows =>
    have hrow : ∀ {hash : Text} {row : RegistrationProof}, p'.proofs.get? hash = some row →
        (hash = proofHash ∧ row.serial = p.staged) ∨
          (p.proofs.get? hash = some row ∧ row.serial < p.staged) := by
      intro hash row hget
      rw [hrows hash] at hget
      split at hget
      · next heq =>
        cases hget
        exact .inl ⟨heq, hnew⟩
      · exact .inr ⟨hget, h.serial_lt hash row hget⟩
    refine ⟨?_, ?_, ?_, ?_, h.once, h.proved⟩
    · intro hash row hget
      rcases hrow hget with ⟨-, hserial⟩ | ⟨-, hlt⟩ <;> omega
    · intro h₁ h₂ r₁ r₂ hr₁ hr₂ hserial
      rcases hrow hr₁ with ⟨rfl, hs₁⟩ | ⟨hold₁, hlt₁⟩
      · rcases hrow hr₂ with ⟨rfl, -⟩ | ⟨-, hlt₂⟩
        · rfl
        omega
      · rcases hrow hr₂ with ⟨-, hs₂⟩ | ⟨hold₂, -⟩
        · omega
        · exact h.serial_inj h₁ h₂ r₁ r₂ hold₁ hold₂ hserial
    · intro n hn
      have := h.used_lt n hn
      omega
    · intro n hn hash row hget hserial
      have hlt := h.used_lt n hn
      rcases hrow hget with ⟨-, hnew⟩ | ⟨hold, -⟩
      · omega
      · exact h.used n hn hash row hold hserial

theorem ProofInv.consume {proofHash : Text} {used : RegistrationProof}
    (hget : p.proofs.get? proofHash = some used) (hstaged : p'.staged = p.staged)
    (hrows : ∀ hash, p'.proofs.get? hash =
      if hash = proofHash then some { used with consumed := true } else p.proofs.get? hash) :
    ProofInv p' additions ∧
      ∀ hash row, p'.proofs.get? hash = some row → row.serial = used.serial →
        row.consumed = true := by
  have hrow : ∀ {hash : Text} {row : RegistrationProof}, p'.proofs.get? hash = some row →
      (hash = proofHash ∧ row = { used with consumed := true }) ∨
        p.proofs.get? hash = some row := by
    intro hash row hnow
    rw [hrows hash] at hnow
    split at hnow
    · next heq => exact .inl ⟨heq, (some.inj hnow).symm⟩
    exact .inr hnow
  -- every row has the number that the row under its hash had before
  have hbefore : ∀ {hash : Text} {row : RegistrationProof}, p'.proofs.get? hash = some row →
      ∃ old, p.proofs.get? hash = some old ∧ old.serial = row.serial := by
    intro hash row hnow
    rcases hrow hnow with ⟨rfl, rfl⟩ | hold
    · exact ⟨used, hget, rfl⟩
    · exact ⟨row, hold, rfl⟩
  refine ⟨⟨?_, ?_, ?_, ?_, h.once, h.proved⟩, ?_⟩
  · intro hash row hnow
    obtain ⟨old, hold, hserial⟩ := hbefore hnow
    have := h.serial_lt hash old hold
    omega
  · intro h₁ h₂ r₁ r₂ hr₁ hr₂ hserial
    obtain ⟨o₁, ho₁, hs₁⟩ := hbefore hr₁
    obtain ⟨o₂, ho₂, hs₂⟩ := hbefore hr₂
    exact h.serial_inj h₁ h₂ o₁ o₂ ho₁ ho₂ (by omega)
  · intro n hn
    rw [hstaged]
    exact h.used_lt n hn
  · intro n hn hash row hnow hserial
    rcases hrow hnow with ⟨rfl, rfl⟩ | hold
    · rfl
    exact h.used n hn hash row hold hserial
  · intro hash row hnow hserial
    rcases hrow hnow with ⟨rfl, rfl⟩ | hold
    · rfl
    -- another hash has another number, so this is the row that was marked
    have hhash := h.serial_inj hash proofHash row used hold hget hserial
    rw [hrows hash, if_pos hhash] at hnow
    rw [← some.inj hnow]

theorem ProofInv.addFirst {a} (hproof : a.proof = none) (hhad : a.hadDevices = false) :
    ProofInv p (additions ++ [a]) := by
  have hused : usedSerials (additions ++ [a]) = usedSerials additions := by
    simp [usedSerials, hproof]
  refine ⟨h.serial_lt, h.serial_inj, ?_, ?_, ?_, ?_⟩
  · rw [hused]
    exact h.used_lt
  · rw [hused]
    exact h.used
  · rw [hused]
    exact h.once
  · intro b hb hbhad
    rcases mem_append.mp hb with hb | hb
    · exact h.proved b hb hbhad
    · rw [mem_singleton.mp hb, hhad] at hbhad
      cases hbhad

theorem ProofInv.addProved {a : Addition} {used} (hproof : a.proof = some used) (hproved : a.Proved)
    (hlt : used.serial < p.staged) (hnew : used.serial ∉ usedSerials additions)
    (hgone : ∀ hash row, p.proofs.get? hash = some row → row.serial = used.serial →
      row.consumed = true) : ProofInv p (additions ++ [a]) := by
  have hused : usedSerials (additions ++ [a]) = usedSerials additions ++ [used.serial] := by
    simp [usedSerials, hproof]
  refine ⟨h.serial_lt, h.serial_inj, ?_, ?_, ?_, ?_⟩
  · intro n hn
    rw [hused, mem_append, mem_singleton] at hn
    rcases hn with hn | rfl
    · exact h.used_lt n hn
    · exact hlt
  · intro n hn
    rw [hused, mem_append, mem_singleton] at hn
    rcases hn with hn | rfl
    · exact h.used n hn
    · exact hgone
  · rw [hused]
    exact nodup_append_singleton h.once hnew
  · intro b hb hbhad
    rcases mem_snoc hb with hb | rfl
    · exact h.proved b hb hbhad
    · exact hproved

end

end ProofSteps

/-! ## Steps of the relay -/

theorem runCall_proofs {db db' device draws call}
    (h : runCall S db device draws now call = .ok db') : ProofChange db.pairing db'.pairing := by
  cases call with
  | push req | revoke target | claim origin =>
    obtain ⟨out, -, rfl⟩ := map_ok h
    exact .refl _
  | uploadBootstrap req =>
    obtain ⟨p, hp, rfl⟩ := map_ok h
    exact uploadBootstrap_ok hp
  | uploadBootstrapV2 req =>
    obtain ⟨p, hp, rfl⟩ := map_ok h
    exact proofChange_of_eq (uploadBootstrapV2_ok hp)
  | other =>
    cases h
    exact .refl _

theorem ProofInv.register (h : ProofInv s.db.pairing s.additions) (req now) :
    ProofInv (registerStep S s req now).db.pairing (registerStep S s req now).additions := by
  unfold registerStep
  dsimp only
  split
  · exact h
  rename_i relay pairing used hok
  obtain ⟨⟨hhas, row, rfl, hconsume⟩ | ⟨hhas, rfl, rfl⟩, -⟩ := registerDeviceWithProof_ok hok
  · obtain ⟨proofHash, hget, hvault, htime, hfresh, hstaged, hrows⟩ := consumeProof_ok hconsume
    obtain ⟨hinv, hgone⟩ := h.consume hget hstaged hrows
    split
    · rw [append_nil]
      exact hinv
    · have hnew : row.serial ∉ usedSerials s.additions := by
        intro hused
        rw [h.used _ hused proofHash row hget rfl] at hfresh
        cases hfresh
      refine hinv.addProved rfl ⟨row, rfl, hvault, htime⟩ ?_ hnew hgone
      rw [hstaged]
      exact h.serial_lt proofHash row hget
  · split
    · rw [append_nil]
      exact h
    · exact h.addFirst rfl hhas

theorem ProofInv.step (h : ProofInv s.db.pairing s.additions) {a}
    (hstep : serverStep S s a = some s') : ProofInv s'.db.pairing s'.additions := by
  cases a with
  | verify header method path body now =>
    obtain ⟨r, -, rfl⟩ := map_eq_some_iff.mp hstep
    exact h
  | checkNonce i withinRate now =>
    obtain ⟨r, -, ⟨e, -, rfl⟩ | ⟨nonces, -, ⟨-, rfl⟩ | ⟨-, rfl⟩⟩⟩ := nonceStep_ok hstep
    · exact h
    · exact h
    exact h
  | handle i draws now =>
    obtain ⟨r, -, rfl | ⟨db, hdb, rfl⟩⟩ := handleStep_ok hstep
    · exact h
    exact h.change (runCall_proofs hdb)
  | cancelVerified i | cancelAdmitted i =>
    cases hstep
    exact h
  | register req now =>
    cases hstep
    exact h.register req now
  | fetch token salt now =>
    cases hstep
    exact h.change fetchBootstrap_proofs
  | retrieve secret salt now =>
    cases hstep
    exact h.change retrieveBootstrapV2_proofs
  | cleanup now =>
    cases hstep
    exact h.change cleanupPairing_proofs

/-! ## The row of a registration -/

/-- The relay answers `registered`. -/
def Registered (S : ServerEnv) (s : ServerState) (req : JoinRequest) (now : Int) : Prop :=
  ∃ out, registerDeviceWithProof S.env s.db.relay s.db.pairing req now = .ok out

/-- The request comes with a proof that the relay accepts. -/
def PresentsProof (S : ServerEnv) (s : ServerState) (req : JoinRequest) (now : Int) : Prop :=
  ∃ out, consumeProof S.env s.db.pairing req now = .ok out

/-- The requested device is there, not revoked, with the requested vault and key. -/
def Bound (devices : Table Uuid DeviceRow) (req : JoinRequest) : Prop :=
  ∃ row, devices.get? req.device.deviceId = some row ∧ row.revoked = false ∧
    row.vaultId = req.device.vaultId ∧ decode req.device.publicKey = some row.publicKey

/-- Every device row that was there is there as it was. -/
def RowsKept (devices devices' : Table Uuid DeviceRow) : Prop :=
  ∀ id row, devices.get? id = some row → devices'.get? id = some row

theorem hasDevices_of_get {s id row} (h : s.devices.get? id = some row) :
    hasDevices s row.vaultId = true :=
  any_eq_true.mpr ⟨(id, row), Table.mem_rows.mpr h, decide_eq_true rfl⟩

theorem registerStep_of_ok {req out}
    (h : registerDeviceWithProof S.env s.db.relay s.db.pairing req now = .ok out) :
    (registerStep S s req now).db = { s.db with relay := out.1, pairing := out.2.1 } := by
  unfold registerStep
  dsimp only
  rw [h]

theorem registerStep_refused {req} (h : ¬ Registered S s req now) :
    (registerStep S s req now).db = s.db := by
  unfold registerStep
  dsimp only
  split
  · rfl
  · next relay pairing used hok => exact absurd ⟨_, hok⟩ h

/-- An answered registration leaves the requested row, and rows alone when it has
no proof, exactly when the id is new or its row is already the requested one. -/
theorem registered_bound_iff {req : JoinRequest} {now : Int} (h : Registered S s req now) :
    (Bound (registerStep S s req now).db.relay.devices req ∧ (¬ PresentsProof S s req now →
          RowsKept s.db.relay.devices (registerStep S s req now).db.relay.devices)) ↔
      s.db.relay.devices.get? req.device.deviceId = none ∨ Bound s.db.relay.devices req := by
  obtain ⟨⟨relay, pairing, used⟩, hok⟩ := h
  rw [registerStep_of_ok hok]
  obtain ⟨hproof, publicKey, hkey, hdevices⟩ := registerDeviceWithProof_ok hok
  have hget := fun id => congrArg (Table.get? · id) hdevices
  simp only [Table.get?_upsert] at hget
  cases hold : s.db.relay.devices.get? req.device.deviceId with
  | none =>
    refine iff_of_true ⟨?_, ?_⟩ (.inl rfl)
    · exact ⟨_, by rw [hget, if_pos rfl, hold], rfl, rfl, hkey⟩
    · intro _ id row hrow
      have hne : id ≠ req.device.deviceId := by
        rintro rfl
        rw [hold] at hrow
        cases hrow
      rw [hget, if_neg hne, hrow]
  | some row =>
    have hnow : relay.devices.get? req.device.deviceId
        = some { row with deviceName := req.device.deviceName } := by
      rw [hget, if_pos rfl, hold]
      rfl
    -- the upsert keeps the three columns, so the new row is as requested iff the old one is
    have hiff : Bound relay.devices req ↔ Bound s.db.relay.devices req := by
      unfold Bound
      rw [hnow, hold]
      simp
    rw [hiff]
    constructor
    · rintro ⟨hbound, -⟩
      exact .inr hbound
    · rintro (hnone | hbound)
      · cases hnone
      refine ⟨hbound, ?_⟩
      intro hno
      -- the vault has this device, so a proof was asked for
      obtain ⟨row', hrow', -, hvault, -⟩ := hbound
      have hhas : hasDevices s.db.relay req.device.vaultId = true := by
        rw [← hvault]
        exact hasDevices_of_get hrow'
      rcases hproof with ⟨-, row, -, hconsume⟩ | ⟨hnone, -⟩
      · exact absurd ⟨_, hconsume⟩ hno
      rw [hhas] at hnone
      cases hnone

/-- **Device membership.** In every state the relay reaches: an answered
registration left the requested row exactly under the condition of
`registered_bound_iff`, a refused one leaves the database alone, and every device
that joined a vault with devices consumed its own unexpired proof for it. -/
theorem device_membership (S : ServerEnv) (s : ServerState)
    (hreach : (server S).Reachable (fun _ _ => True) s) :
    (∀ req now, Registered S s req now → ((Bound (registerStep S s req now).db.relay.devices req ∧
          (¬ PresentsProof S s req now →
            RowsKept s.db.relay.devices (registerStep S s req now).db.relay.devices)) ↔
        s.db.relay.devices.get? req.device.deviceId = none ∨ Bound s.db.relay.devices req)) ∧
    (∀ req now, ¬ Registered S s req now → (registerStep S s req now).db = s.db) ∧
    (∀ a ∈ s.additions, a.hadDevices = true → ∃ row, a.proof = some row ∧
      row.vaultId = a.vault ∧ a.time < row.expiresAt ∧ row.serial < s.db.pairing.staged) ∧
    ((s.additions.filterMap (·.proof)).map (·.serial)).Nodup := by
  have hinv : ProofInv s.db.pairing s.additions := by
    refine hreach.invariant (P := fun s => ProofInv s.db.pairing s.additions) ?_ ?_
    · rintro x ⟨clock, rfl⟩
      exact .initial
    · intro x y a hx _ hstep
      exact hx.step hstep
  refine ⟨?_, ?_, ?_, hinv.once⟩
  · intro req now hreg
    exact registered_bound_iff hreg
  · intro req now hreg
    exact registerStep_refused hreg
  · intro a ha hhad
    obtain ⟨row, hproof, hvault, htime⟩ := hinv.proved a ha hhad
    have hmem : row.serial ∈ usedSerials s.additions :=
      mem_map_of_mem (mem_filterMap.mpr ⟨a, ha, hproof⟩)
    exact ⟨row, hproof, hvault, htime, hinv.used_lt _ hmem⟩

/-! ## Sample runs -/

def pairingPath : Text := "/api/v1/pairing/bootstrap".toList

/-- A relay whose signed requests all upload one bootstrap. -/
def pairingServer : ServerEnv :=
  ⟨toyRelayEnv, toyConfig, fun _ => .uploadBootstrap ⟨"token".toList, encode [1],
    encode [2], encode (replicate 32 5)⟩⟩

/-- Device 1 opens vault 7 and uploads a bootstrap; device 2 joins with its proof. -/
def pairingRun : List ServerAction :=
  [.register (toyJoin 1 7 "laptop" 1) 100,
    .verify (toyHeader 1 110 "n".toList "POST".toList pairingPath [])
      "POST".toList pairingPath [] 110,
    .checkNonce 0 true 110, .handle 0 ⟨[], 0⟩ 110,
    .register { toyJoin 2 7 "phone" 2 with
      pairingToken := some "token".toList
      registrationProof := some (encode (replicate 32 5)) } 120]

theorem device_membership_pairingRun :
    ∃ s, (server pairingServer).exec (.initial 0) pairingRun = some s ∧
      s.additions.map (fun a => (a.device, a.hadDevices)) = [(1, false), (2, true)] ∧
      (∀ a ∈ s.additions, a.hadDevices = true → ∃ row, a.proof = some row ∧
        row.vaultId = a.vault ∧ a.time < row.expiresAt ∧ row.serial < s.db.pairing.staged) := by
  have hany : ((server pairingServer).exec (.initial 0) pairingRun).any (fun s =>
      s.additions.map (fun a => (a.device, a.hadDevices)) = [(1, false), (2, true)]) = true := by
    decide +kernel
  obtain ⟨s, hs, hadded⟩ := (any_eq_true _ _).mp hany
  have hrun := Machine.run_of_exec (Machine.allowed_true _ _) hs
  exact ⟨s, hs, of_decide_eq_true hadded,
    (device_membership pairingServer s ⟨_, ⟨0, rfl⟩, hrun⟩).2.2.1⟩

/-- Device 1 again, without a proof, for a vault that has no devices and with
another key. -/
def rebindRequest : JoinRequest := toyJoin 1 8 "renamed" 2

/-- The request is answered `registered`: device 1 stays in vault 7 with its old
key, and has the new name. -/
theorem registration_keeps_old_row :
    ∃ s, (server pairingServer).exec (.initial 0) [.register (toyJoin 1 7 "laptop" 1) 100]
      = some s ∧
      Registered pairingServer s rebindRequest 200 ∧
      ¬ PresentsProof pairingServer s rebindRequest 200 ∧
      s.db.relay.devices.get? 1 = some ⟨7, "laptop", "Desktop", toyKey 1, 100, false⟩ ∧
      (registerStep pairingServer s rebindRequest 200).db.relay.devices.get? 1
        = some ⟨7, "renamed", "Desktop", toyKey 1, 100, false⟩ := by
  have hany :
    ((server pairingServer).exec (.initial 0) [.register (toyJoin 1 7 "laptop" 1) 100]).any
      (fun s => (registerDeviceWithProof toyRelayEnv s.db.relay s.db.pairing rebindRequest
          200).toOption.isSome &&
        s.db.relay.devices.get? 1 = some ⟨7, "laptop", "Desktop", toyKey 1, 100, false⟩ &&
        (registerStep pairingServer s rebindRequest 200).db.relay.devices.get? 1
          = some ⟨7, "renamed", "Desktop", toyKey 1, 100, false⟩) = true := by
    decide +kernel
  obtain ⟨s, hs, hrow⟩ := (any_eq_true _ _).mp hany
  simp only [Bool.and_eq_true, decide_eq_true_eq] at hrow
  obtain ⟨⟨hsome, hbefore⟩, hafter⟩ := hrow
  obtain ⟨out, hout⟩ := isSome_iff_exists.mp hsome
  refine ⟨s, hs, ⟨out, toOption_eq_some.mp hout⟩, ?_, hbefore, hafter⟩
  rintro ⟨used, hused⟩
  cases hused

end SentinelPass.Relay
