import LibreFang.Lib.Runs
import LibreFang.Lib.Table

/-!
# Pairing devices

A device is paired by a short-lived token. Each call is a list of atomic steps on the map of pending
requests, on the map of devices, or on the store; calls interleave between them.

* `PairingManager`: the two maps, and the store behind the persistence callback.
* `CreateCall`, `CompleteCall`, `RemoveCall`, `CleanCall`: where a call stands, and its next step.
* `World`: the manager and all calls made so far; `Event`, `step`: what can happen.
-/

namespace LibreFang.Pairing

/-- A pairing token, by the number of its draw: 32 random bytes are not drawn twice. -/
abbrev Token := ℕ

/-- An instant, in nanoseconds. -/
abbrev Time := ℤ

/-- `MAX_PENDING_REQUESTS`. -/
def maxPendingRequests : ℕ := 5

/-- `PairingConfig`. -/
structure PairingConfig where
  enabled : Bool
  maxDevices : ℕ
  tokenExpirySecs : ℕ

/-- A paired device. -/
structure PairedDevice where
  deviceId : String
  displayName : String
  platform : String
  pairedAt : Time
  lastSeen : Time
  pushToken : Option String
  apiKeyHash : String
  deriving DecidableEq, Repr

/-- A pairing request. -/
structure PairingRequest where
  token : Token
  createdAt : Time
  expiresAt : Time
  deriving DecidableEq, Repr

/-- `PairingManager`; the store is there when a persistence callback is, and `drawn` counts the
tokens drawn so far. -/
structure PairingManager where
  config : PairingConfig
  pending : Table Token PairingRequest
  devices : Table String PairedDevice
  store : Option (Table String PairedDevice)
  drawn : ℕ

namespace PairingManager

variable (m : PairingManager)

/-- `clean_expired`. -/
def cleanExpired (now : Time) : PairingManager :=
  { m with pending := m.pending.retain fun _ request => decide (now < request.expiresAt) }

/-- The entry of a token among the pending requests. -/
def findToken (token : Token) : Option (Table.Entry Token PairingRequest) :=
  m.pending.entries.find? fun e => e.2.token = token

/-- The persistence callback. -/
def persist (f : Table String PairedDevice → Table String PairedDevice) : PairingManager :=
  { m with store := m.store.map f }

end PairingManager

/-! ## The calls -/

variable (m : PairingManager)

/-- A call of `create_pairing_request`, by its next step. -/
inductive CreateCall
  /-- `pending.len()` -/
  | checkPending
  /-- `clean_expired` -/
  | clean
  /-- `pending.len()` again -/
  | recheck
  /-- `pending.insert` -/
  | insert
  | returned (result : Except String PairingRequest)

/-- The next step of `create_pairing_request`. -/
def CreateCall.next (now : Time) : CreateCall → PairingManager × CreateCall
  | .checkPending =>
    if !m.config.enabled then (m, .returned (.error "Device pairing is disabled"))
    else if maxPendingRequests ≤ m.pending.keys.length then (m, .clean)
    else (m, .insert)
  | .clean => (m.cleanExpired now, .recheck)
  | .recheck =>
    if maxPendingRequests ≤ m.pending.keys.length then
      (m, .returned (.error "Too many pending pairing requests. Try again later."))
    else (m, .insert)
  | .insert =>
    let request := ⟨m.drawn, now, now + m.config.tokenExpirySecs * 1000000000⟩
    ({ m with pending := m.pending.insert m.drawn request, drawn := m.drawn + 1 },
      .returned (.ok request))
  | .returned result => (m, .returned result)

/-- A call of `complete_pairing` with a token and a device, by its next step. -/
inductive CompleteCall
  /-- `pending.iter().find` -/
  | find (token : Token) (info : PairedDevice)
  /-- the clock, and `pending.remove` of an expired request -/
  | expiry (token : Token) (info : PairedDevice) (key : Token) (request : PairingRequest)
  /-- `devices.len()` -/
  | checkDevices (token : Token) (info : PairedDevice) (key : Token)
  /-- `pending.remove` -/
  | remove (token : Token) (info : PairedDevice) (key : Token)
  /-- `devices.insert` -/
  | insert (token : Token) (info : PairedDevice)
  /-- the persistence callback -/
  | persist (token : Token) (info : PairedDevice)
  | refused (error : String)
  | paired (token : Token) (info : PairedDevice)

/-- The next step of `complete_pairing`. -/
def CompleteCall.next (now : Time) : CompleteCall → PairingManager × CompleteCall
  | .find token info =>
    match m.findToken token with
    | none => (m, .refused "Invalid or expired pairing token")
    | some e => (m, .expiry token info e.1 e.2)
  | .expiry token info key request =>
    if request.expiresAt < now then
      ({ m with pending := m.pending.erase key }, .refused "Pairing token has expired")
    else (m, .checkDevices token info key)
  | .checkDevices token info key =>
    let most := m.config.maxDevices
    if most ≤ m.devices.keys.length then
      (m, .refused s!"Maximum paired devices ({most}) reached. Remove a device first.")
    else (m, .remove token info key)
  | .remove token info key => ({ m with pending := m.pending.erase key }, .insert token info)
  | .insert token info =>
    ({ m with devices := m.devices.insert info.deviceId info }, .persist token info)
  | .persist token info => (m.persist (AList.insert info.deviceId info), .paired token info)
  | .refused error => (m, .refused error)
  | .paired token info => (m, .paired token info)

/-- A call of `remove_device`, by its next step. -/
inductive RemoveCall
  /-- `devices.remove` -/
  | remove (deviceId : String)
  /-- the persistence callback -/
  | persist (device : PairedDevice)
  | returned (result : Except String Unit)

/-- The next step of `remove_device`. -/
def RemoveCall.next : RemoveCall → PairingManager × RemoveCall
  | .remove deviceId =>
    match m.devices.lookup deviceId with
    | none => (m, .returned (.error s!"Device '{deviceId}' not found"))
    | some device => ({ m with devices := m.devices.erase deviceId }, .persist device)
  | .persist device => (m.persist (AList.erase device.deviceId), .returned (.ok ()))
  | .returned result => (m, .returned result)

/-- A call of `clean_expired`. -/
inductive CleanCall
  | clean
  | returned

/-- The next step of `clean_expired`. -/
def CleanCall.next (now : Time) : CleanCall → PairingManager × CleanCall
  | .clean => (m.cleanExpired now, .returned)
  | .returned => (m, .returned)

/-! ## Runs -/

/-- A call. -/
inductive Call
  | create (call : CreateCall)
  | complete (call : CompleteCall)
  | remove (call : RemoveCall)
  | clean (call : CleanCall)

/-- What a caller asks for. -/
inductive Ask
  | createPairingRequest
  | completePairing (token : Token) (info : PairedDevice)
  | removeDevice (deviceId : String)
  | cleanExpired

/-- A call at its start. -/
def Ask.start : Ask → Call
  | .createPairingRequest => .create .checkPending
  | .completePairing token info => .complete (.find token info)
  | .removeDevice deviceId => .remove (.remove deviceId)
  | .cleanExpired => .clean .clean

/-- The next step of a call. -/
def Call.next (now : Time) : Call → PairingManager × Call
  | .create call => ((call.next m now).1, .create (call.next m now).2)
  | .complete call => ((call.next m now).1, .complete (call.next m now).2)
  | .remove call => ((call.next m).1, .remove (call.next m).2)
  | .clean call => ((call.next m now).1, .clean (call.next m now).2)

/-- The manager and the calls made so far. -/
structure World where
  manager : PairingManager
  calls : List Call

/-- What can happen: a call begins, or takes its next step. -/
inductive Event
  | call (ask : Ask)
  | act (k : ℕ) (now : Time)

/-- One event. -/
def step (w : World) : Event → World
  | .call ask => { w with calls := w.calls ++ [ask.start] }
  | .act k now =>
    match w.calls[k]? with
    | none => w
    | some call =>
      { manager := (call.next w.manager now).1, calls := w.calls.set k (call.next w.manager now).2 }

/-- A new manager that has loaded some devices. -/
def World.init (config : PairingConfig) (devices : Table String PairedDevice)
    (store : Option (Table String PairedDevice)) : World :=
  ⟨⟨config, ∅, devices, store, 0⟩, []⟩

end LibreFang.Pairing
