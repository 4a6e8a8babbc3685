import Skiff.ServiceDb.Cascade

/-!
# Leases on a stored record

A lease lives in the record it protects, under the reserved field `__skiffLeases`, one
slot for each lease the collection declares. Claims, renewals and releases are single
conditional updates (`runtime/service-db/src/lib.rs`, `lease.rs`). Business writes go
to the same record: guarded by the leases their request holds, in a transaction or not,
as updates, upserts and replacements (`lib.rs`, `prepared_runtime/`).

This is the state of one record under any number of requests. Each conditional update
and each transaction is one step. A call that talks to the database more than once (a
renewal reads the lease's maximum before it writes, an upsert checks its guards, tries,
and tries again after a duplicate key) is in flight between its steps, and every clock
reading a call uses was taken at some earlier time, so it is at most the clock.
-/

namespace Skiff.ServiceDb

/-! ## Stored leases -/

structure DbLease where
  token : String
  owner : String
  requestId : String
  claimedAtMs : Int
  expiresAtMs : Int
  maxExpiresAtMs : Option Int
deriving DecidableEq

/-- A top-level field of a stored record: a business value, or the leases by slot. -/
inductive StoredField where
  | business (value : BsonValue)
  | leases (slots : OrdMap String DbLease)

abbrev StoredRecord := OrdMap String StoredField

def skiffLeasesField : String := "__skiffLeases"

namespace StoredRecord

def ofDocument (document : MongoDocument) : StoredRecord := document.map .business

def leases (record : StoredRecord) : OrdMap String DbLease :=
  match record.get? skiffLeasesField with
  | some (.leases slots) => slots
  | _ => ∅

def setLeases (record : StoredRecord) (slots : OrdMap String DbLease) : StoredRecord :=
  record.insert skiffLeasesField (.leases slots)

end StoredRecord

/-- The leases of a record that may not exist. -/
def storedLeases (record : Option StoredRecord) : OrdMap String DbLease :=
  record.elim ∅ StoredRecord.leases

def i64Max : Int := 2 ^ 63 - 1

def addMs (nowMs : Int) (deltaMs : Nat) : Int := min (nowMs + min (deltaMs : Int) i64Max) i64Max

def leaseClaimExpiresAtMs (nowMs : Int) (ttlMs : Nat) (maxExpiresAtMs : Option Int) : Int :=
  match maxExpiresAtMs with
  | some max => min (addMs nowMs ttlMs) max
  | none => addMs nowMs ttlMs

/-- The slot is empty, or its lease or the lease's maximum has expired. -/
def leaseAvailable (slots : OrdMap String DbLease) (slot : String) (nowMs : Int) : Bool :=
  match slots.get? slot with
  | none => true
  | some lease => lease.expiresAtMs ≤ nowMs || lease.maxExpiresAtMs.any fun max => max ≤ nowMs

/-- The slot has the token's lease, and neither it nor its maximum has expired. -/
def leaseLive (slots : OrdMap String DbLease) (slot token : String) (nowMs : Int) : Bool :=
  (slots.get? slot).any fun lease =>
    lease.token = token && nowMs < lease.expiresAtMs &&
      lease.maxExpiresAtMs.all fun max => nowMs < max

structure DbLeaseHold (κ : Type) where
  targetKey : String
  key : κ
  slot : String
  token : String

/-! ## Business writes -/

/-- The writes of the store, with the values the request hands over. The value of an
upsert has its key filled in. -/
inductive BusinessWrite (ρ : Type) where
  | create (value : Json.Value)
  | createRuntime (value : ρ)
  | updateOne (change : ServiceDbChange)
  | updateOneRuntime (change : DbRuntimeChange ρ)
  | updateMany (change : ServiceDbChange)
  | upsertByKey (insert : Json.Value) (change : ServiceDbChange)
  | replaceOne (value : Json.Value)
  | replaceOneRuntime (value : ρ)

/-- A call of a request. `selects` says whether its selector picks the record, as it
is, out of the collection; `selectedKey` is the key of a key selector. The guards are
the leases the request holds, and the readings are those of the filter, of the check
before the write and of the check before the commit. What the two checks find for
guards of other records is the environment's choice. -/
structure WriteCall (ρ κ : Type) where
  write : BusinessWrite ρ
  selects : StoredRecord → Bool
  selectedKey : Option BsonValue
  guards : List (DbLeaseHold κ)
  guardNow : Int
  assertNow : DbLeaseHold κ → Int
  finishNow : DbLeaseHold κ → Int
  othersLive : Bool
  othersLiveAtFinish : Bool

/-- What a call asks the database to do. -/
inductive PreparedWrite where
  | insert (document : MongoDocument)
  | update (update : UpdateDocument)
  | upsert (insert : MongoDocument) (update : UpdateDocument)
  | replace (replacement : MongoDocument)

inductive WriteError where
  | service (error : ServiceDbError)
  | leaseLost (slot : String)
  | duplicateKey
  | rejected

/-- One record of one collection, and what the writes to it go through. -/
structure Site (ρ κ : Type) where
  codecs : DbCodecs ρ
  server : Server StoredField BsonValue
  binding : DbCollectionMetadata
  key : κ
  keyBson : BsonValue

namespace Site

variable {ρ κ : Type} [DecidableEq κ] (site : Site ρ κ)

def matchingLeaseGuards (guards : List (DbLeaseHold κ)) : List (DbLeaseHold κ) :=
  guards.filter fun guard => guard.targetKey = site.binding.targetKey

def hasMatchingLeaseGuards (guards : List (DbLeaseHold κ)) : Bool :=
  !(site.matchingLeaseGuards guards).isEmpty

/-- The guards of this record. -/
def ownGuards (guards : List (DbLeaseHold κ)) : List (DbLeaseHold κ) :=
  (site.matchingLeaseGuards guards).filter fun guard => guard.key = site.key

/-- `guarded_filter`, for this record. A guard of another record does not restrict it. -/
def guarded (call : WriteCall ρ κ) (record : StoredRecord) : Bool :=
  (site.ownGuards call.guards).all fun guard =>
    leaseLive record.leases guard.slot guard.token call.guardNow

/-- The check before a write: the guards of the records it selects are live. -/
def assertLeaseGuardsLive (call : WriteCall ρ κ) (record : Option StoredRecord) :
    Except WriteError Unit :=
  if !call.othersLive then .error (.leaseLost "")
  else
    match record with
    | none => .ok ()
    | some record =>
      if call.selects record then
        (site.ownGuards call.guards).forM fun guard =>
          if leaseLive record.leases guard.slot guard.token (call.assertNow guard) then .ok ()
          else .error (.leaseLost guard.slot)
      else .ok ()

/-- The check before a commit: every hold is live. -/
def assertLeaseHoldsLive (holds : List (DbLeaseHold κ)) (now : DbLeaseHold κ → Int)
    (othersLive : Bool) (record : Option StoredRecord) : Except WriteError Unit :=
  if !othersLive then .error (.leaseLost "")
  else
    (site.ownGuards holds).forM fun guard =>
      if leaseLive (storedLeases record) guard.slot guard.token (now guard) then .ok ()
      else .error (.leaseLost guard.slot)

/-! ### Preparation -/

def encryptedContext (selectedKey : Option BsonValue) :
    Except ServiceDbError (Option EncryptedRecordContext) :=
  match selectedKey with
  | none => .ok none
  | some key => site.binding.encryptedContextFromKeyBson key

def prepareUpsert (insert : Json.Value) (change : ServiceDbChange) :
    Except ServiceDbError PreparedWrite := do
  let context ← site.binding.encryptedContextFromKeyBson site.keyBson
  let created ← site.binding.documentFromBusinessValue site.codecs insert
  if (created.1.get? mongoIdField).any fun key => key == site.keyBson then do
    let change ← site.binding.validatedChange change
    let document := (change.touchedFields.map topLevel).foldl OrdMap.erase
      (created.1.erase mongoIdField)
    let update ← site.binding.changeUpdateDocument site.codecs change context
    .ok (.upsert document update)
  else
    .error (dbDecodeError ("db upsert insert value key field " ++ site.binding.keyField ++
      " must match selector key"))

def prepare (call : WriteCall ρ κ) : Except ServiceDbError PreparedWrite :=
  match call.write with
  | .create value => do
    .ok (.insert (← site.binding.documentFromBusinessValue site.codecs value).1)
  | .createRuntime value => do
    .ok (.insert (← site.binding.runtimeDocumentFromBusinessValue site.codecs value none none))
  | .updateOne change => do
    let context ← site.encryptedContext call.selectedKey
    .ok (.update (← site.binding.validatedChangeUpdateWithContext site.codecs change context))
  | .updateOneRuntime change => do
    let context ← site.encryptedContext call.selectedKey
    .ok (.update (← site.binding.runtimeChangeUpdateDocument site.codecs change context))
  | .updateMany change => do
    .ok (.update (← site.binding.validatedChangeUpdateWithContext site.codecs change none))
  | .upsertByKey insert change => site.prepareUpsert insert change
  | .replaceOne value => do
    let context ← site.encryptedContext call.selectedKey
    .ok (.replace (← site.binding.replacementDocumentFromBusinessValue site.codecs value
      call.selectedKey context))
  | .replaceOneRuntime value => do
    let context ← site.encryptedContext call.selectedKey
    .ok (.replace (← site.binding.runtimeDocumentFromBusinessValue site.codecs value
      call.selectedKey context))

/-! ### Execution -/

/-- The leases a replacement takes over from the document it replaces. The old document
is only read when the collection has a file cascade or the request holds a lease of the
collection. -/
def carriedLeases (call : WriteCall ρ κ) (record : StoredRecord) : Option (OrdMap String DbLease) :=
  if site.binding.hasImmutableFileCascade || site.hasMatchingLeaseGuards call.guards then
    match record.get? skiffLeasesField with
    | some (.leases slots) => some slots
    | _ => none
  else none

def replacementRecord (call : WriteCall ρ κ) (replacement : MongoDocument) (record : StoredRecord) :
    StoredRecord :=
  match site.carriedLeases call record with
  | some slots => (StoredRecord.ofDocument replacement).setLeases slots
  | none => StoredRecord.ofDocument replacement

/-- The record an upsert inserts: its key, what the change sets, and the rest of the
value. -/
def insertedRecord (insert : MongoDocument) (update : UpdateDocument) : Option StoredRecord :=
  site.server.applyAll
    ((StoredRecord.ofDocument insert).insert mongoIdField (.business site.keyBson))
    update.assignments

/-- An upsert selects the record whatever it is. -/
def assertUpsertGuardsLive (call : WriteCall ρ κ) (record : Option StoredRecord) :
    Except WriteError Unit :=
  site.assertLeaseGuardsLive { call with selects := fun _ => true } record

/-- One try of an upsert. A record that its filter does not match is a duplicate key. -/
def upsertOnce (call : WriteCall ρ κ) (insert : MongoDocument) (update : UpdateDocument)
    (record : Option StoredRecord) : Except WriteError (Bool × Option StoredRecord) :=
  match record with
  | none =>
    match site.insertedRecord insert update with
    | some new => .ok (true, some new)
    | none => .error .rejected
  | some old =>
    if site.guarded call old then
      match site.server.applyAll old update.assignments with
      | some new => .ok (true, some new)
      | none => .error .rejected
    else .error .duplicateKey

/-- A prepared write against the record, with whether it hit it. -/
def execute (call : WriteCall ρ κ) (record : Option StoredRecord) :
    PreparedWrite → Except WriteError (Bool × Option StoredRecord)
  | .insert document =>
    match record with
    | none => .ok (true, some (.ofDocument document))
    | some _ => .error .duplicateKey
  | .update update =>
    if update.isEmpty then
      match call.write with
      -- `update_many` sends an empty update, which is refused
      | .updateMany _ => do
        site.assertLeaseGuardsLive call record
        .error .rejected
      | _ => .ok (false, record)
    else do
      site.assertLeaseGuardsLive call record
      match record with
      | none => .ok (false, none)
      | some old =>
        if call.selects old && site.guarded call old then
          match site.server.applyAll old update.assignments with
          | some new => .ok (true, some new)
          | none => .error .rejected
        else .ok (false, record)
  | .upsert insert update => do
    site.assertUpsertGuardsLive call record
    site.upsertOnce call insert update record
  | .replace replacement => do
    site.assertLeaseGuardsLive call record
    match record with
    | none => .ok (false, none)
    | some old =>
      if call.selects old && site.guarded call old then
        .ok (true, some (site.replacementRecord call replacement old))
      else .ok (false, record)

def writeInner (call : WriteCall ρ κ) (record : Option StoredRecord) :
    Except WriteError (Bool × Option StoredRecord) := do
  let prepared ← (site.prepare call).mapError .service
  site.execute call record prepared

/-- Which calls open a transaction of their own, with the holds it is finished under. -/
def ownTransaction (call : WriteCall ρ κ) : Option (List (DbLeaseHold κ)) :=
  match call.write with
  | .create _ => none
  | .createRuntime _ => some []
  | .updateOne change | .updateMany change =>
    if !(site.binding.immutableFilePathsForChange change).isEmpty ||
        site.hasMatchingLeaseGuards call.guards then some call.guards
    else none
  | .updateOneRuntime _ => some call.guards
  | .upsertByKey _ _ => none
  | .replaceOne _ =>
    if site.binding.hasImmutableFileCascade || site.hasMatchingLeaseGuards call.guards then
      some call.guards
    else none
  | .replaceOneRuntime _ => some call.guards

/-- A call outside any transaction of its request. -/
def write (call : WriteCall ρ κ) (record : Option StoredRecord) :
    Except WriteError (Bool × Option StoredRecord) := do
  let written ← site.writeInner call record
  match site.ownTransaction call with
  | none => .ok written
  | some holds => do
    site.assertLeaseHoldsLive holds call.finishNow call.othersLiveAtFinish written.2
    .ok written

/-- The writes of a transaction, in order, with the calls that hit the record. A failed
one ends the transaction. -/
def writeAll : List (WriteCall ρ κ) → Option StoredRecord →
    Except WriteError (List (WriteCall ρ κ) × Option StoredRecord)
  | [], record => .ok ([], record)
  | call :: calls, record => do
    let (hit, record) ← site.writeInner call record
    let (hits, record) ← writeAll calls record
    .ok (if hit then call :: hits else hits, record)

/-- The second try of an upsert that met a record it did not expect: the change alone,
under the filter of the first. -/
def retryUpsert (call : WriteCall ρ κ) (update : UpdateDocument) (record : Option StoredRecord) :
    Except WriteError (Bool × Option StoredRecord) :=
  match record with
  | none => .error .duplicateKey
  | some old =>
    if update.isEmpty then .ok (false, record)
    else if site.guarded call old then
      match site.server.applyAll old update.assignments with
      | some new => .ok (true, some new)
      | none => .error .rejected
    else .error (.service (dbDecodeError "db upsert duplicate-key retry did not match"))

end Site

/-! ## One record under many requests -/

/-- A renewal between its read and its write. -/
structure Renewal where
  slot : String
  token : String
  nowMs : Int
  ttlMs : Nat
  maxExpiresAtMs : Option Int

/-- An upsert whose guards were found live, or that met a duplicate key. -/
structure PendingUpsert (ρ κ : Type) where
  call : WriteCall ρ κ
  insert : MongoDocument
  update : UpdateDocument
  duplicate : Bool

/-- The state of the record, the tokens handed out so far and the calls in flight. -/
structure LeaseState (ρ κ : Type) where
  clock : Int
  record : Option StoredRecord
  issued : List String
  renewals : List Renewal
  upserts : List (PendingUpsert ρ κ)

inductive LeaseEvent (ρ κ : Type) where
  | tick (nowMs : Int)
  | claim (slot owner requestId token : String) (nowMs : Int)
  | renewRead (slot token : String) (nowMs : Int)
  | renewWrite (index : Nat)
  | release (slot token : String)
  | write (call : WriteCall ρ κ)
  | upsert (index : Nat)
  | transaction (calls : List (WriteCall ρ κ)) (holds : List (DbLeaseHold κ))
      (finishNow : DbLeaseHold κ → Int) (othersLiveAtFinish : Bool)

/-- What came of an event. A write that committed says which calls hit the record. -/
inductive LeaseReply (ρ κ : Type) where
  | done
  | claimed (expiresAtMs : Int)
  | unavailable
  | renewed (slot token : String) (expiresAtMs : Int)
  | notRenewed
  | committed (hits : List (WriteCall ρ κ))
  | pending
  | failed

namespace LeaseState

variable {ρ κ : Type} [DecidableEq κ] (site : Site ρ κ) (state : LeaseState ρ κ)

def leases : OrdMap String DbLease := storedLeases state.record

/-- `claim_lease`: one conditional update of the record's slot. -/
def claim (slot owner requestId token : String) (nowMs : Int) : LeaseState ρ κ × LeaseReply ρ κ :=
  match site.binding.leases.get? slot, state.record with
  | none, _ => (state, .failed)
  | some _, none => (state, .unavailable)
  | some declared, some record =>
    if leaseAvailable record.leases slot nowMs then
      let maxExpiresAtMs := declared.maxMs.map (addMs nowMs)
      let expiresAtMs := leaseClaimExpiresAtMs nowMs declared.ttlMs maxExpiresAtMs
      let lease : DbLease := ⟨token, owner, requestId, nowMs, expiresAtMs, maxExpiresAtMs⟩
      ({ state with
          record := some (record.setLeases (record.leases.insert slot lease))
          issued := token :: state.issued }, .claimed expiresAtMs)
    else ({ state with issued := token :: state.issued }, .unavailable)

/-- The first half of `renew_lease`: the lease's maximum, if the token still has it. -/
def renewRead (slot token : String) (nowMs : Int) : LeaseState ρ κ × LeaseReply ρ κ :=
  match site.binding.leases.get? slot with
  | none => (state, .failed)
  | some declared =>
    let maxExpiresAtMs := (state.leases.get? slot).bind fun lease =>
      if lease.token = token then lease.maxExpiresAtMs else none
    if maxExpiresAtMs.any fun max => max ≤ nowMs then (state, .notRenewed)
    else
      ({ state with
          renewals := state.renewals ++ [⟨slot, token, nowMs, declared.ttlMs, maxExpiresAtMs⟩] },
        .done)

/-- The second half: the new expiry, if the token still has the lease and its maximum
has not passed. The old expiry is not looked at. -/
def renewWrite (index : Nat) : LeaseState ρ κ × LeaseReply ρ κ :=
  match state.renewals[index]? with
  | none => (state, .failed)
  | some renewal =>
    let rest := { state with renewals := state.renewals.eraseIdx index }
    match state.record, state.leases.get? renewal.slot with
    | some record, some lease =>
      if lease.token = renewal.token && lease.maxExpiresAtMs.all fun max => renewal.nowMs < max then
        let expiresAtMs := leaseClaimExpiresAtMs renewal.nowMs renewal.ttlMs renewal.maxExpiresAtMs
        let lease := { lease with expiresAtMs := expiresAtMs }
        ({ rest with record := some (record.setLeases (record.leases.insert renewal.slot lease)) },
          .renewed renewal.slot renewal.token expiresAtMs)
      else (rest, .notRenewed)
    | _, _ => (rest, .notRenewed)

/-- `release_lease`: the slot is emptied if the token has it. -/
def release (slot token : String) : LeaseState ρ κ × LeaseReply ρ κ :=
  match state.record, state.leases.get? slot with
  | some record, some lease =>
    if lease.token = token then
      ({ state with record := some (record.setLeases (record.leases.erase slot)) }, .done)
    else (state, .done)
  | _, _ => (state, .done)

/-- A call on its own. An upsert first checks its guards. -/
def write (call : WriteCall ρ κ) : LeaseState ρ κ × LeaseReply ρ κ :=
  match site.prepare call with
  | .ok (.upsert insert update) =>
    match site.assertUpsertGuardsLive call state.record with
    | .ok _ =>
      ({ state with upserts := state.upserts ++ [⟨call, insert, update, false⟩] }, .pending)
    | .error _ => (state, .failed)
  | _ =>
    match site.write call state.record with
    | .ok (hit, record) =>
      ({ state with record := record }, .committed (if hit then [call] else []))
    | .error _ => (state, .failed)

/-- The next try of an upsert in flight. -/
def upsert (index : Nat) : LeaseState ρ κ × LeaseReply ρ κ :=
  match state.upserts[index]? with
  | none => (state, .failed)
  | some pending =>
    let rest := { state with upserts := state.upserts.eraseIdx index }
    let written := if pending.duplicate then
        site.retryUpsert pending.call pending.update state.record
      else site.upsertOnce pending.call pending.insert pending.update state.record
    match written with
    | .ok (hit, record) =>
      ({ rest with record := record }, .committed (if hit then [pending.call] else []))
    | .error .duplicateKey =>
      if pending.duplicate then (rest, .failed)
      else
        ({ rest with upserts := rest.upserts ++ [{ pending with duplicate := true }] }, .pending)
    | .error _ => (rest, .failed)

def transaction (calls : List (WriteCall ρ κ)) (holds : List (DbLeaseHold κ))
    (finishNow : DbLeaseHold κ → Int) (othersLiveAtFinish : Bool) :
    LeaseState ρ κ × LeaseReply ρ κ :=
  match site.writeAll calls state.record with
  | .error _ => (state, .failed)
  | .ok (hits, record) =>
    match site.assertLeaseHoldsLive holds finishNow othersLiveAtFinish record with
    | .ok _ => ({ state with record := record }, .committed hits)
    | .error _ => (state, .failed)

def apply : LeaseEvent ρ κ → LeaseState ρ κ × LeaseReply ρ κ
  | .tick nowMs => ({ state with clock := nowMs }, .done)
  | .claim slot owner requestId token nowMs => state.claim site slot owner requestId token nowMs
  | .renewRead slot token nowMs => state.renewRead site slot token nowMs
  | .renewWrite index => state.renewWrite index
  | .release slot token => state.release slot token
  | .write call => state.write site call
  | .upsert index => state.upsert site index
  | .transaction calls holds finishNow othersLiveAtFinish =>
    state.transaction site calls holds finishNow othersLiveAtFinish

/-- The readings of a call were taken before it is carried out. -/
def Read (call : WriteCall ρ κ) : Prop :=
  call.guardNow ≤ state.clock ∧
    ∀ guard ∈ call.guards, call.assertNow guard ≤ state.clock ∧ call.finishNow guard ≤ state.clock

/-- One monotone clock, read before its readings are used; fresh tokens for claims; and
renewals and releases of leases that were handed out. -/
def Allowed : LeaseEvent ρ κ → Prop
  | .tick nowMs => state.clock ≤ nowMs
  | .claim _ _ _ token nowMs => nowMs ≤ state.clock ∧ token ∉ state.issued
  | .renewRead _ token nowMs => nowMs ≤ state.clock ∧ token ∈ state.issued
  | .renewWrite _ => True
  | .release _ token => token ∈ state.issued
  | .write call => state.Read call
  | .upsert _ => True
  | .transaction calls holds finishNow _ =>
    (∀ call ∈ calls, state.Read call) ∧ ∀ hold ∈ holds, finishNow hold ≤ state.clock

/-- One event with its reply. -/
def Step (s : LeaseState ρ κ) (label : LeaseEvent ρ κ × LeaseReply ρ κ) (t : LeaseState ρ κ) :
    Prop :=
  s.Allowed label.1 ∧ s.apply site label.1 = (t, label.2)

/-- No record and no lease yet. -/
def initial (clock : Int) : LeaseState ρ κ := ⟨clock, none, [], [], []⟩

end LeaseState

end Skiff.ServiceDb
