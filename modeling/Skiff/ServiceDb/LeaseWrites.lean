import Skiff.ServiceDb.Lease

/-!
# Business writes and the leases of a record

The policy on field paths keeps every change away from the runtime's own fields, so
updates and upserts leave the leases of a record alone, and documents that are
inserted have none. A replacement is a whole new document: it has the leases of the
old one if it reads it, for a file cascade or for a lease of its request, and otherwise
it has none. `Site.Carries` leaves out the replacements that drop a lease that way.
-/

namespace Skiff.ServiceDb

open DbCollectionMetadata

/-! ## Leases and the fields of a record -/

namespace StoredRecord

@[simp] theorem leases_setLeases (record : StoredRecord) (slots : OrdMap String DbLease) :
    (record.setLeases slots).leases = slots := by
  simp [leases, setLeases]

theorem leases_of_get?_eq {record other : StoredRecord}
    (h : record.get? skiffLeasesField = other.get? skiffLeasesField) :
    record.leases = other.leases := by
  simp only [leases, h]

@[simp] theorem leases_ofDocument (document : MongoDocument) :
    (ofDocument document).leases = ∅ := by
  simp only [leases, ofDocument, OrdMap.get?_map]
  cases document.get? skiffLeasesField with
  | none => rfl
  | some value => rfl

end StoredRecord

@[simp] theorem storedLeases_some (record : StoredRecord) :
    storedLeases (some record) = record.leases := rfl

namespace DbCollectionMetadata

variable {ρ : Type} {codecs : DbCodecs ρ} {binding : DbCollectionMetadata}

/-- No assignment of a change is aimed at the leases. -/
theorem Assigned.topLevel_ne {assignment : Assignment BsonValue}
    (h : Assigned codecs binding assignment) : topLevel assignment.path ≠ skiffLeasesField := by
  obtain ⟨resolved, hresolved⟩ := h.resolved
  rw [resolveBusinessFieldPath, mapError_eq_ok] at hresolved
  have hfree := (DbFieldPathPolicy.resolveBusinessFieldPath_eq_ok hresolved).1
  intro heq
  rw [heq] at hfree
  exact absurd hfree (by decide)

end DbCollectionMetadata

def PreparedWrite.assignments : PreparedWrite → List (Assignment BsonValue)
  | .insert _ | .replace _ => []
  | .update changes | .upsert _ changes => changes.assignments

def BusinessWrite.isReplace {ρ : Type} : BusinessWrite ρ → Bool
  | .replaceOne _ | .replaceOneRuntime _ => true
  | _ => false

namespace Site

variable {prepared : PreparedWrite}

variable {update : UpdateDocument}

section Preparation

variable {ρ κ : Type} {site : Site ρ κ} {call : WriteCall ρ κ}

theorem applyAll_leases {assignments : List (Assignment BsonValue)} {old new : StoredRecord}
    (hassignments : ∀ assignment ∈ assignments, topLevel assignment.path ≠ skiffLeasesField)
    (h : site.server.applyAll old assignments = some new) : new.leases = old.leases :=
  StoredRecord.leases_of_get?_eq (Server.get?_applyAll h hassignments)

theorem prepareUpsert_eq_ok {insert : Json.Value} {change : ServiceDbChange}
    (h : site.prepareUpsert insert change = .ok prepared) :
    ∃ document update, prepared = .upsert document update ∧
      ∀ assignment ∈ update.assignments, Assigned site.codecs site.binding assignment := by
  obtain ⟨context, -, h⟩ := bind_eq_ok.mp h
  obtain ⟨created, -, h⟩ := bind_eq_ok.mp h
  split at h
  · obtain ⟨validated, -, h⟩ := bind_eq_ok.mp h
    obtain ⟨update, hupdate, h⟩ := bind_eq_ok.mp h
    exact ⟨_, update, (Except.ok.inj h).symm, (changeUpdateDocument_eq_ok hupdate).1⟩
  · cases h

/-- A prepared write assigns to business fields only. -/
theorem prepare_assigned (h : site.prepare call = .ok prepared) :
    ∀ assignment ∈ prepared.assignments, Assigned site.codecs site.binding assignment := by
  unfold prepare at h
  split at h
  case h_1 | h_2 =>
    obtain ⟨document, -, h⟩ := bind_eq_ok.mp h
    cases h
    intro assignment hmem
    cases hmem
  case h_3 =>
    obtain ⟨context, -, h⟩ := bind_eq_ok.mp h
    obtain ⟨update, hupdate, h⟩ := bind_eq_ok.mp h
    cases h
    exact (changeUpdateDocument_eq_ok (validatedChangeUpdateWithContext_eq_ok hupdate)).1
  case h_4 =>
    obtain ⟨context, -, h⟩ := bind_eq_ok.mp h
    obtain ⟨update, hupdate, h⟩ := bind_eq_ok.mp h
    cases h
    exact (runtimeChangeUpdateDocument_eq_ok hupdate).1
  case h_5 =>
    obtain ⟨update, hupdate, h⟩ := bind_eq_ok.mp h
    cases h
    exact (changeUpdateDocument_eq_ok (validatedChangeUpdateWithContext_eq_ok hupdate)).1
  case h_6 =>
    obtain ⟨document, update, rfl, hassigned⟩ := prepareUpsert_eq_ok h
    exact hassigned
  case h_7 | h_8 =>
    obtain ⟨context, -, h⟩ := bind_eq_ok.mp h
    obtain ⟨document, -, h⟩ := bind_eq_ok.mp h
    cases h
    intro assignment hmem
    cases hmem

variable {replacement : MongoDocument}

theorem isReplace_of_prepare
    (h : site.prepare call = .ok (.replace replacement)) : call.write.isReplace = true := by
  unfold prepare at h
  split at h
  case h_6 =>
    obtain ⟨document, update, heq, -⟩ := prepareUpsert_eq_ok h
    cases heq
  case h_7 hwrite | h_8 hwrite => simp [hwrite, BusinessWrite.isReplace]
  all_goals
    repeat obtain ⟨_, -, h⟩ := bind_eq_ok.mp h
    cases h

/-- The call is no replacement that drops the leases of the record. -/
def Carries (site : Site ρ κ) (call : WriteCall ρ κ) (record : Option StoredRecord) : Prop :=
  call.write.isReplace = true → site.binding.hasImmutableFileCascade = false →
    site.hasMatchingLeaseGuards call.guards = false →
      ∀ old, record = some old → call.selects old = true → old.leases = ∅

theorem carriedLeases_getD {old : StoredRecord} (hread : (site.binding.hasImmutableFileCascade ||
      site.hasMatchingLeaseGuards call.guards) = true) :
    (site.carriedLeases call old).getD ∅ = old.leases := by
  rw [carriedLeases, if_pos hread, StoredRecord.leases]
  split
  · rfl
  · rfl

theorem replacementRecord_leases {old : StoredRecord}
    (hreplace : call.write.isReplace = true) (hcarries : site.Carries call (some old))
    (hselects : call.selects old = true) :
    (site.replacementRecord call replacement old).leases = old.leases := by
  have htaken : (site.replacementRecord call replacement old).leases =
      (site.carriedLeases call old).getD ∅ := by
    rw [replacementRecord]
    cases site.carriedLeases call old with
    | none => exact StoredRecord.leases_ofDocument replacement
    | some slots => exact StoredRecord.leases_setLeases _ slots
  rw [htaken]
  cases hread : site.binding.hasImmutableFileCascade || site.hasMatchingLeaseGuards call.guards with
  | true => exact carriedLeases_getD hread
  | false =>
    have hnone := Bool.or_eq_false_iff.mp hread
    rw [hcarries hreplace hnone.1 hnone.2 old rfl hselects, carriedLeases, if_neg (by simp [hread])]
    rfl

theorem insertedRecord_leases {insert : MongoDocument}
    {new : StoredRecord} (hupdate : ∀ assignment ∈ update.assignments,
      topLevel assignment.path ≠ skiffLeasesField)
    (h : site.insertedRecord insert update = some new) : new.leases = ∅ := by
  rw [applyAll_leases hupdate h, ← StoredRecord.leases_ofDocument insert]
  apply StoredRecord.leases_of_get?_eq
  exact OrdMap.get?_insert_of_ne _ _ (by decide)

end Preparation

variable {ρ κ : Type} [DecidableEq κ] {site : Site ρ κ} {call : WriteCall ρ κ}
  {record next : Option StoredRecord} {hit : Bool}

/-- What a write that did not fail has done: it kept the leases, it did not remove the
record, and a hit on a record was one under the guards of the call. -/
structure Writes (site : Site ρ κ) (call : WriteCall ρ κ) (record : Option StoredRecord)
    (hit : Bool) (next : Option StoredRecord) : Prop where
  leases : storedLeases next = storedLeases record
  present : record ≠ none → next ≠ none
  guarded : ∀ old, record = some old → hit = true → site.guarded call old = true

theorem Writes.untouched : Writes site call record false record :=
  ⟨rfl, id, fun _ _ hhit => (nomatch hhit)⟩

theorem Writes.updated {assignments : List (Assignment BsonValue)} {old new : StoredRecord}
    (hassignments : ∀ assignment ∈ assignments, topLevel assignment.path ≠ skiffLeasesField)
    (hguarded : site.guarded call old = true)
    (h : site.server.applyAll old assignments = some new) :
    Writes site call (some old) true (some new) := by
  refine ⟨applyAll_leases hassignments h, fun _ => Option.some_ne_none new, ?_⟩
  intro old' hold _
  cases hold
  exact hguarded

theorem upsertOnce_writes {insert : MongoDocument}
    (hupdate : ∀ assignment ∈ update.assignments, topLevel assignment.path ≠ skiffLeasesField)
    (h : site.upsertOnce call insert update record = .ok (hit, next)) :
    Writes site call record hit next := by
  unfold upsertOnce at h
  split at h
  case h_1 =>
    split at h
    case h_1 new hnew =>
      cases h
      refine ⟨insertedRecord_leases hupdate hnew, fun hne => absurd rfl hne, ?_⟩
      intro old hold
      cases hold
    · cases h
  case h_2 old =>
    split at h
    case isTrue hguarded =>
      split at h
      case h_1 new hnew =>
        cases h
        exact .updated hupdate hguarded hnew
      · cases h
    · cases h

theorem retryUpsert_writes
    (hupdate : ∀ assignment ∈ update.assignments, topLevel assignment.path ≠ skiffLeasesField)
    (h : site.retryUpsert call update record = .ok (hit, next)) :
    Writes site call record hit next := by
  unfold retryUpsert at h
  split at h
  · cases h
  case h_2 old =>
    split at h
    · cases h
      exact .untouched
    split at h
    case isTrue hguarded =>
      split at h
      case h_1 new hnew =>
        cases h
        exact .updated hupdate hguarded hnew
      · cases h
    · cases h

theorem execute_writes (hprepared : site.prepare call = .ok prepared)
    (hcarries : site.Carries call record)
    (h : site.execute call record prepared = .ok (hit, next)) :
    Writes site call record hit next := by
  have hfree := fun assignment hmem => (prepare_assigned hprepared assignment hmem).topLevel_ne
  cases prepared with
  | insert document =>
    cases record with
    | none =>
      cases h
      refine ⟨StoredRecord.leases_ofDocument document, fun hne => absurd rfl hne, ?_⟩
      intro old hold
      cases hold
    | some old => cases h
  | update changes =>
    unfold execute at h
    dsimp only at h
    split at h
    · split at h
      · obtain ⟨u, -, h⟩ := bind_eq_ok.mp h
        cases h
      · cases h
        exact .untouched
    obtain ⟨u, -, h⟩ := bind_eq_ok.mp h
    split at h
    · cases h
      exact .untouched
    split at h
    case isTrue hselected =>
      split at h
      case h_1 new hnew =>
        cases h
        exact .updated hfree (Bool.and_eq_true_iff.mp hselected).2 hnew
      · cases h
    · cases h
      exact .untouched
  | upsert insert changes =>
    obtain ⟨u, -, h⟩ := bind_eq_ok.mp h
    exact upsertOnce_writes hfree h
  | replace replacement =>
    obtain ⟨u, -, h⟩ := bind_eq_ok.mp h
    split at h
    · cases h
      exact .untouched
    case h_2 old =>
      split at h
      case isTrue hselected =>
        cases h
        obtain ⟨hselects, hguarded⟩ := Bool.and_eq_true_iff.mp hselected
        refine ⟨replacementRecord_leases (isReplace_of_prepare hprepared) hcarries hselects,
          fun _ => Option.some_ne_none _, ?_⟩
        intro old' hold _
        cases hold
        exact hguarded
      · cases h
        exact .untouched

theorem writeInner_writes (hcarries : site.Carries call record)
    (h : site.writeInner call record = .ok (hit, next)) : Writes site call record hit next := by
  obtain ⟨prepared, hprepared, h⟩ := bind_eq_ok.mp h
  exact execute_writes (mapError_eq_ok.mp hprepared) hcarries h

/-! ### Writes that commit together -/

/-- The calls that hit the record, and what they left of it. -/
structure Commits (site : Site ρ κ) (hits : List (WriteCall ρ κ))
    (record next : Option StoredRecord) :
    Prop where
  leases : storedLeases next = storedLeases record
  present : record ≠ none → next ≠ none
  live : record ≠ none → ∀ call ∈ hits, ∀ guard ∈ site.ownGuards call.guards,
    leaseLive (storedLeases record) guard.slot guard.token call.guardNow = true

theorem Writes.commits (h : Writes site call record hit next) :
    Commits site (if hit then [call] else []) record next := by
  refine ⟨h.leases, h.present, ?_⟩
  intro hrecord other hmem guard hguard
  cases hit with
  | false => cases hmem
  | true =>
    obtain rfl := List.mem_singleton.mp hmem
    obtain ⟨old, rfl⟩ := Option.ne_none_iff_exists'.mp hrecord
    exact List.all_eq_true.mp (h.guarded old rfl rfl) guard hguard

theorem Commits.trans {hits hits' : List (WriteCall ρ κ)} {last : Option StoredRecord}
    (h : Commits site hits record next) (h' : Commits site hits' next last) :
    Commits site (hits ++ hits') record last := by
  refine ⟨h'.leases.trans h.leases, fun hrecord => h'.present (h.present hrecord), ?_⟩
  intro hrecord call hmem
  obtain hmem | hmem := List.mem_append.mp hmem
  · exact h.live hrecord call hmem
  rw [← h.leases]
  exact h'.live (h.present hrecord) call hmem

/-- Every call of a transaction carries the leases of the record it finds. -/
def CarriesAll (site : Site ρ κ) : List (WriteCall ρ κ) → Option StoredRecord → Prop
  | [], _ => True
  | call :: calls, record => site.Carries call record ∧
      ∀ hit next, site.writeInner call record = .ok (hit, next) → site.CarriesAll calls next

theorem writeAll_commits {calls hits : List (WriteCall ρ κ)}
    (hcarries : site.CarriesAll calls record) (h : site.writeAll calls record = .ok (hits, next)) :
    Commits site hits record next := by
  induction calls generalizing record hits with
  | nil =>
    cases h
    exact ⟨rfl, id, fun _ _ hmem => (nomatch hmem)⟩
  | cons call calls ih =>
    obtain ⟨⟨hit, middle⟩, hfirst, h⟩ := bind_eq_ok.mp h
    obtain ⟨⟨rest, last⟩, hrest, h⟩ := bind_eq_ok.mp h
    cases h
    have hcommits := (writeInner_writes hcarries.1 hfirst).commits.trans
      (ih (hcarries.2 hit middle hfirst) hrest)
    cases hit with
    | false | true => exact hcommits

theorem assertLeaseHoldsLive_eq_ok {holds : List (DbLeaseHold κ)} {now : DbLeaseHold κ → Int}
    {othersLive : Bool} {u : Unit}
    (h : site.assertLeaseHoldsLive holds now othersLive record = .ok u) :
    ∀ hold ∈ site.ownGuards holds,
      leaseLive (storedLeases record) hold.slot hold.token (now hold) = true := by
  unfold assertLeaseHoldsLive at h
  split at h
  · cases h
  generalize site.ownGuards holds = own at h
  induction own with
  | nil =>
    intro hold hmem
    cases hmem
  | cons first rest ih =>
    obtain ⟨v, hfirst, hrest⟩ := bind_eq_ok.mp h
    rw [List.forall_mem_cons]
    refine ⟨?_, ih hrest⟩
    dsimp only at hfirst
    split at hfirst
    case isTrue hlive => exact hlive
    · cases hfirst

/-- The holds a call on its own is finished under, with the reading of the check. -/
def finishes (site : Site ρ κ) (call : WriteCall ρ κ) : List (DbLeaseHold κ × Int) :=
  match site.ownTransaction call with
  | none => []
  | some holds => (site.ownGuards holds).map fun hold => (hold, call.finishNow hold)

theorem write_commits (hcarries : site.Carries call record)
    (h : site.write call record = .ok (hit, next)) :
    Commits site (if hit then [call] else []) record next ∧
      ∀ finish ∈ site.finishes call,
        leaseLive (storedLeases record) finish.1.slot finish.1.token finish.2 = true := by
  obtain ⟨written, hwritten, h⟩ := bind_eq_ok.mp h
  obtain ⟨hit', next'⟩ := written
  have hcommits := (writeInner_writes hcarries hwritten).commits
  rw [finishes]
  cases hown : site.ownTransaction call with
  | none =>
    rw [hown] at h
    cases h
    exact ⟨hcommits, fun finish hmem => (nomatch hmem)⟩
  | some holds =>
    rw [hown] at h
    obtain ⟨u, hlive, h⟩ := bind_eq_ok.mp h
    cases h
    refine ⟨hcommits, fun finish hmem => ?_⟩
    obtain ⟨hold, hhold, rfl⟩ := List.mem_map.mp hmem
    rw [← hcommits.leases]
    exact assertLeaseHoldsLive_eq_ok hlive hold hhold

end Site

end Skiff.ServiceDb
