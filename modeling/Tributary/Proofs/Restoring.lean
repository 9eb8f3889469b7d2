import Tributary.Proofs.Showing
import Tributary.Record.Document

/-!
# Reading records back

If the text of its document carries the data of a record, the record is read back with every
field as it was (`Record.ofDocument?_document`), up to three things: a snapshot that is null is
taken as absent, one that is nested too deeply cannot be read, and leap seconds are settled.
-/

namespace Tributary

open Yaml

/-! ## Members of structures -/

namespace Table

variable {α : Type}

@[simp] theorem look_append (name : String) (first rest : List (String × α)) :
    look name (first ++ rest) = (look name first).or (look name rest) := by
  induction first with
  | nil => rfl
  | cons p first ih =>
    rw [List.cons_append, look, look, ih]
    split <;> rfl

end Table

@[simp] theorem look_optionalMember (name other : String) (value : Option Json) :
    Table.look name (optionalMember other value) = if name = other then value else none := by
  cases value <;> simp [optionalMember, Table.look]

theorem names_optionalMember (name : String) (value : Option Json) :
    ((optionalMember name value).map (·.1)).Sublist [name] := by
  cases value <;> simp [optionalMember]

open Readable
open Yaml.Place (fields?_of_shows found_of_look required_of_found fallback_of_found
  optionally_of_found optionally_of_kept optionally_of_missing optionally_of_null
  optionally_of_present reads_text reads_alternative reads_instant reads_bool reads_int reads_nat
  reads_list reads_bytes reads_table reads_json)

variable {depth : Nat}

theorem Owner.reads (o : Owner) : Place.Reads Owner.read o.toJson o (depth + 1) := by
  intro p h
  obtain ⟨f, fields, found⟩ :=
    fields?_of_shows ["kind", "namespace", "name"] h (.refl _) (by decide)
  have kind : required f "kind" text? = pure o.kind :=
    required_of_found found rfl (reads_text _)
  have space : required f "namespace" text? = pure o.namespaceName :=
    required_of_found found (by simp [Table.look]) (reads_text _)
  have name : required f "name" text? = pure o.name :=
    required_of_found found (by simp [Table.look]) (reads_text _)
  rw [Owner.read, fields, pure_bind, kind, pure_bind, space, pure_bind, name, pure_bind]

/-- A priority of 32 bits. -/
def Contribution.Fits (c : Contribution) : Prop :=
  -(Nat.pow 2 31 : Nat) ≤ c.priority ∧ c.priority ≤ (Nat.pow 2 31 - 1 : Nat)

theorem Contribution.reads {c : Contribution} (fits : c.Fits) :
    Place.Reads Contribution.read c.toJson c (depth + 2) := by
  intro p h
  obtain ⟨f, fields, found⟩ :=
    fields?_of_shows ["owner", "priority", "raw_config"] h (.refl _) (by decide)
  have owner : required f "owner" Owner.read = pure c.owner :=
    required_of_found found rfl (Owner.reads _)
  have priority : required f "priority" (int? (-(Nat.pow 2 31 : Nat)) (Nat.pow 2 31 - 1 : Nat)) =
      pure c.priority :=
    required_of_found found (by simp [Table.look]) (reads_int fits.1 fits.2)
  have payload : fallback f "raw_config" [] bytes? = pure c.payload :=
    fallback_of_found found (by simp [Table.look]) (reads_bytes _)
  rw [Contribution.read, fields, pure_bind, owner, pure_bind, priority, pure_bind, payload,
    pure_bind]

/-! ## The status -/

/-- A snapshot that is null is taken as absent. -/
def forgetNull : Option Json → Option Json
  | some .null => none
  | snapshot => snapshot

theorem forgetNull_some {v : Json} (present : v ≠ .null) : forgetNull (some v) = some v := by
  cases v with
  | null => exact absurd rfl present
  | _ => rfl

namespace Status

/-- Numbers of as many bits as there are for them, instants that have dates, a table and a
snapshot in order. -/
structure Fits (s : Status) : Prop where
  configVersion : s.configVersion < 2 ^ 64
  lastSyncTime : ∀ t ∈ s.lastSyncTime, t.InRange
  retryCount : s.retryCount < 2 ^ 32
  maxRetries : s.maxRetries < 2 ^ 32
  failedAt : ∀ t ∈ s.failedAt, t.InRange
  nextRetryAt : ∀ t ∈ s.nextRetryAt, t.InRange
  observedGeneration : s.observedGeneration < 2 ^ 64
  resultData : s.resultData.Ascending
  snapshot : ∀ v ∈ s.snapshot, v.Regular

/-- What is read back of a status. -/
def restored (s : Status) : Status :=
  { s with
    lastSyncTime := s.lastSyncTime.map Instant.settled
    failedAt := s.failedAt.map Instant.settled
    nextRetryAt := s.nextRetryAt.map Instant.settled
    snapshot := forgetNull s.snapshot }

/-- How deeply the snapshot is nested. -/
def nesting (s : Status) : Nat := s.snapshot.elim 0 Json.nesting

def members (s : Status) : List (String × Json) :=
  [("phase", .str s.phase.name),
   ("config_hash", .str s.configHash),
   ("config_version", .nat s.configVersion)] ++
  optionalMember "last_sync_time" (s.lastSyncTime.map instantJson) ++
  [("retry_count", .nat s.retryCount), ("max_retries", .nat s.maxRetries)] ++
  optionalMember "failure_reason" (s.failureReason.map .str) ++
  optionalMember "error_category" (s.errorCategory.map fun c => .str c.name) ++
  optionalMember "failed_at" (s.failedAt.map instantJson) ++
  optionalMember "next_retry_at" (s.nextRetryAt.map instantJson) ++
  [("observed_generation", .nat s.observedGeneration),
   ("result_data", tableJson s.resultData)] ++
  optionalMember "aggregated_config_snapshot" s.snapshot

theorem toJson_eq (s : Status) : s.toJson = .obj s.members := rfl

theorem names_members (s : Status) : (s.members.map (·.1)).Sublist fieldNames := by
  simp only [members, List.map_append]
  exact (((((((List.Sublist.refl ["phase", "config_hash", "config_version"]).append
    (names_optionalMember _ _)).append (.refl ["retry_count", "max_retries"])).append
    (names_optionalMember _ _)).append (names_optionalMember _ _)).append
    (names_optionalMember _ _)).append (names_optionalMember _ _)).append
    (.refl ["observed_generation", "result_data"]) |>.append (names_optionalMember _ _)

theorem read_of_shows {s : Status} (fits : s.Fits) {p : Place} (h : p.Shows s.toJson (depth + 2)) :
    Status.read p = if s.nesting ≤ depth + 1 then pure s.restored else failure := by
  rw [toJson_eq] at h
  obtain ⟨f, fields, found⟩ := fields?_of_shows fieldNames h s.names_members (by decide)
  have phase : fallback f "phase" .pending (fun q => (variant? q).filterMap Phase.ofName?) =
      pure s.phase :=
    fallback_of_found found (by simp [members, Table.look]) (reads_alternative s.phase.ofName?_name)
  have configHash : fallback f "config_hash" "" text? = pure s.configHash :=
    fallback_of_found found (by simp [members, Table.look]) (reads_text _)
  have configVersion : fallback f "config_version" 0 (nat? 64) = pure s.configVersion :=
    fallback_of_found found (by simp [members, Table.look]) (reads_nat fits.configVersion)
  have lastSyncTime : optionally f "last_sync_time" instant? =
      pure (s.lastSyncTime.map Instant.settled) :=
    optionally_of_found found instantJson Instant.settled (by simp [members, Table.look])
      (by rintro _ ⟨⟩) fun t mem => reads_instant (fits.lastSyncTime t mem)
  have retryCount : fallback f "retry_count" 0 (nat? 32) = pure s.retryCount :=
    fallback_of_found found (by simp [members, Table.look]) (reads_nat fits.retryCount)
  have maxRetries : fallback f "max_retries" 0 (nat? 32) = pure s.maxRetries :=
    fallback_of_found found (by simp [members, Table.look]) (reads_nat fits.maxRetries)
  have failureReason : optionally f "failure_reason" text? = pure s.failureReason :=
    optionally_of_kept found .str (by simp [members, Table.look]) (by rintro _ ⟨⟩) reads_text
  have errorCategory :
      optionally f "error_category" (fun q => (variant? q).filterMap Category.ofName?) =
        pure s.errorCategory :=
    optionally_of_kept found (fun c : Category => .str c.name) (by simp [members, Table.look])
      (by rintro _ ⟨⟩) fun c => reads_alternative c.ofName?_name
  have failedAt : optionally f "failed_at" instant? = pure (s.failedAt.map Instant.settled) :=
    optionally_of_found found instantJson Instant.settled (by simp [members, Table.look])
      (by rintro _ ⟨⟩) fun t mem => reads_instant (fits.failedAt t mem)
  have nextRetryAt : optionally f "next_retry_at" instant? =
      pure (s.nextRetryAt.map Instant.settled) :=
    optionally_of_found found instantJson Instant.settled (by simp [members, Table.look])
      (by rintro _ ⟨⟩) fun t mem => reads_instant (fits.nextRetryAt t mem)
  have observedGeneration : fallback f "observed_generation" 0 (nat? 64) =
      pure s.observedGeneration :=
    fallback_of_found found (by simp [members, Table.look]) (reads_nat fits.observedGeneration)
  have resultData : fallback f "result_data" {} (table? text?) = pure s.resultData :=
    fallback_of_found found (by simp [members, Table.look]) (reads_table fits.resultData)
  have snapshot : optionally f "aggregated_config_snapshot" json? =
      if s.nesting ≤ depth + 1 then pure (forgetNull s.snapshot) else failure := by
    have written : Table.look "aggregated_config_snapshot" s.members = s.snapshot := by
      simp [members, Table.look]
    have regular := fits.snapshot
    unfold nesting
    cases h : s.snapshot with
    | none => exact optionally_of_missing found (written.trans h)
    | some v =>
      by_cases null : v = .null
      · subst null
        exact optionally_of_null found (written.trans h)
      · obtain ⟨q, shown, read⟩ := optionally_of_present found (written.trans h) null
        rw [read, reads_json (regular v h) shown, forgetNull_some null]
        change _ = if v.nesting ≤ depth + 1 then pure (some v) else failure
        split <;> rfl
  rw [Status.read, fields, pure_bind, phase, pure_bind, configHash, pure_bind, configVersion,
    pure_bind, lastSyncTime, pure_bind, retryCount, pure_bind, maxRetries, pure_bind,
    failureReason, pure_bind, errorCategory, pure_bind, failedAt, pure_bind, nextRetryAt,
    pure_bind, observedGeneration, pure_bind, resultData, pure_bind, snapshot]
  split <;> rfl

end Status

/-! ## The record -/

namespace Record

/-- As `Status.Fits`, for the other fields too. -/
structure Fits (r : Record) : Prop where
  scopeIds : r.scopeIds.Ascending
  sources : ∀ c ∈ r.sources, c.Fits
  generation : r.generation < 2 ^ 64
  token : r.token < 2 ^ 64
  status : r.status.Fits
  createdAt : r.createdAt.InRange
  updatedAt : r.updatedAt.InRange

/-- What is read back of a record. -/
def restored (r : Record) : Record :=
  { r with
    status := r.status.restored
    createdAt := r.createdAt.settled
    updatedAt := r.updatedAt.settled }

def members (r : Record) : List (String × Json) :=
  [("key", .str r.key),
   ("resource_type", .str r.resourceType),
   ("external_id", .str r.externalId),
   ("scope_ids", tableJson r.scopeIds)] ++
  optionalMember "credentials_ref" (r.credentialsRef.map .str) ++
  [("sources", .arr (r.sources.map Contribution.toJson)),
   ("generation", .nat r.generation),
   ("pending_teardown", .bool r.pendingTeardown),
   ("teardown_requested", .bool r.teardownRequested),
   ("deletion_requested", .bool r.deletionRequested),
   ("token", .nat r.token),
   ("status", r.status.toJson),
   ("created_at", instantJson r.createdAt),
   ("updated_at", instantJson r.updatedAt)]

theorem toJson_eq (r : Record) : r.toJson = .obj r.members := rfl

theorem names_members (r : Record) : (r.members.map (·.1)).Sublist fieldNames := by
  simp only [members, List.map_append]
  exact ((List.Sublist.refl ["key", "resource_type", "external_id", "scope_ids"]).append
    (names_optionalMember _ _)).append (.refl _)

theorem read_of_shows {r : Record} (fits : r.Fits) {p : Place} (h : p.Shows r.toJson (depth + 4)) :
    Record.read p = if r.status.nesting ≤ depth + 2 then pure r.restored else failure := by
  rw [toJson_eq] at h
  obtain ⟨f, fields, found⟩ := fields?_of_shows fieldNames h r.names_members (by decide)
  have key : required f "key" text? = pure r.key :=
    required_of_found found (by simp [members, Table.look]) (reads_text _)
  have resourceType : required f "resource_type" text? = pure r.resourceType :=
    required_of_found found (by simp [members, Table.look]) (reads_text _)
  have externalId : required f "external_id" text? = pure r.externalId :=
    required_of_found found (by simp [members, Table.look]) (reads_text _)
  have scopeIds : fallback f "scope_ids" {} (table? text?) = pure r.scopeIds :=
    fallback_of_found found (by simp [members, Table.look]) (reads_table fits.scopeIds)
  have credentialsRef : optionally f "credentials_ref" text? = pure r.credentialsRef :=
    optionally_of_kept found .str (by simp [members, Table.look]) (by rintro _ ⟨⟩) reads_text
  have sources : fallback f "sources" [] (list? Contribution.read) = pure r.sources :=
    fallback_of_found found (by simp [members, Table.look])
      (reads_list fun c mem => Contribution.reads (fits.sources c mem))
  have generation : fallback f "generation" 0 (nat? 64) = pure r.generation :=
    fallback_of_found found (by simp [members, Table.look]) (reads_nat fits.generation)
  have pendingTeardown : fallback f "pending_teardown" false bool? = pure r.pendingTeardown :=
    fallback_of_found found (by simp [members, Table.look]) (reads_bool _)
  have teardownRequested : fallback f "teardown_requested" false bool? =
      pure r.teardownRequested :=
    fallback_of_found found (by simp [members, Table.look]) (reads_bool _)
  have deletionRequested : fallback f "deletion_requested" false bool? =
      pure r.deletionRequested :=
    fallback_of_found found (by simp [members, Table.look]) (reads_bool _)
  have token : fallback f "token" 0 (nat? 64) = pure r.token :=
    fallback_of_found found (by simp [members, Table.look]) (reads_nat fits.token)
  have status : fallback f "status" {} Status.read =
      if r.status.nesting ≤ depth + 2 then pure r.status.restored else failure := by
    have written : Table.look "status" r.members = some r.status.toJson := by
      simp [members, Table.look]
    obtain ⟨q, field, shown⟩ := found_of_look found written
    rw [fallback, field]
    exact Status.read_of_shows fits.status shown
  have createdAt : required f "created_at" instant? = pure r.createdAt.settled :=
    required_of_found found (by simp [members, Table.look]) (reads_instant fits.createdAt)
  have updatedAt : required f "updated_at" instant? = pure r.updatedAt.settled :=
    required_of_found found (by simp [members, Table.look]) (reads_instant fits.updatedAt)
  rw [Record.read, fields, pure_bind, key, pure_bind, resourceType, pure_bind, externalId,
    pure_bind, scopeIds, pure_bind, credentialsRef, pure_bind, sources, pure_bind, generation,
    pure_bind, pendingTeardown, pure_bind, teardownRequested, pure_bind, deletionRequested,
    pure_bind, token, pure_bind, status]
  split
  · rw [pure_bind, createdAt, pure_bind, updatedAt, pure_bind]
    rfl
  · rfl

/-! ## Documents -/

/-- Whether the text of the document of a record carries its data. -/
def carried (r : Record) : Bool :=
  match Document.ofText? r.document with
  | some (some d) => r.toJson.shownBy d.root
  | _ => false

/-- A record that reading gives back as it is. -/
structure Lasting (r : Record) : Prop where
  shallow : r.status.nesting ≤ 126
  restored : r.restored = r

/-- A document whose text carries the data of a record is read as that record, up to what reading
makes of it; if the snapshot is nested too deeply, it cannot be read. -/
theorem ofDocument?_document {r : Record} (fits : r.Fits) (carried : r.carried = true) :
    ofDocument? r.document = if r.status.nesting ≤ 126 then some r.restored else none := by
  unfold Record.carried at carried
  split at carried
  · next d text =>
    have shown : (Place.start d).Shows r.toJson (124 + 4) := ⟨carried, rfl⟩
    rw [ofDocument?, Yaml.read, text]
    change (Record.read (Place.start d)).read? d.references = _
    rw [read_of_shows fits shown]
    split <;> rfl
  · cases carried

theorem ofDocument?_document_eq_some {r : Record} (fits : r.Fits) (carried : r.carried = true) :
    ofDocument? r.document = some r ↔ r.Lasting := by
  rw [ofDocument?_document fits carried]
  constructor
  · intro h
    split at h
    · next shallow => exact ⟨shallow, Option.some.inj h⟩
    · cases h
  · intro h
    rw [if_pos h.shallow, h.restored]

end Record

end Tributary
