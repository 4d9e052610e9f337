import Mathlib.Data.Rat.Floor
import Dataspoke.Fold
import Dataspoke.IngestionStore

/-!
# Step 5 of the sweep: run and observation events

Execution requests are mirrored one by one, each against the stored events. Observations are
collected for a source, checked against one range read of its events, and then booked.
-/

namespace Dataspoke
namespace Ingestion

open Python

/-- Round to an integer, a tie to the even one. -/
def roundHalfEven (q : ℚ) : ℤ :=
  if q-⌊q⌋ < 1/2 then ⌊q⌋
  else if 1/2 < q-⌊q⌋ then ⌊q⌋+1
  else if ⌊q⌋ % 2 = 0 then ⌊q⌋ else ⌊q⌋+1

/-- `datetime.max`, in microseconds after the epoch. -/
def maxInstant : ℤ := 253402300799999999

/-- `_OBSERVED_AT_MAX_SKEW` in microseconds. -/
def maxSkew : ℤ := 300000000

/-- `_observed_at`, the instant in microseconds. -/
def observed_at (now : ℕ) : Json → Option ℤ
  | .num (.fin ms) =>
    if ms ≤ 0 then none
    else if maxInstant < roundHalfEven (ms*1000) then none
    else if now+maxSkew < roundHalfEven (ms*1000) then none
    else some (roundHalfEven (ms*1000))
  | _ => none

structure ExecutionRequest where
  urn : Str
  status : Str
  startTimeMs : Json
  durationMs : Json
  requestedAt : Json

structure Operation where
  operationType : Option Str
  lastUpdatedTimestamp : Json

inductive LastIngested
  | read (items : List (Str × Json))
  | failed
  /-- An `AttributeError` or a `TypeError`, which leaves the sweep. -/
  | interfaceError

/-- What DataHub answers to the calls of step 5; `none` where a read fails. -/
structure Responses where
  /-- By the id of the source that is asked for. -/
  executions : ℕ → Option (List ExecutionRequest)
  /-- By the id of the source and the dataset. -/
  operations : ℕ → Str → Option (List Operation)
  last_ingested : LastIngested

section Step

def ingestionSource : Str := "ingestion_source".toList
def INGESTION_COMPLETE : Str := "INGESTION.COMPLETE".toList
def INGESTION_FAIL : Str := "INGESTION.FAIL".toList
def passiveOperation : Str := "passive_observation".toList
def lastIngested : Str := "last_ingested_observation".toList

def completeStatuses : List Str := ["SUCCESS".toList,"SUCCEEDED".toList]

def failStatuses : List Str :=
  ["FAILURE".toList,"TIMEOUT".toList,"ABORTED".toList,"ROLLBACK_FAILED".toList]

def ingestionOpTypes : List Str :=
  ["INSERT".toList,"UPDATE".toList,"CREATE".toList,"ALTER".toList]

/-- The type and status of the event, where the status of the request is an outcome. -/
def outcome (status : Str) : Option (Str × Str) :=
  if status ∈ completeStatuses then some (INGESTION_COMPLETE,"success".toList)
  else if status ∈ failStatuses then some (INGESTION_FAIL,"failure".toList)
  else none

def requestInstant (now : ℕ) (req : ExecutionRequest) : Option ℤ :=
  (observed_at now req.startTimeMs).or (observed_at now req.requestedAt)

def requestEvent (source_id : ℕ) (req : ExecutionRequest) (o : Str × Str) (at_ : ℤ) : Event where
  entity_type := ingestionSource
  entity_id := source_id
  event_type := o.1
  status := o.2
  detail := ⟨some req.urn,none,none,req.durationMs,some "datahub_sync".toList⟩
  occurred_at := at_

variable (now : ℕ)

def mirrorRequest (source_id : ℕ) (acc : List Event × ℕ) (req : ExecutionRequest) :
    List Event × ℕ :=
  match outcome req.status with
  | none => acc
  | some o =>
    if req.urn = [] then acc
    else if acc.1.any fun e => e.entity_type = ingestionSource && e.entity_id = source_id &&
        e.detail.execution_request_urn = some req.urn then acc
    else
      match requestInstant now req with
      | none => acc
      | some at_ => (acc.1 ++ [requestEvent source_id req o at_],acc.2+1)

def mirror_execution_requests (responses : Responses) (source_id : ℕ) (acc : List Event × ℕ) :
    List Event × ℕ :=
  match responses.executions source_id with
  | none => acc
  | some requests => requests.foldl (mirrorRequest now source_id) acc

structure Observation where
  dataset_urn : Str
  occurred_at : ℤ
  operation_type : Option Str

abbrev Observation.key (o : Observation) : Str × ℤ := (o.dataset_urn,o.occurred_at)

/-- `_existing_observation_keys`: a range read, and the intersection with the instants. -/
def existing_observation_keys (events : List Event) (source_id : ℕ) (instants : List ℤ)
    (detail_source : Str) : List (Str × ℤ) :=
  (events.filter fun e => e.entity_type = ingestionSource && e.entity_id = source_id &&
    e.event_type = INGESTION_COMPLETE && e.detail.source = some detail_source &&
    instants.min?.any (· ≤ e.occurred_at) && instants.max?.any (e.occurred_at ≤ ·)).filterMap
    fun e => e.detail.dataset_urn.bind fun urn =>
      if e.occurred_at ∈ instants then some (urn,e.occurred_at) else none

def observationEvent (source_id : ℕ) (detail_source : Str) (o : Observation) : Event where
  entity_type := ingestionSource
  entity_id := source_id
  event_type := INGESTION_COMPLETE
  status := "success".toList
  detail := ⟨none,some o.dataset_urn,o.operation_type,.null,some detail_source⟩
  occurred_at := o.occurred_at

/-- The dedup read and the inserts that the two observation passes share. -/
def bookObservations (source_id : ℕ) (detail_source : Str) (observations : List Observation)
    (acc : List Event × ℕ) : List Event × ℕ :=
  let existing := existing_observation_keys acc.1 source_id (observations.map (·.occurred_at))
    detail_source
  let new := observations.filter fun o => o.key ∉ existing
  (acc.1 ++ new.map (observationEvent source_id detail_source),acc.2+new.length)

/-- The datasets that are mapped to a source. -/
def mappedDatasets (mappings : Mappings) (source_id : ℕ) : List Str :=
  (mappings.rows.filter (·.source_id = source_id)).map (·.dataset_urn)

/-- The round of one operation; `seen` holds the keys of what was collected. -/
def collectOperation (dataset_urn : Str) (acc : List Observation) (op : Operation) :
    List Observation :=
  match op.operationType, observed_at now op.lastUpdatedTimestamp with
  | some op_type, some at_ =>
    if op_type ∈ ingestionOpTypes then
      if (dataset_urn,at_) ∈ acc.map (·.key) then acc else acc ++ [⟨dataset_urn,at_,some op_type⟩]
    else acc
  | _, _ => acc

def collectOperations (responses : Responses) (source_id : ℕ) (acc : List Observation)
    (dataset_urn : Str) : List Observation :=
  ((responses.operations source_id dataset_urn).getD []).foldl (collectOperation now dataset_urn)
    acc

def observe_passive_operations (responses : Responses) (mappings : Mappings) (source_id : ℕ)
    (acc : List Event × ℕ) : List Event × ℕ :=
  bookObservations source_id passiveOperation
    ((mappedDatasets mappings source_id).foldl (collectOperations now responses source_id) []) acc

/-- The observations of one source in the estate-wide reading. -/
def lastIngestedObservations (last_ingested : List (Str × Json)) (mappings : Mappings)
    (source_id : ℕ) : List Observation :=
  (mappedDatasets mappings source_id).filterMap fun urn =>
    (get? urn last_ingested).bind fun ms => (observed_at now ms).map (⟨urn,·,none⟩)

def observe_last_ingested_for_source (last_ingested : List (Str × Json)) (mappings : Mappings)
    (source_id : ℕ) (acc : List Event × ℕ) : List Event × ℕ :=
  bookObservations source_id lastIngested (lastIngestedObservations now last_ingested mappings source_id)
    acc

/-- Whether the requests of the source are mirrored. -/
def mirrored (src : SweepSource) : Bool :=
  src.mode = .DATAHUB_MANAGED && src.datahub_source_urn.any (· ≠ [])

/-- The first two passes: the events, and how many are new. -/
def sweepRuns (responses : Responses) (sources : List SweepSource) (mappings : Mappings)
    (events : List Event) : List Event × ℕ :=
  let acc := (sources.filter mirrored).foldl
    (fun acc src => mirror_execution_requests now responses src.id acc) (events,0)
  (sources.filter (·.mode = .PASSIVE)).foldl
    (fun acc src => observe_passive_operations now responses mappings src.id acc) acc

/-- The last pass; no result where it raises. -/
def observe_last_ingested (responses : Responses) (sources : List SweepSource)
    (mappings : Mappings) (events : List Event) : Option (List Event × ℕ) :=
  let bookable := sources.filter (·.parent_source_id.isNone)
  if bookable.isEmpty then some (events,0)
  else
    match responses.last_ingested with
    | .interfaceError => none
    | .failed => some (events,0)
    | .read items => some (bookable.foldl
        (fun acc src => observe_last_ingested_for_source now items mappings src.id acc) (events,0))

structure EventCounts where
  events_mirrored : ℕ
  last_ingested_observed : ℕ

/-- Step 5: the events, and the counts unless it raises. -/
def sweepEvents (responses : Responses) (sources : List SweepSource) (mappings : Mappings)
    (events : List Event) : List Event × Option EventCounts :=
  let runs := sweepRuns now responses sources mappings events
  match observe_last_ingested now responses sources mappings runs.1 with
  | none => (runs.1,none)
  | some last => (last.1,some ⟨runs.2,last.2⟩)

end Step

section Identity

/-- The source and the execution request of an event. -/
def runKey (e : Event) : Option (ℕ × Str) :=
  if e.entity_type = ingestionSource then
    e.detail.execution_request_urn.map (e.entity_id,·)
  else none

def observationSources : List Str := [passiveOperation,lastIngested]

/-- The source, the dataset, the instant and the producer of an observation event. -/
def observationKey (e : Event) : Option (ℕ × Str × ℤ × Str) :=
  if e.entity_type = ingestionSource ∧ e.event_type = INGESTION_COMPLETE then
    e.detail.dataset_urn.bind fun urn => e.detail.source.bind fun source =>
      if source ∈ observationSources then some (e.entity_id,urn,e.occurred_at,source) else none
  else none

/-- At most one event for an execution request, and one for an observed instant. -/
structure Unique (events : List Event) : Prop where
  runs : (events.filterMap runKey).Nodup
  observations : (events.filterMap observationKey).Nodup

variable {events events' : List Event} {id : ℕ}

theorem runKey_eq {e : Event} {k : ℕ × Str} : runKey e = some k ↔
    e.entity_type = ingestionSource ∧ e.entity_id = k.1 ∧
      e.detail.execution_request_urn = some k.2 := by
  rw [runKey]
  by_cases he : e.entity_type = ingestionSource
  · rw [if_pos he,Option.map_eq_some_iff]
    constructor
    · rintro ⟨urn,hurn,rfl⟩
      exact ⟨he,rfl,hurn⟩
    · rintro ⟨-,hid,hurn⟩
      exact ⟨k.2,hurn,Prod.ext hid rfl⟩
  · rw [if_neg he]
    exact iff_of_false nofun fun h => he h.1

theorem observationKey_eq {e : Event} {urn source : Str} {at_ : ℤ} :
    observationKey e = some (id,urn,at_,source) ↔
      e.entity_type = ingestionSource ∧ e.event_type = INGESTION_COMPLETE ∧ e.entity_id = id ∧
        e.detail.dataset_urn = some urn ∧ e.occurred_at = at_ ∧ e.detail.source = some source ∧
        source ∈ observationSources := by
  rw [observationKey]
  by_cases he : e.entity_type = ingestionSource ∧ e.event_type = INGESTION_COMPLETE
  · rw [if_pos he]
    simp only [Option.bind_eq_some_iff]
    constructor
    · rintro ⟨u,hu,src,hsrc,h⟩
      split at h
      · cases h
        exact ⟨he.1,he.2,rfl,hu,rfl,hsrc,‹_›⟩
      · cases h
    · rintro ⟨-,-,rfl,hu,rfl,hsrc,hin⟩
      exact ⟨urn,hu,source,hsrc,by rw [if_pos hin]⟩
  · rw [if_neg he]
    exact iff_of_false nofun fun h => he ⟨h.1,h.2.1⟩

/-- New events keep the identities unique where theirs are new. -/
theorem nodup_append_keys {κ : Type} {key : Event → Option κ} {new : List Event}
    (h : (events.filterMap key).Nodup) (hn : (new.filterMap key).Nodup)
    (hd : ∀ k ∈ new.filterMap key, k ∉ events.filterMap key) :
    ((events ++ new).filterMap key).Nodup := by
  rw [List.filterMap_append,List.nodup_append]
  exact ⟨h,hn,fun k hk k' hk' he => hd k' hk' (he ▸ hk)⟩

end Identity

section Mirror

variable {now : ℕ} {id : ℕ} {acc : List Event × ℕ} {responses : Responses}

theorem any_runKey {events : List Event} {urn : Str} :
    (events.any fun e => e.entity_type = ingestionSource && e.entity_id = id &&
      e.detail.execution_request_urn = some urn) = true ↔ (id,urn) ∈ events.filterMap runKey := by
  simp only [List.any_eq_true,List.mem_filterMap,runKey_eq,Bool.and_eq_true,decide_eq_true_iff,
    and_assoc]

/-- The request is mirrored, if it is not yet. -/
def RequestAccepted (now : ℕ) (req : ExecutionRequest) : Prop :=
  outcome req.status ≠ none ∧ req.urn ≠ [] ∧ requestInstant now req ≠ none

theorem mirrorRequest_cases (acc : List Event × ℕ) (req : ExecutionRequest) :
    mirrorRequest now id acc req = acc ∧
        (RequestAccepted now req → (id,req.urn) ∈ acc.1.filterMap runKey) ∨
      ∃ o at_, (RequestAccepted now req ∧ (id,req.urn) ∉ acc.1.filterMap runKey) ∧
        mirrorRequest now id acc req = (acc.1 ++ [requestEvent id req o at_],acc.2+1) := by
  rw [mirrorRequest]
  split
  · exact .inl ⟨rfl,fun h => absurd ‹_› h.1⟩
  · split
    · exact .inl ⟨rfl,fun h => absurd ‹_› h.2.1⟩
    · split
      · exact .inl ⟨rfl,fun _ => any_runKey.mp ‹_›⟩
      · rename_i o ho hurn hany
        split
        · exact .inl ⟨rfl,fun h => absurd ‹_› h.2.2⟩
        · rename_i at_ hat
          have ha : RequestAccepted now req := ⟨by simp [ho],hurn,by simp [hat]⟩
          exact .inr ⟨o,at_,⟨ha,fun h => hany (any_runKey.mpr h)⟩,rfl⟩

theorem requestEvent_keys (req : ExecutionRequest) (o : Str × Str) (at_ : ℤ) :
    runKey (requestEvent id req o at_) = some (id,req.urn) ∧
      observationKey (requestEvent id req o at_) = none := by
  refine ⟨runKey_eq.mpr ⟨rfl,rfl,rfl⟩,?_⟩
  rw [observationKey]
  split <;> rfl

theorem mirrorRequest_unique (hu : Unique acc.1) (req : ExecutionRequest) :
    Unique (mirrorRequest now id acc req).1 := by
  rcases mirrorRequest_cases acc req with ⟨h,-⟩ | ⟨o,at_,⟨-,hnew⟩,h⟩
  · rwa [h]
  · rw [h]
    obtain ⟨hrun,hobs⟩ := @requestEvent_keys id req o at_
    constructor
    · refine nodup_append_keys hu.runs ?_ ?_
      · simp [hrun]
      · simpa [hrun] using hnew
    · refine nodup_append_keys hu.observations ?_ ?_
      · simp [hobs]
      · simp [hobs]

theorem mirrorRequest_extends (acc : List Event × ℕ) (req : ExecutionRequest) :
    acc.1 <+: (mirrorRequest now id acc req).1 := by
  rcases @mirrorRequest_cases now id acc req with ⟨h,-⟩ | ⟨o,at_,-,h⟩
  · simp only [h,List.prefix_rfl]
  · rw [h]
    exact List.prefix_append _ _

theorem mirrorRequest_booked {req : ExecutionRequest} (ha : RequestAccepted now req) :
    (id,req.urn) ∈ (mirrorRequest now id acc req).1.filterMap runKey := by
  rcases mirrorRequest_cases acc req with ⟨h,hin⟩ | ⟨o,at_,-,h⟩
  · rw [h]
    exact hin ha
  · rw [h,List.filterMap_append]
    simp [(requestEvent_keys req o at_).1]

/-- A key that is booked stays booked as the table grows. -/
theorem mem_keys_of_extends {κ : Type} {key : Event → Option κ} {events events' : List Event}
    (h : events <+: events') {k : κ} (hk : k ∈ events.filterMap key) :
    k ∈ events'.filterMap key := by
  obtain ⟨new,rfl⟩ := h
  rw [List.filterMap_append]
  exact List.mem_append_left _ hk

end Mirror

section Observe

variable {now : ℕ} {id : ℕ} {source : Str} {acc : List Event × ℕ} {responses : Responses}
  {mappings : Mappings}

theorem mem_existing_observation_keys {events : List Event} {instants : List ℤ}
    (hs : source ∈ observationSources) {urn : Str} {at_ : ℤ} :
    (urn,at_) ∈ existing_observation_keys events id instants source ↔
      at_ ∈ instants ∧ (id,urn,at_,source) ∈ events.filterMap observationKey := by
  have hrange : at_ ∈ instants → instants.min?.any (· ≤ at_) = true ∧
      instants.max?.any (at_ ≤ ·) = true := by
    intro h
    obtain ⟨lo,hlo⟩ := Option.isSome_iff_exists.mp (List.isSome_min?_of_mem h)
    obtain ⟨hi,hhi⟩ := Option.isSome_iff_exists.mp (List.isSome_max?_of_mem h)
    rw [hlo,hhi]
    exact ⟨decide_eq_true ((List.min?_eq_some_iff.mp hlo).2 at_ h),
      decide_eq_true ((List.max?_eq_some_iff.mp hhi).2 at_ h)⟩
  simp only [existing_observation_keys,List.mem_filterMap,List.mem_filter,observationKey_eq,
    Option.bind_eq_some_iff,Bool.and_eq_true,decide_eq_true_iff]
  constructor
  · rintro ⟨e,⟨he,⟨⟨⟨⟨hty,hid⟩,hev⟩,hsrc⟩,-⟩,-⟩,u,hu,h⟩
    split at h
    · cases h
      exact ⟨‹_›,e,he,hty,hev,hid,hu,rfl,hsrc,hs⟩
    · cases h
  · rintro ⟨hin,e,he,hty,hev,hid,hu,rfl,hsrc,-⟩
    exact ⟨e,⟨he,⟨⟨⟨⟨hty,hid⟩,hev⟩,hsrc⟩,(hrange hin).1⟩,(hrange hin).2⟩,urn,hu,by rw [if_pos hin]⟩

theorem observationEvent_keys (hs : source ∈ observationSources) (o : Observation) :
    observationKey (observationEvent id source o) = some (id,o.dataset_urn,o.occurred_at,source) ∧
      runKey (observationEvent id source o) = none :=
  ⟨observationKey_eq.mpr ⟨rfl,rfl,rfl,rfl,rfl,rfl,hs⟩,by rw [runKey]; split <;> rfl⟩

/-- The observations of one pass have distinct keys. -/
def DistinctKeys (observations : List Observation) : Prop := (observations.map (·.key)).Nodup

theorem filterMap_observationKey (hs : source ∈ observationSources) (os : List Observation) :
    (os.map (observationEvent id source)).filterMap observationKey =
      os.map fun o => (id,o.dataset_urn,o.occurred_at,source) := by
  induction os with
  | nil => rfl
  | cons o os ih =>
    rw [List.map_cons,List.filterMap_cons,(observationEvent_keys hs o).1,ih]
    rfl

theorem bookObservations_unique (hs : source ∈ observationSources) {os : List Observation}
    (hd : DistinctKeys os) (hu : Unique acc.1) : Unique (bookObservations id source os acc).1 := by
  rw [bookObservations]
  constructor
  · refine nodup_append_keys hu.runs ?_ ?_
    all_goals
      rw [List.filterMap_map,List.filterMap_eq_nil_iff.mpr]
      · simp
      · exact fun o _ => (observationEvent_keys hs o).2
  · refine nodup_append_keys hu.observations ?_ ?_
    · rw [filterMap_observationKey hs]
      have hinj : Function.Injective fun k : Str × ℤ => (id,k.1,k.2,source) := by
        intro k k' h
        simp only [Prod.mk.injEq] at h
        exact Prod.ext h.2.1 h.2.2.1
      rw [show (fun o : Observation => (id,o.dataset_urn,o.occurred_at,source)) =
        (fun k : Str × ℤ => (id,k.1,k.2,source)) ∘ Observation.key from rfl,← List.map_map]
      exact (hd.sublist (List.filter_sublist.map _)).map hinj
    · rw [filterMap_observationKey hs]
      intro k hk hin
      obtain ⟨o,ho,rfl⟩ := List.mem_map.mp hk
      rw [List.mem_filter,decide_eq_true_iff,mem_existing_observation_keys hs] at ho
      exact ho.2 ⟨List.mem_map.mpr ⟨o,ho.1,rfl⟩,hin⟩

theorem bookObservations_extends (os : List Observation) :
    acc.1 <+: (bookObservations id source os acc).1 :=
  List.prefix_append _ _

theorem bookObservations_booked (hs : source ∈ observationSources) {os : List Observation}
    {o : Observation} (ho : o ∈ os) : (id,o.dataset_urn,o.occurred_at,source) ∈
      (bookObservations id source os acc).1.filterMap observationKey := by
  rw [bookObservations,List.filterMap_append,List.mem_append,filterMap_observationKey hs]
  by_cases hin : o.key ∈ existing_observation_keys acc.1 id (os.map (·.occurred_at)) source
  · exact .inl ((mem_existing_observation_keys hs).mp hin).2
  · refine .inr (List.mem_map.mpr ⟨o,?_,rfl⟩)
    exact List.mem_filter.mpr ⟨ho,decide_eq_true hin⟩

/-- The operation is booked. -/
def OperationAccepted (now : ℕ) (op : Operation) (at_ : ℤ) : Prop :=
  (∃ op_type, op.operationType = some op_type ∧ op_type ∈ ingestionOpTypes) ∧
    observed_at now op.lastUpdatedTimestamp = some at_

theorem collectOperation_cases (urn : Str) (os : List Observation) (op : Operation) :
    collectOperation now urn os op = os ∧
        (∀ at_, OperationAccepted now op at_ → (urn,at_) ∈ os.map (·.key)) ∨
      ∃ o : Observation, o.key ∉ os.map (·.key) ∧
        (∀ at_, OperationAccepted now op at_ → o.key = (urn,at_)) ∧
        collectOperation now urn os op = os ++ [o] := by
  rw [collectOperation]
  split
  · rename_i op_type at_ hty hat
    have hacc : ∀ at', OperationAccepted now op at' → op_type ∈ ingestionOpTypes ∧ at' = at_ := by
      rintro at' ⟨⟨ty,hty',hin⟩,hat'⟩
      rw [hty] at hty'
      rw [hat] at hat'
      cases hty'
      cases hat'
      exact ⟨hin,rfl⟩
    split
    · split
      · refine .inl ⟨rfl,fun at' h => ?_⟩
        rw [(hacc at' h).2]
        assumption
      · refine .inr ⟨_,‹_›,fun at' h => ?_,rfl⟩
        rw [(hacc at' h).2]
    · exact .inl ⟨rfl,fun at' h => absurd (hacc at' h).1 ‹_›⟩
  · rename_i hno
    refine .inl ⟨rfl,fun at_ h => ?_⟩
    obtain ⟨⟨ty,hty,-⟩,hat⟩ := h
    exact absurd hat (hno ty at_ hty)

theorem collectOperation_distinct (urn : Str) {os : List Observation} (hd : DistinctKeys os)
    (op : Operation) : DistinctKeys (collectOperation now urn os op) := by
  rcases collectOperation_cases urn os op with ⟨h,-⟩ | ⟨o,hnew,-,h⟩
  · rwa [h]
  · rw [h,DistinctKeys,List.map_append,List.nodup_append]
    refine ⟨hd,List.nodup_singleton _,?_⟩
    rintro k hk k' hk' rfl
    rw [List.map_singleton,List.mem_singleton] at hk'
    exact hnew (hk' ▸ hk)

theorem collectOperation_extends (urn : Str) (os : List Observation) (op : Operation) :
    os <+: collectOperation now urn os op := by
  rcases @collectOperation_cases now urn os op with ⟨h,-⟩ | ⟨o,-,-,h⟩
  · simp only [h,List.prefix_rfl]
  · rw [h]
    exact List.prefix_append _ _

theorem collectOperation_mem {urn : Str} {os : List Observation} {op : Operation} {at_ : ℤ}
    (ha : OperationAccepted now op at_) :
    (urn,at_) ∈ (collectOperation now urn os op).map (·.key) := by
  rcases collectOperation_cases urn os op with ⟨h,hin⟩ | ⟨o,-,hkey,h⟩
  · rw [h]
    exact hin at_ ha
  · rw [h,List.map_append,← hkey at_ ha]
    simp

/-- All operations of one source. -/
def collected (now : ℕ) (responses : Responses) (mappings : Mappings) (id : ℕ) :
    List Observation :=
  (mappedDatasets mappings id).foldl (collectOperations now responses id) []

theorem collectOperations_distinct {os : List Observation} (hd : DistinctKeys os) (urn : Str) :
    DistinctKeys (collectOperations now responses id os urn) :=
  Fold.foldl_invariant (I:=DistinctKeys) (fun _ op _ h => collectOperation_distinct urn h op) hd

theorem collected_distinct : DistinctKeys (collected now responses mappings id) :=
  Fold.foldl_invariant (I:=DistinctKeys) (fun _ urn _ h => collectOperations_distinct h urn)
    List.nodup_nil

theorem collectOperation_keeps {k : Str × ℤ} (urn : Str) (os : List Observation) (op : Operation)
    (hk : k ∈ os.map (·.key)) : k ∈ (collectOperation now urn os op).map (·.key) :=
  ((collectOperation_extends urn os op).map _).subset hk

theorem mem_collected {row : IngestionSourceDataset} (hrow : row ∈ mappings.rows)
    (hid : row.source_id = id) {ops : List Operation}
    (hops : responses.operations id row.dataset_urn = some ops) {op : Operation} (hop : op ∈ ops)
    {at_ : ℤ} (ha : OperationAccepted now op at_) :
    (row.dataset_urn,at_) ∈ (collected now responses mappings id).map (·.key) := by
  have hurn : row.dataset_urn ∈ mappedDatasets mappings id :=
    List.mem_map.mpr ⟨row,List.mem_filter.mpr ⟨hrow,decide_eq_true hid⟩,rfl⟩
  let J (os : List Observation) : Prop := (row.dataset_urn,at_) ∈ os.map (·.key)
  refine Fold.foldl_establishes (J:=J) hurn (fun os urn h => ?_) (fun os => ?_) _
  · exact Fold.foldl_invariant (I:=J) (fun os op _ h => collectOperation_keeps urn os op h) h
  · rw [collectOperations,hops]
    exact Fold.foldl_establishes (J:=J) hop (fun os op h => collectOperation_keeps _ os op h)
      (fun os => collectOperation_mem ha) os

theorem mappedDatasets_nodup (mappings : Mappings) (id : ℕ) :
    (mappedDatasets mappings id).Nodup := by
  refine List.Nodup.map_on ?_ ((List.Nodup.of_map _ mappings.nodup).filter _)
  intro row hrow row' hrow' he
  rw [List.mem_filter,decide_eq_true_iff] at hrow hrow'
  exact Table.eq_of_key_eq hrow.1 hrow'.1 (Prod.ext (hrow.2.trans hrow'.2.symm) he)

theorem lastIngestedObservations_distinct (items : List (Str × Json)) :
    DistinctKeys (lastIngestedObservations now items mappings id) := by
  rw [DistinctKeys,lastIngestedObservations,List.map_filterMap]
  refine (mappedDatasets_nodup mappings id).filterMap fun urn urn' k h h' => ?_
  have hfst : ∀ {u}, k ∈ Option.map Observation.key ((get? u items).bind fun ms =>
      (observed_at now ms).map (⟨u,·,none⟩)) → k.1 = u := by
    intro u h
    obtain ⟨o,ho,rfl⟩ := Option.map_eq_some_iff.mp h
    obtain ⟨ms,-,hms⟩ := Option.bind_eq_some_iff.mp ho
    obtain ⟨at_,-,rfl⟩ := Option.map_eq_some_iff.mp hms
    rfl
  exact (hfst h).symm.trans (hfst h')

theorem mem_lastIngestedObservations {items : List (Str × Json)} {row : IngestionSourceDataset}
    (hrow : row ∈ mappings.rows) (hid : row.source_id = id) {ms : Json}
    (hms : get? row.dataset_urn items = some ms) {at_ : ℤ} (ha : observed_at now ms = some at_) :
    ⟨row.dataset_urn,at_,none⟩ ∈ lastIngestedObservations now items mappings id := by
  refine List.mem_filterMap.mpr ⟨row.dataset_urn,?_,?_⟩
  · exact List.mem_map.mpr ⟨row,List.mem_filter.mpr ⟨hrow,decide_eq_true hid⟩,rfl⟩
  · rw [hms,Option.bind_some,ha]
    rfl

end Observe

section Law

variable {now : ℕ} {responses : Responses} {sources : List SweepSource} {mappings : Mappings}
  {events : List Event}

/-- Every instant that a sweep accepts has an event. -/
structure Booked (now : ℕ) (responses : Responses) (sources : List SweepSource)
    (mappings : Mappings) (after : List Event) : Prop where
  runs : ∀ src ∈ sources, mirrored src = true → ∀ requests,
    responses.executions src.id = some requests → ∀ req ∈ requests, RequestAccepted now req →
      (src.id,req.urn) ∈ after.filterMap runKey
  operations : ∀ src ∈ sources, src.mode = .PASSIVE → ∀ row ∈ mappings.rows,
    row.source_id = src.id → ∀ ops, responses.operations src.id row.dataset_urn = some ops →
      ∀ op ∈ ops, ∀ at_, OperationAccepted now op at_ →
        (src.id,row.dataset_urn,at_,passiveOperation) ∈ after.filterMap observationKey
  last_ingested : ∀ items, responses.last_ingested = .read items → ∀ src ∈ sources,
    src.parent_source_id = none → ∀ row ∈ mappings.rows, row.source_id = src.id → ∀ ms,
      get? row.dataset_urn items = some ms → ∀ at_, observed_at now ms = some at_ →
        (src.id,row.dataset_urn,at_,lastIngested) ∈ after.filterMap observationKey

theorem mirror_extends (id : ℕ) (acc : List Event × ℕ) :
    acc.1 <+: (mirror_execution_requests now responses id acc).1 := by
  rw [mirror_execution_requests]
  split
  · exact List.prefix_rfl
  · exact Fold.foldl_invariant (I:=fun (r : List Event × ℕ) => acc.1 <+: r.1)
      (fun r req _ h => h.trans (mirrorRequest_extends r req)) List.prefix_rfl

theorem mirror_unique (id : ℕ) (acc : List Event × ℕ) (hu : Unique acc.1) :
    Unique (mirror_execution_requests now responses id acc).1 := by
  rw [mirror_execution_requests]
  split
  · exact hu
  · exact Fold.foldl_invariant (I:=fun (r : List Event × ℕ) => Unique r.1)
      (fun r req _ h => mirrorRequest_unique h req) hu

theorem mirror_booked {id : ℕ} {requests : List ExecutionRequest}
    (hr : responses.executions id = some requests) {req : ExecutionRequest}
    (hreq : req ∈ requests) (ha : RequestAccepted now req) (acc : List Event × ℕ) :
    (id,req.urn) ∈ (mirror_execution_requests now responses id acc).1.filterMap runKey := by
  rw [mirror_execution_requests,hr]
  exact Fold.foldl_establishes (J:=fun (r : List Event × ℕ) => (id,req.urn) ∈ r.1.filterMap runKey) hreq
    (fun r req' h => mem_keys_of_extends (mirrorRequest_extends r req') h)
    (fun r => mirrorRequest_booked ha) acc

theorem passiveOperation_mem : passiveOperation ∈ observationSources := List.mem_cons_self

theorem lastIngested_mem : lastIngested ∈ observationSources :=
  List.mem_cons_of_mem _ List.mem_cons_self

/-- A growing table, along a loop of passes over sources. -/
theorem foldl_grows {f : List Event × ℕ → SweepSource → List Event × ℕ}
    (hf : ∀ acc src, acc.1 <+: (f acc src).1) (srcs : List SweepSource)
    (acc : List Event × ℕ) : acc.1 <+: (srcs.foldl f acc).1 :=
  Fold.foldl_invariant (I:=fun (r : List Event × ℕ) => acc.1 <+: r.1) (fun r src _ h => h.trans (hf r src))
    List.prefix_rfl

theorem sweepRuns_unique (hu : Unique events) :
    Unique (sweepRuns now responses sources mappings events).1 := by
  refine Fold.foldl_invariant (I:=fun (r : List Event × ℕ) => Unique r.1) (fun r src _ h => ?_) ?_
  · exact bookObservations_unique passiveOperation_mem collected_distinct h
  · exact Fold.foldl_invariant (I:=fun (r : List Event × ℕ) => Unique r.1)
      (fun r src _ h => mirror_unique src.id r h) hu

theorem observe_last_ingested_unique (hu : Unique events) {r : List Event × ℕ}
    (h : observe_last_ingested now responses sources mappings events = some r) : Unique r.1 := by
  rw [observe_last_ingested] at h
  split at h
  · cases h
    exact hu
  · split at h
    · cases h
    · cases h
      exact hu
    · cases h
      exact Fold.foldl_invariant (I:=fun (r : List Event × ℕ) => Unique r.1) (fun r src _ h =>
        bookObservations_unique lastIngested_mem (lastIngestedObservations_distinct _) h) hu

/-- Step 5 keeps the identities of the events. -/
theorem sweepEvents_unique (hu : Unique events) :
    Unique (sweepEvents now responses sources mappings events).1 := by
  rw [sweepEvents]
  split
  · exact sweepRuns_unique hu
  · exact observe_last_ingested_unique (sweepRuns_unique hu) ‹_›

theorem observe_last_ingested_extends {r : List Event × ℕ}
    (h : observe_last_ingested now responses sources mappings events = some r) :
    events <+: r.1 := by
  rw [observe_last_ingested] at h
  split at h
  · cases h
    exact List.prefix_rfl
  · split at h
    · cases h
    · cases h
      exact List.prefix_rfl
    · cases h
      exact foldl_grows (fun acc src => bookObservations_extends _) _ (events,0)

theorem sweepRuns_prefix_sweepEvents :
    (sweepRuns now responses sources mappings events).1 <+:
      (sweepEvents now responses sources mappings events).1 := by
  rw [sweepEvents]
  split
  · exact List.prefix_rfl
  · exact observe_last_ingested_extends ‹_›

/-- Step 5 books what it accepts. -/
theorem sweepEvents_booked :
    Booked now responses sources mappings (sweepEvents now responses sources mappings events).1 := by
  constructor
  case runs =>
    intro src hsrc hm requests hr req hreq ha
    refine mem_keys_of_extends sweepRuns_prefix_sweepEvents ?_
    rw [sweepRuns]
    refine mem_keys_of_extends (foldl_grows (fun acc src => bookObservations_extends _) _ _) ?_
    exact Fold.foldl_establishes (J:=fun (r : List Event × ℕ) => (src.id,req.urn) ∈ r.1.filterMap runKey)
      (List.mem_filter.mpr ⟨hsrc,hm⟩) (fun r src' h => mem_keys_of_extends (mirror_extends _ r) h)
      (fun r => mirror_booked hr hreq ha r) _
  case operations =>
    intro src hsrc hm row hrow hid ops hops op hop at_ ha
    refine mem_keys_of_extends sweepRuns_prefix_sweepEvents ?_
    obtain ⟨o,ho,hkey⟩ := List.mem_map.mp (mem_collected hrow hid hops hop ha)
    obtain ⟨hurn,rfl⟩ := Prod.mk.inj hkey
    rw [sweepRuns]
    refine Fold.foldl_establishes
      (J:=fun (r : List Event × ℕ) => (src.id,row.dataset_urn,o.occurred_at,passiveOperation) ∈
        r.1.filterMap observationKey) (List.mem_filter.mpr ⟨hsrc,decide_eq_true hm⟩)
      (fun r src' h => mem_keys_of_extends (bookObservations_extends _) h) (fun r => ?_) _
    rw [← hurn]
    exact bookObservations_booked passiveOperation_mem ho
  case last_ingested =>
    intro items hitems src hsrc hp row hrow hid ms hms at_ ha
    have hin : src ∈ sources.filter (·.parent_source_id.isNone) :=
      List.mem_filter.mpr ⟨hsrc,by rw [hp]; rfl⟩
    have hne : (sources.filter (·.parent_source_id.isNone)).isEmpty = false := by
      rw [List.isEmpty_eq_false_iff]
      exact List.ne_nil_of_mem hin
    rw [sweepEvents,observe_last_ingested,hne,hitems]
    refine Fold.foldl_establishes
      (J:=fun (r : List Event × ℕ) => (src.id,row.dataset_urn,at_,lastIngested) ∈
        r.1.filterMap observationKey) hin
      (fun r src' h => mem_keys_of_extends (bookObservations_extends _) h) (fun r => ?_) _
    exact bookObservations_booked lastIngested_mem
      (mem_lastIngestedObservations hrow hid hms ha)

end Law

end Ingestion
end Dataspoke
