import Dataspoke.EventFeed

/-!
# The event timeline of a dataset

The events of a dataset and those of the source that owns it, merged and sorted in memory. The
source's events are read through its feed, of which one page of fixed size is taken.
-/

namespace Dataspoke
namespace Timeline

open Python Ingestion.Feed
open Ingestion (IngestionSource ingestionSource)
open Ingestion.Lookup (reverse_lookup)
open Sql (page readPages)

section Service

def DATASET : Str := "dataset".toList

/-- The high limit of the one page that is read of a source's feed. -/
def SOURCE_LIMIT : ℕ := 10000

/-- What a caller restricts the timeline to; without prefixes all types pass. -/
structure Filters where
  from_dt : Option ℤ
  to_dt : Option ℤ
  event_type_prefixes : Option (List Str)

variable {db : Tables} (timestamp : ℤ → ℚ) (r : Reads db)

def datasetEvents (dataset_urn : Str) : List Event :=
  r.events.order
    (db.events.rows.filter fun e => e.entity_type = DATASET && e.entity_id = dataset_urn)

/-- A source that is gone by now is treated as no covering source. -/
def sourceRecords (dataset_urn : Str) : List EventRecord :=
  match reverse_lookup timestamp r.lookups dataset_urn with
  | none => []
  | some source =>
    match get_events_for_source r (Uuid.str source.id) 0 SOURCE_LIMIT none none none
        (some dataset_urn) with
    | .ok (source_events,_) => source_events
    | .error (.entity_not_found _ _) => []

def filtered (filters : Filters) (records : List EventRecord) : List EventRecord :=
  let records := match filters.from_dt with
    | none => records
    | some from_dt => records.filter fun record => from_dt ≤ record.occurred_at
  let records := match filters.to_dt with
    | none => records
    | some to_dt => records.filter fun record => record.occurred_at ≤ to_dt
  match filters.event_type_prefixes with
  | none | some [] => records
  | some prefixes => records.filter fun record => prefixes.any (·.isPrefixOf record.event_type)

/-- `order_by` is accepted and not read. -/
def get_events (dataset_urn : Str) (offset limit : ℕ) (filters : Filters) :
    List EventRecord × ℕ :=
  let records := (datasetEvents r dataset_urn).map (Event.record false) ++
    sourceRecords timestamp r dataset_urn
  let records := (filtered filters records).mergeSort fun a b => b.occurred_at ≤ a.occurred_at
  (page offset limit records,records.length)

end Service

section Timelines

variable {db : Tables} (timestamp : ℤ → ℚ) (r : Reads db) (dataset_urn : Str) (filters : Filters)

/-- The event lies in the range and its type starts with one of the prefixes. -/
structure Filters.Admits (filters : Filters) (e : Event) : Prop where
  after : ∀ from_dt, filters.from_dt = some from_dt → from_dt ≤ e.occurred_at
  before : ∀ to_dt, filters.to_dt = some to_dt → e.occurred_at ≤ to_dt
  major : ∀ prefixes, filters.event_type_prefixes = some prefixes → prefixes ≠ [] →
    ∃ major ∈ prefixes, major <+: e.event_type

/-- The dataset's own events and those of the feed of its owning source. -/
inductive Concerns (e : Event) : Prop
  | own (kind : e.entity_type = DATASET) (id : e.entity_id = dataset_urn)
  | source (source : IngestionSource)
      (owner : reverse_lookup timestamp r.lookups dataset_urn = some source)
      (fed : InFeed r source (some dataset_urn) e)

/-- All the events of the timeline, each once, newest first. -/
structure IsTimeline (events : List Event) : Prop where
  nodup : events.Nodup
  all : ∀ e, e ∈ events ↔ e ∈ db.events.rows ∧ Concerns timestamp r dataset_urn e ∧ filters.Admits e
  sorted : events.Pairwise fun a b => newest a b

def entry (e : Event) : EventRecord :=
  match reverse_lookup timestamp r.lookups dataset_urn with
  | none => e.record false
  | some source =>
    e.record (decide (e.entity_type = ingestionSource ∧ e.entity_id ≠ Uuid.str source.id))

/-- Each page is that of the timeline, with the number of its events, and consecutive pages
concatenate to the whole. -/
def Unified : Prop :=
  ∃ events, IsTimeline timestamp r dataset_urn filters events ∧
    (∀ offset limit, get_events timestamp r dataset_urn offset limit filters =
      ((page offset limit events).map (entry timestamp r dataset_urn),events.length)) ∧
    ∀ limits : List ℕ, events.length ≤ limits.sum →
      readPages (fun offset limit => (get_events timestamp r dataset_urn offset limit filters).1)
        0 limits = events.map (entry timestamp r dataset_urn)

/-- The filters admit none of the events that the page of the source's feed leaves out. -/
def CutHarmless : Prop :=
  ∀ source, reverse_lookup timestamp r.lookups dataset_urn = some source →
    ∀ e ∈ (r.newest_first.order (feed r source (some dataset_urn))).drop SOURCE_LIMIT,
      ¬ filters.Admits e

end Timelines

section Rows

variable {db : Tables} (timestamp : ℤ → ℚ) (r : Reads db) (dataset_urn : Str) (filters : Filters)

def Filters.admits (filters : Filters) (e : Event) : Bool :=
  filters.from_dt.all (fun from_dt => from_dt ≤ e.occurred_at) &&
    filters.to_dt.all (fun to_dt => e.occurred_at ≤ to_dt) &&
    filters.event_type_prefixes.all fun prefixes =>
      prefixes = [] || prefixes.any (·.isPrefixOf e.event_type)

def taken : List Event :=
  match reverse_lookup timestamp r.lookups dataset_urn with
  | none => []
  | some source => (r.newest_first.order (feed r source (some dataset_urn))).take SOURCE_LIMIT

def merged : List Event :=
  ((datasetEvents r dataset_urn ++ taken timestamp r dataset_urn).filter filters.admits).mergeSort
    newest

variable {timestamp r dataset_urn filters}

theorem admits_iff {e : Event} : filters.admits e = true ↔ filters.Admits e := by
  simp only [Filters.admits,Bool.and_eq_true,Option.all_eq_true,decide_eq_true_eq,
    Bool.or_eq_true,List.any_eq_true,List.isPrefixOf_iff_prefix]
  constructor
  · rintro ⟨⟨hafter,hbefore⟩,hmajor⟩
    exact ⟨hafter,hbefore,fun prefixes h hne => (hmajor prefixes h).resolve_left hne⟩
  · rintro ⟨hafter,hbefore,hmajor⟩
    refine ⟨⟨hafter,hbefore⟩,fun prefixes h => ?_⟩
    by_cases hne : prefixes = []
    · exact .inl hne
    · exact .inr (hmajor prefixes h hne)

theorem filtered_eq (records : List EventRecord) :
    filtered filters records = records.filter fun record =>
      filters.from_dt.all (fun from_dt => from_dt ≤ record.occurred_at) &&
        filters.to_dt.all (fun to_dt => record.occurred_at ≤ to_dt) &&
        filters.event_type_prefixes.all fun prefixes =>
          prefixes = [] || prefixes.any (·.isPrefixOf record.event_type) := by
  obtain ⟨from_dt,to_dt,prefixes⟩ := filters
  cases from_dt with
  | none =>
    cases to_dt with
    | none => rcases prefixes with _ | _ | ⟨major,prefixes⟩ <;> simp [filtered]
    | some to_dt =>
      rcases prefixes with _ | _ | ⟨major,prefixes⟩ <;>
        simp [filtered,List.filter_filter,Bool.and_comm]
  | some from_dt =>
    cases to_dt with
    | none =>
      rcases prefixes with _ | _ | ⟨major,prefixes⟩ <;>
        simp [filtered,List.filter_filter,Bool.and_comm]
    | some to_dt =>
      rcases prefixes with _ | _ | ⟨major,prefixes⟩ <;>
        simp [filtered,List.filter_filter,Bool.and_comm]

/-- The filters read of a record only what it has of the event. -/
theorem filtered_map {f : Event → EventRecord} (ht : ∀ e, (f e).occurred_at = e.occurred_at)
    (hm : ∀ e, (f e).event_type = e.event_type) (events : List Event) :
    filtered filters (events.map f) = (events.filter filters.admits).map f := by
  rw [filtered_eq,List.filter_map]
  refine congrArg (List.map f) (congrArg (fun p => events.filter p) (funext fun e => ?_))
  simp only [Function.comp_apply,ht,hm,Filters.admits]

theorem owner_mem {source : IngestionSource}
    (h : reverse_lookup timestamp r.lookups dataset_urn = some source) :
    source ∈ db.sources.rows := by
  obtain ⟨pair,hpair,rfl⟩ := Ingestion.Lookup.reverse_lookup_least timestamp r.lookups h
  have hjoin := (Ingestion.Lookup.mem_covering.mp hpair.1).1
  exact Ingestion.Lookup.resolved_mem
    (Table.get?_eq_some.mp (Ingestion.Lookup.mem_join.mp hjoin).2).1

theorem entry_time (e : Event) :
    (entry timestamp r dataset_urn e).occurred_at = e.occurred_at := by
  unfold entry
  split <;> rfl

theorem entry_type (e : Event) :
    (entry timestamp r dataset_urn e).event_type = e.event_type := by
  unfold entry
  split <;> rfl

theorem mem_datasetEvents {e : Event} : e ∈ datasetEvents r dataset_urn ↔
    e ∈ db.events.rows ∧ e.entity_type = DATASET ∧ e.entity_id = dataset_urn := by
  simp only [datasetEvents,Sql.Order.mem,List.mem_filter,Bool.and_eq_true,decide_eq_true_eq]

theorem sourceRecords_eq : sourceRecords timestamp r dataset_urn =
    (taken timestamp r dataset_urn).map (entry timestamp r dataset_urn) := by
  unfold sourceRecords taken
  cases ho : reverse_lookup timestamp r.lookups dataset_urn with
  | none => rfl
  | some source =>
    dsimp only
    rw [get_events_for_source_eq (owner_mem ho)]
    dsimp only
    rw [page,List.drop_zero]
    refine List.map_congr_left fun e he => ?_
    have hfed := (mem_feed (owner_mem ho)).mp
      ((r.newest_first.mem).mp (List.mem_of_mem_take he))
    simp [entry,ho,shown,hfed.2.kind]

theorem datasetRecords_eq : (datasetEvents r dataset_urn).map (Event.record false) =
    (datasetEvents r dataset_urn).map (entry timestamp r dataset_urn) := by
  refine List.map_congr_left fun e he => ?_
  have hkind : e.entity_type ≠ ingestionSource := by
    rw [(mem_datasetEvents.mp he).2.1]
    decide
  unfold entry
  split <;> simp [hkind]

theorem get_events_eq (offset limit : ℕ) :
    get_events timestamp r dataset_urn offset limit filters =
      ((page offset limit (merged timestamp r dataset_urn filters)).map
        (entry timestamp r dataset_urn),(merged timestamp r dataset_urn filters).length) := by
  have hmap : (filtered filters ((datasetEvents r dataset_urn).map (Event.record false) ++
      sourceRecords timestamp r dataset_urn)).mergeSort
        (fun a b => b.occurred_at ≤ a.occurred_at) =
      (merged timestamp r dataset_urn filters).map (entry timestamp r dataset_urn) := by
    rw [@datasetRecords_eq _ timestamp,sourceRecords_eq,← List.map_append,
      filtered_map entry_time entry_type,merged]
    refine (List.map_mergeSort fun a _ b _ => ?_).symm
    rw [newest,entry_time,entry_time]
  rw [get_events,hmap]
  simp only [page,List.length_map,List.map_take,List.map_drop]

end Rows

section Law

variable {db : Tables} {timestamp : ℤ → ℚ} {r : Reads db} {dataset_urn : Str} {filters : Filters}

theorem mem_merged {e : Event} : e ∈ merged timestamp r dataset_urn filters ↔
    (e ∈ datasetEvents r dataset_urn ∨ e ∈ taken timestamp r dataset_urn) ∧ filters.Admits e := by
  rw [merged,List.mem_mergeSort,List.mem_filter,List.mem_append,admits_iff]

theorem sorted_merged :
    (merged timestamp r dataset_urn filters).Pairwise fun a b => newest a b := sorted_mergeSort _

theorem mem_taken {e : Event} : e ∈ taken timestamp r dataset_urn ↔
    ∃ source, reverse_lookup timestamp r.lookups dataset_urn = some source ∧
      e ∈ (r.newest_first.order (feed r source (some dataset_urn))).take SOURCE_LIMIT := by
  unfold taken
  cases reverse_lookup timestamp r.lookups dataset_urn with
  | none => simp
  | some source => simp

theorem fed_of_taken {e : Event} (h : e ∈ taken timestamp r dataset_urn) :
    ∃ source, reverse_lookup timestamp r.lookups dataset_urn = some source ∧
      e ∈ db.events.rows ∧ InFeed r source (some dataset_urn) e := by
  obtain ⟨source,ho,hmem⟩ := mem_taken.mp h
  exact ⟨source,ho,(mem_feed (owner_mem ho)).mp
    (r.newest_first.mem.mp (List.mem_of_mem_take hmem))⟩

/-- No ingestion event of a source is an event of a dataset. -/
theorem not_own {source : IngestionSource} {urn : Option Str} {e : Event}
    (h : InFeed r source urn e) : e ∉ datasetEvents r dataset_urn := by
  intro hown
  have hkind := (mem_datasetEvents.mp hown).2.1
  rw [h.kind] at hkind
  exact absurd hkind (by decide)

theorem concerns_of_mem {e : Event}
    (h : e ∈ datasetEvents r dataset_urn ∨ e ∈ taken timestamp r dataset_urn) :
    e ∈ db.events.rows ∧ Concerns timestamp r dataset_urn e := by
  rcases h with h | h
  · obtain ⟨he,hkind,hid⟩ := mem_datasetEvents.mp h
    exact ⟨he,.own hkind hid⟩
  · obtain ⟨source,ho,he,hfed⟩ := fed_of_taken h
    exact ⟨he,.source source ho hfed⟩

theorem nodup_events : db.events.rows.Nodup := List.Nodup.of_map _ db.events.nodup

theorem nodup_feed (source : IngestionSource) (urn : Option Str) :
    (r.newest_first.order (feed r source urn)).Nodup :=
  (r.newest_first.perm _).nodup_iff.mpr (nodup_events.filter _)

theorem nodup_merged : (merged timestamp r dataset_urn filters).Nodup := by
  have hown : (datasetEvents r dataset_urn).Nodup :=
    (r.events.perm _).nodup_iff.mpr (nodup_events.filter _)
  have htaken : (taken timestamp r dataset_urn).Nodup := by
    unfold taken
    split
    · exact List.nodup_nil
    · exact (nodup_feed _ _).sublist (List.take_sublist _ _)
  have hdisjoint : (datasetEvents r dataset_urn).Disjoint (taken timestamp r dataset_urn) := by
    intro e hd ht
    obtain ⟨source,-,-,hfed⟩ := fed_of_taken ht
    exact not_own hfed hd
  exact (List.mergeSort_perm _ _).nodup_iff.mpr ((hown.append htaken hdisjoint).filter _)

/-- The merged events are the timeline if nothing that the filters admit is cut off. -/
theorem isTimeline_merged (h : CutHarmless timestamp r dataset_urn filters) :
    IsTimeline timestamp r dataset_urn filters (merged timestamp r dataset_urn filters) := by
  refine ⟨nodup_merged,fun e => ?_,sorted_merged⟩
  rw [mem_merged]
  constructor
  · rintro ⟨hread,hadmits⟩
    obtain ⟨he,hconcerns⟩ := concerns_of_mem hread
    exact ⟨he,hconcerns,hadmits⟩
  · rintro ⟨he,hconcerns,hadmits⟩
    refine ⟨?_,hadmits⟩
    cases hconcerns with
    | own hkind hid => exact .inl (mem_datasetEvents.mpr ⟨he,hkind,hid⟩)
    | source source ho hfed =>
      have hmem := r.newest_first.mem.mpr ((mem_feed (owner_mem ho)).mpr ⟨he,hfed⟩)
      rw [← List.take_append_drop SOURCE_LIMIT (r.newest_first.order _),List.mem_append] at hmem
      rcases hmem with hmem | hmem
      · exact .inr (mem_taken.mpr ⟨source,ho,hmem⟩)
      · exact absurd hadmits (h source ho e hmem)

theorem unified_of_cutHarmless (h : CutHarmless timestamp r dataset_urn filters) :
    Unified timestamp r dataset_urn filters := by
  refine ⟨merged timestamp r dataset_urn filters,isTimeline_merged h,get_events_eq,?_⟩
  intro limits hlimits
  have hread : (fun offset limit =>
      (get_events timestamp r dataset_urn offset limit filters).1) = fun offset limit =>
        page offset limit ((merged timestamp r dataset_urn filters).map
          (entry timestamp r dataset_urn)) := by
    funext offset limit
    rw [get_events_eq]
    simp only [page,List.map_take,List.map_drop]
  rw [hread,Sql.readPages_page,page,List.drop_zero]
  exact List.take_of_length_le (by rwa [List.length_map])

/-- An event that is cut off though the filters admit it is missing from the count. -/
theorem cutHarmless_of_unified (h : Unified timestamp r dataset_urn filters) :
    CutHarmless timestamp r dataset_urn filters := by
  obtain ⟨events,htimeline,hpages,-⟩ := h
  have hlength : (merged timestamp r dataset_urn filters).length = events.length := by
    have hread := hpages 0 0
    rw [get_events_eq] at hread
    exact (Prod.mk.inj hread).2
  have hsub : merged timestamp r dataset_urn filters ⊆ events := by
    intro e he
    obtain ⟨hread,hadmits⟩ := mem_merged.mp he
    obtain ⟨hrow,hconcerns⟩ := concerns_of_mem hread
    exact (htimeline.all e).mpr ⟨hrow,hconcerns,hadmits⟩
  have hperm : (merged timestamp r dataset_urn filters).Perm events :=
    (List.subperm_of_subset nodup_merged hsub).perm_of_length_le hlength.ge
  intro source ho e hcut hadmits
  have hfeed := List.mem_of_mem_drop hcut
  obtain ⟨hrow,hfed⟩ := (mem_feed (owner_mem ho)).mp (r.newest_first.mem.mp hfeed)
  have hmem := hperm.mem_iff.mpr ((htimeline.all e).mpr ⟨hrow,.source source ho hfed,hadmits⟩)
  rcases (mem_merged.mp hmem).1 with hown | htaken
  · exact not_own hfed hown
  · obtain ⟨source',ho',htake⟩ := mem_taken.mp htaken
    rw [ho,Option.some.injEq] at ho'
    rw [← ho'] at htake
    exact List.disjoint_take_drop (nodup_feed source (some dataset_urn)) le_rfl htake hcut

/-- The timeline is unified exactly if the cut of the source's feed is harmless. -/
theorem get_events_unified (timestamp : ℤ → ℚ) (r : Reads db) (dataset_urn : Str)
    (filters : Filters) :
    Unified timestamp r dataset_urn filters ↔ CutHarmless timestamp r dataset_urn filters :=
  ⟨cutHarmless_of_unified,unified_of_cutHarmless⟩

/-- Feeds of at most 10,000 events give the whole timeline, whatever the filters are. -/
theorem unified_of_short (h : ∀ source,
    reverse_lookup timestamp r.lookups dataset_urn = some source →
      (feed r source (some dataset_urn)).length ≤ SOURCE_LIMIT) :
    Unified timestamp r dataset_urn filters := by
  refine unified_of_cutHarmless fun source ho e hcut => ?_
  have hnil : (r.newest_first.order (feed r source (some dataset_urn))).drop SOURCE_LIMIT = [] :=
    List.drop_eq_nil_of_le (by rw [(r.newest_first.perm _).length_eq]; exact h source ho)
  rw [hnil] at hcut
  cases hcut

end Law

def busyEvent (n : ℕ) : Event where
  id := n
  entity_type := ingestionSource
  entity_id := Uuid.str 1
  event_type := Ingestion.INGESTION_COMPLETE
  status := "success".toList
  detail := .obj []
  occurred_at := n

def busyEvents (count : ℕ) : List Event := (List.range count).map busyEvent

/-- A source that covers one dataset and ran so many times. -/
def busy (count : ℕ) : Tables where
  sources := ⟨[Ingestion.Lookup.regularSource 1],by decide⟩
  datasets := ⟨[Ingestion.Lookup.sampleRow 1],by decide⟩
  events := ⟨busyEvents count,by
    have hids : (busyEvents count).map Event.id = List.range count := by
      rw [busyEvents,List.map_map]
      exact List.map_id _
    rw [hids]
    exact List.nodup_range⟩
  uuids := by
    intro source hsource
    have hrow : source = Ingestion.Lookup.regularSource 1 := by simpa using hsource
    rw [hrow]
    decide

theorem busy_owner (count : ℕ) :
    reverse_lookup Ingestion.Lookup.seconds (stored (busy count)).lookups ['u'] =
      some (Ingestion.Lookup.regularSource 1) := by
  rw [Ingestion.Lookup.reverse_lookup_eq]
  rfl

theorem busy_feed (count : ℕ) :
    feed (stored (busy count)) (Ingestion.Lookup.regularSource 1) (some ['u']) =
      busyEvents count := by
  have hsource : Ingestion.Lookup.regularSource 1 ∈ (busy count).sources.rows :=
    List.mem_cons_self
  refine List.filter_eq_self.mpr fun e he => ?_
  obtain ⟨n,-,rfl⟩ := List.mem_map.mp he
  have hbelongs := (mem_source_entity_ids (r:=stored (busy count)) hsource).mpr
    (.inl rfl : Belongs (busy count) (Ingestion.Lookup.regularSource 1) (busyEvent n))
  simp only [hbelongs]
  rfl

theorem not_unified_busy {count : ℕ} (h : SOURCE_LIMIT < count) :
    ¬ Unified Ingestion.Lookup.seconds (stored (busy count)) ['u'] ⟨none,none,none⟩ := by
  intro hunified
  have hcut := cutHarmless_of_unified hunified (Ingestion.Lookup.regularSource 1) (busy_owner count)
  rw [busy_feed] at hcut
  have hlength : ((stored (busy count)).newest_first.order (busyEvents count)).length = count := by
    rw [((stored (busy count)).newest_first.perm _).length_eq,busyEvents,List.length_map,
      List.length_range]
  have hne : ((stored (busy count)).newest_first.order (busyEvents count)).drop SOURCE_LIMIT ≠ [] := by
    intro hnil
    have hle := List.drop_eq_nil_iff.mp hnil
    omega
  obtain ⟨e,he⟩ := List.exists_mem_of_ne_nil _ hne
  have hadmits : (Filters.mk none none none).Admits e := by
    constructor
    · intro from_dt hfrom
      cases hfrom
    · intro to_dt hto
      cases hto
    · intro prefixes hprefixes
      cases hprefixes
  exact hcut e he hadmits

/-- The oldest of 10,001 runs is in no page, and the count misses it. -/
theorem oldest_run_missing :
    ¬ Unified Ingestion.Lookup.seconds (stored (busy 10001)) ['u'] ⟨none,none,none⟩ :=
  not_unified_busy (by decide)

end Timeline
end Dataspoke
