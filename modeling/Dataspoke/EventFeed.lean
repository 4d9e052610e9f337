import Dataspoke.ReverseLookup
import Dataspoke.SweepEvents
import Dataspoke.ThreeValued
import Dataspoke.Uuid

/-!
# Event feeds of sources

The events of a source are its own and those of its wrappers. `events.entity_id` is a text
column, which holds the text of a source's UUID.
-/

namespace Dataspoke
namespace Ingestion
namespace Feed

open Python
open Sql (Order page)

structure Event where
  id : ℕ
  entity_type : Str
  entity_id : Str
  event_type : Str
  status : Str
  detail : Json
  occurred_at : ℤ

structure EventRecord where
  id : Str
  entity_type : Str
  entity_id : Str
  event_type : Str
  status : Str
  detail : Json
  occurred_at : ℤ
  wrapper : Bool

def Event.record (wrapper : Bool) (e : Event) : EventRecord where
  id := Uuid.str e.id
  entity_type := e.entity_type
  entity_id := e.entity_id
  event_type := e.event_type
  status := e.status
  detail := e.detail
  occurred_at := e.occurred_at
  wrapper := wrapper

structure Tables extends Lookup.Tables where
  events : Table Event.id
  uuids : ∀ source ∈ sources.rows, source.id < 2^128

inductive Exc
  | entity_not_found (entity_type entity_id : Str)

def INGESTION_PREFIX : Str := "INGESTION.".toList

def DATASET_URN : Str := "dataset_urn".toList

/-- `detail->>'key'`. -/
def astext (text : Json → Str) (key : Str) : Json → Option Str
  | .obj items =>
    match get? key items with
    | none | some .null => none
    | some (.str s) => some s
    | some (.bool b) => some (if b then "true".toList else "false".toList)
    | some v => some (text v)
  | _ => none

def newest (a b : Event) : Bool := b.occurred_at ≤ a.occurred_at

/-- The orders that the database returns rows in, and its text of a JSON number, array or
object. -/
structure Reads (db : Tables) where
  lookups : Lookup.Replies db.toTables
  wrappers : Order IngestionSource
  events : Order Event
  newest_first : Order Event
  sorted : ∀ rows, (newest_first.order rows).Pairwise fun a b => newest a b
  text : Json → Str

section Reads

variable {db : Tables} (r : Reads db)

variable (db) in
def get_source (source_id : Str) : Except Exc IngestionSource :=
  match Uuid.UUID source_id with
  | none => .error (.entity_not_found ingestionSource source_id)
  | some uid =>
    match db.sources.get? uid with
    | none => .error (.entity_not_found ingestionSource source_id)
    | some row => .ok row

variable (db) in
def children (uid : ℕ) : List IngestionSource :=
  db.sources.rows.filter fun row => row.parent_source_id = some uid

def source_entity_ids (source_id : Str) : Str × List Str :=
  match Uuid.UUID source_id with
  | none => (source_id,[source_id])
  | some uid =>
    (Uuid.str uid,Uuid.str uid::(r.wrappers.order (children db uid)).map fun row => Uuid.str row.id)

/-- A row without a URN qualifies for every dataset. -/
def base (entity_ids : List Str) (from_dt to_dt : Option ℤ) (dataset_urn : Option Str) :
    List Event :=
  db.events.rows.filter fun e =>
    e.entity_type = ingestionSource && e.entity_id ∈ entity_ids &&
      INGESTION_PREFIX.isPrefixOf e.event_type &&
      dataset_urn.all (fun urn => (astext r.text DATASET_URN e.detail).all (· = urn)) &&
      from_dt.all (fun t => t ≤ e.occurred_at) && to_dt.all (fun t => e.occurred_at ≤ t)

/-- `order_by` is the order that the caller's `ORDER BY` gives. -/
def get_events_for_source (source_id : Str) (offset limit : ℕ) (from_dt to_dt : Option ℤ)
    (order_by : Option (Order Event)) (dataset_urn : Option Str) :
    Except Exc (List EventRecord × ℕ) :=
  match get_source db source_id with
  | .error e => .error e
  | .ok _ =>
    let (canonical,entity_ids) := source_entity_ids r source_id
    let base := base r entity_ids from_dt to_dt dataset_urn
    let rows := page offset limit ((order_by.getD r.newest_first).order base)
    .ok (rows.map fun row => row.record (decide (row.entity_id ≠ canonical)),base.length)

end Reads

section Feeds

variable {db : Tables} (r : Reads db)

/-- The event belongs to the source or to one of its wrappers. -/
def Belongs (db : Tables) (source : IngestionSource) (e : Event) : Prop :=
  e.entity_id = Uuid.str source.id ∨
    ∃ w ∈ db.sources.rows, w.parent_source_id = some source.id ∧ e.entity_id = Uuid.str w.id

/-- An ingestion event of the source or a wrapper; for a dataset, one whose URN is absent or the
dataset's. -/
structure InFeed (source : IngestionSource) (dataset_urn : Option Str) (e : Event) : Prop where
  kind : e.entity_type = ingestionSource
  belongs : Belongs db source e
  ingestion : INGESTION_PREFIX <+: e.event_type
  urn : ∀ urn, dataset_urn = some urn → ∀ u, astext r.text DATASET_URN e.detail = some u → u = urn

def feed (source : IngestionSource) (dataset_urn : Option Str) : List Event :=
  base r (source_entity_ids r (Uuid.str source.id)).2 none none dataset_urn

def shown (source : IngestionSource) (e : Event) : EventRecord :=
  e.record (decide (e.entity_id ≠ Uuid.str source.id))

variable {r} {source : IngestionSource}

theorem UUID_source (h : source ∈ db.sources.rows) :
    Uuid.UUID (Uuid.str source.id) = some source.id := Uuid.UUID_str (db.uuids source h)

theorem str_source {other : IngestionSource} (h : source ∈ db.sources.rows)
    (ho : other ∈ db.sources.rows) (he : Uuid.str source.id = Uuid.str other.id) :
    source = other :=
  Table.eq_of_key_eq h ho (Uuid.str_injective (db.uuids source h) (db.uuids other ho) he)

theorem source_entity_ids_str (h : source ∈ db.sources.rows) :
    source_entity_ids r (Uuid.str source.id) = (Uuid.str source.id,Uuid.str source.id::
      (r.wrappers.order (children db source.id)).map fun row => Uuid.str row.id) := by
  rw [source_entity_ids,UUID_source h]

theorem mem_source_entity_ids (h : source ∈ db.sources.rows) {e : Event} :
    e.entity_id ∈ (source_entity_ids r (Uuid.str source.id)).2 ↔ Belongs db source e := by
  rw [source_entity_ids_str h,List.mem_cons,Belongs]
  refine or_congr_right ?_
  simp only [List.mem_map,Order.mem,children,List.mem_filter,decide_eq_true_eq,and_assoc]
  constructor
  · rintro ⟨w,hw,hp,he⟩
    exact ⟨w,hw,hp,he.symm⟩
  · rintro ⟨w,hw,hp,he⟩
    exact ⟨w,hw,hp,he.symm⟩

theorem mem_feed (h : source ∈ db.sources.rows) {dataset_urn : Option Str} {e : Event} :
    e ∈ feed r source dataset_urn ↔ e ∈ db.events.rows ∧ InFeed r source dataset_urn e := by
  have hurn : (dataset_urn.all fun urn => (astext r.text DATASET_URN e.detail).all (· = urn)) = true ↔
      ∀ urn, dataset_urn = some urn → ∀ u, astext r.text DATASET_URN e.detail = some u →
        u = urn := by
    simp [Option.all_eq_true]
  rw [feed,base,List.mem_filter]
  simp only [Bool.and_eq_true,decide_eq_true_eq,List.isPrefixOf_iff_prefix,mem_source_entity_ids h,
    hurn,Option.all_none,and_true]
  refine and_congr_right fun _ => ?_
  constructor
  · rintro ⟨⟨⟨hkind,hbelongs⟩,hstarts⟩,hu⟩
    exact ⟨hkind,hbelongs,hstarts,hu⟩
  · rintro ⟨hkind,hbelongs,hstarts,hu⟩
    exact ⟨⟨⟨hkind,hbelongs⟩,hstarts⟩,hu⟩

theorem get_events_for_source_eq (h : source ∈ db.sources.rows) (offset limit : ℕ)
    (dataset_urn : Option Str) :
    get_events_for_source r (Uuid.str source.id) offset limit none none none dataset_urn =
      .ok ((page offset limit (r.newest_first.order (feed r source dataset_urn))).map
        (shown source),(feed r source dataset_urn).length) := by
  have hget : get_source db (Uuid.str source.id) = .ok source := by
    rw [get_source,UUID_source h]
    dsimp only
    rw [Table.mem_rows.mp h]
  have hcanonical : (source_entity_ids r (Uuid.str source.id)).1 = Uuid.str source.id := by
    rw [source_entity_ids_str h]
  rw [get_events_for_source,hget]
  dsimp only
  rw [hcanonical]
  rfl

end Feeds

theorem sorted_mergeSort (rows : List Event) :
    (rows.mergeSort newest).Pairwise fun a b => newest a b := by
  refine List.pairwise_mergeSort ?_ ?_ rows
  · intro a b c hab hbc
    simp only [newest,decide_eq_true_eq] at hab hbc ⊢
    exact hbc.trans hab
  · intro a b
    simpa [newest] using le_total b.occurred_at a.occurred_at

def stored (db : Tables) : Reads db where
  lookups := Lookup.stored db.toTables
  wrappers := ⟨id,fun _ => .refl _⟩
  events := ⟨id,fun _ => .refl _⟩
  newest_first := ⟨fun rows => rows.mergeSort newest,fun rows => List.mergeSort_perm rows newest⟩
  sorted := sorted_mergeSort
  text := fun _ => []

end Feed
end Ingestion
end Dataspoke
