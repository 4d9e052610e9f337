import Dataspoke.EventFeed
import Dataspoke.GroupMax

/-!
# Ingestion evidence of many sources

The newest observation of each dataset and the newest completed run of each source, grouped by
the raw entity ids and folded into the sources that own them.
-/

namespace Dataspoke
namespace Ingestion
namespace Feed

open Python GroupMax
open Sql (Order)

def cspace (c : Char) : Bool := c = ' ' || (9 ≤ c.toNat && c.toNat ≤ 13)

/-- `CAST(… AS BOOLEAN)` of a text, none where it is not a boolean. -/
def boolin (s : Str) : Option Bool :=
  let v := lower (Pydantic.strip cspace s)
  let abbreviates (word : String) : Bool := v ≠ [] && v.isPrefixOf word.toList
  if abbreviates "true" || abbreviates "yes" || v = "on".toList || v = "1".toList then some true
  else if abbreviates "false" || abbreviates "no" || v = "of".toList || v = "off".toList ||
    v = "0".toList then some false
  else none

/-- `coalesce(cast(detail->>'dry_run' AS boolean), false)`. -/
def dry_run (text : Json → Str) (detail : Json) : Option Bool :=
  match astext text "dry_run".toList detail with
  | none => some false
  | some s => boolin s

section Batches

inductive QueryError
  | invalid_boolean

/-- The orders of the groups, and the rows for which the database evaluates the cast: it may do
so before the other conditions, but has to where they all hold. -/
structure Plan (db : Tables) extends Reads db where
  completed : Order (Str × ℤ)
  observed : Order ((Str × Option Str) × ℤ)
  evaluated : List Str → Event → Bool
  covers : ∀ ids e, e.event_type = INGESTION_COMPLETE → e.entity_type = ingestionSource →
    e.entity_id ∈ ids → evaluated ids e = true

/-- The given spelling of each UUID, the last one if there are several. -/
def by_uid (source_ids : List Str) : Dict ℕ Str :=
  insertAll (source_ids.filterMap fun sid => (Uuid.UUID sid).map fun uid => (uid,sid)) ∅

variable {db : Tables}

/-- The wrappers of the sources, each with the owner it is folded into. -/
def child_result (r : Reads db) (by_uid : Dict ℕ Str) : List (Str × Str) :=
  (r.wrappers.order
    (db.sources.rows.filter fun row => row.parent_source_id.any (· ∈ by_uid.keys))).filterMap
      fun row => (row.parent_source_id.bind by_uid.lookup).map fun sid => (Uuid.str row.id,sid)

def owner_by_entity_id (r : Reads db) (source_ids : List Str) : Dict Str Str :=
  let by_uid := by_uid source_ids
  if by_uid.keys = [] then ∅
  else
    let owner_by_entity := insertAll (by_uid.entries.map fun e => (Uuid.str e.1,e.2)) ∅
    insertAll (child_result r by_uid) owner_by_entity

variable (p : Plan db)

def isComplete (entity_ids : List Str) (e : Event) : Bool :=
  e.event_type = INGESTION_COMPLETE && e.entity_type = ingestionSource && e.entity_id ∈ entity_ids

def completedRows (entity_ids : List Str) : List Event :=
  db.events.rows.filter fun e => isComplete entity_ids e && dry_run p.text e.detail = some false

def observedRows (entity_ids : List Str) : List Event :=
  db.events.rows.filter fun e => isComplete entity_ids e &&
    (astext p.text "source".toList e.detail).any (· ∈ observationSources) &&
    (astext p.text DATASET_URN e.detail).isSome

def latest_ingestion_complete_by_source (source_ids : List Str) :
    Except QueryError (Dict Str ℤ) :=
  if source_ids = [] then .ok ∅
  else
    let owner_by_entity := owner_by_entity_id p.toReads source_ids
    if owner_by_entity.keys = [] then .ok ∅
    else if db.events.rows.any fun e =>
        p.evaluated owner_by_entity.keys e && (dry_run p.text e.detail).isNone then
      .error .invalid_boolean
    else
      .ok (fold owner_by_entity.lookup (p.completed.order
        (groupMax Event.entity_id Event.occurred_at (completedRows p owner_by_entity.keys))))

/-- The key of a group, none for the empty URN. -/
def observedKey (owner_by_entity : Dict Str Str) : Str × Option Str → Option (Str × Str)
  | (_,none) | (_,some []) => none
  | (entity_id,some urn) => (owner_by_entity.lookup entity_id).map fun owner => (owner,urn)

def latest_ingestion_observed_by_dataset (source_ids : List Str) : Dict (Str × Str) ℤ :=
  let owner_by_entity := owner_by_entity_id p.toReads source_ids
  if owner_by_entity.keys = [] then ∅
  else
    fold (observedKey owner_by_entity) (p.observed.order
      (groupMax (fun e => (e.entity_id,astext p.text DATASET_URN e.detail)) Event.occurred_at
        (observedRows p owner_by_entity.keys)))

end Batches

section Owners

variable {db : Tables}

/-- The ids are texts of regular sources. -/
def Regular (db : Tables) (source_ids : List Str) : Prop :=
  ∀ s ∈ source_ids, ∃ source ∈ db.sources.rows, source.parent_source_id = none ∧
    s = Uuid.str source.id

variable {source_ids : List Str}

theorem UUID_regular (h : Regular db source_ids) {s : Str} (hs : s ∈ source_ids) :
    ∃ uid, Uuid.UUID s = some uid ∧ Uuid.str uid = s := by
  obtain ⟨source,hsource,_,he⟩ := h s hs
  have huid : Uuid.UUID s = some source.id := by rw [he,UUID_source hsource]
  exact ⟨source.id,huid,he.symm⟩

theorem lookup_by_uid (h : Regular db source_ids) {uid : ℕ} {s : Str} :
    (by_uid source_ids).lookup uid = some s ↔ s ∈ source_ids ∧ Uuid.UUID s = some uid := by
  have hitems : ∀ x, x ∈ source_ids.filterMap (fun sid => (Uuid.UUID sid).map fun uid => (uid,sid)) ↔
      x.2 ∈ source_ids ∧ Uuid.UUID x.2 = some x.1 := by
    rintro ⟨uid,s⟩
    rw [List.mem_filterMap]
    constructor
    · rintro ⟨sid,hsid,he⟩
      obtain ⟨uid',huid,he⟩ := Option.map_eq_some_iff.mp he
      obtain ⟨rfl,rfl⟩ := Prod.mk.inj he
      exact ⟨hsid,huid⟩
    · rintro ⟨hs,huid⟩
      exact ⟨s,hs,by rw [huid]; rfl⟩
  have hone : ∀ x ∈ source_ids.filterMap (fun sid => (Uuid.UUID sid).map fun uid => (uid,sid)),
      Uuid.str x.1 = x.2 := by
    intro x hx
    obtain ⟨hs,huid⟩ := (hitems x).mp hx
    obtain ⟨uid',huid',he⟩ := UUID_regular h hs
    rw [huid,Option.some.injEq] at huid'
    rw [huid',he]
  rw [by_uid,lookup_insertAll fun x hx y hy hxy => by rw [← hone x hx,← hone y hy,hxy]]
  rw [AList.lookup_empty,hitems (uid,s)]
  simp

theorem str_of_lookup (h : Regular db source_ids) {uid : ℕ} {s : Str}
    (hl : (by_uid source_ids).lookup uid = some s) : s ∈ source_ids ∧ Uuid.str uid = s := by
  obtain ⟨hs,huid⟩ := (lookup_by_uid h).mp hl
  obtain ⟨uid',huid',he⟩ := UUID_regular h hs
  rw [huid,Option.some.injEq] at huid'
  exact ⟨hs,by rw [huid',he]⟩

theorem lookup_own (h : Regular db source_ids) {x s : Str} :
    (insertAll ((by_uid source_ids).entries.map fun e => (Uuid.str e.1,e.2)) ∅).lookup x = some s ↔
      s ∈ source_ids ∧ x = s := by
  have hitems : ∀ y : Str × Str, y ∈ (by_uid source_ids).entries.map (fun e => (Uuid.str e.1,e.2)) ↔
      y.2 ∈ source_ids ∧ y.1 = y.2 := by
    rintro ⟨x,s⟩
    rw [List.mem_map]
    constructor
    · rintro ⟨⟨uid,s'⟩,he,hy⟩
      obtain ⟨rfl,rfl⟩ := Prod.mk.inj hy
      exact str_of_lookup h (AList.mem_lookup_iff.mpr he)
    · rintro ⟨hs,hx⟩
      have hx : x = s := hx
      obtain ⟨uid,huid,he⟩ := UUID_regular h hs
      have hl : (by_uid source_ids).lookup uid = some s := (lookup_by_uid h).mpr ⟨hs,huid⟩
      exact ⟨⟨uid,s⟩,AList.mem_lookup_iff.mp hl,by rw [he,hx]⟩
  rw [lookup_insertAll fun y hy z hz hyz => by
    rw [← ((hitems y).mp hy).2,← ((hitems z).mp hz).2,hyz]]
  rw [AList.lookup_empty,hitems (x,s)]
  simp

theorem mem_child_result {r : Reads db} {d : Dict ℕ Str} {item : Str × Str} :
    item ∈ child_result r d ↔ ∃ w ∈ db.sources.rows, item.1 = Uuid.str w.id ∧
      w.parent_source_id.bind d.lookup = some item.2 := by
  obtain ⟨x,s⟩ := item
  rw [child_result,List.mem_filterMap]
  constructor
  · rintro ⟨w,hw,he⟩
    rw [Order.mem,List.mem_filter] at hw
    obtain ⟨s',hs',he⟩ := Option.map_eq_some_iff.mp he
    obtain ⟨rfl,rfl⟩ := Prod.mk.inj he
    exact ⟨w,hw.1,rfl,hs'⟩
  · rintro ⟨w,hw,hx,hs⟩
    have hx : x = Uuid.str w.id := hx
    have hs : w.parent_source_id.bind d.lookup = some s := hs
    refine ⟨w,?_,by rw [hs,hx]; rfl⟩
    rw [Order.mem,List.mem_filter,Option.any_eq_true]
    obtain ⟨uid,huid,hl⟩ := Option.bind_eq_some_iff.mp hs
    exact ⟨hw,uid,huid,decide_eq_true (AList.lookup_isSome.mp (Option.isSome_of_eq_some hl))⟩

/-- Who owns the events of an entity: a listed source those of its own and of its wrappers. -/
theorem lookup_owner (r : Reads db) (h : Regular db source_ids) {x s : Str} :
    (owner_by_entity_id r source_ids).lookup x = some s ↔ s ∈ source_ids ∧
      ∃ source ∈ db.sources.rows, s = Uuid.str source.id ∧
        (x = s ∨ ∃ w ∈ db.sources.rows, w.parent_source_id = some source.id ∧ x = Uuid.str w.id) := by
  have hlisted : ∀ s ∈ source_ids, ∃ source ∈ db.sources.rows, source.parent_source_id = none ∧
      s = Uuid.str source.id := h
  by_cases hkeys : (by_uid source_ids).keys = []
  · have hempty : owner_by_entity_id r source_ids = ∅ := if_pos hkeys
    rw [hempty,AList.lookup_empty]
    constructor
    · intro hl
      cases hl
    · rintro ⟨hs,-⟩
      obtain ⟨uid,huid,-⟩ := UUID_regular h hs
      have hmem : uid ∈ (by_uid source_ids).keys :=
        AList.lookup_isSome.mp (Option.isSome_of_eq_some ((lookup_by_uid h).mpr ⟨hs,huid⟩))
      rw [hkeys] at hmem
      cases hmem
  have howner : owner_by_entity_id r source_ids = _ := if_neg hkeys
  rw [howner,lookup_insertAll,mem_child_result,lookup_own h]
  · constructor
    · rintro (⟨w,hw,hx,hs⟩ | ⟨-,hs,hx⟩)
      · obtain ⟨uid,huid,hl⟩ := Option.bind_eq_some_iff.mp hs
        obtain ⟨hmem,hstr⟩ := str_of_lookup h hl
        obtain ⟨source,hsource,-,hsid⟩ := hlisted s hmem
        have hid : uid = source.id := by
          have hu := (lookup_by_uid h).mp hl
          rw [hsid,UUID_source hsource,Option.some.injEq] at hu
          exact hu.2.symm
        exact ⟨hmem,source,hsource,hsid,.inr ⟨w,hw,hid ▸ huid,hx⟩⟩
      · obtain ⟨source,hsource,-,hsid⟩ := hlisted s hs
        exact ⟨hs,source,hsource,hsid,.inl hx⟩
    · rintro ⟨hs,source,hsource,hsid,hx | ⟨w,hw,hp,hx⟩⟩
      · refine .inr ⟨?_,hs,hx⟩
        -- A regular source is no wrapper.
        rintro y hy hyx
        obtain ⟨w,hw,hyw,hbind⟩ := mem_child_result.mp hy
        have hsame : w = source := by
          refine str_source hw hsource ?_
          rw [← hyw,hyx,hx,hsid]
        obtain ⟨root,hroot,hnone,hrid⟩ := hlisted s hs
        have hsroot : source = root := str_source hsource hroot (by rw [← hsid,hrid])
        rw [hsame,hsroot,hnone] at hbind
        cases hbind
      · refine .inl ⟨w,hw,hx,?_⟩
        rw [hp,Option.bind_some,lookup_by_uid h,hsid,UUID_source hsource]
        exact ⟨hsid ▸ hs,rfl⟩
  · intro y hy z hz hyz
    obtain ⟨v,hv,hyv,hby⟩ := mem_child_result.mp hy
    obtain ⟨w,hw,hzw,hbz⟩ := mem_child_result.mp hz
    have hvw : v = w := str_source hv hw (by rw [← hyv,← hzw,hyz])
    rw [hvw,hbz,Option.some.injEq] at hby
    exact hby.symm

theorem lookup_owner_iff (r : Reads db) (h : Regular db source_ids) {source : IngestionSource}
    (hsource : source ∈ db.sources.rows) (hs : Uuid.str source.id ∈ source_ids) {e : Event} :
    (owner_by_entity_id r source_ids).lookup e.entity_id = some (Uuid.str source.id) ↔
      Belongs db source e := by
  rw [lookup_owner r h]
  constructor
  · rintro ⟨-,other,hother,hid,hbelongs⟩
    rw [← str_source hsource hother hid] at hbelongs
    exact hbelongs
  · exact fun hbelongs => ⟨hs,source,hsource,rfl,hbelongs⟩

theorem mem_owner_keys {d : Dict Str Str} {x : Str} : x ∈ d.keys ↔ ∃ s, d.lookup x = some s := by
  rw [← AList.mem_keys,← AList.lookup_isSome,Option.isSome_iff_exists]

theorem owner_keys_ne_nil (r : Reads db) (h : Regular db source_ids) (hne : source_ids ≠ []) :
    (owner_by_entity_id r source_ids).keys ≠ [] := by
  obtain ⟨s,hs⟩ := List.exists_mem_of_ne_nil source_ids hne
  obtain ⟨source,hsource,-,hid⟩ := h s hs
  have hlookup : (owner_by_entity_id r source_ids).lookup s = some s :=
    (lookup_owner r h).mpr ⟨hs,source,hsource,hid,.inl rfl⟩
  exact List.ne_nil_of_mem (mem_owner_keys.mpr ⟨s,hlookup⟩)

end Owners

section Laws

variable {db : Tables}

/-- The records of a feed on one page. -/
def FullFeed (r : Reads db) (s : Str) (dataset_urn : Option Str) (records : List EventRecord) :
    Prop :=
  ∃ limit total, get_events_for_source r s 0 limit none none none dataset_urn =
    .ok (records,total) ∧ total ≤ limit

theorem fullFeed_iff {r : Reads db} {source : IngestionSource} (h : source ∈ db.sources.rows)
    {dataset_urn : Option Str} {records : List EventRecord} :
    FullFeed r (Uuid.str source.id) dataset_urn records ↔
      records = (r.newest_first.order (feed r source dataset_urn)).map (shown source) := by
  have hpage : ∀ limit, (feed r source dataset_urn).length ≤ limit →
      Sql.page 0 limit (r.newest_first.order (feed r source dataset_urn)) =
        r.newest_first.order (feed r source dataset_urn) := by
    intro limit hlimit
    rw [Sql.page,List.drop_zero]
    exact List.take_of_length_le (by rwa [(r.newest_first.perm _).length_eq])
  constructor
  · rintro ⟨limit,total,hget,hle⟩
    rw [get_events_for_source_eq h] at hget
    obtain ⟨hrecords,htotal⟩ := Prod.mk.inj (Except.ok.inj hget)
    rw [← hrecords,hpage limit (by rwa [htotal])]
  · rintro rfl
    refine ⟨_,_,?_,le_refl (feed r source dataset_urn).length⟩
    rw [get_events_for_source_eq h,hpage _ le_rfl]

/-- A record stands for an event of the feed. -/
theorem mem_fullFeed {r : Reads db} {source : IngestionSource} (h : source ∈ db.sources.rows)
    {dataset_urn : Option Str} {records : List EventRecord}
    (hfull : FullFeed r (Uuid.str source.id) dataset_urn records) {record : EventRecord} :
    record ∈ records ↔ ∃ e ∈ db.events.rows, InFeed r source dataset_urn e ∧
      shown source e = record := by
  rw [(fullFeed_iff h).mp hfull]
  simp only [List.mem_map,Order.mem,mem_feed h,and_assoc]

/-- A completed run without a true `dry_run`. -/
structure Completed (text : Json → Str) (record : EventRecord) : Prop where
  event : record.event_type = INGESTION_COMPLETE
  real : dry_run text record.detail ≠ some true

/-- A completion that an observation producer booked for the dataset. -/
structure Observed (text : Json → Str) (urn : Str) (record : EventRecord) : Prop where
  event : record.event_type = INGESTION_COMPLETE
  producer : ∃ source ∈ observationSources, astext text "source".toList record.detail = some source
  dataset : astext text DATASET_URN record.detail = some urn

variable (p : Plan db) (source_ids : List Str)

/-- The cast succeeds wherever the database evaluates it. -/
def Casts : Prop :=
  ∀ e ∈ db.events.rows, p.evaluated (owner_by_entity_id p.toReads source_ids).keys e = true →
    dry_run p.text e.detail ≠ none

/-- The batch finds for each source the last completed run of its feed. -/
def CompleteLaw : Prop :=
  ∃ latest, latest_ingestion_complete_by_source p source_ids = .ok latest ∧
    ∀ s ∈ source_ids, ∀ records, FullFeed p.toReads s none records →
      Greatest {t | ∃ record ∈ records, Completed p.text record ∧ record.occurred_at = t}
        (latest.lookup s)

/-- The batch finds for each source the last observation of the dataset in its feed. -/
def ObservedLaw (urn : Str) : Prop :=
  ∀ s ∈ source_ids, ∀ records, FullFeed p.toReads s (some urn) records →
    Greatest {t | ∃ record ∈ records, Observed p.text urn record ∧ record.occurred_at = t}
      ((latest_ingestion_observed_by_dataset p source_ids).lookup (s,urn))

variable {p source_ids}

theorem mem_isComplete {ids : List Str} {e : Event} : isComplete ids e = true ↔
    e.event_type = INGESTION_COMPLETE ∧ e.entity_type = ingestionSource ∧ e.entity_id ∈ ids := by
  simp only [isComplete,Bool.and_eq_true,decide_eq_true_eq,and_assoc]

theorem starts_ingestion {e : Event} (h : e.event_type = INGESTION_COMPLETE) :
    INGESTION_PREFIX <+: e.event_type := by
  rw [h]
  decide

theorem completeLaw_of_casts (h : Regular db source_ids) (hcasts : Casts p source_ids) :
    CompleteLaw p source_ids := by
  by_cases hne : source_ids = []
  · subst hne
    exact ⟨∅,rfl,fun s hs => absurd hs List.not_mem_nil⟩
  have hkeys := owner_keys_ne_nil p.toReads h hne
  have hread : ¬ (db.events.rows.any fun e =>
      p.evaluated (owner_by_entity_id p.toReads source_ids).keys e &&
        (dry_run p.text e.detail).isNone) = true := by
    rw [List.any_eq_true]
    rintro ⟨e,he,hboth⟩
    rw [Bool.and_eq_true,Option.isNone_iff_eq_none] at hboth
    exact hcasts e he hboth.1 hboth.2
  have hok : latest_ingestion_complete_by_source p source_ids =
      .ok (fold (owner_by_entity_id p.toReads source_ids).lookup (p.completed.order
        (groupMax Event.entity_id Event.occurred_at
          (completedRows p (owner_by_entity_id p.toReads source_ids).keys)))) := by
    rw [latest_ingestion_complete_by_source,if_neg hne]
    dsimp only
    rw [if_neg hkeys,if_neg hread]
  refine ⟨_,hok,fun s hs records hfull => ?_⟩
  obtain ⟨source,hsource,_,hid⟩ := h s hs
  rw [hid] at hs hfull ⊢
  have hset : {t | ∃ record ∈ records, Completed p.text record ∧ record.occurred_at = t} =
      {t | ∃ e ∈ completedRows p (owner_by_entity_id p.toReads source_ids).keys,
        (owner_by_entity_id p.toReads source_ids).lookup e.entity_id =
          some (Uuid.str source.id) ∧ e.occurred_at = t} := by
    ext t
    simp only [Set.mem_ofPred_eq,completedRows,List.mem_filter,Bool.and_eq_true,mem_isComplete,
      decide_eq_true_eq,lookup_owner_iff p.toReads h hsource hs]
    constructor
    · rintro ⟨record,hrecord,⟨hevent,hreal⟩,ht⟩
      obtain ⟨e,he,hin,rfl⟩ := (mem_fullFeed hsource hfull).mp hrecord
      have hkey : e.entity_id ∈ (owner_by_entity_id p.toReads source_ids).keys :=
        mem_owner_keys.mpr ⟨_,(lookup_owner_iff p.toReads h hsource hs).mpr hin.belongs⟩
      have hcast := hcasts e he (p.covers _ e hevent hin.kind hkey)
      have hdry : dry_run p.text e.detail = some false := by
        have hreal : dry_run p.text e.detail ≠ some true := hreal
        cases hd : dry_run p.text e.detail with
        | none => exact absurd hd hcast
        | some b =>
          cases b with
          | false => rfl
          | true => exact absurd hd hreal
      exact ⟨e,⟨he,⟨hevent,hin.kind,hkey⟩,hdry⟩,hin.belongs,ht⟩
    · rintro ⟨e,⟨he,⟨hevent,hkind,-⟩,hdry⟩,hbelongs,ht⟩
      have hin : InFeed p.toReads source none e :=
        ⟨hkind,hbelongs,starts_ingestion hevent,fun urn hurn => by cases hurn⟩
      refine ⟨shown source e,(mem_fullFeed hsource hfull).mpr ⟨e,he,hin,rfl⟩,⟨hevent,?_⟩,ht⟩
      show dry_run p.text e.detail ≠ some true
      rw [hdry]
      decide
  rw [hset]
  exact lookup_fold_groupMax _ (p.completed.perm _) _

theorem casts_of_ok (h : Regular db source_ids) (hne : source_ids ≠ []) {latest : Dict Str ℤ}
    (hok : latest_ingestion_complete_by_source p source_ids = .ok latest) :
    Casts p source_ids := by
  intro e he hevaluated hnone
  have hread : (db.events.rows.any fun e =>
      p.evaluated (owner_by_entity_id p.toReads source_ids).keys e &&
        (dry_run p.text e.detail).isNone) = true := by
    refine List.any_eq_true.mpr ⟨e,he,?_⟩
    rw [hevaluated,hnone]
    rfl
  rw [latest_ingestion_complete_by_source,if_neg hne] at hok
  dsimp only at hok
  rw [if_neg (owner_keys_ne_nil p.toReads h hne),if_pos hread] at hok
  cases hok

theorem completeLaw_iff (h : Regular db source_ids) :
    CompleteLaw p source_ids ↔ source_ids = [] ∨ Casts p source_ids := by
  constructor
  · rintro ⟨latest,hok,-⟩
    by_cases hne : source_ids = []
    · exact .inl hne
    · exact .inr (casts_of_ok h hne hok)
  · rintro (rfl | hcasts)
    · exact ⟨∅,rfl,fun s hs => absurd hs List.not_mem_nil⟩
    · exact completeLaw_of_casts h hcasts

theorem observedKey_eq {d : Dict Str Str} {x s u : Str} {o : Option Str} :
    observedKey d (x,o) = some (s,u) ↔ u ≠ [] ∧ o = some u ∧ d.lookup x = some s := by
  cases o with
  | none => simp [observedKey]
  | some v =>
    cases v with
    | nil =>
      simp only [observedKey,Option.some.injEq]
      constructor
      · intro h
        cases h
      · rintro ⟨hu,he,-⟩
        exact absurd he.symm hu
    | cons c v =>
      simp only [observedKey,Option.map_eq_some_iff,Prod.mk.injEq,Option.some.injEq]
      constructor
      · rintro ⟨owner,hl,rfl,rfl⟩
        exact ⟨List.cons_ne_nil c v,rfl,hl⟩
      · rintro ⟨-,rfl,hl⟩
        exact ⟨s,hl,rfl,rfl⟩

theorem observed_eq (h : Regular db source_ids) (hne : source_ids ≠ []) :
    latest_ingestion_observed_by_dataset p source_ids =
      fold (observedKey (owner_by_entity_id p.toReads source_ids)) (p.observed.order
        (groupMax (fun e => (e.entity_id,astext p.text DATASET_URN e.detail)) Event.occurred_at
          (observedRows p (owner_by_entity_id p.toReads source_ids).keys))) :=
  if_neg (owner_keys_ne_nil p.toReads h hne)

theorem observedLaw_of_ne (h : Regular db source_ids) {urn : Str} (hurn : urn ≠ []) :
    ObservedLaw p source_ids urn := by
  intro s hs records hfull
  obtain ⟨source,hsource,_,hid⟩ := h s hs
  rw [hid] at hs hfull ⊢
  have hset : {t | ∃ record ∈ records, Observed p.text urn record ∧ record.occurred_at = t} =
      {t | ∃ e ∈ observedRows p (owner_by_entity_id p.toReads source_ids).keys,
        observedKey (owner_by_entity_id p.toReads source_ids)
          (e.entity_id,astext p.text DATASET_URN e.detail) = some (Uuid.str source.id,urn) ∧
            e.occurred_at = t} := by
    ext t
    simp only [Set.mem_ofPred_eq,observedRows,List.mem_filter,Bool.and_eq_true,mem_isComplete,
      observedKey_eq,lookup_owner_iff p.toReads h hsource hs,Option.any_eq_true,
      decide_eq_true_eq]
    constructor
    · rintro ⟨record,hrecord,⟨hevent,⟨producer,hproducer,hsame⟩,hdataset⟩,ht⟩
      obtain ⟨e,he,hin,rfl⟩ := (mem_fullFeed hsource hfull).mp hrecord
      have hkey : e.entity_id ∈ (owner_by_entity_id p.toReads source_ids).keys :=
        mem_owner_keys.mpr ⟨_,(lookup_owner_iff p.toReads h hsource hs).mpr hin.belongs⟩
      exact ⟨e,⟨he,⟨⟨hevent,hin.kind,hkey⟩,producer,hsame,hproducer⟩,
        Option.isSome_of_eq_some hdataset⟩,⟨hurn,hdataset,hin.belongs⟩,ht⟩
    · rintro ⟨e,⟨he,⟨⟨hevent,hkind,-⟩,producer,hsame,hproducer⟩,-⟩,⟨-,hdataset,hbelongs⟩,ht⟩
      have hin : InFeed p.toReads source (some urn) e := by
        refine ⟨hkind,hbelongs,starts_ingestion hevent,fun v hv u hu => ?_⟩
        rw [hdataset,hv] at hu
        exact (Option.some.inj hu).symm
      exact ⟨shown source e,(mem_fullFeed hsource hfull).mpr ⟨e,he,hin,rfl⟩,
        ⟨hevent,⟨producer,hproducer,hsame⟩,hdataset⟩,ht⟩
  rw [hset,observed_eq h (List.ne_nil_of_mem hs)]
  exact lookup_fold_groupMax _ (p.observed.perm _) _

/-- Observations of the empty URN are left out. -/
theorem observed_empty_urn (h : Regular db source_ids) (s : Str) :
    (latest_ingestion_observed_by_dataset p source_ids).lookup (s,[]) = none := by
  by_cases hne : source_ids = []
  · subst hne
    rfl
  rw [observed_eq h hne]
  have hlast := lookup_fold_groupMax (observedKey (owner_by_entity_id p.toReads source_ids))
    (p.observed.perm (groupMax (fun e => (e.entity_id,astext p.text DATASET_URN e.detail))
      Event.occurred_at (observedRows p (owner_by_entity_id p.toReads source_ids).keys))) (s,[])
  have hempty : {t | ∃ e ∈ observedRows p (owner_by_entity_id p.toReads source_ids).keys,
      observedKey (owner_by_entity_id p.toReads source_ids)
        (e.entity_id,astext p.text DATASET_URN e.detail) = some (s,[]) ∧ e.occurred_at = t} = ∅ := by
    refine Set.eq_empty_iff_forall_notMem.mpr ?_
    rintro t ⟨e,-,hkey,-⟩
    exact (observedKey_eq.mp hkey).1 rfl
  rw [hempty] at hlast
  exact hlast.unique (b:=none) rfl

/-- The batches agree with the feeds of the sources: that of the runs where each cast succeeds,
and that of the observations for each URN that is not empty. -/
theorem latest_ingestion_evidence (p : Plan db) (source_ids : List Str)
    (h : Regular db source_ids) :
    (∀ s ∈ source_ids, ∀ urn, ∃ records, FullFeed p.toReads s urn records) ∧
      (CompleteLaw p source_ids ↔ source_ids = [] ∨ Casts p source_ids) ∧
      (∀ urn, urn ≠ [] → ObservedLaw p source_ids urn) ∧
      ∀ s, (latest_ingestion_observed_by_dataset p source_ids).lookup (s,[]) = none := by
  refine ⟨fun s hs urn => ?_,completeLaw_iff h,fun urn hurn => observedLaw_of_ne h hurn,
    observed_empty_urn h⟩
  obtain ⟨source,hsource,_,hid⟩ := h s hs
  rw [hid]
  exact ⟨_,(fullFeed_iff hsource).mpr rfl⟩

/-- A plan that evaluates the cast after the other conditions. -/
def storedPlan (db : Tables) : Plan db where
  toReads := stored db
  completed := ⟨id,fun _ => .refl _⟩
  observed := ⟨id,fun _ => .refl _⟩
  evaluated := isComplete
  covers := fun _ _ hevent hkind hid => mem_isComplete.mpr ⟨hevent,hkind,hid⟩

def sourceRow (id : ℕ) (parent : Option ℕ) : IngestionSource :=
  { Lookup.regularSource id with parent_source_id := parent }

def completion (id source : ℕ) (detail : List (Str × Json)) (occurred_at : ℤ) : Event where
  id := id
  entity_type := ingestionSource
  entity_id := Uuid.str source
  event_type := INGESTION_COMPLETE
  status := "success".toList
  detail := .obj detail
  occurred_at := occurred_at

def wrapped (events : List Event) (h : (events.map (·.id)).Nodup) : Tables where
  sources := ⟨[sourceRow 1 none,sourceRow 2 (some 1)],by decide⟩
  datasets := ⟨[],by decide⟩
  events := ⟨events,h⟩
  uuids := by
    intro source hsource
    have hrow : source = sourceRow 1 none ∨ source = sourceRow 2 (some 1) := by
      simpa using hsource
    rcases hrow with rfl | rfl
    · decide
    · decide

theorem regular_one (events : List Event) (h : (events.map (·.id)).Nodup) :
    Regular (wrapped events h) [Uuid.str 1] := by
  intro s hs
  rw [List.mem_singleton.mp hs]
  exact ⟨sourceRow 1 none,List.mem_cons_self,rfl,rfl⟩

def sampleRuns : Tables :=
  wrapped [completion 1 2 [] 5,completion 2 1 [("dry_run".toList,.bool true)] 9,
    completion 3 2 [("source".toList,.str passiveOperation),(DATASET_URN,.str ['u'])] 4] (by decide)

theorem latest_ingestion_evidence_sample :
    (∀ s ∈ [Uuid.str 1], ∀ urn, ∃ records, FullFeed (storedPlan sampleRuns).toReads s urn records) ∧
      (CompleteLaw (storedPlan sampleRuns) [Uuid.str 1] ↔
        [Uuid.str 1] = [] ∨ Casts (storedPlan sampleRuns) [Uuid.str 1]) ∧
      (∀ urn, urn ≠ [] → ObservedLaw (storedPlan sampleRuns) [Uuid.str 1] urn) ∧
      ∀ s, (latest_ingestion_observed_by_dataset (storedPlan sampleRuns) [Uuid.str 1]).lookup
        (s,[]) = none :=
  latest_ingestion_evidence (storedPlan sampleRuns) [Uuid.str 1] (regular_one _ _)

/-- The wrapper's run counts for the source, the dry run does not. -/
example : (latest_ingestion_complete_by_source (storedPlan sampleRuns) [Uuid.str 1]).toOption.map
    (fun latest => latest.lookup (Uuid.str 1)) = some (some 5) := by decide +kernel

def unnamed : Event :=
  completion 1 1 [("source".toList,.str passiveOperation),(DATASET_URN,.str [])] 7

def garbled : Event := completion 1 1 [("dry_run".toList,.str "maybe".toList)] 7

/-- An observation of the empty URN is in the feed and not in the batch, and a `dry_run` that is
no boolean stops the batch. -/
theorem unnamed_or_garbled :
    ¬ ObservedLaw (storedPlan (wrapped [unnamed] (by decide))) [Uuid.str 1] [] ∧
      ¬ CompleteLaw (storedPlan (wrapped [garbled] (by decide))) [Uuid.str 1] := by
  constructor
  · intro hlaw
    have hsource : sourceRow 1 none ∈ (wrapped [unnamed] (by decide)).sources.rows :=
      List.mem_cons_self
    have hfull : FullFeed (stored (wrapped [unnamed] (by decide))) (Uuid.str 1) (some [])
        _ := (fullFeed_iff hsource).mpr rfl
    have hset := hlaw (Uuid.str 1) List.mem_cons_self _ hfull
    rw [observed_empty_urn (regular_one _ _)] at hset
    have hin : InFeed (stored (wrapped [unnamed] (by decide))) (sourceRow 1 none) (some [])
        unnamed := by
      refine ⟨rfl,.inl rfl,starts_ingestion rfl,fun urn hurn u hu => ?_⟩
      have hu' : some [] = some u := hu
      rw [hurn] at hu'
      exact (Option.some.inj hu').symm
    have hmem := (mem_fullFeed hsource hfull).mpr ⟨unnamed,List.mem_cons_self,hin,rfl⟩
    have hobserved : Observed (storedPlan (wrapped [unnamed] (by decide))).text []
        (shown (sourceRow 1 none) unnamed) :=
      ⟨rfl,⟨passiveOperation,List.mem_cons_self,rfl⟩,rfl⟩
    exact Set.eq_empty_iff_forall_notMem.mp hset 7 ⟨_,hmem,hobserved,rfl⟩
  · intro hlaw
    have hregular := regular_one [garbled] (by decide)
    rcases (completeLaw_iff hregular).mp hlaw with hnil | hcasts
    · cases hnil
    · have hsource : sourceRow 1 none ∈ (wrapped [garbled] (by decide)).sources.rows :=
        List.mem_cons_self
      have howner := (lookup_owner_iff (stored (wrapped [garbled] (by decide))) hregular hsource
        List.mem_cons_self).mpr (Or.inl rfl : Belongs _ (sourceRow 1 none) garbled)
      have hread := mem_isComplete.mpr ⟨(rfl : garbled.event_type = INGESTION_COMPLETE),
        (rfl : garbled.entity_type = ingestionSource),mem_owner_keys.mpr ⟨_,howner⟩⟩
      exact hcasts garbled List.mem_cons_self hread (by decide)

end Laws

end Feed
end Ingestion
end Dataspoke
