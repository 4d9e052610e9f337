import Dataspoke.Sweep

/-!
# Steps 2 to 4 again

The registry and the mappings under a second run of the steps that wrote them.
-/

namespace Dataspoke

namespace Registry

open Python

/-- A row without the times of its sync and of its update. -/
def DatasetRegistry.unsynced (row : DatasetRegistry) : DatasetRegistry :=
  { row with attrs_synced_at := none, updated_at := 0 }

/-- A reconcile that changes nothing. -/
structure Unchanged (db : Db) (r : Db × ReconcileCounts) : Prop where
  rows : r.1 = db
  inserted : r.2.inserted = 0
  marked_true : r.2.marked_true = 0
  marked_false : r.2.marked_false = 0

section Again

variable {now now' : ℕ} {db : Db} {urns : List Str}

theorem registerUrn_unchanged {s : Db × ReconcileCounts} {urn : Str} (hr : Registered db urn)
    (hs : Unchanged db s) : Unchanged db (registerUrn now db s urn) := by
  obtain ⟨row,hrow,hflag⟩ := Option.map_eq_some_iff.mp hr
  rw [registerUrn,hrow]
  dsimp only
  rw [if_pos hflag]
  exact ⟨hs.rows,hs.inserted,hs.marked_true,hs.marked_false⟩

/-- A reconcile with the datasets that are registered. -/
theorem reconcile_registry_unchanged (h : urns ≠ [] → ∀ u, Registered db u ↔ u ∈ urns) :
    Unchanged db (reconcile_registry now db urns) := by
  by_cases hne : urns = []
  · rw [hne,reconcile_registry_nil]
    exact ⟨rfl,rfl,rfl,rfl⟩
  · have ha : Unchanged db (urns.dedup.foldl (registerUrn now db) (db,⟨0,0,0,0⟩)) :=
      Fold.foldl_invariant (I:=Unchanged db)
        (fun s urn hurn hs =>
          registerUrn_unchanged ((h hne urn).mpr (List.mem_dedup.mp hurn)) hs)
        ⟨rfl,rfl,rfl,rfl⟩
    rw [reconcile_registry,if_neg (by simpa using hne)]
    refine Fold.foldl_invariant (I:=Unchanged db) (fun s row hrow hs => ?_) ha
    rw [List.mem_filter,decide_eq_true_iff] at hrow
    have hoff : ¬ row.datahub_registered = true := by
      intro hon
      refine hrow.2 ((h hne _).mp ?_)
      rw [Registered,flag?_row hrow.1,hon]
    rw [deregisterRow,if_neg hoff]
    exact hs

/-- The row of a dataset after a record of it. -/
def attributedRow (now : ℕ) (record : DatasetAttributes) :
    Option DatasetRegistry → DatasetRegistry
  | none => ⟨record.dataset_urn,false,record.origin,record.platform_urn,record.tag_urns,
      record.glossary_term_urns,record.is_primary,some now,now,now⟩
  | some row => { row with
      origin := record.origin, platform_urn := record.platform_urn
      tag_urns := record.tag_urns, glossary_term_urns := record.glossary_term_urns
      is_primary := record.is_primary, attrs_synced_at := some now, updated_at := now }

/-- A later record hides an earlier one. -/
theorem attributedRow_attributedRow (record record' : DatasetAttributes)
    (hurn : record.dataset_urn = record'.dataset_urn) (old : Option DatasetRegistry) :
    attributedRow now record' (some (attributedRow now record old)) =
      attributedRow now record' old := by
  cases old with
  | none => simp [attributedRow,hurn]
  | some row => rfl

theorem attributedRow_again (record : DatasetAttributes) (old : Option DatasetRegistry) :
    (attributedRow now' record (some (attributedRow now record old))).unsynced =
      (attributedRow now record old).unsynced := by
  cases old <;> rfl

theorem upsertAttributes_get? (record : DatasetAttributes) (u : Str) :
    (upsertAttributes now db record).get? u =
      if record.dataset_urn = u then some (attributedRow now record (db.get? u))
      else db.get? u := by
  by_cases hu : record.dataset_urn = u
  · subst hu
    rw [if_pos rfl,upsertAttributes]
    cases hrow : db.get? record.dataset_urn with
    | none => simp [attributedRow]
    | some row => simp [attributedRow,(Table.get?_eq_some.mp hrow).2]
  · rw [if_neg hu,upsertAttributes_get?_of_ne hu]

/-- The last record of a dataset. -/
def lastRecord (records : List DatasetAttributes) (u : Str) : Option DatasetAttributes :=
  records.reverse.find? (·.dataset_urn = u)

theorem lastRecord_snoc (records : List DatasetAttributes) (record : DatasetAttributes)
    (u : Str) : lastRecord (records ++ [record]) u =
      if record.dataset_urn = u then some record else lastRecord records u := by
  rw [lastRecord,List.reverse_append,List.reverse_singleton,List.singleton_append,List.find?_cons]
  by_cases hu : record.dataset_urn = u <;> simp [hu,lastRecord]

theorem foldl_upsertAttributes_get? (records : List DatasetAttributes) (u : Str) :
    (records.foldl (upsertAttributes now) db).get? u =
      match lastRecord records u with
      | none => db.get? u
      | some record => some (attributedRow now record (db.get? u)) := by
  induction records using List.reverseRecOn with
  | nil => rfl
  | append_singleton records record ih =>
    rw [List.foldl_append,List.foldl_cons,List.foldl_nil,upsertAttributes_get?,lastRecord_snoc,ih]
    by_cases hu : record.dataset_urn = u
    · rw [if_pos hu,if_pos hu]
      cases hlast : lastRecord records u with
      | none => rfl
      | some last =>
        have hurn : last.dataset_urn = u := by simpa using List.find?_some hlast
        simp [attributedRow_attributedRow last record (hurn.trans hu.symm)]
    · rw [if_neg hu,if_neg hu]

/-- The same records write only the times. -/
theorem upsert_dataset_attributes_again (records : List DatasetAttributes) :
    Table.Same DatasetRegistry.unsynced (upsert_dataset_attributes now db records none).1
      (upsert_dataset_attributes now' (upsert_dataset_attributes now db records none).1 records
        none).1 := by
  intro u
  rw [upsert_dataset_attributes_fst,upsert_dataset_attributes_fst,foldl_upsertAttributes_get?,
    foldl_upsertAttributes_get?]
  cases lastRecord (records.filter (datasetUrnRe ·.dataset_urn)) u with
  | none => rfl
  | some record => exact congrArg some (attributedRow_again record (db.get? u))

theorem upsert_dataset_attributes_registered (records : List DatasetAttributes)
    (synced_at : Option ℕ) (u : Str) :
    Registered (upsert_dataset_attributes now db records synced_at).1 u ↔ Registered db u := by
  have hlaw := @attributes_lawful now db records synced_at
  cases hu : flag? db u with
  | none =>
    have hno : ¬ Registered db u := by
      rw [Registered,hu]
      intro h
      cases h
    exact iff_of_false (hlaw.new u hu) hno
  | some b => rw [Registered,Registered,hlaw.flag u b hu,hu]

end Again

end Registry

namespace Ingestion

open Python

/-- A row without the time of its last sighting. -/
def IngestionSourceDataset.unseen (row : IngestionSourceDataset) : IngestionSourceDataset :=
  { row with last_seen_at := 0 }

section Registry

variable {now now' : ℕ} {estate : Estate} {urns : List Str}

theorem sync_dataset_attributes_registered (db : Registry.Db) (u : Str) :
    Registry.Registered (sync_dataset_attributes now estate db).1 u ↔
      Registry.Registered db u := by
  rw [sync_dataset_attributes]
  split
  · rfl
  · exact Registry.upsert_dataset_attributes_registered _ _ u

theorem sync_dataset_attributes_again (db : Registry.Db) :
    Table.Same Registry.DatasetRegistry.unsynced (sync_dataset_attributes now estate db).1
      (sync_dataset_attributes now' estate (sync_dataset_attributes now estate db).1).1 := by
  simp only [sync_dataset_attributes]
  split
  · exact .refl _ _
  · exact Registry.upsert_dataset_attributes_again _

/-- Steps 2b and 3 leave a registry that a second reconcile does not change. -/
theorem reconcile_registry_again (db : Registry.Db) :
    Registry.Unchanged
      (sync_dataset_attributes now estate (Registry.reconcile_registry now db urns).1).1
      (Registry.reconcile_registry now'
        (sync_dataset_attributes now estate (Registry.reconcile_registry now db urns).1).1
        urns) := by
  refine Registry.reconcile_registry_unchanged fun hne u => ?_
  rw [sync_dataset_attributes_registered,Registry.reconcile_registry_registered db hne]

end Registry

section Mappings

variable {env : Runtime} {now now' : ℕ} {urns : List Str} {sources : Sources}
  {mappings mappings' : Mappings}

/-- A second step 2 has nothing to insert and nothing to prune. -/
structure Settled (env : Runtime) (urns : List Str) (sources : Sources) (mappings : Mappings) :
    Prop where
  stored : ∀ src ∈ sources.rows, ∀ urn ∈ (evaluate env urns src.recipe).1,
    mappings.get? (src.id,urn) ≠ none
  matched : ∀ src ∈ sources.rows, ∀ urn row, mappings.get? (src.id,urn) = some row →
    row.derivation = .matched →
      urn ∈ (evaluate env urns src.recipe).1 ∨ (evaluate env urns src.recipe).2 = true

theorem sweepMappings_settled :
    Settled env urns sources (sweepMappings env now urns sources.snapshot mappings).1 := by
  constructor
  case stored =>
    intro src hsrc urn hurn
    rw [sweepMappings_of_mem hsrc rfl]
    cases mappings.get? (src.id,urn) with
    | none => simp [reconciled,hurn]
    | some row =>
      by_cases hm : row.derivation = .matched <;> simp [reconciled,hurn,hm]
  case matched =>
    intro src hsrc urn row hrow hm
    rw [sweepMappings_of_mem hsrc rfl] at hrow
    by_contra hno
    rw [not_or,Bool.not_eq_true] at hno
    exact hno.1 ((reconciled_matched hno.2).mp ⟨row,hrow,hm⟩).1

/-- The row of a settled pair keeps all but its time. -/
theorem Settled.reconciled (hs : Settled env urns sources mappings) {src : IngestionSource}
    (hsrc : src ∈ sources.rows) (urn : Str) :
    (reconciled now (src.id,urn) (evaluate env urns src.recipe)
        (mappings.get? (src.id,urn))).map IngestionSourceDataset.unseen =
      (mappings.get? (src.id,urn)).map IngestionSourceDataset.unseen := by
  have hstored := hs.stored src hsrc urn
  have hmatched := hs.matched src hsrc urn
  cases hrow : mappings.get? (src.id,urn) with
  | none =>
    have hno : urn ∉ (evaluate env urns src.recipe).1 := fun hin => hstored hin hrow
    simp [Ingestion.reconciled,hno]
  | some row =>
    by_cases hm : row.derivation = .matched
    · by_cases hin : urn ∈ (evaluate env urns src.recipe).1
      · simp [Ingestion.reconciled,hm,hin,IngestionSourceDataset.unseen]
      · have hd := (hmatched row hrow hm).resolve_left hin
        simp [Ingestion.reconciled,hm,hin,hd]
    · simp [Ingestion.reconciled,hm]

theorem Settled.again (hs : Settled env urns sources mappings) :
    Table.Same IngestionSourceDataset.unseen mappings
      (sweepMappings env now urns sources.snapshot mappings).1 := by
  intro k
  rcases sweepMappings_get? k with ⟨src,hsrc,hid,hget⟩ | ⟨-,hget⟩
  · have hk : k = (src.id,k.2) := Prod.ext hid rfl
    rw [hget,hk,hs.reconciled hsrc]
  · rw [hget]

theorem Settled.datasets_mapped (hs : Settled env urns sources mappings) :
    (sweepMappings env now urns sources.snapshot mappings).2.datasets_mapped = 0 := by
  rw [sweepMappings,foldl_mapSource_datasets_mapped sources.snapshot_nodup,Nat.zero_add,
    List.countP_eq_zero]
  intro k hk
  obtain ⟨_,hsnap,hid,hurn⟩ := mem_matchedKeys.mp hk
  obtain ⟨src,hsrc,rfl⟩ := Sources.mem_snapshot.mp hsnap
  have hk : k = (src.id,k.2) := Prod.ext hid rfl
  rw [hk]
  simpa using hs.stored src hsrc k.2 hurn

variable {snapshot : List SweepSource} {pipeline_map : List (Str × Option Str)}

theorem promote_key (r r' : IngestionSourceDataset) (h : promote now r = some r') :
    r'.key = r.key := by
  rw [promote] at h
  split at h
  · cases h
    rfl
  · cases h

theorem promote_idem (k : ℕ × Str) (o : Option IngestionSourceDataset) :
    Table.merged (newMapping now .pipeline_name k) (promote now)
      (some (Table.merged (newMapping now .pipeline_name k) (promote now) o)) =
    Table.merged (newMapping now .pipeline_name k) (promote now) o := by
  cases o with
  | none => simp [Table.merged,promote,newMapping]
  | some r => by_cases he : r.derivation = .emitted <;> simp [Table.merged,promote,he]

theorem linkPipelines_get? (k : ℕ × Str) :
    (linkPipelines env now snapshot pipeline_map mappings).1.get? k =
      if k ∈ linkedPairs env snapshot pipeline_map then
        some (Table.merged (newMapping now .pipeline_name k) (promote now) (mappings.get? k))
      else mappings.get? k := by
  rw [linkPipelines,Table.get?_upserts (fun _ => rfl) promote_key promote_idem]
  by_cases hk : k ∈ linkedPairs env snapshot pipeline_map
  · rw [if_pos hk,if_pos hk]
  · rw [if_neg hk,if_neg hk]

/-- A pair that step 4 writes is no longer a matched one. -/
theorem merged_promote (k : ℕ × Str) (o : Option IngestionSourceDataset) :
    (Table.merged (newMapping now .pipeline_name k) (promote now) o).derivation ≠ .matched := by
  cases o with
  | none => simp [Table.merged,newMapping]
  | some r => by_cases he : r.derivation = .emitted <;> simp [Table.merged,promote,he]

theorem Settled.linkPipelines (hs : Settled env urns sources mappings) :
    Settled env urns sources (linkPipelines env now snapshot pipeline_map mappings).1 := by
  constructor
  case stored =>
    intro src hsrc urn hurn
    rw [linkPipelines_get?]
    split
    · simp
    · exact hs.stored src hsrc urn hurn
  case matched =>
    intro src hsrc urn row hrow hm
    rw [linkPipelines_get?] at hrow
    split at hrow
    · rw [← Option.some.inj hrow] at hm
      exact absurd hm (merged_promote _ _)
    · exact hs.matched src hsrc urn row hrow hm

/-- Every pair that step 4 writes has a row that is no matched one. -/
def LinksStored (env : Runtime) (snapshot : List SweepSource)
    (pipeline_map : List (Str × Option Str)) (mappings : Mappings) : Prop :=
  ∀ k ∈ linkedPairs env snapshot pipeline_map,
    ∃ row, mappings.get? k = some row ∧ row.derivation ≠ .matched

theorem linkPipelines_stored : LinksStored env snapshot pipeline_map
    (linkPipelines env now snapshot pipeline_map mappings).1 := by
  intro k hk
  exact ⟨_,by rw [linkPipelines_get?,if_pos hk],merged_promote _ _⟩

theorem LinksStored.congr (hl : LinksStored env snapshot pipeline_map mappings)
    (h : Table.Same IngestionSourceDataset.unseen mappings mappings') :
    LinksStored env snapshot pipeline_map mappings' := by
  intro k hk
  obtain ⟨row,hrow,hd⟩ := hl k hk
  have hsame := h k
  rw [hrow] at hsame
  obtain ⟨row',hrow',he⟩ := Option.map_eq_some_iff.mp hsame
  refine ⟨row',hrow',?_⟩
  have hder : row'.unseen.derivation = row.unseen.derivation := by rw [he]
  show row'.unseen.derivation ≠ .matched
  rwa [hder]

theorem LinksStored.again (hl : LinksStored env snapshot pipeline_map mappings) :
    Table.Same IngestionSourceDataset.unseen mappings
      (linkPipelines env now snapshot pipeline_map mappings).1 := by
  intro k
  rw [linkPipelines_get?]
  split
  · rename_i hk
    obtain ⟨row,hrow,hd⟩ := hl k hk
    rw [hrow]
    cases hder : row.derivation with
    | matched => exact absurd hder hd
    | emitted => simp [Table.merged,promote,hder]
    | pipeline_name => simp [Table.merged,promote,hder,IngestionSourceDataset.unseen]
  · rfl

/-- The source of a pair of step 4 has a pipeline name. -/
theorem pipelineOf_of_mem {k : ℕ × Str} (hk : k ∈ linkedPairs env snapshot pipeline_map) :
    ∃ src ∈ snapshot, src.id = k.1 ∧ (pipelineOf env snapshot src).isSome = true := by
  obtain ⟨item,-,hk⟩ := List.mem_flatMap.mp hk
  obtain ⟨dataset_urn,pipeline_name⟩ := item
  cases pipeline_name with
  | none => cases hk
  | some name =>
    dsimp only at hk
    split at hk
    · cases hk
    · obtain ⟨src,hsrc,rfl⟩ := List.mem_map.mp hk
      rw [List.mem_filter,decide_eq_true_iff] at hsrc
      exact ⟨src,hsrc.1,rfl,by rw [hsrc.2]; rfl⟩

theorem LinksStored.count (hl : LinksStored env snapshot pipeline_map mappings) :
    (linkPipelines env now snapshot pipeline_map mappings).2 = 0 := by
  refine Table.upserts_snd_eq (fun _ => rfl) promote_key fun k hk => ?_
  obtain ⟨row,hrow,hd⟩ := hl k hk
  cases hder : row.derivation with
  | matched => exact absurd hder hd
  | emitted => exact .inr ⟨row,hrow,by simp [promote,hder]⟩
  | pipeline_name =>
    left
    obtain ⟨src,hsrc,hid,hsome⟩ := pipelineOf_of_mem hk
    obtain ⟨hmem,hkey⟩ := Table.get?_eq_some.mp hrow
    have hsource : row.source_id = src.id := (congrArg Prod.fst hkey).trans hid.symm
    rw [decide_eq_false_iff_not,not_not,existingPipelineKeys,List.mem_map]
    refine ⟨row,List.mem_filter.mpr ⟨hmem,?_⟩,hkey⟩
    simp only [hsource,hder,List.mem_map,List.mem_filter,decide_true,Bool.and_true,
      decide_eq_true_iff]
    exact ⟨src,⟨hsrc,hsome⟩,rfl⟩

end Mappings

end Ingestion
end Dataspoke
