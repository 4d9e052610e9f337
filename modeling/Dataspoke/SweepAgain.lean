import Dataspoke.SweepSourcesAgain
import Dataspoke.SweepTablesAgain

/-!
# The sweep again

A second sweep of the same estate. It finds every source, mapping, link and event of the first
one, and writes only times.
-/

namespace Dataspoke
namespace Ingestion

open Python

section Events

variable {now now' : ℕ} {responses : Responses} {sources : List SweepSource}
  {mappings mappings' : Mappings} {events events' : List Event} {id : ℕ}

/-- An instant that is rejected, and that time alone makes acceptable. -/
def Future (now : ℕ) (v : Json) : Prop :=
  ∃ ms, v = .num (.fin ms) ∧ now+maxSkew < roundHalfEven (ms*1000) ∧
    roundHalfEven (ms*1000) ≤ maxInstant

/-- No instant of the responses is in the future. -/
structure NoFuture (now : ℕ) (responses : Responses) : Prop where
  executions : ∀ id requests, responses.executions id = some requests → ∀ req ∈ requests,
    ¬ Future now req.startTimeMs ∧ ¬ Future now req.requestedAt
  operations : ∀ id urn ops, responses.operations id urn = some ops → ∀ op ∈ ops,
    ¬ Future now op.lastUpdatedTimestamp
  last_ingested : ∀ items, responses.last_ingested = .read items → ∀ item ∈ items,
    ¬ Future now item.2

theorem observed_at_later (hle : now ≤ now') {v : Json} (hf : ¬ Future now v) :
    observed_at now' v = observed_at now v := by
  cases v with
  | num x =>
    cases x with
    | fin ms =>
      rw [observed_at,observed_at]
      by_cases hpos : ms ≤ 0
      · rw [if_pos hpos,if_pos hpos]
      rw [if_neg hpos,if_neg hpos]
      by_cases hmax : maxInstant < roundHalfEven (ms*1000)
      · rw [if_pos hmax,if_pos hmax]
      rw [if_neg hmax,if_neg hmax]
      have hnow : ¬ (now+maxSkew < roundHalfEven (ms*1000)) :=
        fun h => hf ⟨ms,rfl,h,not_lt.mp hmax⟩
      have hnow' : ¬ (now'+maxSkew < roundHalfEven (ms*1000)) := by omega
      rw [if_neg hnow,if_neg hnow']
    | _ => rfl
  | _ => rfl

theorem NoFuture.requestAccepted (hf : NoFuture now responses) (hle : now ≤ now')
    {requests : List ExecutionRequest} (hr : responses.executions id = some requests)
    {req : ExecutionRequest} (hreq : req ∈ requests) :
    RequestAccepted now' req ↔ RequestAccepted now req := by
  obtain ⟨hstart,hrequested⟩ := hf.executions id requests hr req hreq
  rw [RequestAccepted,RequestAccepted,requestInstant,requestInstant,observed_at_later hle hstart,
    observed_at_later hle hrequested]

/-- A request that is booked, or is not accepted, adds nothing. -/
theorem mirrorRequest_booked_eq {acc : List Event × ℕ} {req : ExecutionRequest}
    (h : RequestAccepted now req → (id,req.urn) ∈ acc.1.filterMap runKey) :
    mirrorRequest now id acc req = acc := by
  rcases mirrorRequest_cases acc req with ⟨he,-⟩ | ⟨_,_,⟨ha,hnew⟩,-⟩
  · exact he
  · exact absurd (h ha) hnew

theorem bookObservations_booked_eq {source : Str} (hs : source ∈ observationSources)
    {os : List Observation} {acc : List Event × ℕ}
    (h : ∀ o ∈ os, (id,o.dataset_urn,o.occurred_at,source) ∈ acc.1.filterMap observationKey) :
    bookObservations id source os acc = acc := by
  have hnone : os.filter (fun o => decide (o.key ∉ existing_observation_keys acc.1 id
      (os.map (·.occurred_at)) source)) = [] := by
    refine List.filter_eq_nil_iff.mpr fun o ho => ?_
    rw [decide_eq_true_iff,not_not,mem_existing_observation_keys hs]
    exact ⟨List.mem_map.mpr ⟨o,ho,rfl⟩,h o ho⟩
  rw [bookObservations]
  rw [hnone]
  simp

/-- The observation is of an operation of a mapped dataset. -/
def Observed (now : ℕ) (responses : Responses) (mappings : Mappings) (id : ℕ)
    (o : Observation) : Prop :=
  ∃ row ∈ mappings.rows, row.source_id = id ∧ row.dataset_urn = o.dataset_urn ∧
    ∃ ops, responses.operations id o.dataset_urn = some ops ∧
      ∃ op ∈ ops, OperationAccepted now op o.occurred_at

theorem mem_mappedDatasets {urn : Str} : urn ∈ mappedDatasets mappings id ↔
    ∃ row ∈ mappings.rows, row.source_id = id ∧ row.dataset_urn = urn := by
  simp only [mappedDatasets,List.mem_map,List.mem_filter,decide_eq_true_iff,and_assoc]

theorem observed_of_collected {o : Observation}
    (ho : o ∈ collected now responses mappings id) : Observed now responses mappings id o := by
  let I (os : List Observation) : Prop := ∀ o ∈ os, Observed now responses mappings id o
  have hall : I (collected now responses mappings id) := by
    refine Fold.foldl_invariant (I:=I) (fun os urn hurn hos => ?_) (by simp [I])
    rw [collectOperations]
    refine Fold.foldl_invariant (I:=I) (fun os op hop hos => ?_) hos
    rw [collectOperation]
    split
    · rename_i op_type at_ hty hat
      split
      · split
        · exact hos
        · intro o ho
          rcases List.mem_append.mp ho with ho | ho
          · exact hos o ho
          · obtain rfl := List.mem_singleton.mp ho
            obtain ⟨row,hrow,hid,hrurn⟩ := mem_mappedDatasets.mp hurn
            cases hops : responses.operations id urn with
            | none => simp [hops] at hop
            | some ops =>
              rw [hops] at hop
              exact ⟨row,hrow,hid,hrurn,ops,hops,op,hop,⟨op_type,hty,‹_›⟩,hat⟩
      · exact hos
    · exact hos
  exact hall o ho

theorem observed_of_lastIngested {items : List (Str × Json)} {o : Observation}
    (ho : o ∈ lastIngestedObservations now items mappings id) :
    ∃ row ∈ mappings.rows, row.source_id = id ∧ row.dataset_urn = o.dataset_urn ∧
      ∃ ms, get? o.dataset_urn items = some ms ∧ observed_at now ms = some o.occurred_at := by
  obtain ⟨urn,hurn,ho⟩ := List.mem_filterMap.mp ho
  obtain ⟨ms,hms,ho⟩ := Option.bind_eq_some_iff.mp ho
  obtain ⟨at_,hat,rfl⟩ := Option.map_eq_some_iff.mp ho
  obtain ⟨row,hrow,hid,hrurn⟩ := mem_mappedDatasets.mp hurn
  exact ⟨row,hrow,hid,hrurn,ms,hms,hat⟩

/-- The pairs of the later mappings are mapped already. -/
def KeysWithin (mappings' mappings : Mappings) : Prop :=
  ∀ row' ∈ mappings'.rows, ∃ row ∈ mappings.rows, row.source_id = row'.source_id ∧
    row.dataset_urn = row'.dataset_urn

theorem keysWithin_of_same (h : Table.Same IngestionSourceDataset.unseen mappings mappings') :
    KeysWithin mappings' mappings := by
  intro row' hrow'
  have hsame := h row'.key
  rw [Table.mem_rows.mp hrow',Option.map_some] at hsame
  obtain ⟨row,hrow,-⟩ := Option.map_eq_some_iff.mp hsame.symm
  obtain ⟨hmem,hkey⟩ := Table.get?_eq_some.mp hrow
  obtain ⟨hid,hurn⟩ := Prod.mk.inj hkey
  exact ⟨row,hmem,hid,hurn⟩

variable (hb : Booked now responses sources mappings events) (hf : NoFuture now responses)
  (hle : now ≤ now') (hk : KeysWithin mappings' mappings)
include hb hf hle

theorem mirror_again {src : SweepSource} (hsrc : src ∈ sources) (hm : mirrored src = true) (n : ℕ) :
    mirror_execution_requests now' responses src.id (events,n) = (events,n) := by
  rw [mirror_execution_requests]
  split
  · rfl
  · rename_i requests hr
    refine Fold.foldl_invariant (I:=(· = (events,n))) (fun acc req hreq hacc => ?_) rfl
    rw [hacc]
    refine mirrorRequest_booked_eq fun ha => ?_
    exact hb.runs src hsrc hm requests hr req hreq ((hf.requestAccepted hle hr hreq).mp ha)

include hk

theorem observe_passive_again {src : SweepSource} (hsrc : src ∈ sources) (hm : src.mode = .PASSIVE)
    (n : ℕ) : observe_passive_operations now' responses mappings' src.id (events,n) = (events,n) := by
  refine bookObservations_booked_eq passiveOperation_mem fun o ho => ?_
  obtain ⟨row',hrow',hid',hurn',ops,hops,op,hop,ha⟩ := observed_of_collected ho
  obtain ⟨row,hrow,hid,hurn⟩ := hk row' hrow'
  rw [hid'] at hid
  rw [hurn'] at hurn
  rw [OperationAccepted,observed_at_later hle (hf.operations _ _ ops hops op hop)] at ha
  rw [← hurn] at hops ⊢
  exact hb.operations src hsrc hm row hrow hid ops hops op hop _ ha

theorem observe_last_again {items : List (Str × Json)} (hread : responses.last_ingested = .read items)
    {src : SweepSource} (hsrc : src ∈ sources) (hp : src.parent_source_id = none) (n : ℕ) :
    observe_last_ingested_for_source now' items mappings' src.id (events,n) = (events,n) := by
  refine bookObservations_booked_eq lastIngested_mem fun o ho => ?_
  obtain ⟨row',hrow',hid',hurn',ms,hms,ha⟩ := observed_of_lastIngested ho
  obtain ⟨row,hrow,hid,hurn⟩ := hk row' hrow'
  rw [hid'] at hid
  rw [hurn'] at hurn
  rw [observed_at_later hle (hf.last_ingested items hread _ (mem_of_get? hms))] at ha
  rw [← hurn] at hms ⊢
  exact hb.last_ingested items hread src hsrc hp row hrow hid ms hms _ ha

theorem sweepRuns_again : sweepRuns now' responses sources mappings' events = (events,0) := by
  rw [sweepRuns]
  refine Fold.foldl_invariant (I:=(· = (events,0))) (fun acc src hsrc hacc => ?_) ?_
  · rw [List.mem_filter,decide_eq_true_iff] at hsrc
    rw [hacc]
    exact observe_passive_again hb hf hle hk hsrc.1 hsrc.2 0
  · refine Fold.foldl_invariant (I:=(· = (events,0))) (fun acc src hsrc hacc => ?_) rfl
    rw [List.mem_filter] at hsrc
    rw [hacc]
    exact mirror_again hb hf hle hsrc.1 hsrc.2 0

/-- The last pass raises as before, and books nothing. -/
theorem observe_last_ingested_again :
    observe_last_ingested now' responses sources mappings' events =
      (observe_last_ingested now responses sources mappings events').map fun _ => (events,0) := by
  rw [observe_last_ingested,observe_last_ingested]
  split
  · rfl
  · split
    · rfl
    · rfl
    · rename_i items hread
      rw [Option.map_some,Option.some.injEq]
      refine Fold.foldl_invariant (I:=(· = (events,0))) (fun acc src hsrc hacc => ?_) rfl
      rw [List.mem_filter,Option.isNone_iff_eq_none] at hsrc
      rw [hacc]
      exact observe_last_again hb hf hle hk hread hsrc.1 hsrc.2 0

/-- Step 5 again raises as before, and books nothing. -/
theorem sweepEvents_again :
    sweepEvents now' responses sources mappings' events =
      (events,(sweepEvents now responses sources mappings events').2.map fun _ => ⟨0,0⟩) := by
  have hlast := fun events' => @observe_last_ingested_again now now' responses sources mappings
    mappings' events events' hb hf hle hk
  rw [sweepEvents,sweepRuns_again hb hf hle hk]
  dsimp only
  rw [hlast,sweepEvents]
  cases observe_last_ingested now responses sources mappings
    (sweepRuns now responses sources mappings events').1 with
  | none => rfl
  | some last => rfl

end Events

section Sweep

variable {env : Runtime} {now now' : ℕ} {estate : Estate} {s s' : Sources} {db d : Db}
  {urns : List Str} {mappings : Mappings}

theorem SameSources.snapshot (h : SameSources s s') : s'.snapshot = s.snapshot := by
  have hmap : ∀ s : Sources, s.snapshot =
      (s.rows.map IngestionSource.unstamped).map IngestionSource.snapshot := by
    intro s
    rw [List.map_map]
    rfl
  rw [hmap,h.rows,← hmap]

theorem Settled.congr (hs : Settled env urns s mappings) (h : SameSources s s') :
    Settled env urns s' mappings := by
  have hmem : ∀ src' ∈ s'.rows, ∃ src ∈ s.rows, src.id = src'.id ∧ src.recipe = src'.recipe := by
    intro src' hsrc'
    have hin : src'.snapshot ∈ s'.snapshot := Sources.mem_snapshot.mpr ⟨src',hsrc',rfl⟩
    rw [h.snapshot] at hin
    obtain ⟨src,hsrc,he⟩ := Sources.mem_snapshot.mp hin
    exact ⟨src,hsrc,congrArg SweepSource.id he,congrArg SweepSource.recipe he⟩
  constructor
  case stored =>
    intro src' hsrc'
    obtain ⟨src,hsrc,hid,hrecipe⟩ := hmem src' hsrc'
    rw [← hid,← hrecipe]
    exact hs.stored src hsrc
  case matched =>
    intro src' hsrc'
    obtain ⟨src,hsrc,hid,hrecipe⟩ := hmem src' hsrc'
    rw [← hid,← hrecipe]
    exact hs.matched src hsrc

theorem cascadeMappings_same (h : SameSources s s') (mappings : Mappings) :
    cascadeMappings s s' mappings = mappings := by
  have hany : ∀ (s : Sources) (id : ℕ),
      (s.rows.any fun row => row.id = id) = s.snapshot.any fun row => row.id = id := by
    intro s id
    rw [Sources.snapshot,List.any_map]
    rfl
  cases mappings
  rw [cascadeMappings,Table.remove,Table.mk.injEq]
  refine List.filter_eq_self.mpr fun row _ => ?_
  rw [hany,hany,h.snapshot,Bool.and_not_self]
  rfl

theorem stepSources_again (hd : d.sources = (stepSources env now estate db).1.sources) :
    ∃ s' res, stepSources env now' estate d = ({ d with sources := s' },res) ∧
      SameSources d.sources s' ∧
      (∀ e, (stepSources env now estate db).2 = .error e → ∃ e', res = .error e') ∧
      ∀ c, (stepSources env now estate db).2 = .ok c →
        ∃ c', res = .ok c' ∧ c'.sources_removed = 0 := by
  revert hd
  rw [stepSources,stepSources]
  cases estate.dh_sources with
  | none => exact fun _ => ⟨_,_,rfl,sameSources_refl _,fun _ _ => ⟨_,rfl⟩,fun _ h => by cases h⟩
  | some dh_sources =>
    intro hd
    dsimp only at hd ⊢
    have hagain := @sweepSources_again env now now' dh_sources db.sources
    rw [← hd] at hagain
    have hsame : SameSources d.sources (sweepSources env now' dh_sources d.sources).1 :=
      hd ▸ hagain.same
    refine ⟨_,_,by rw [cascadeMappings_same hsame],hsame,?_,?_⟩
    · intro e he
      cases hres : (sweepSources env now dh_sources db.sources).2 with
      | ok c =>
        rw [hres] at he
        cases he
      | error e =>
        obtain ⟨e',he'⟩ := hagain.error e hres
        exact ⟨_,by rw [he']⟩
    · intro c hc
      cases hres : (sweepSources env now dh_sources db.sources).2 with
      | error e =>
        rw [hres] at hc
        cases hc
      | ok c =>
        obtain ⟨c',hc',hnone⟩ := hagain.ok c hres
        exact ⟨c',by rw [hc'],hnone⟩

/-- What the steps on the datasets do the second time. -/
structure DatasetsAgain (d : Db) (r : Db × DatasetCounts) : Prop where
  sources : r.1.sources = d.sources
  mappings : Table.Same IngestionSourceDataset.unseen d.mappings r.1.mappings
  events : r.1.events = d.events
  registry : Table.Same Registry.DatasetRegistry.unsynced d.registry r.1.registry
  mapped : r.2.mapping.datasets_mapped = 0
  inserted : r.2.registry.inserted = 0
  marked_true : r.2.registry.marked_true = 0
  marked_false : r.2.registry.marked_false = 0

theorem stepDatasets_again (hs : Settled env urns d.sources d.mappings)
    (hr : d.registry = (stepDatasets env now estate urns db).1.registry) :
    DatasetsAgain d (stepDatasets env now' estate urns d) := by
  have hreconcile := @reconcile_registry_again now now' estate urns
    db.registry
  have hattributes := @sync_dataset_attributes_again now now' estate
    (Registry.reconcile_registry now db.registry urns).1
  rw [stepDatasets] at hr
  dsimp only at hr
  rw [← hr] at hreconcile hattributes
  constructor
  case sources => rfl
  case mappings => exact hs.again
  case events => rfl
  case registry =>
    rw [stepDatasets]
    dsimp only
    rw [hreconcile.rows]
    exact hattributes
  case mapped => exact hs.datasets_mapped
  case inserted => exact hreconcile.inserted
  case marked_true => exact hreconcile.marked_true
  case marked_false => exact hreconcile.marked_false

theorem stepLinks_settled (hs : Settled env urns db.sources db.mappings) :
    Settled env urns db.sources (stepLinks env now estate urns db).1.mappings := by
  rw [stepLinks]
  split
  · exact hs
  · split
    · exact hs
    · exact hs.linkPipelines

theorem stepLinks_frame : (stepLinks env now estate urns db).1.sources = db.sources ∧
    (stepLinks env now estate urns db).1.registry = db.registry := by
  rw [stepLinks]
  split
  · exact ⟨rfl,rfl⟩
  · split <;> exact ⟨rfl,rfl⟩

/-- Step 4 on the mappings that it has left. -/
theorem stepLinks_again (hsnap : d.sources.snapshot = db.sources.snapshot)
    (hm : Table.Same IngestionSourceDataset.unseen (stepLinks env now estate urns db).1.mappings
      d.mappings) :
    ∃ m, stepLinks env now' estate urns d =
      ({ d with mappings := m },(stepLinks env now estate urns db).2.map fun _ => 0) ∧
      Table.Same IngestionSourceDataset.unseen d.mappings m := by
  revert hm
  rw [stepLinks,stepLinks]
  split
  · exact fun _ => ⟨_,rfl,.refl _ _⟩
  · split
    · exact fun _ => ⟨_,rfl,.refl _ _⟩
    · intro hm
      have hstored := linkPipelines_stored.congr hm
      have hcount := @LinksStored.count env now' _ _ _ hstored
      rw [hsnap]
      dsimp only
      rw [hcount]
      exact ⟨_,rfl,hstored.again⟩

theorem stepEvents_again (hf : NoFuture now estate.responses) (hle : now ≤ now')
    (hsnap : d.sources.snapshot = db.sources.snapshot)
    (hm : Table.Same IngestionSourceDataset.unseen db.mappings d.mappings)
    (he : d.events = (stepEvents now estate db).1.events) :
    stepEvents now' estate d = (d,(stepEvents now estate db).2.map fun _ => ⟨0,0⟩) := by
  have hb : Booked now estate.responses d.sources.snapshot db.mappings d.events := by
    rw [he,hsnap]
    exact sweepEvents_booked
  rw [stepEvents,sweepEvents_again hb hf hle (keysWithin_of_same hm),hsnap]
  rfl

/-- How a sweep can end, and with which tables. -/
inductive Swept (env : Runtime) (now : ℕ) (estate : Estate) (db : Db) :
    Db × Except SweepFailure Summary → Prop
  | sources {d : Db} {e : SweepFailure} (h : stepSources env now estate db = (d,.error e)) :
      Swept env now estate db (d,.error e)
  | enumeration {d : Db} {c : SourceCounts} (h : stepSources env now estate db = (d,.ok c))
      (hu : estate.datasets = none) : Swept env now estate db (d,.error .enumeration)
  | links {d₁ d₂ d : Db} {c : SourceCounts} {urns : List Str} {n : DatasetCounts}
      (h : stepSources env now estate db = (d₁,.ok c)) (hu : estate.datasets = some urns)
      (hd : stepDatasets env now estate urns d₁ = (d₂,n))
      (hl : stepLinks env now estate urns d₂ = (d,none)) :
      Swept env now estate db (d,.error .pipelineNames)
  | events {d₁ d₂ d₃ d : Db} {c : SourceCounts} {urns : List Str} {n : DatasetCounts} {l : ℕ}
      (h : stepSources env now estate db = (d₁,.ok c)) (hu : estate.datasets = some urns)
      (hd : stepDatasets env now estate urns d₁ = (d₂,n))
      (hl : stepLinks env now estate urns d₂ = (d₃,some l))
      (he : stepEvents now estate d₃ = (d,none)) :
      Swept env now estate db (d,.error .interfaceError)
  | done {d₁ d₂ d₃ d : Db} {c : SourceCounts} {urns : List Str} {n : DatasetCounts} {l : ℕ}
      {e : EventCounts}
      (h : stepSources env now estate db = (d₁,.ok c)) (hu : estate.datasets = some urns)
      (hd : stepDatasets env now estate urns d₁ = (d₂,n))
      (hl : stepLinks env now estate urns d₂ = (d₃,some l))
      (he : stepEvents now estate d₃ = (d,some e)) :
      Swept env now estate db (d,.ok (summary ⟨c,n,l⟩ e))

theorem run_sweep_swept : Swept env now estate db (run_sweep env now estate db) := by
  rw [run_sweep,sweepTables]
  rcases h : stepSources env now estate db with ⟨d₁,e | c⟩
  · exact .sources h
  · cases hu : estate.datasets with
    | none => exact .enumeration h hu
    | some urns =>
      dsimp only
      rcases hd : stepDatasets env now estate urns d₁ with ⟨d₂,n⟩
      dsimp only
      rcases hl : stepLinks env now estate urns d₂ with ⟨d₃,_ | l⟩
      · exact .links h hu hd hl
      · dsimp only
        rcases he : stepEvents now estate d₃ with ⟨d,_ | e⟩
        · exact .events h hu hd hl he
        · exact .done h hu hd hl he

/-- The same tables, up to times. -/
structure SameTables (db db' : Db) : Prop where
  sources : SameSources db.sources db'.sources
  mappings : Table.Same IngestionSourceDataset.unseen db.mappings db'.mappings
  events : db'.events = db.events
  registry : Table.Same Registry.DatasetRegistry.unsynced db.registry db'.registry

structure Idle (s : Summary) : Prop where
  sources_removed : s.sources_removed = 0
  datasets_mapped : s.datasets_mapped = 0
  pipeline_links : s.pipeline_links = 0
  events_mirrored : s.events_mirrored = 0
  last_ingested_observed : s.last_ingested_observed = 0
  registry_inserted : s.registry_inserted = 0
  registry_marked_true : s.registry_marked_true = 0
  registry_marked_false : s.registry_marked_false = 0

structure SweptAgain (r r' : Db × Except SweepFailure Summary) : Prop where
  same : SameTables r.1 r'.1
  ok : (∃ s, r'.2 = .ok s) ↔ ∃ s, r.2 = .ok s
  idle : ∀ s, r'.2 = .ok s → Idle s

structure IdleTables (t : TableCounts) : Prop where
  sources_removed : t.sources.sources_removed = 0
  mapped : t.datasets.mapping.datasets_mapped = 0
  inserted : t.datasets.registry.inserted = 0
  marked_true : t.datasets.registry.marked_true = 0
  marked_false : t.datasets.registry.marked_false = 0
  pipeline_links : t.pipeline_links = 0

/-- The steps before the events, on a store that they have left. -/
theorem sweepTables_again {d₁ d₂ d₃ : Db} {c : SourceCounts} {n : DatasetCounts} {o : Option ℕ}
    (h : stepSources env now estate db = (d₁,.ok c)) (hu : estate.datasets = some urns)
    (hd : stepDatasets env now estate urns d₁ = (d₂,n))
    (hl : stepLinks env now estate urns d₂ = (d₃,o)) (hsources : d.sources = d₃.sources)
    (hmappings : d.mappings = d₃.mappings) (hregistry : d.registry = d₃.registry) :
    ∃ x res, sweepTables env now' estate d = (x,res) ∧ SameTables d x ∧
      (o = none → ∃ e, res = .error e) ∧ ∀ l, o = some l → ∃ t, res = .ok t ∧ IdleTables t := by
  have hframe := @stepLinks_frame env now estate d₂ urns
  have hsettled : Settled env urns d₂.sources d₂.mappings := by
    have hs := @sweepMappings_settled env now urns d₁.sources d₁.mappings
    rw [stepDatasets] at hd
    cases hd
    exact hs
  have hsettled' := @stepLinks_settled env now estate _ _ hsettled
  have hsources₂ : d₂.sources = d₁.sources := by
    rw [stepDatasets] at hd
    cases hd
    rfl
  rw [hl] at hframe hsettled'
  obtain ⟨s',res,hstep,hsame,-,hok⟩ := stepSources_again (d:=d) (by rw [h,hsources,hframe.1,hsources₂])
  obtain ⟨c',rfl,hremoved⟩ := hok c (by rw [h])
  have hagain := @stepDatasets_again env now now' estate d₁ { d with sources := s' } urns
    (by
      refine Settled.congr ?_ hsame
      rw [hsources,hmappings,hframe.1]
      exact hsettled')
    (by rw [hd]; exact hregistry.trans hframe.2)
  rcases hx : stepDatasets env now' estate urns { d with sources := s' } with ⟨x,n'⟩
  rw [hx] at hagain
  have hsnap : x.sources.snapshot = d₂.sources.snapshot := by
    rw [hagain.sources,hsame.snapshot,hsources,hframe.1]
  obtain ⟨m,hlinks,hm⟩ := stepLinks_again hsnap (by
      rw [hl,← hmappings]
      exact hagain.mappings)
  rw [hl] at hlinks
  have hsames : SameTables d { x with mappings := m } := by
    constructor
    case sources => exact hagain.sources ▸ hsame
    case mappings => exact hagain.mappings.trans hm
    case events => exact hagain.events
    case registry => exact hagain.registry
  rw [sweepTables,hstep,hu]
  dsimp only
  rw [hx]
  dsimp only
  rw [hlinks]
  cases o with
  | none => exact ⟨_,_,rfl,hsames,fun _ => ⟨_,rfl⟩,fun _ h => by cases h⟩
  | some l =>
    refine ⟨_,_,rfl,hsames,fun h => (by cases h),fun _ _ => ⟨_,rfl,?_⟩⟩
    exact ⟨hremoved,hagain.mapped,hagain.inserted,hagain.marked_true,hagain.marked_false,rfl⟩

theorem sweptAgain_error {e e' : SweepFailure} (h : SameTables db d) :
    SweptAgain (db,.error e) (d,.error e') :=
  ⟨h,iff_of_false nofun nofun,nofun⟩

/-- A second sweep of an estate without future instants changes the times alone. -/
theorem run_sweep_again (env : Runtime) (estate : Estate) (db : Db) {now now' : ℕ}
    (hle : now ≤ now') (hf : NoFuture now estate.responses) :
    SweptAgain (run_sweep env now estate db)
      (run_sweep env now' estate (run_sweep env now estate db).1) := by
  have hswept := @run_sweep_swept env now estate db
  generalize run_sweep env now estate db = r at hswept ⊢
  cases hswept with
  | sources h =>
    rename_i d e
    obtain ⟨s',res,hstep,hsame,herror,-⟩ := stepSources_again (d:=d) (by rw [h])
    obtain ⟨e',rfl⟩ := herror e (by rw [h])
    rw [run_sweep,sweepTables,hstep]
    exact sweptAgain_error ⟨hsame,.refl _ _,rfl,.refl _ _⟩
  | enumeration h hu =>
    rename_i d c
    obtain ⟨s',res,hstep,hsame,-,hok⟩ := stepSources_again (d:=d) (by rw [h])
    obtain ⟨c',rfl,-⟩ := hok c (by rw [h])
    rw [run_sweep,sweepTables,hstep,hu]
    exact sweptAgain_error ⟨hsame,.refl _ _,rfl,.refl _ _⟩
  | links h hu hd hl =>
    obtain ⟨x,res,htables,hsame,herror,-⟩ := sweepTables_again h hu hd hl rfl rfl rfl
    obtain ⟨e',rfl⟩ := herror rfl
    rw [run_sweep,htables]
    exact sweptAgain_error hsame
  | events h hu hd hl he =>
    rename_i d₁ d₂ d₃ d c urns n l
    have hd₃ : (stepEvents now estate d₃).1 = d := by rw [he]
    subst hd₃
    obtain ⟨x,res,htables,hsame,-,hok⟩ := sweepTables_again
      (d:=(stepEvents now estate d₃).1) h hu hd hl rfl rfl rfl
    obtain ⟨t,rfl,hidle⟩ := hok l rfl
    rw [run_sweep,htables]
    dsimp only
    rw [@stepEvents_again _ _ _ d₃ _ hf hle hsame.sources.snapshot hsame.mappings hsame.events,he]
    exact sweptAgain_error hsame
  | done h hu hd hl he =>
    rename_i d₁ d₂ d₃ d c urns n l e
    have hd₃ : (stepEvents now estate d₃).1 = d := by rw [he]
    subst hd₃
    obtain ⟨x,res,htables,hsame,-,hok⟩ := sweepTables_again
      (d:=(stepEvents now estate d₃).1) h hu hd hl rfl rfl rfl
    obtain ⟨t,rfl,hidle⟩ := hok l rfl
    rw [run_sweep,htables]
    dsimp only
    rw [@stepEvents_again _ _ _ d₃ _ hf hle hsame.sources.snapshot hsame.mappings hsame.events,he]
    refine ⟨hsame,iff_of_true ⟨_,rfl⟩ ⟨_,rfl⟩,fun s hs => ?_⟩
    cases hs
    exact ⟨hidle.sources_removed,hidle.mapped,hidle.pipeline_links,rfl,rfl,hidle.inserted,
      hidle.marked_true,hidle.marked_false⟩

theorem sampleEstate_noFuture : NoFuture 0 sampleEstate.responses := by
  constructor
  case executions =>
    intro id requests hr req hreq
    cases hr
    have hreq' : req = succeededRequest := by simpa using hreq
    subst hreq'
    constructor
    · rintro ⟨ms,hms,hlt,-⟩
      cases hms
      norm_num [roundHalfEven,maxSkew] at hlt
    · rintro ⟨ms,hms,-⟩
      cases hms
  case operations => nofun
  case last_ingested => nofun

def orders : Str := "urn:li:dataset:(urn:li:dataPlatform:postgres,db.public.orders,PROD)".toList

/-- A dataset with a tag, which the pipeline of the source has written. -/
def ordersEstate : Estate := { sampleEstate with
  datasets := some [orders]
  attributes := some [(orders,⟨["t".toList],[],true⟩)]
  pipelines := some [(orders,some "urn:li:dataHubIngestionSource:pg".toList)] }

theorem run_sweep_again_sample :
    let first := run_sweep recipeRuntime 0 ordersEstate emptyDb
    first.1.mappings.rows.length = 1 ∧ first.1.registry.rows.map (·.tag_urns) = [["t".toList]] ∧
      SweptAgain first (run_sweep recipeRuntime 5 ordersEstate first.1) :=
  ⟨rfl,rfl,run_sweep_again recipeRuntime ordersEstate emptyDb (Nat.zero_le 5) sampleEstate_noFuture⟩

end Sweep

end Ingestion
end Dataspoke
