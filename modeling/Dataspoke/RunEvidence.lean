import Dataspoke.FreshnessVerdicts
import Dataspoke.RunAccounts

/-!
# Runs as evidence

What any sequence of runs adds to the evidence that the freshness of datasets is judged by.
-/

namespace Dataspoke
namespace Ingestion
namespace Pipeline

open Python Transition
open Metrics (feedTimes observations completions JudgedBy)

def derivationText : Derivation → Str
  | .emitted => Lookup.emitted
  | .pipeline_name => Lookup.pipelineName
  | .matched => Lookup.matched

def datasetRow (row : IngestionSourceDataset) : Lookup.DatasetRow :=
  ⟨row.source_id,row.dataset_urn,derivationText row.derivation,row.last_seen_at⟩

theorem datasetRows_nodup (m : Mappings) :
    ((m.rows.map datasetRow).map Lookup.DatasetRow.key).Nodup := by
  rw [List.map_map]
  exact m.nodup

/-- The ids of the sources are UUIDs. -/
def Identified (s : Sources) : Prop := ∀ source ∈ s.rows, source.id < 2^128

def Store.tables (s : Store) (h : Identified s.sources) : Feed.Tables where
  sources := s.sources.table
  datasets := ⟨s.mappings.rows.map datasetRow,datasetRows_nodup s.mappings⟩
  events := s.events.table
  uuids := h

/-- A call of `run` with what it finds, and whether it gets the lock. -/
structure Launch where
  world : World
  call : Call
  acquired : Bool

def Launch.ran (l : Launch) (store : Store) : Ran := run l.world l.call l.acquired store

/-- Runs in any order, of any sources. -/
def runSystem : System Store Launch := ofFun (fun _ => True) fun store l => some (l.ran store).store

/-- The instants at which real runs of the source have succeeded. -/
def successes (h : List (Store × Launch)) (source : IngestionSource) : Set ℤ :=
  {t | ∃ p ∈ h, (p.2.ran p.1).succeeded = true ∧ p.2.call.dry_run = false ∧
    Uuid.UUID p.2.call.source_id = some source.id ∧ p.2.world.recorded_at = t}

/-- The runs that were called by the canonical text of the id of the source. `run` takes every
spelling of an id, but its event keeps that of the call, and the feeds show the canonical one. -/
def canonical (h : List (Store × Launch)) (source : IngestionSource) : List (Store × Launch) :=
  h.filter fun p => p.2.call.source_id = Uuid.str source.id

section Events

/-- The event is of the source or one of its wrappers. -/
def Of (s : Sources) (source : IngestionSource) (e : Feed.Event) : Prop :=
  e.entity_type = ingestionSource ∧ (e.entity_id = Uuid.str source.id ∨
    ∃ w ∈ s.rows, w.parent_source_id = some source.id ∧ e.entity_id = Uuid.str w.id)

/-- The instants of the events of a source with a property. -/
def bookedAt (source : IngestionSource) (P : Feed.Event → Prop) (store : Store) : Set ℤ :=
  {t | ∃ e ∈ store.events.rows, Of store.sources source e ∧ P e ∧ e.occurred_at = t}

variable (text : Json → Str)

def Completes (e : Feed.Event) : Prop :=
  e.event_type = INGESTION_COMPLETE ∧ Feed.dry_run text e.detail ≠ some true

def Observes (urn : Str) (e : Feed.Event) : Prop :=
  e.event_type = INGESTION_COMPLETE ∧
    (∃ source ∈ observationSources, Feed.astext text "source".toList e.detail = some source) ∧
    Feed.astext text Feed.DATASET_URN e.detail = some urn

variable {text} {E : Metrics.Estate} {store : Store} {hids : Identified store.sources}
  {source : IngestionSource}

theorem feedTimes_booked (hE : E.ingestion = store.tables hids)
    (hsource : source ∈ store.sources.rows) {dataset_urn : Option Str}
    {P : Feed.EventRecord → Prop} {Q : Feed.Event → Prop}
    (hPQ : ∀ e, Q e ↔ (Feed.INGESTION_PREFIX <+: e.event_type ∧ ∀ urn, dataset_urn = some urn → ∀ u,
      Feed.astext E.plan.text Feed.DATASET_URN e.detail = some u → u = urn) ∧
        P (Feed.shown source e)) :
    feedTimes E source dataset_urn P = bookedAt source Q store := by
  have hmem : source ∈ E.ingestion.sources.rows := by
    rw [hE]
    exact hsource
  ext t
  constructor
  · rintro ⟨records,hfull,record,hrecord,hp,rfl⟩
    obtain ⟨e,he,hfeed,rfl⟩ := (Feed.mem_fullFeed hmem hfull).mp hrecord
    refine ⟨e,?_,⟨hfeed.kind,?_⟩,(hPQ e).mpr ⟨⟨hfeed.ingestion,hfeed.urn⟩,hp⟩,rfl⟩
    · rw [hE] at he
      exact he
    · have hbelongs := hfeed.belongs
      rw [hE] at hbelongs
      exact hbelongs
  · rintro ⟨e,he,⟨hkind,hbelongs⟩,hq,rfl⟩
    obtain ⟨⟨hstarts,hurn⟩,hp⟩ := (hPQ e).mp hq
    obtain ⟨records,hfull⟩ : ∃ records,
        Feed.FullFeed E.plan.toReads (Uuid.str source.id) dataset_urn records :=
      ⟨_,(Feed.fullFeed_iff hmem).mpr rfl⟩
    have hevent : e ∈ E.ingestion.events.rows := by
      rw [hE]
      exact he
    have hbelongs : Feed.Belongs E.ingestion source e := by
      rw [hE]
      exact hbelongs
    have hrecord := (Feed.mem_fullFeed hmem hfull).mpr
      ⟨e,hevent,⟨hkind,hbelongs,hstarts,hurn⟩,rfl⟩
    exact ⟨_,hfull,_,hrecord,hp,rfl⟩

theorem completions_booked (hE : E.ingestion = store.tables hids)
    (hsource : source ∈ store.sources.rows) :
    completions E source = bookedAt source (Completes E.plan.text) store := by
  refine feedTimes_booked hE hsource fun e => ⟨fun h => ?_,fun h => ⟨h.2.event,h.2.real⟩⟩
  exact ⟨⟨Feed.starts_ingestion h.1,nofun⟩,⟨h.1,h.2⟩⟩

theorem observations_booked (hE : E.ingestion = store.tables hids)
    (hsource : source ∈ store.sources.rows) (urn : Str) :
    observations E source urn = bookedAt source (Observes E.plan.text urn) store := by
  refine feedTimes_booked hE hsource fun e => ⟨fun h => ?_,
    fun h => ⟨h.2.event,h.2.producer,h.2.dataset⟩⟩
  refine ⟨⟨Feed.starts_ingestion h.1,fun urn' hurn u hu => ?_⟩,⟨h.1,h.2.1,h.2.2⟩⟩
  cases hurn
  rw [h.2.2] at hu
  exact (Option.some.inj hu).symm

end Events

section Step

variable {W : World} {c : Call} {store : Store} {source : IngestionSource} {text : Json → Str}

theorem ran_booked (l : Launch) (store : Store) : (l.ran store).store.sources = store.sources ∧
    (((l.ran store).store.events.rows = store.events.rows ∧ (l.ran store).succeeded = false) ∨
      ∃ src e, get_source store.sources l.call.source_id = some src ∧
        src.mode = .ACTIVE_CUSTOM_MANAGED ∧
        (l.ran store).store.events.rows = store.events.rows++[e] ∧
        Records l.world l.call (l.ran store) e) := by
  by_cases h : Declined l.call l.acquired store
  · obtain ⟨e,he⟩ := run_declined (W:=l.world) h
    rw [Launch.ran,he]
    exact ⟨rfl,.inl ⟨rfl,rfl⟩⟩
  · obtain ⟨src,hget,hmode,haccounted⟩ := run_begun (W:=l.world) h
    obtain ⟨e,hrows,he⟩ := haccounted.recorded
    exact ⟨haccounted.sources,.inr ⟨src,e,hget,hmode,hrows,he⟩⟩

variable (text) in
theorem dry_run_of_detail {detail : Json} {items : Items} (hd : detail = .obj items) :
    (get? "dry_run".toList items = none → Feed.dry_run text detail = some false) ∧
      ∀ b, get? "dry_run".toList items = some (.bool b) → Feed.dry_run text detail = some b := by
  subst hd
  constructor
  · intro h
    rw [Feed.dry_run,Feed.astext,h]
  · intro b h
    rw [Feed.dry_run,Feed.astext,h]
    cases b with
    | false => exact (by decide : Feed.boolin "false".toList = some false)
    | true => exact (by decide : Feed.boolin "true".toList = some true)

/-- What a booked event completes. -/
theorem Records.completes {r : Ran} {e : Feed.Event} (h : Records W c r e) :
    Completes text e ↔ r.succeeded = true ∧ c.dry_run = false := by
  obtain ⟨items,hdetail,-,-,hdry⟩ := h.detail
  obtain ⟨hnone,hsome⟩ := dry_run_of_detail text hdetail
  have houtcome := h.outcome
  cases hs : r.succeeded with
  | false =>
    rw [hs] at houtcome
    refine iff_of_false (fun hcompletes => ?_) (fun h => nomatch h.1)
    have htype : e.event_type = INGESTION_FAIL := congrArg Prod.fst houtcome
    exact absurd (htype.symm.trans hcompletes.1) (by decide)
  | true =>
    rw [hs] at houtcome
    have htype : e.event_type = INGESTION_COMPLETE := congrArg Prod.fst houtcome
    rcases hdry with hdry | ⟨-,hfailed⟩
    · rw [Completes,hsome _ hdry]
      cases c.dry_run <;> simp [htype]
    · rw [hs] at hfailed
      cases hfailed

theorem Records.not_observes {r : Ran} {e : Feed.Event} (h : Records W c r e) (urn : Str) :
    ¬ Observes text urn e := by
  obtain ⟨items,hdetail,-,hurn,-⟩ := h.detail
  intro hobserves
  have hdataset := hobserves.2.2
  rw [hdetail,Feed.astext,hurn] at hdataset
  cases hdataset

/-- A run is of a source with runs, which is no wrapper. -/
theorem Records.of_iff {r : Ran} {e : Feed.Event} (h : Records W c r e)
    (hids : Identified store.sources) {src : IngestionSource}
    (hget : get_source store.sources c.source_id = some src)
    (hmode : src.mode = .ACTIVE_CUSTOM_MANAGED) :
    Of store.sources source e ↔ c.source_id = Uuid.str source.id := by
  rw [Of,h.entity.2]
  refine ⟨?_,fun hid => ⟨h.entity.1,.inl hid⟩⟩
  rintro ⟨-,hid | ⟨w,hw,hparent,hid⟩⟩
  · exact hid
  · rw [get_source,hid,Uuid.UUID_str (hids w hw)] at hget
    have hrow : src = w := Option.some.inj (hget.symm.trans (Table.mem_rows.mp hw))
    have hchild : w.parent_source_id ≠ none := by
      rw [hparent]
      exact Option.some_ne_none _
    have hlinked := store.sources.linked w hw hchild
    rw [← hrow,hmode] at hlinked
    cases hlinked.1

theorem mem_bookedAt_step (l : Launch) {P : Feed.Event → Prop} {t : ℤ} {e : Feed.Event}
    (hsources : (l.ran store).store.sources = store.sources)
    (hrows : (l.ran store).store.events.rows = store.events.rows++[e]) :
    t ∈ bookedAt source P (l.ran store).store ↔ t ∈ bookedAt source P store ∨
      Of store.sources source e ∧ P e ∧ e.occurred_at = t := by
  show (∃ e ∈ _, _) ↔ _
  rw [hrows,hsources]
  constructor
  · rintro ⟨e',he',h⟩
    rcases List.mem_append.mp he' with he' | he'
    · exact .inl ⟨e',he',h⟩
    · rw [List.mem_singleton.mp he'] at h
      exact .inr h
  · rintro (⟨e',he',h⟩ | h)
    · exact ⟨e',List.mem_append_left _ he',h⟩
    · exact ⟨e,List.mem_append_right _ (List.mem_singleton.mpr rfl),h⟩

theorem bookedAt_idle (l : Launch) {P : Feed.Event → Prop}
    (hsources : (l.ran store).store.sources = store.sources)
    (hrows : (l.ran store).store.events.rows = store.events.rows) :
    bookedAt source P (l.ran store).store = bookedAt source P store := by
  rw [bookedAt,bookedAt,hrows,hsources]

theorem mem_successes_one (hid : source.id < 2^128) {l : Launch} {t : ℤ} :
    t ∈ successes (canonical [(store,l)] source) source ↔ (l.ran store).succeeded = true ∧
      l.call.dry_run = false ∧ l.call.source_id = Uuid.str source.id ∧ l.world.recorded_at = t := by
  by_cases hcall : l.call.source_id = Uuid.str source.id
  · simp [successes,canonical,hcall,Uuid.UUID_str hid]
  · simp [successes,canonical,hcall]

/-- A run adds its instant to the completed ones if it is a real run that succeeds and was called by
the canonical id of the source. -/
theorem completes_step (hids : Identified store.sources) (hsource : source ∈ store.sources.rows)
    (l : Launch) : bookedAt source (Completes text) (l.ran store).store =
      bookedAt source (Completes text) store ∪
        successes (canonical [(store,l)] source) source := by
  have hid := hids source hsource
  obtain ⟨hsources,⟨hrows,hfailed⟩ | ⟨src,e,hget,hmode,hrows,he⟩⟩ := ran_booked l store
  · rw [bookedAt_idle l hsources hrows]
    refine (Set.union_eq_self_of_subset_right fun t ht => ?_).symm
    have hs := ((mem_successes_one hid).mp ht).1
    rw [hfailed] at hs
    cases hs
  · ext t
    rw [mem_bookedAt_step l hsources hrows,Set.mem_union,mem_successes_one hid,he.completes,
      he.of_iff hids hget hmode,he.occurred_at]
    refine or_congr_right ?_
    constructor
    · rintro ⟨hid,⟨hs,hreal⟩,ht⟩
      exact ⟨hs,hreal,hid,ht⟩
    · rintro ⟨hs,hreal,hid,ht⟩
      exact ⟨hid,⟨hs,hreal⟩,ht⟩

theorem observes_step (l : Launch) (urn : Str) :
    bookedAt source (Observes text urn) (l.ran store).store =
      bookedAt source (Observes text urn) store := by
  obtain ⟨hsources,⟨hrows,-⟩ | ⟨src,e,-,-,hrows,he⟩⟩ := ran_booked l store
  · exact bookedAt_idle l hsources hrows
  · ext t
    rw [mem_bookedAt_step l hsources hrows]
    exact or_iff_left fun h => he.not_observes urn h.2.1

end Step

section Runs

variable {store₀ store : Store} {h : List (Store × Launch)} {source : IngestionSource}

theorem run_sources (hr : Run runSystem store₀ h store) : store.sources = store₀.sources := by
  refine hr.invariant (I:=fun s => s.sources = store₀.sources) rfl fun s l s' hs hstep => ?_
  cases hstep
  exact (ran_booked l s).1.trans hs

theorem successes_nil : successes [] source = ∅ := by
  ext t
  simp [successes]

theorem successes_append (h h' : List (Store × Launch)) :
    successes (h ++ h') source = successes h source ∪ successes h' source := by
  ext t
  simp only [successes,List.mem_append,or_and_right,exists_or,Set.mem_ofPred_eq,Set.mem_union]

theorem successes_canonical_cons (p : Store × Launch) (h : List (Store × Launch)) :
    successes (canonical (p::h) source) source =
      successes (canonical h source) source ∪ successes (canonical [p] source) source := by
  have hsplit : canonical (p::h) source = canonical [p] source ++ canonical h source :=
    List.filter_append [p] h
  rw [hsplit,successes_append,Set.union_comm]

theorem run_booked (hr : Run runSystem store₀ h store) (hids : Identified store₀.sources)
    (hsource : source ∈ store₀.sources.rows) (text : Json → Str) :
    bookedAt source (Completes text) store =
      bookedAt source (Completes text) store₀ ∪ successes (canonical h source) source ∧
    ∀ urn, bookedAt source (Observes text urn) store =
      bookedAt source (Observes text urn) store₀ := by
  induction hr with
  | refl =>
    refine ⟨?_,fun _ => rfl⟩
    show _ = _ ∪ successes [] source
    rw [successes_nil,Set.union_empty]
  | @step h s s' l hr hstep ih =>
    have hsources := run_sources hr
    cases hstep
    refine ⟨?_,fun urn => (observes_step l urn).trans (ih.2 urn)⟩
    rw [completes_step (hsources ▸ hids) (hsources ▸ hsource) l,ih.1,
      successes_canonical_cons (s,l) h,Set.union_assoc]

/-- Over every sequence of runs the evidence of a source grows by the instants of its real runs that
succeed and were called by its canonical id, and by nothing else, so its datasets without
observations are judged by these. -/
theorem runs_evidence (hr : Run runSystem store₀ h store) (hids₀ : Identified store₀.sources)
    (hids : Identified store.sources) {E₀ E : Metrics.Estate}
    (hE₀ : E₀.ingestion = store₀.tables hids₀) (hE : E.ingestion = store.tables hids)
    (htext : E.plan.text = E₀.plan.text) (hsource : source ∈ store₀.sources.rows) :
    completions E source = completions E₀ source ∪ successes (canonical h source) source ∧
    (∀ urn, observations E source urn = observations E₀ source urn) ∧
    ∀ window_sec now v, JudgedBy E window_sec now v source → observations E₀ source v.urn = ∅ →
      (v.met = true ↔ ∃ t ∈ completions E₀ source ∪ successes (canonical h source) source,
        now-window_sec*1000000 ≤ t) := by
  have hsource' : source ∈ store.sources.rows := by
    rw [run_sources hr]
    exact hsource
  obtain ⟨hcompleted,hobserved⟩ := run_booked hr hids₀ hsource E.plan.text
  have hcompletions : completions E source =
      completions E₀ source ∪ successes (canonical h source) source := by
    rw [completions_booked hE hsource',completions_booked hE₀ hsource,hcompleted,htext]
  have hobservations : ∀ urn, observations E source urn = observations E₀ source urn := by
    intro urn
    rw [observations_booked hE hsource' urn,observations_booked hE₀ hsource urn,hobserved urn,htext]
  refine ⟨hcompletions,hobservations,fun window_sec now v hv hnone => ?_⟩
  rw [hv.met,← hcompletions]
  refine exists_congr fun t => and_congr_left fun _ => ?_
  show t ∈ observations E source v.urn ∨
    observations E source v.urn = ∅ ∧ t ∈ completions E source ↔ _
  rw [hobservations,hnone]
  simp

end Runs

def storeEstate (s : Store) (h : Identified s.sources) : Metrics.Estate where
  ingestion := s.tables h
  plan := Feed.storedPlan _
  timestamp := fun t => t
  configs := Table.empty _
  results := Table.empty _
  gms := fun _ => none
  isoformat := fun _ => []
  int := Metrics.plainInt
  int_int := Metrics.plainInt_int

theorem storeEstate_ingestion (s : Store) (h : Identified s.sources) :
    (storeEstate s h).ingestion = s.tables h := rfl

theorem sampleStore_identified : Identified sampleStore.sources := by
  intro source hsource
  rw [List.mem_singleton.mp hsource]
  decide

def sampleLaunch : Launch := ⟨sampleWorld,sampleCall,true⟩

/-- A later run of the same source, whose id is spelled without hyphens. -/
def spelledLaunch : Launch :=
  ⟨{ sampleWorld with recorded_at := 6 },⟨List.replicate 32 '0',false,true⟩,true⟩

def firstStore : Store := (sampleLaunch.ran sampleStore).store

theorem spelled_succeeds : (spelledLaunch.ran firstStore).succeeded = true := by
  decide +kernel

theorem runs_evidence_sample : ∃ store₀ h store source E₀ E, Run runSystem store₀ h store ∧
    completions E source = completions E₀ source ∪ successes (canonical h source) source ∧
    5 ∈ successes (canonical h source) source ∧ 6 ∈ successes h source ∧
    6 ∉ successes (canonical h source) source := by
  have hr : Run runSystem sampleStore [(firstStore,spelledLaunch),(sampleStore,sampleLaunch)]
      (spelledLaunch.ran firstStore).store := .step (.step .refl rfl) rfl
  have hids : Identified (spelledLaunch.ran firstStore).store.sources := by
    rw [run_sources hr]
    exact sampleStore_identified
  have hevidence := runs_evidence hr sampleStore_identified hids
    (storeEstate_ingestion _ sampleStore_identified) (storeEstate_ingestion _ hids) rfl
    (List.mem_singleton.mpr rfl)
  have hcanonical : canonical [(firstStore,spelledLaunch),(sampleStore,sampleLaunch)]
      sampleSource = [(sampleStore,sampleLaunch)] := by
    have hspelled : ¬ (spelledLaunch.call.source_id = Uuid.str sampleSource.id) := by
      decide +kernel
    have hid : sampleLaunch.call.source_id = Uuid.str sampleSource.id := rfl
    simp [canonical,hspelled,hid]
  refine ⟨_,_,_,sampleSource,_,_,hr,hevidence.1,?_,?_,?_⟩
  · rw [hcanonical]
    exact ⟨_,List.mem_singleton.mpr rfl,sample_succeeds,rfl,Uuid.UUID_str (by norm_num),rfl⟩
  · exact ⟨_,.head _,spelled_succeeds,rfl,by decide +kernel,rfl⟩
  · rw [hcanonical]
    rintro ⟨p,hp,-,-,-,ht⟩
    rw [List.mem_singleton.mp hp] at ht
    cases ht

end Pipeline
end Ingestion
end Dataspoke
