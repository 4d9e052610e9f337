import Dataspoke.IngestionPipeline

/-!
# What a run accounts for

A run of a source against what DataHub has answered to its writes: the event, the mappings, the
result and the instance in DataHub all say the same of it.
-/

namespace Dataspoke
namespace Ingestion
namespace Pipeline

open Python Emission

section Extract

variable {T : Toolkit} {remote : Remote Write Str}

/-- A result before the first write has no datasets. -/
theorem survey_inl {recipe : Items} {default_env : Str} {result : IngestionResult}
    (h : survey T recipe default_env = .ok (.inl result)) :
    ∃ errors warnings, result = nothing errors warnings := by
  obtain ⟨config,-,h⟩ := bind_eq_ok.mp h
  obtain ⟨⟨host,port⟩,-,h⟩ := bind_eq_ok.mp h
  obtain ⟨schema_filter,-,h⟩ := bind_eq_ok.mp h
  split at h
  · cases h
    exact ⟨_,_,rfl⟩
  · cases h
  · split_ifs at h
    · cases h
      exact ⟨_,_,rfl⟩
    · obtain ⟨tables,-,h⟩ := bind_eq_ok.mp h
      split_ifs at h
      · cases h
        exact ⟨_,_,rfl⟩
      · split at h
        · obtain ⟨tables,-,h⟩ := bind_eq_ok.mp h
          cases h
        · cases h

variable (T) in
/-- The result of an extractor has no datasets, or is the report of a crawl. -/
def Extracted (source_id : Str) (dry_run : Bool) (attempts : Attempts Write Str)
    (result : IngestionResult) : Prop :=
  (result.discovered_urns = [] ∧ result.emitted_urns = []) ∨
    ∃ (C : Crawl) (tables : List SourceTable), C.source_id = source_id ∧
      result.discovered_urns = tables.map SourceTable.urn ∧
      if dry_run then result.emitted_urns = [] ∧ result.errors = []
      else Reported T C tables attempts result.emitted_urns result.errors

/-- What an extractor has attempted, and what its result says of it. -/
structure Extraction (T : Toolkit) (r : Request) (log : Attempts Write Str)
    (out : Attempts Write Str × Except Raised IngestionResult) (attempts : Attempts Write Str) :
    Prop where
  log : out.1 = log++attempts
  dry : r.dry_run = true → attempts = []
  crawled : ∀ a ∈ attempts, a.1.system_metadata = ⟨r.runId,r.source_id,r.now⟩ ∧
    a.1.aspect.ofInstance = false
  result : ∀ result, out.2 = .ok result → Extracted T r.source_id r.dry_run attempts result

/-- An extractor that has not come to its first write. -/
theorem Extraction.idle {r : Request} {log : Attempts Write Str}
    {o : Except Raised IngestionResult}
    (h : ∀ result, o = .ok result → ∃ errors warnings, result = nothing errors warnings) :
    Extraction T r log (log,o) [] where
  log := (List.append_nil log).symm
  dry := fun _ => rfl
  crawled := fun a ha => nomatch ha
  result := by
    intro result hresult
    obtain ⟨errors,warnings,rfl⟩ := h result hresult
    exact .inl ⟨rfl,rfl⟩

theorem extract_postgres_extraction (r : Request) (log : Attempts Write Str) :
    ∃ attempts, Extraction T r log (extract_postgres T remote r log) attempts := by
  rw [extract_postgres]
  cases hsurvey : survey T r.recipe r.default_env with
  | error e => exact ⟨[],.idle nofun⟩
  | ok found =>
    cases found with
    | inl result =>
      refine ⟨[],.idle fun result' h => ?_⟩
      cases h
      exact survey_inl hsurvey
    | inr s =>
      dsimp only
      by_cases hdry : r.dry_run = true
      · rw [if_pos hdry]
        refine ⟨[],(List.append_nil log).symm,fun _ => rfl,(fun a ha => nomatch ha),?_⟩
        intro result h
        cases h
        exact .inr ⟨r.crawl s,s.tables,rfl,rfl,by rw [if_pos hdry]; exact ⟨rfl,rfl⟩⟩
      · rw [if_neg hdry]
        obtain ⟨attempts,hlog,hcrawled,hreported⟩ :=
          crawl_reported T remote (r.crawl s) s.tables log
        refine ⟨attempts,hlog,fun h => absurd h hdry,hcrawled,?_⟩
        intro result h
        cases h
        exact .inr ⟨r.crawl s,s.tables,rfl,rfl,by rw [if_neg hdry]; exact hreported⟩

theorem run_extractor_extraction (r : Request) (log : Attempts Write Str) :
    ∃ attempts, Extraction T r log (run_extractor T remote r log) attempts := by
  have hunregistered : ∀ source_type, ∃ attempts,
      Extraction T r log (log,.ok (nothing [unregistered source_type] [])) attempts := by
    refine fun source_type => ⟨[],.idle fun result h => ?_⟩
    cases h
    exact ⟨_,_,rfl⟩
  rw [run_extractor]
  cases recipeSource r.recipe with
  | error e => exact ⟨[],.idle nofun⟩
  | ok source =>
    dsimp only
    cases (get? typeKey source).getD (.str []) with
    | arr xs => exact ⟨[],.idle nofun⟩
    | obj items => exact ⟨[],.idle nofun⟩
    | str source_type =>
      dsimp only
      split
      · exact extract_postgres_extraction r log
      · exact hunregistered source_type
    | null | bool _ | num _ => exact hunregistered _

end Extract

section Accounts

variable (W : World) (c : Call)

def Ran.succeeded (r : Ran) : Bool :=
  match r.outcome with
  | .ok result => result.status = "success".toList
  | .error _ => false

def Ran.emitted (r : Ran) : List Str :=
  match r.outcome with
  | .ok result => result.emitted_urns
  | .error _ => []

/-- The event says how the run has ended, and not more than that of any dataset. -/
structure Records (r : Ran) (e : Feed.Event) : Prop where
  entity : e.entity_type = ingestionSource ∧ e.entity_id = c.source_id
  occurred_at : e.occurred_at = W.recorded_at
  outcome : (e.event_type,e.status) =
    if r.succeeded then (INGESTION_COMPLETE,"success".toList) else (INGESTION_FAIL,"failure".toList)
  detail : ∃ items, e.detail = .obj items ∧ get? "source".toList items = none ∧
    get? Feed.DATASET_URN items = none ∧
    (get? "dry_run".toList items = some (.bool c.dry_run) ∨
      get? "dry_run".toList items = none ∧ r.succeeded = false)

/-- The instance in DataHub begins, is given the datasets of a run that succeeds, and ends with the
outcome of the run. -/
def Lifecycle (source : IngestionSource) (r : Ran) : Prop :=
  ∃ started refusal crawled outputs answer,
    r.attempts = started++crawled++outputs++[(terminalWrite W c r.succeeded,answer)] ∧
    InTurn (startedWrites W c source) started refusal ∧
    (∀ a ∈ crawled, a.1.aspect.ofInstance = false) ∧
    outputs.map Prod.fst = if r.succeeded then [outputWrite W c r.emitted] else []

/-- What a run that has begun accounts for. -/
structure Accounted (store : Store) (source : IngestionSource) (r : Ran) : Prop where
  recorded : ∃ e, r.store.events.rows = store.events.rows++[e] ∧ Records W c r e
  sources : r.store.sources = store.sources
  mappings : r.store.mappings = if !c.dry_run && r.succeeded then
      upsert_dataset_mappings W.mapped_at source.id r.emitted .emitted store.mappings
    else store.mappings
  dry : c.dry_run = true → r.attempts = [] ∧ r.emitted = []
  lifecycle : c.dry_run = false →
    r.attempts = [] ∧ (∃ e, resolve W source.recipe = .error e) ∨ Lifecycle W c source r
  stamped : ∀ a ∈ r.attempts, a.1.system_metadata.pipelineName = c.source_id ∧
    a.1.system_metadata.runId = runId W c
  reported : c.dry_run = false → ∀ result, r.outcome = .ok result → result.discovered_urns ≠ [] →
    ∃ (C : Crawl) (tables : List SourceTable), C.source_id = c.source_id ∧
      result.discovered_urns = tables.map SourceTable.urn ∧
      Reported W.toolkit C tables r.attempts result.emitted_urns result.errors
  complete : c.dry_run = false → (r.succeeded = true ↔ ∃ result, r.outcome = .ok result ∧
    result.discovered_urns ≠ [] ∧ result.emitted_urns = result.discovered_urns)

variable {W c} {store : Store} {source : IngestionSource}

variable (W c store) in
theorem record_rows (event_type status : Str) (detail : Items) :
    (record_source_event W c event_type status detail store).events.rows =
      store.events.rows++[⟨store.events.next_id,ingestionSource,c.source_id,event_type,status,
        .obj detail,W.recorded_at⟩] := Events.add_rows _ _ _

theorem success_ne_error : ¬ "error".toList = "success".toList := by decide

theorem unresolved_failed {recipe : Items} {e : Secrets.SecretError} :
    (unresolved W c store recipe e).succeeded = false := decide_eq_false success_ne_error

theorem unresolved_accounted {recipe : Items} {e : Secrets.SecretError}
    (h : resolve W source.recipe = .error e) :
    Accounted W c store source (unresolved W c store recipe e) where
  recorded := by
    refine ⟨_,record_rows _ _ _ _ _ _,⟨rfl,rfl⟩,rfl,?_,_,rfl,rfl,rfl,.inr ⟨rfl,unresolved_failed⟩⟩
    rw [unresolved_failed]
    rfl
  sources := rfl
  mappings := by
    rw [unresolved_failed,Bool.and_false]
    rfl
  dry := fun _ => ⟨rfl,rfl⟩
  lifecycle := fun _ => .inl ⟨rfl,e,h⟩
  stamped := fun a ha => nomatch ha
  reported := by
    intro _ result hresult hne
    cases hresult
    exact absurd rfl hne
  complete := by
    intro _
    rw [unresolved_failed]
    refine iff_of_false nofun ?_
    rintro ⟨result,hresult,hne,-⟩
    cases hresult
    exact hne rfl

/-- The write is stamped with the run. -/
def Stamped (W : World) (c : Call) (w : Write) : Prop :=
  w.system_metadata.pipelineName = c.source_id ∧ w.system_metadata.runId = runId W c

theorem started_stamped {w : Write} (hw : w ∈ startedWrites W c source) : Stamped W c w := by
  obtain ⟨aspect,-,rfl⟩ := List.mem_map.mp hw
  exact ⟨rfl,rfl⟩

theorem Extracted.mono {T : Toolkit} {source_id : Str} {dry_run : Bool}
    {attempts attempts' : Attempts Write Str} {result : IngestionResult}
    (hsub : attempts ⊆ attempts') (h : Extracted T source_id dry_run attempts result) :
    Extracted T source_id dry_run attempts' result := by
  rcases h with h | ⟨C,tables,hC,hdiscovered,h⟩
  · exact .inl h
  · refine .inr ⟨C,tables,hC,hdiscovered,?_⟩
    split_ifs at h ⊢
    · exact h
    · exact h.mono hsub

/-- What has been attempted when the extractor is done, and what its result says of it. -/
structure Extracting (W : World) (c : Call) (source : IngestionSource)
    (out : Attempts Write Str × Except Raised IngestionResult) : Prop where
  dry : c.dry_run = true → out.1 = []
  attempts : ∃ started crawled, out.1 = started++crawled ∧
    (c.dry_run = false → ∃ refusal, InTurn (startedWrites W c source) started refusal) ∧
    ∀ a ∈ crawled, a.1.aspect.ofInstance = false
  stamped : ∀ a ∈ out.1, Stamped W c a.1
  result : ∀ r, out.2 = .ok r → Extracted W.toolkit c.source_id c.dry_run out.1 r

variable (W c source) in
theorem extract_extracting (recipe : Items) : Extracting W c source
    (extract W c recipe (if c.dry_run then [] else emit_dpi_started W c source [])) := by
  obtain ⟨crawled,hlog,hdry,hcrawled,hresult⟩ : ∃ crawled, Extraction W.toolkit
      ⟨c.source_id,recipe,c.dry_run,W.run_id,read_datahub_default_env W.datahub_config,W.crawl_ms⟩
      (if c.dry_run then [] else emit_dpi_started W c source [])
      (extract W c recipe (if c.dry_run then [] else emit_dpi_started W c source [])) crawled :=
    run_extractor_extraction _ _
  generalize extract W c recipe (if c.dry_run then [] else emit_dpi_started W c source []) = out
    at hlog hresult ⊢
  have hstamped : ∀ a ∈ crawled, Stamped W c a.1 := by
    intro a ha
    rw [Stamped,(hcrawled a ha).1]
    exact ⟨rfl,rfl⟩
  cases hc : c.dry_run with
  | true =>
    obtain rfl : crawled = [] := hdry hc
    rw [hc,if_pos rfl] at hlog
    refine ⟨fun _ => hlog,⟨[],[],hlog,fun hreal => ?_,fun a ha => nomatch ha⟩,fun a ha => ?_,
      fun r hr => (hresult r hr).mono (List.nil_subset _)⟩
    · rw [hc] at hreal
      cases hreal
    · rw [hlog] at ha
      cases ha
  | false =>
    obtain ⟨started,hstarted,hturn⟩ := emitAll_inTurn W.remote (startedWrites W c source) []
    have hlog : out.1 = started++crawled := by
      rw [hlog,hc,if_neg Bool.false_ne_true]
      exact congrArg (· ++ crawled) hstarted
    refine ⟨fun hdry => ?_,⟨started,crawled,hlog,fun _ => ⟨_,hturn⟩,fun a ha => (hcrawled a ha).2⟩,
      fun a ha => ?_,fun r hr => (hresult r hr).mono ?_⟩
    · rw [hc] at hdry
      cases hdry
    · rw [hlog] at ha
      rcases List.mem_append.mp ha with ha | ha
      · exact started_stamped (hturn.mem ha)
      · exact hstamped a ha
    · rw [hlog]
      exact List.subset_append_right _ _

theorem aborted_accounted {out : Attempts Write Str × Except Raised IngestionResult}
    (h : Extracting W c source out) (e : Raised) :
    Accounted W c store source (aborted W c store source out.1 e) := by
  have hattempts : (aborted W c store source out.1 e).attempts =
      if c.dry_run then out.1 else out.1++[(terminalWrite W c false,_)] := rfl
  refine ⟨?_,rfl,?_,?_,?_,?_,?_,?_⟩
  · exact ⟨_,record_rows _ _ _ _ _ _,⟨rfl,rfl⟩,rfl,rfl,_,rfl,rfl,rfl,.inr ⟨rfl,rfl⟩⟩
  · show store.mappings = if (!c.dry_run && false) = true then _ else store.mappings
    rw [Bool.and_false]
    rfl
  · intro hdry
    rw [hattempts,if_pos hdry]
    exact ⟨h.dry hdry,rfl⟩
  · intro hreal
    obtain ⟨started,crawled,hout,hturn,hcrawled⟩ := h.attempts
    obtain ⟨refusal,hturn⟩ := hturn hreal
    refine .inr ⟨started,refusal,crawled,[],W.remote (started++crawled) (terminalWrite W c false),
      ?_,hturn,hcrawled,rfl⟩
    rw [hattempts,hreal,if_neg Bool.false_ne_true,hout,List.append_nil]
    rfl
  · intro a ha
    rw [hattempts] at ha
    split_ifs at ha
    · exact h.stamped a ha
    · rcases List.mem_append.mp ha with ha | ha
      · exact h.stamped a ha
      · rw [List.mem_singleton.mp ha]
        exact ⟨rfl,rfl⟩
  · exact fun _ result hresult => nomatch hresult
  · exact fun _ => iff_of_false nofun fun ⟨result,hresult,_⟩ => nomatch hresult

/-- When a real run is without errors. -/
theorem finalErrors_real (hreal : c.dry_run = false) (r : IngestionResult) :
    (finalErrors c r).isEmpty = true ↔ r.errors = [] ∧ r.emitted_urns ≠ [] := by
  rw [finalErrors,hreal]
  cases r.errors with
  | cons e errors => simp
  | nil =>
    cases r.emitted_urns with
    | cons urn urns => simp
    | nil => cases r.warnings <;> simp

theorem records_iff (r : IngestionResult) :
    records c r = (!c.dry_run && (finalErrors c r).isEmpty) := by
  rw [records]
  cases hdry : c.dry_run with
  | true => rfl
  | false =>
    cases herrors : (finalErrors c r).isEmpty with
    | false => rfl
    | true =>
      have hne := ((finalErrors_real hdry r).mp herrors).2
      cases hurns : r.emitted_urns with
      | nil => exact absurd hurns hne
      | cons urn urns => rfl

variable {log : Attempts Write Str} {r : IngestionResult}

theorem finished_succeeded :
    (finished W c store source log r).succeeded = (finalErrors c r).isEmpty := by
  show decide ((if (finalErrors c r).isEmpty then "success".toList else "error".toList) =
    "success".toList) = (finalErrors c r).isEmpty
  cases (finalErrors c r).isEmpty with
  | true => exact decide_eq_true rfl
  | false => exact decide_eq_false success_ne_error

/-- A crawl that has found a table fails for no other reason than its errors. -/
theorem finalErrors_reported {C : Crawl} {tables : List SourceTable}
    {attempts : Attempts Write Str} (hne : tables ≠ [])
    (h : Reported W.toolkit C tables attempts r.emitted_urns r.errors) :
    finalErrors c r = r.errors := by
  rw [finalErrors,if_neg]
  intro hempty
  simp only [Bool.and_eq_true,List.isEmpty_iff] at hempty
  have hcounted := h.counted
  rw [hempty.1.2,hempty.2] at hcounted
  exact hne (List.eq_nil_of_length_eq_zero hcounted.symm)

theorem reported_complete {C : Crawl} {tables : List SourceTable}
    {attempts : Attempts Write Str} {emitted_urns errors : List Str}
    (h : Reported W.toolkit C tables attempts emitted_urns errors) :
    errors = [] ↔ emitted_urns = tables.map SourceTable.urn := by
  have hcounted := h.counted
  constructor
  · rintro rfl
    refine h.emitted.eq_of_length ?_
    rw [List.length_map,← hcounted]
    rfl
  · intro heq
    rw [heq,List.length_map] at hcounted
    exact List.eq_nil_of_length_eq_zero (Nat.add_eq_left.mp hcounted)

/-- Whether a real run has emitted what it has discovered. -/
theorem extracted_complete {attempts : Attempts Write Str} (hreal : c.dry_run = false)
    (h : Extracted W.toolkit c.source_id c.dry_run attempts r) :
    (finalErrors c r).isEmpty = true ↔
      r.discovered_urns ≠ [] ∧ r.emitted_urns = r.discovered_urns := by
  rw [finalErrors_real hreal]
  rcases h with ⟨hdiscovered,hemitted⟩ | ⟨C,tables,-,hdiscovered,h⟩
  · rw [hdiscovered,hemitted]
    exact ⟨fun h => absurd rfl h.2,fun h => absurd rfl h.1⟩
  · rw [hreal,if_neg Bool.false_ne_true] at h
    rw [reported_complete h,hdiscovered]
    constructor
    · rintro ⟨heq,hne⟩
      exact ⟨heq ▸ hne,heq⟩
    · rintro ⟨hne,heq⟩
      exact ⟨heq,heq.symm ▸ hne⟩

theorem finished_dry (hdry : c.dry_run = true) :
    (finished W c store source log r).attempts = log := by
  show (if c.dry_run then if records c r then _ else log else _) = log
  rw [if_pos hdry,records_iff,hdry]
  rfl

variable (W store source log r) in
theorem finished_real (hreal : c.dry_run = false) : ∃ outputs answer,
    (finished W c store source log r).attempts = log++outputs++
      [(terminalWrite W c (finished W c store source log r).succeeded,answer)] ∧
    outputs.map Prod.fst = if (finished W c store source log r).succeeded then
      [outputWrite W c r.emitted_urns] else [] := by
  rw [finished_succeeded]
  have hattempts : (finished W c store source log r).attempts = if c.dry_run then _ else
    emit_dpi_terminal W c (finalErrors c r).isEmpty
      (if records c r then emit_dpi_output W c r.emitted_urns log else log) := rfl
  rw [hattempts,if_neg (hreal ▸ Bool.false_ne_true),records_iff,hreal,Bool.not_false,Bool.true_and]
  cases (finalErrors c r).isEmpty with
  | false =>
    refine ⟨[],W.remote log (terminalWrite W c false),?_,rfl⟩
    rw [if_neg Bool.false_ne_true,List.append_nil]
    rfl
  | true =>
    rw [if_pos rfl]
    exact ⟨[(outputWrite W c r.emitted_urns,_)],_,rfl,rfl⟩

theorem recordMappings_events : (recordMappings W c store source r).events = store.events := by
  rw [recordMappings]
  split <;> rfl

theorem recordMappings_sources : (recordMappings W c store source r).sources = store.sources := by
  rw [recordMappings]
  split <;> rfl

variable (W c source) in
theorem completionDetail_keys (result : IngestionRunResult) :
    get? "source".toList (completionDetail W c source result) = none ∧
      get? Feed.DATASET_URN (completionDetail W c source result) = none ∧
      get? "dry_run".toList (completionDetail W c source result) = some (.bool c.dry_run) :=
  ⟨rfl,rfl,rfl⟩

theorem finished_stamped {out : Attempts Write Str × Except Raised IngestionResult}
    (h : Extracting W c source out) {a : Write × Option Str}
    (ha : a ∈ (finished W c store source out.1 r).attempts) : Stamped W c a.1 := by
  cases hc : c.dry_run with
  | true =>
    rw [finished_dry hc] at ha
    exact h.stamped a ha
  | false =>
    obtain ⟨outputs,answer,hattempts,houtputs⟩ := finished_real W store source out.1 r hc
    rw [hattempts] at ha
    rcases List.mem_append.mp ha with ha | ha
    · rcases List.mem_append.mp ha with ha | ha
      · exact h.stamped a ha
      · have hmem : a.1 ∈ outputs.map Prod.fst := List.mem_map_of_mem ha
        rw [houtputs] at hmem
        split_ifs at hmem
        · rw [List.mem_singleton.mp hmem]
          exact ⟨rfl,rfl⟩
        · cases hmem
    · rw [List.mem_singleton.mp ha]
      exact ⟨rfl,rfl⟩

theorem finished_accounted {out : Attempts Write Str × Except Raised IngestionResult}
    (h : Extracting W c source out) (hr : out.2 = .ok r) :
    Accounted W c store source (finished W c store source out.1 r) := by
  have hextracted := h.result r hr
  refine ⟨?_,recordMappings_sources,?_,fun hdry => ?_,fun hreal => ?_,fun a ha => ?_,
    fun hreal result hresult hne => ?_,fun hreal => ?_⟩
  · have hrows := record_rows W c (recordMappings W c store source r)
      (if (finalErrors c r).isEmpty then INGESTION_COMPLETE else INGESTION_FAIL)
      (if (finalErrors c r).isEmpty then "success".toList else "failure".toList)
      (completionDetail W c source (runResult W c r))
    rw [recordMappings_events] at hrows
    obtain ⟨hsource,hurn,hdry⟩ := completionDetail_keys W c source (runResult W c r)
    refine ⟨_,hrows,⟨rfl,rfl⟩,rfl,?_,_,rfl,hsource,hurn,.inl hdry⟩
    rw [finished_succeeded]
    cases (finalErrors c r).isEmpty <;> rfl
  · show (recordMappings W c store source r).mappings = _
    rw [recordMappings,records_iff,finished_succeeded]
    split <;> rfl
  · rw [finished_dry hdry]
    refine ⟨h.dry hdry,?_⟩
    rcases hextracted with ⟨-,hemitted⟩ | ⟨C,tables,-,-,hdone⟩
    · exact hemitted
    · rw [if_pos hdry] at hdone
      exact hdone.1
  · obtain ⟨started,crawled,hout,hturn,hcrawled⟩ := h.attempts
    obtain ⟨refusal,hturn⟩ := hturn hreal
    obtain ⟨outputs,answer,hattempts,houtputs⟩ := finished_real W store source out.1 r hreal
    refine .inr ⟨started,refusal,crawled,outputs,answer,?_,hturn,hcrawled,houtputs⟩
    rw [hattempts,hout]
  · exact finished_stamped h ha
  · cases hresult
    have hne : r.discovered_urns ≠ [] := hne
    rcases hextracted with ⟨hdiscovered,-⟩ | ⟨C,tables,hC,hdiscovered,hdone⟩
    · exact absurd hdiscovered hne
    · rw [hreal,if_neg Bool.false_ne_true] at hdone
      have htables : tables ≠ [] := by
        rintro rfl
        exact hne hdiscovered
      refine ⟨C,tables,hC,hdiscovered,?_⟩
      show Reported W.toolkit C tables _ r.emitted_urns (finalErrors c r)
      rw [finalErrors_reported htables hdone]
      obtain ⟨outputs,answer,hattempts,-⟩ := finished_real W store source out.1 r hreal
      rw [hattempts,List.append_assoc]
      exact hdone.mono (List.subset_append_left _ _)
  · rw [finished_succeeded,extracted_complete hreal hextracted]
    constructor
    · exact fun h => ⟨_,rfl,h⟩
    · rintro ⟨result,hresult,h⟩
      cases hresult
      exact h

/-- The call comes to nothing: it does not get the lock, or the source is not there or not one
with runs. -/
def Declined (c : Call) (acquired : Bool) (store : Store) : Prop :=
  acquired = false ∨ ∀ source, get_source store.sources c.source_id = some source →
    source.mode ≠ .ACTIVE_CUSTOM_MANAGED

theorem run_declined {acquired : Bool} (h : Declined c acquired store) :
    ∃ e, run W c acquired store = ⟨store,[],.error e⟩ := by
  cases acquired with
  | false => exact ⟨_,rfl⟩
  | true =>
    rw [run,if_pos rfl,run_inner]
    cases hget : get_source store.sources c.source_id with
    | none => exact ⟨_,rfl⟩
    | some source =>
      dsimp only
      rcases h with h | h
      · cases h
      · rw [if_pos (h source hget)]
        exact ⟨_,rfl⟩

theorem run_begun {acquired : Bool} (h : ¬ Declined c acquired store) :
    ∃ source, get_source store.sources c.source_id = some source ∧
      source.mode = .ACTIVE_CUSTOM_MANAGED ∧
      Accounted W c store source (run W c acquired store) := by
  rw [Declined,not_or] at h
  obtain ⟨hacquired,hsource⟩ := h
  obtain ⟨source,hsource⟩ := not_forall.mp hsource
  obtain ⟨hget,hmode⟩ := Classical.not_imp.mp hsource
  have hmode := not_not.mp hmode
  refine ⟨source,hget,hmode,?_⟩
  rw [run,if_pos (Bool.of_not_eq_false hacquired),run_inner,hget]
  dsimp only
  rw [if_neg (not_not_intro hmode)]
  cases hresolve : resolve W source.recipe with
  | error e => exact unresolved_accounted hresolve
  | ok recipe =>
    dsimp only
    have hextracting := extract_extracting W c source recipe
    generalize extract W c recipe _ = out at hextracting ⊢
    obtain ⟨log,e | r⟩ := out
    · exact aborted_accounted hextracting e
    · exact finished_accounted hextracting rfl

/-- A declined run leaves everything as it is; any other one is recorded once and says the same of
itself in its event, its mappings, its result and to DataHub, whatever DataHub answers. -/
theorem run_accounted (W : World) (c : Call) (acquired : Bool) (store : Store) :
    (Declined c acquired store → ∃ e, run W c acquired store = ⟨store,[],.error e⟩) ∧
    (¬ Declined c acquired store → ∃ source, get_source store.sources c.source_id = some source ∧
      source.mode = .ACTIVE_CUSTOM_MANAGED ∧
      Accounted W c store source (run W c acquired store)) := ⟨run_declined,run_begun⟩

end Accounts

def sampleToolkit : Toolkit where
  toRuntime := plainRuntime
  int := fun _ => none
  str := fun _ => []
  message := fun _ => []
  make_dataset_urn := fun _ name _ => some name
  as_urn := fun key => key.database
  gen_containers := fun key => [⟨some key.database,some .null⟩]
  connect := fun _ _ _ _ _ => .ok (.ok
    [⟨['s'],['t'],['c'],"text".toList,"YES".toList,none,none⟩])

def sampleWorld : World where
  toolkit := sampleToolkit
  remote := fun _ _ => none
  backend := ⟨fun _ _ _ => .error .not_found,fun _ _ => .error .not_found⟩
  monotonic := id
  resolver := ⟨[],[],0,[]⟩
  secret_message := fun _ _ => []
  datahub_config := none
  run_id := ['r']
  start_ms := 1
  crawl_ms := 2
  end_ms := 3
  mapped_at := 4
  recorded_at := 5

def sampleSource : IngestionSource :=
  ⟨0,.ACTIVE_CUSTOM_MANAGED,['n'],"postgres".toList,
    [(sourceKey,.obj [(typeKey,.str "postgres".toList),
      (configKey,.obj [("database".toList,.str ['d']),
        (schemaPatternKey,.obj [("allow".toList,texts [['s']])])])])],none,none,none,none,['a'],0,0⟩

theorem sampleSource_linked : ∀ row ∈ [sampleSource], row.Linked := by
  intro row hrow h
  rw [List.mem_singleton.mp hrow] at h
  exact absurd rfl h

theorem sampleSource_fresh : ∀ row ∈ [sampleSource], row.id < 1 := by decide

theorem sampleSource_nodup : ([sampleSource].map (·.id)).Nodup := List.nodup_singleton _

theorem noEvents_fresh : ∀ e ∈ ([] : List Feed.Event), e.id < 0 := nofun

def sampleStore : Store where
  sources := ⟨⟨[sampleSource],sampleSource_nodup⟩,1,sampleSource_fresh,sampleSource_linked⟩
  mappings := Table.empty _
  events := ⟨Table.empty _,0,noEvents_fresh⟩

def sampleCall : Call := ⟨Uuid.str 0,false,true⟩

theorem sampleSource_get :
    get_source sampleStore.sources sampleCall.source_id = some sampleSource := by
  rw [get_source,sampleCall,Uuid.UUID_str (by norm_num)]
  rfl

theorem sample_succeeds : (run sampleWorld sampleCall true sampleStore).succeeded = true := by
  decide +kernel

theorem run_accounted_sample : ∃ W c store source, ¬ Declined c true store ∧
    Accounted W c store source (run W c true store) ∧ (run W c true store).succeeded = true := by
  have hstarts : ¬ Declined sampleCall true sampleStore := by
    rintro (h | h)
    · cases h
    · exact h sampleSource sampleSource_get rfl
  obtain ⟨source,-,-,haccounted⟩ :=
    (run_accounted sampleWorld sampleCall true sampleStore).2 hstarts
  exact ⟨_,_,_,source,hstarts,haccounted,sample_succeeds⟩

end Pipeline
end Ingestion
end Dataspoke
