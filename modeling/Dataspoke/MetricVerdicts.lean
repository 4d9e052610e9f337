import Dataspoke.Metrics

/-!
# Results and verdicts

The verdict rows of a metric against the result that its latest run appended, over runs of
requests.
-/

namespace Dataspoke
namespace Metrics

open Python Transition

/-- The results of a metric, the one written last at the end. -/
def resultsOf (db : Db) (metric_id : Str) : List MetricResult :=
  db.metric_results.filter fun r => r.metric_id = metric_id

def verdictsOf (db : Db) (metric_id : Str) : List MetricDatasetResult :=
  db.metric_dataset_results.rows.filter fun row => row.metric_id = metric_id

def latest (db : Db) (metric_id : Str) : Option MetricResult := (resultsOf db metric_id).getLast?

/-- The request is a run of the metric that measures `m` and appends `result`. -/
structure Wrote (db : Db) (a : Clock × Op) (metric_id : Str) (m : Measurement)
    (result : MetricResult) : Prop where
  run : ∃ world run_id scheduled_at definition,
    a.2 = .run world true run_id metric_id false scheduled_at ∧
      db.metric_definitions.get? metric_id = some definition ∧
      measure world definition (scheduled_at.getD a.1.now) = .ok m
  result_eq : result = ⟨metric_id,m.values,
    breakdown_from_verdicts m.verdicts m.dataset_count,a.1.measured_at⟩
  appended : resultsOf (next db a) metric_id = resultsOf db metric_id ++ [result]

/-- The verdict rows are those of the run that wrote the result, and nothing has touched the
results of the metric since. -/
structure InStep (h : List (Db × Clock × Op)) (db : Db) (metric_id : Str)
    (result : MetricResult) : Prop where
  written : ∃ later p earlier m, h = later ++ p::earlier ∧ Wrote p.1 p.2 metric_id m result ∧
    (∀ q ∈ later, resultsOf q.1 metric_id = resultsOf db metric_id) ∧
    verdictsOf db metric_id = m.verdicts.map (verdictRow metric_id result.measured_at)
  failing : result.breakdown.datasets = ((verdictsOf db metric_id).filter (!·.met)).map
    fun row => (row.dataset_urn,row.detail)
  newest : ∀ r ∈ resultsOf db metric_id, r.measured_at ≤ result.measured_at

def readings (h : List (Db × Clock × Op)) : List ℕ :=
  h.flatMap fun p => [p.2.1.measured_at,p.2.1.now]

def ClockNondecreasing (h : List (Db × Clock × Op)) : Prop := (readings h).Pairwise (· ≥ ·)

instance (h : List (Db × Clock × Op)) : Decidable (ClockNondecreasing h) :=
  inferInstanceAs (Decidable ((readings h).Pairwise (· ≥ ·)))

theorem foldlM_flatten {α β : Type} {f : β → α → Except Error β} (chunks : List (List α)) (b : β) :
    chunks.foldlM (fun b chunk => chunk.foldlM f b) b = chunks.flatten.foldlM f b := by
  induction chunks generalizing b with
  | nil => rfl
  | cons chunk chunks ih =>
    rw [List.foldlM_cons,List.flatten_cons,List.foldlM_append]
    exact bind_congr ih

theorem foldlM_insertVerdict {payload : List MetricDatasetResult}
    {t t' : Table MetricDatasetResult.key} (h : payload.foldlM insertVerdict t = .ok t') :
    t'.rows = t.rows ++ payload := by
  induction payload generalizing t with
  | nil =>
    cases h
    simp
  | cons row payload ih =>
    rw [List.foldlM_cons,bind_eq_ok] at h
    obtain ⟨u,hu,h⟩ := h
    rw [insertVerdict] at hu
    by_cases hrow : (t.get? row.key).isSome = true
    · rw [if_pos hrow] at hu
      cases hu
    · rw [if_neg hrow] at hu
      cases hu
      have hnone : t.get? row.key = none := by simpa using hrow
      rw [ih h,Table.put_rows hnone,List.append_assoc,List.singleton_append]

/-- The chunks together insert every verdict. -/
theorem replace_dataset_verdicts_ok {db db' : Db} {metric_id : Str}
    {verdicts : List DatasetVerdict} {measured_at : ℕ}
    (h : replace_dataset_verdicts db metric_id verdicts measured_at = .ok db') :
    db'.metric_results = db.metric_results ∧
      db'.metric_dataset_results.rows =
        (db.metric_dataset_results.rows.filter fun row => !decide (row.metric_id = metric_id)) ++
          verdicts.map (verdictRow metric_id measured_at) := by
  rw [replace_dataset_verdicts] at h
  cases verdicts with
  | nil =>
    cases h
    simp [Table.remove]
  | cons verdict verdicts =>
    obtain ⟨rows,hrows,h⟩ := bind_eq_ok.mp h
    cases h
    rw [foldlM_flatten,flatten_slices (by decide)] at hrows
    exact ⟨rfl,foldlM_insertVerdict hrows⟩

section Requests

variable {db db' : Db} {now : ℕ} {metric_id : Str}

theorem create_metric_config_ok {config : Config}
    (h : create_metric_config db now metric_id config = .ok db') :
    ∃ row, db' = db.putDefinition row := by
  obtain ⟨_,_,h⟩ := bind_eq_ok.mp h
  obtain ⟨_,_,h⟩ := bind_eq_ok.mp h
  by_cases he : (db.metric_definitions.get? metric_id).isSome = true
  · simp [he] at h
    cases h
  · simp [he] at h
    cases h
    exact ⟨_,rfl⟩

theorem replace_metric_config_ok {config : Config}
    (h : replace_metric_config db now metric_id config = .ok db') :
    ∃ row, db' = db.putDefinition row := by
  obtain ⟨_,_,h⟩ := bind_eq_ok.mp h
  obtain ⟨_,_,h⟩ := bind_eq_ok.mp h
  obtain ⟨_,_,h⟩ := bind_eq_ok.mp h
  cases h
  exact ⟨_,rfl⟩

theorem patch_metric_config_ok {patch : Patch}
    (h : patch_metric_config db now metric_id patch = .ok db') :
    ∃ row, db' = db.putDefinition row := by
  obtain ⟨row,_,h⟩ := bind_eq_ok.mp h
  cases hf : patch.dataset_filter with
  | none =>
    rw [hf] at h
    obtain ⟨_,_,h⟩ := bind_eq_ok.mp h
    cases h
    exact ⟨_,rfl⟩
  | some dataset_filter =>
    rw [hf] at h
    obtain ⟨_,_,h⟩ := bind_eq_ok.mp h
    obtain ⟨_,_,h⟩ := bind_eq_ok.mp h
    cases h
    exact ⟨_,rfl⟩

theorem resultsOf_putDefinition (row : MetricDefinition) :
    resultsOf (db.putDefinition row) metric_id = resultsOf db metric_id := rfl

theorem verdictsOf_putDefinition (row : MetricDefinition) :
    verdictsOf (db.putDefinition row) metric_id = verdictsOf db metric_id := rfl

theorem delete_metric_config_ok (h : delete_metric_config db metric_id = .ok db') :
    db'.metric_results = (db.metric_results.filter fun r => r.metric_id ≠ metric_id) ∧
      db'.metric_dataset_results =
        db.metric_dataset_results.remove fun row => row.metric_id = metric_id := by
  obtain ⟨_,_,h⟩ := bind_eq_ok.mp h
  cases h
  exact ⟨rfl,rfl⟩

/-- What a run returns without an exception: a dry run the tables as they were. -/
theorem run_ok {world : World} {clock : Clock} {acquired : Bool} {run_id : ℕ} {dry_run : Bool}
    {scheduled_at : Option ℕ} {result : MetricRunResult}
    (h : run db world clock acquired run_id metric_id dry_run scheduled_at = .ok (db',result)) :
    (dry_run = true ∧ db' = db) ∨
    dry_run = false ∧ acquired = true ∧ ∃ definition m,
      db.metric_definitions.get? metric_id = some definition ∧
      measure world definition (scheduled_at.getD clock.now) = .ok m ∧
      replace_dataset_verdicts { db with metric_results := db.metric_results ++
        [⟨metric_id,m.values,breakdown_from_verdicts m.verdicts m.dataset_count,
          clock.measured_at⟩] } metric_id m.verdicts clock.measured_at = .ok db' := by
  rw [run] at h
  cases acquired with
  | false => cases h
  | true =>
    obtain ⟨definition,hget,h⟩ := bind_eq_ok.mp h
    have hdefinition : db.metric_definitions.get? metric_id = some definition := by
      rw [get_metric] at hget
      cases hrow : db.metric_definitions.get? metric_id with
      | none =>
        rw [hrow] at hget
        cases hget
      | some row =>
        rw [hrow] at hget
        cases hget
        rfl
    dsimp only at h
    by_cases hdisabled : (!definition.is_enabled && !dry_run) = true
    · rw [if_pos hdisabled] at h
      cases h
    rw [if_neg hdisabled] at h
    obtain ⟨m,hm,h⟩ := bind_eq_ok.mp h
    cases dry_run with
    | true =>
      cases h
      exact .inl ⟨rfl,rfl⟩
    | false =>
      obtain ⟨db'',hdb,h⟩ := bind_eq_ok.mp h
      cases h
      exact .inr ⟨rfl,rfl,definition,m,hdefinition,hm,hdb⟩

end Requests

section Steps

variable {db db' : Db} {a : Clock × Op} {metric_id : Str}

theorem next_ok (h : request db a.1 a.2 = .ok db') : next db a = db' := by
  rw [next,h]

theorem next_error {e : Error} (h : request db a.1 a.2 = .error e) : next db a = db := by
  rw [next,h]

theorem next_dry_run (db : Db) (clock : Clock) (world : World) (acquired : Bool) (run_id : ℕ)
    (metric_id : Str) (scheduled_at : Option ℕ) :
    next db (clock,.run world acquired run_id metric_id true scheduled_at) = db := by
  cases h : request db clock (.run world acquired run_id metric_id true scheduled_at) with
  | error e => exact next_error h
  | ok db' =>
    obtain ⟨r,hrun,rfl⟩ := map_eq_ok.mp h
    rw [next_ok h]
    rcases run_ok hrun with ⟨_,heq⟩ | ⟨hdry,_⟩
    · exact heq
    · cases hdry

theorem filter_other {α : Type} {f : α → Str} {rows : List α} {id : Str} (h : id ≠ metric_id) :
    (rows.filter fun r => !decide (f r = id)).filter (fun r => f r = metric_id) =
      rows.filter fun r => f r = metric_id := by
  rw [List.filter_filter]
  refine List.filter_congr fun r _ => ?_
  by_cases hr : f r = metric_id
  · simp [hr,h.symm]
  · simp [hr]

theorem filter_self {α : Type} {f : α → Str} {rows : List α} :
    (rows.filter fun r => !decide (f r = metric_id)).filter (fun r => f r = metric_id) = [] := by
  rw [List.filter_filter,List.filter_eq_nil_iff]
  intro r _
  simp

theorem filter_verdictRow {verdicts : List DatasetVerdict} {measured_at : ℕ} {id : Str} :
    (verdicts.map (verdictRow id measured_at)).filter (fun row => row.metric_id = metric_id) =
      if id = metric_id then verdicts.map (verdictRow id measured_at) else [] := by
  by_cases h : id = metric_id
  · rw [if_pos h,List.filter_eq_self]
    simp [verdictRow,h]
  · rw [if_neg h,List.filter_eq_nil_iff]
    simp [verdictRow,h]

/-- A request leaves the results and the verdicts of a metric as they are, removes them all, or
is the run that writes both. -/
theorem next_cases (db : Db) (a : Clock × Op) (metric_id : Str) :
    (resultsOf (next db a) metric_id = resultsOf db metric_id ∧
      verdictsOf (next db a) metric_id = verdictsOf db metric_id) ∨
    (resultsOf (next db a) metric_id = [] ∧ verdictsOf (next db a) metric_id = []) ∨
    ∃ m result, Wrote db a metric_id m result ∧
      verdictsOf (next db a) metric_id =
        m.verdicts.map (verdictRow metric_id result.measured_at) := by
  cases h : request db a.1 a.2 with
  | error e =>
    rw [next_error h]
    exact .inl ⟨rfl,rfl⟩
  | ok db' =>
    have hput : (∃ row, db' = db.putDefinition row) → resultsOf (next db a) metric_id =
        resultsOf db metric_id ∧ verdictsOf (next db a) metric_id = verdictsOf db metric_id := by
      rintro ⟨row,rfl⟩
      rw [next_ok h]
      exact ⟨resultsOf_putDefinition row,verdictsOf_putDefinition row⟩
    obtain ⟨clock,op⟩ := a
    cases op with
    | create id config => exact .inl (hput (create_metric_config_ok h))
    | replace id config => exact .inl (hput (replace_metric_config_ok h))
    | patch id patch => exact .inl (hput (patch_metric_config_ok h))
    | delete id =>
      obtain ⟨hresults,hverdicts⟩ := delete_metric_config_ok h
      rw [next_ok h,resultsOf,verdictsOf,hresults,hverdicts,Table.remove]
      by_cases hid : id = metric_id
      · subst hid
        refine .inr (.inl ⟨?_,filter_self⟩)
        simpa only [ne_eq,decide_not] using filter_self
      · refine .inl ⟨?_,filter_other hid⟩
        rw [resultsOf]
        simpa only [ne_eq,decide_not] using filter_other hid
    | run world acquired run_id id dry_run scheduled_at =>
      obtain ⟨⟨db'',r⟩,hrun,rfl⟩ := map_eq_ok.mp h
      rcases run_ok hrun with ⟨_,rfl⟩ | ⟨rfl,rfl,definition,m,hdefinition,hm,hreplace⟩
      · rw [next_ok h]
        exact .inl ⟨rfl,rfl⟩
      obtain ⟨hresults,hverdicts⟩ := replace_dataset_verdicts_ok hreplace
      by_cases hid : id = metric_id
      · subst hid
        refine .inr (.inr ⟨m,_,⟨⟨world,run_id,scheduled_at,definition,rfl,hdefinition,hm⟩,rfl,?_⟩,?_⟩)
        · rw [next_ok h,resultsOf,hresults,List.filter_append]
          simp [resultsOf]
        · rw [next_ok h,verdictsOf,hverdicts,List.filter_append,filter_self,filter_verdictRow,
            if_pos rfl,List.nil_append]
      · refine .inl ⟨?_,?_⟩
        · rw [next_ok h,resultsOf,hresults,List.filter_append]
          simp [resultsOf,hid]
        · rw [next_ok h,verdictsOf,hverdicts,List.filter_append,filter_other hid,
            filter_verdictRow,if_neg hid,List.append_nil,verdictsOf]

end Steps

section Runs

variable {db : Db} {h : List (Db × Clock × Op)} {metric_id : Str}

theorem measured_at_mem (hr : Run system Db.empty h db) {r : MetricResult}
    (hmem : r ∈ resultsOf db metric_id) : r.measured_at ∈ readings h := by
  induction hr with
  | refl => cases hmem
  | @step h t u a _ ht ih =>
    cases ht
    have hcons : readings ((t,a)::h) = a.1.measured_at::a.1.now::readings h := rfl
    rw [hcons]
    rcases next_cases t a metric_id with hsame | hnone | ⟨m,result,hw,_⟩
    · rw [hsame.1] at hmem
      exact List.mem_cons_of_mem _ (List.mem_cons_of_mem _ (ih hmem))
    · rw [hnone.1] at hmem
      cases hmem
    · rw [hw.appended,List.mem_append,List.mem_singleton] at hmem
      rcases hmem with hmem | rfl
      · exact List.mem_cons_of_mem _ (List.mem_cons_of_mem _ (ih hmem))
      · rw [hw.result_eq]
        exact List.mem_cons_self

/-- The breakdown lists the datasets whose row is not met. -/
theorem breakdown_datasets (verdicts : List DatasetVerdict) (dataset_count measured_at : ℕ) :
    (breakdown_from_verdicts verdicts dataset_count).datasets =
      ((verdicts.map (verdictRow metric_id measured_at)).filter (!·.met)).map
        fun row => (row.dataset_urn,row.detail) := by
  rw [breakdown_from_verdicts,List.filter_map,List.map_map]
  rfl

/-- The step of the invariant: a run that writes a result puts its verdicts beside it. -/
theorem inStep_of_wrote {a : Clock × Op} {m : Measurement} {result : MetricResult}
    (hr : Run system Db.empty h db) (hc : ClockNondecreasing ((db,a)::h))
    (hw : Wrote db a metric_id m result)
    (hv : verdictsOf (next db a) metric_id =
      m.verdicts.map (verdictRow metric_id result.measured_at)) :
    InStep ((db,a)::h) (next db a) metric_id result where
  written := ⟨[],(db,a),h,m,rfl,hw,nofun,hv⟩
  failing := by
    rw [hv,hw.result_eq]
    exact breakdown_datasets m.verdicts m.dataset_count a.1.measured_at
  newest := by
    intro r hmem
    rw [hw.appended,List.mem_append,List.mem_singleton] at hmem
    rcases hmem with hmem | rfl
    · have hread := measured_at_mem hr hmem
      rw [hw.result_eq]
      exact List.rel_of_pairwise_cons hc (List.mem_cons_of_mem _ hread)
    · exact le_refl _

/-- A step that touches neither the results nor the verdicts. -/
theorem InStep.frame {a : Clock × Op} {result : MetricResult} (hi : InStep h db metric_id result)
    (hresults : resultsOf (next db a) metric_id = resultsOf db metric_id)
    (hverdicts : verdictsOf (next db a) metric_id = verdictsOf db metric_id) :
    InStep ((db,a)::h) (next db a) metric_id result where
  written := by
    obtain ⟨later,p,earlier,m,rfl,hw,hlater,hv⟩ := hi.written
    refine ⟨(db,a)::later,p,earlier,m,rfl,hw,?_,hverdicts.trans hv⟩
    intro q hq
    rw [hresults]
    rcases List.mem_cons.mp hq with rfl | hq
    · rfl
    · exact hlater q hq
  failing := by
    rw [hverdicts]
    exact hi.failing
  newest := by
    rw [hresults]
    exact hi.newest

end Runs

/-- In every state that requests lead to from empty tables, the verdict rows of a metric are
those of the run that wrote its latest result; a metric without results has none, and a dry run
changes nothing. -/
theorem verdicts_in_step {db : Db} {h : List (Db × Clock × Op)} (hr : Run system Db.empty h db)
    (hc : ClockNondecreasing h) :
    (∀ metric_id, (latest db metric_id = none → verdictsOf db metric_id = []) ∧
      ∀ result, latest db metric_id = some result → InStep h db metric_id result) ∧
    ∀ clock world acquired run_id metric_id scheduled_at,
      next db (clock,.run world acquired run_id metric_id true scheduled_at) = db := by
  refine ⟨fun metric_id => ?_,next_dry_run db⟩
  induction hr with
  | refl => exact ⟨fun _ => rfl,nofun⟩
  | @step h t u a hr ht ih =>
    cases ht
    have hrest : ClockNondecreasing h := (List.pairwise_cons.mp (List.pairwise_cons.mp hc).2).2
    rcases next_cases t a metric_id with ⟨hresults,hverdicts⟩ | hnone | ⟨m,result,hw,hv⟩
    · rw [latest,hresults,hverdicts]
      exact ⟨(ih hrest).1,fun result hl => ((ih hrest).2 result hl).frame hresults hverdicts⟩
    · rw [latest,hnone.1]
      exact ⟨fun _ => hnone.2,nofun⟩
    · rw [latest,hw.appended,List.getLast?_concat]
      refine ⟨nofun,fun r hl => ?_⟩
      cases hl
      exact inStep_of_wrote hr hc hw hv

def sampleConfig : Config where
  mode := "active".toList
  metric_type := "doc-health".toList
  title := "Docs".toList
  description := []
  metrics := []
  metric_conf := []
  dataset_filter := []
  is_enabled := true

def sampleWorld : World where
  registry := Table.empty _
  rows := ⟨id,fun _ => .refl _⟩
  measure := fun _ _ _ _ => .ok ([],[⟨['a'],true,none,[]⟩,⟨['b'],false,none,[]⟩])

def sampleRequests : List (Clock × Op) :=
  [(⟨0,0⟩,.create ['m'] sampleConfig),(⟨1,2⟩,.run sampleWorld true 0 ['m'] false none)]

theorem verdicts_in_step_sample : ∃ h db, Run system Db.empty h db ∧
    (verdictsOf db ['m']).map (fun row => (row.dataset_urn,row.met,row.measured_at)) =
      [(['a'],true,2),(['b'],false,2)] ∧
    ∃ result, latest db ['m'] = some result ∧ InStep h db ['m'] result := by
  have hr := run_of_replay (i:=(· = Db.empty)) (f:=fun db a => some (next db a))
    (l:=sampleRequests) (.refl (s:=Db.empty)) rfl
  refine ⟨_,_,hr,rfl,_,rfl,?_⟩
  exact ((verdicts_in_step hr (by decide)).1 ['m']).2 _ rfl

end Metrics
end Dataspoke
