import Dataspoke.Measurers
import Dataspoke.MetricView

/-!
# A run and the view of it

What a real run with the measurers of the registry reports against what the view of the metric shows
right after it.
-/

namespace Dataspoke
namespace Metrics

open Python Transition DatasetScope
open Registry (DatasetRegistry)
open Sql (Order)

/-- Rows whose keys are new go in, whatever the chunks. -/
theorem foldlM_insertVerdict_ok {payload : List MetricDatasetResult}
    {t : Table MetricDatasetResult.key} (hn : (payload.map (·.key)).Nodup)
    (hnew : ∀ row ∈ payload, t.get? row.key = none) :
    ∃ t', payload.foldlM insertVerdict t = .ok t' := by
  induction payload generalizing t with
  | nil => exact ⟨t,rfl⟩
  | cons row payload ih =>
    rw [List.map_cons,List.nodup_cons] at hn
    have hrow := hnew row List.mem_cons_self
    have hput : insertVerdict t row = .ok (t.put row) := by
      rw [insertVerdict,hrow]
      rfl
    rw [List.foldlM_cons,hput]
    refine ih hn.2 fun row' hrow' => ?_
    have hne : row.key ≠ row'.key := fun he => hn.1 (List.mem_map.mpr ⟨row',hrow',he.symm⟩)
    rw [Table.get?_put,if_neg hne]
    exact hnew row' (List.mem_cons_of_mem _ hrow')

/-- Verdicts on different datasets are stored. -/
theorem replace_dataset_verdicts_exists (db : Db) (metric_id : Str)
    {verdicts : List DatasetVerdict} (hn : (verdicts.map (·.urn)).Nodup) (measured_at : ℕ) :
    ∃ db', replace_dataset_verdicts db metric_id verdicts measured_at = .ok db' := by
  have hkeys : ((verdicts.map (verdictRow metric_id measured_at)).map (·.key)).Nodup := by
    have hpairs := hn.map (Prod.mk_right_injective metric_id)
    rw [List.map_map] at hpairs ⊢
    exact hpairs
  have hnew : ∀ row ∈ verdicts.map (verdictRow metric_id measured_at),
      (db.metric_dataset_results.remove fun row => row.metric_id = metric_id).get? row.key = none := by
    intro row hrow
    obtain ⟨v,-,rfl⟩ := List.mem_map.mp hrow
    exact (get?_remove_metric _ _ _ _).trans (if_pos rfl)
  obtain ⟨t,ht⟩ := foldlM_insertVerdict_ok hkeys hnew
  rw [replace_dataset_verdicts]
  cases verdicts with
  | nil => exact ⟨_,rfl⟩
  | cons v verdicts =>
    dsimp only [bind,Except.bind]
    rw [if_neg (by simp),foldlM_flatten,flatten_slices (by decide),ht]
    exact ⟨_,rfl⟩

theorem replace_definitions {db db' : Db} {metric_id : Str} {verdicts : List DatasetVerdict}
    {measured_at : ℕ} (h : replace_dataset_verdicts db metric_id verdicts measured_at = .ok db') :
    db'.metric_definitions = db.metric_definitions := by
  rw [replace_dataset_verdicts] at h
  cases verdicts with
  | nil =>
    cases h
    rfl
  | cons v verdicts =>
    obtain ⟨rows,-,h⟩ := bind_eq_ok.mp h
    cases h
    rfl

section Runs

variable {db db' : Db} {world : World} {clock : Clock} {run_id : ℕ} {metric_id : Str}
  {scheduled_at : Option ℕ}

theorem measure_ok {E : Estate} (hE : world.measure = measurer E) {definition : MetricDefinition}
    {now : ℕ} {m : Measurement} (h : measure world definition now = .ok m) :
    ∃ scope all_values, resolve_dataset_scope world.registry world.rows
        (some definition.dataset_filter) none = .ok scope ∧
      Measured E definition.metric_type scope.resolved_urns all_values m.verdicts ∧
      (∀ item ∈ m.values, item ∈ all_values) ∧ m.dataset_count = scope.resolved_urns.length := by
  obtain ⟨scope,hscope,h⟩ := bind_eq_ok.mp h
  have hresolved : resolve_dataset_scope world.registry world.rows
      (some definition.dataset_filter) none = .ok scope := by
    cases hr : resolve_dataset_scope world.registry world.rows
        (some definition.dataset_filter) none with
    | error e =>
      rw [hr] at hscope
      cases hscope
    | ok scope' =>
      rw [hr] at hscope
      cases hscope
      rfl
  by_cases htype : definition.metric_type ∉ list_measurers
  · simp only [htype,not_false_eq_true,if_true] at h
    cases h
  · simp only [htype,if_false] at h
    obtain ⟨⟨all_values,verdicts⟩,hmeasure,h⟩ := bind_eq_ok.mp h
    cases h
    rw [hE] at hmeasure
    refine ⟨scope,all_values,hresolved,measurer_ok hmeasure,fun item hitem => ?_,rfl⟩
    dsimp only at hitem
    split at hitem
    · exact hitem
    · exact List.mem_of_mem_filter hitem

/-- The result of a real run, and the tables that it leaves. -/
theorem real_run_ok {acquired : Bool} {definition : MetricDefinition} {result : MetricRunResult}
    (hget : db.metric_definitions.get? metric_id = some definition)
    (h : run db world clock acquired run_id metric_id false scheduled_at = .ok (db',result)) :
    ∃ m, measure world definition (scheduled_at.getD clock.now) = .ok m ∧
      replace_dataset_verdicts { db with metric_results := db.metric_results ++
        [⟨metric_id,m.values,breakdown_from_verdicts m.verdicts m.dataset_count,
          clock.measured_at⟩] } metric_id m.verdicts clock.measured_at = .ok db' ∧
      result.values = m.values ∧ result.dataset_count = m.dataset_count ∧
      result.affected_count = m.verdicts.countP (!·.met) := by
  rw [run] at h
  cases acquired with
  | false => cases h
  | true =>
    obtain ⟨definition',hrow,h⟩ := bind_eq_ok.mp h
    rw [get_metric,hget] at hrow
    cases hrow
    dsimp only at h
    split at h
    · cases h
    · obtain ⟨m,hm,h⟩ := bind_eq_ok.mp h
      obtain ⟨db'',hdb,h⟩ := bind_eq_ok.mp h
      cases h
      refine ⟨m,hm,hdb,rfl,rfl,?_⟩
      rw [breakdown_from_verdicts,List.length_map,← List.countP_eq_length_filter]

/-- A run whose measurement succeeds is refused only if the lock or the definition says so. -/
theorem real_run_exists {definition : MetricDefinition} {m : Measurement}
    (hget : db.metric_definitions.get? metric_id = some definition)
    (henabled : definition.is_enabled = true)
    (hm : measure world definition (scheduled_at.getD clock.now) = .ok m)
    (hn : (m.verdicts.map (·.urn)).Nodup) :
    ∃ out, run db world clock true run_id metric_id false scheduled_at = .ok out := by
  have hstored := replace_dataset_verdicts_exists { db with
    metric_results := db.metric_results ++ [⟨metric_id,m.values,
      breakdown_from_verdicts m.verdicts m.dataset_count,clock.measured_at⟩] } metric_id hn
    clock.measured_at
  obtain ⟨db',hdb⟩ := hstored
  have hrow : get_metric db metric_id = .ok definition := by rw [get_metric,hget]
  refine ⟨(db',⟨run_id,metric_id,m.values,false,m.unresolved_urns,m.dataset_count,
    (breakdown_from_verdicts m.verdicts m.dataset_count).datasets.length⟩),
    bind_eq_ok.mpr ⟨definition,hrow,?_⟩⟩
  rw [henabled]
  exact bind_eq_ok.mpr ⟨m,hm,bind_eq_ok.mpr ⟨db',hdb,rfl⟩⟩

end Runs

section Totals

def viewTotal (ilike : Str → Str → Bool) (db : Db) (registry : Registry.Db)
    (order_by : Order Joined) (metric_id state : Str) : Option ℕ :=
  (list_metric_datasets ilike db registry metric_id (some [state]) none 0 0 order_by).toOption.map
    fun out => out.2.1

variable {db : Db} {metric_id : Str} {urns : List Str} {last : Option (Measurement × ℕ)}

theorem viewTotal_eq {registry : Registry.Db} {definition : MetricDefinition}
    {rows : Order DatasetRegistry} {scope : ResolvedDatasetScope}
    (hm : Mirrors metric_id last db)
    (hget : db.metric_definitions.get? metric_id = some definition)
    (hscope : resolve_dataset_scope registry rows (some definition.dataset_filter) none = .ok scope)
    (ilike : Str → Str → Bool) (order_by : Order Joined) {state : Str} (hs : state ∈ MET_STATES) :
    viewTotal ilike db registry order_by metric_id state =
      some (scope.resolved_urns.countP fun urn => (shown last urn).met = state) := by
  obtain ⟨ast,hparse,rfl⟩ := map_eq_ok.mp hscope
  have hperm : (scopeOf registry rows ast none).resolved_urns.Perm _ := resolved_perm rows
  obtain ⟨hlisted,-⟩ := ordered_base ilike hm order_by hperm [state] none
  have hstates : ¬ (selectedStates (some [state])).filter (fun s => s ∉ MET_STATES) ≠ [] :=
    not_not_intro (unknown_states.mpr fun s hmem => List.mem_singleton.mp hmem ▸ hs)
  rw [viewTotal,list_metric_datasets_eq hget hparse,if_neg hstates]
  have hlength := hlisted.length_eq
  rw [List.length_map,(order_by.perm _).length_eq,← List.countP_eq_length_filter] at hlength
  refine congrArg some (hlength.trans (List.countP_congr fun urn _ => ?_))
  simp [Validation.Store.found]

def stateText : Option Bool → Str
  | some true => "true".toList
  | some false => "false".toList
  | none => "unknown".toList

theorem stateText_inj {a b : Option Bool} : stateText a = stateText b ↔ a = b := by
  rcases a with _ | (_ | _) <;> rcases b with _ | (_ | _) <;> decide

theorem shown_met (urn : Str) :
    (shown last urn).met = stateText ((verdictOn last urn).map (·.1.met)) := by
  rw [shown]
  cases verdictOn last urn with
  | none => rfl
  | some v =>
    obtain ⟨v,t⟩ := v
    rw [Option.map_some]
    show (if v.met then _ else _) = stateText (some v.met)
    cases v.met <;> rfl

theorem countP_shown (urns : List Str) (met : Option Bool) :
    (urns.countP fun urn => (shown last urn).met = stateText met) =
      urns.countP fun urn => (verdictOn last urn).map (·.1.met) = met := by
  simp only [shown_met,stateText_inj]

theorem countP_states {α : Type} (f : α → Option Bool) (l : List α) : l.length =
    (l.countP fun a => f a = some true) + (l.countP fun a => f a = some false) +
      l.countP fun a => f a = none := by
  induction l with
  | nil => rfl
  | cons a l ih =>
    rw [List.length_cons,List.countP_cons,List.countP_cons,List.countP_cons,ih]
    rcases hf : f a with _ | (_ | _) <;> simp <;> omega

/-- The datasets with a verdict that satisfies `p` are as many as such verdicts. -/
theorem countP_find? {verdicts : List DatasetVerdict} {p : DatasetVerdict → Bool}
    (hn : (verdicts.map (·.urn)).Nodup) (hurns : urns.Nodup)
    (hsub : ∀ v ∈ verdicts, v.urn ∈ urns) :
    (urns.countP fun urn => (verdicts.find? (·.urn = urn)).any p) = verdicts.countP p := by
  have hget : ∀ {urn v}, verdicts.find? (·.urn = urn) = some v ↔ v ∈ verdicts ∧ v.urn = urn :=
    Table.get?_eq_some (t := (⟨verdicts,hn⟩ : Table DatasetVerdict.urn))
  have hmap : ((verdicts.filter p).map (·.urn)).length = (verdicts.filter p).length :=
    List.length_map _
  rw [List.countP_eq_length_filter,List.countP_eq_length_filter,← hmap]
  refine List.Perm.length_eq ((List.perm_ext_iff_of_nodup (hurns.filter _)
    (hn.sublist (List.filter_sublist.map _))).mpr fun urn => ?_)
  rw [List.mem_filter,List.mem_map,Option.any_eq_true]
  constructor
  · rintro ⟨-,v,hv,hp⟩
    exact ⟨v,List.mem_filter.mpr ⟨(hget.mp hv).1,hp⟩,(hget.mp hv).2⟩
  · rintro ⟨v,hv,rfl⟩
    obtain ⟨hmem,hp⟩ := List.mem_filter.mp hv
    exact ⟨hsub v hmem,v,hget.mpr ⟨hmem,rfl⟩,hp⟩

/-- The datasets that the last run found met, or not met. -/
theorem countP_verdictOn {m : Measurement} (measured_at : ℕ)
    (hn : (m.verdicts.map (·.urn)).Nodup) (hurns : urns.Nodup)
    (hsub : ∀ v ∈ m.verdicts, v.urn ∈ urns) (met : Bool) :
    (urns.countP fun urn => (verdictOn (some (m,measured_at)) urn).map (·.1.met) = some met) =
      m.verdicts.countP (·.met == met) := by
  rw [← countP_find? hn hurns hsub]
  refine List.countP_congr fun urn _ => ?_
  rw [verdictOn,Option.bind_some,Option.map_map]
  cases m.verdicts.find? (·.urn = urn) <;> simp

end Totals

section Agreement

variable {h : List (Db × Clock × Op)} {db db' : Db} {world : World} {clock : Clock} {run_id : ℕ}
  {metric_id : Str} {scheduled_at : Option ℕ} {definition : MetricDefinition} {m : Measurement}

theorem scope_nodup {registry : Registry.Db} {rows : Order DatasetRegistry} {text : Option Str}
    {scope : ResolvedDatasetScope} (h : resolve_dataset_scope registry rows text none = .ok scope) :
    scope.resolved_urns.Nodup := by
  obtain ⟨ast,-,rfl⟩ := map_eq_ok.mp h
  exact (sortedSet_sorted _).imp fun h => ne_of_lt h

/-- The totals of the view, by the verdicts of the last run. -/
theorem viewTotals_last {registry : Registry.Db} {rows : Order DatasetRegistry}
    {scope : ResolvedDatasetScope} {measured_at : ℕ}
    (hm : Mirrors metric_id (some (m,measured_at)) db)
    (hget : db.metric_definitions.get? metric_id = some definition)
    (hscope : resolve_dataset_scope registry rows (some definition.dataset_filter) none = .ok scope)
    (hsub : ∀ v ∈ m.verdicts, v.urn ∈ scope.resolved_urns) (ilike : Str → Str → Bool)
    (order_by : Order Joined) :
    let total := viewTotal ilike db registry order_by metric_id
    total "true".toList = some (m.verdicts.countP (·.met)) ∧
      total "false".toList = some (m.verdicts.countP (!·.met)) ∧
      ∃ unknown, total "unknown".toList = some unknown ∧
        scope.resolved_urns.length = m.verdicts.length+unknown := by
  intro total
  have hn : (m.verdicts.map (·.urn)).Nodup := hm.once _ rfl
  have hcounts := countP_verdictOn measured_at hn (scope_nodup hscope) hsub
  have htotal : ∀ met, total (stateText met) = some (scope.resolved_urns.countP fun urn =>
      (verdictOn (some (m,measured_at)) urn).map (·.1.met) = met) := by
    intro met
    have hs : stateText met ∈ MET_STATES := by rcases met with _ | (_ | _) <;> decide
    exact (viewTotal_eq hm hget hscope ilike order_by hs).trans
      (congrArg some (countP_shown _ _))
  have hsum := countP_states (fun urn =>
    (verdictOn (some (m,measured_at)) urn).map (·.1.met)) scope.resolved_urns
  have hverdicts : m.verdicts.length = m.verdicts.countP (·.met == true) +
      m.verdicts.countP (·.met == false) := by
    rw [List.length_eq_countP_add_countP (·.met == true)]
    simp
  refine ⟨(htotal (some true)).trans ?_,(htotal (some false)).trans ?_,_,htotal none,?_⟩
  · rw [hcounts]
    simp
  · rw [hcounts]
    simp
  · rw [hsum,hcounts,hcounts,hverdicts]

/-- The totals of a view are what the result of a run counts. -/
def Agrees (metric_type : Str) (result : MetricRunResult) (total : Str → Option ℕ) : Prop :=
  ∃ met failing unknown : ℕ, total "true".toList = some met ∧
    total "false".toList = some failing ∧ total "unknown".toList = some unknown ∧
    result.dataset_count = met+failing+unknown ∧ result.affected_count = failing ∧
    (metric_type ≠ "validation-score".toList → unknown = 0) ∧
    ∀ item ∈ result.values, item = (totalKey metric_type,.fin (met+failing : ℕ)) ∨
      item = (metKey metric_type,.fin met)

/-- A real run with the measurers of the registry fails only before its verdicts are stored, and
the view right after it shows what its result counts. -/
theorem run_agrees_with_view (hr : Run system Db.empty h db) {E : Estate}
    (hE : world.measure = measurer E)
    (hget : db.metric_definitions.get? metric_id = some definition) :
    (definition.is_enabled = true →
      ∀ m, measure world definition (scheduled_at.getD clock.now) = .ok m →
        ∃ out, run db world clock true run_id metric_id false scheduled_at = .ok out) ∧
    ∀ acquired db' result,
      run db world clock acquired run_id metric_id false scheduled_at = .ok (db',result) →
      ∀ ilike order_by, Agrees definition.metric_type result
        (viewTotal ilike db' world.registry order_by metric_id) := by
  constructor
  · intro henabled m hm
    obtain ⟨scope,all_values,hscope,hmeasured,-,-⟩ := measure_ok hE hm
    refine real_run_exists hget henabled hm ?_
    rw [hmeasured.urns]
    exact (scope_nodup hscope).filter _
  · intro acquired db' result hrun ilike order_by
    obtain ⟨m,hm,hreplace,hvalues,hcount,haffected⟩ := real_run_ok hget hrun
    obtain ⟨scope,all_values,hscope,hmeasured,hitems,hlength⟩ := measure_ok hE hm
    have hmirrors := (mirrors_lastRun hr metric_id).run hreplace
    rw [if_pos rfl] at hmirrors
    have hget' : db'.metric_definitions.get? metric_id = some definition := by
      rw [replace_definitions hreplace]
      exact hget
    have hsub : ∀ v ∈ m.verdicts, v.urn ∈ scope.resolved_urns := by
      intro v hv
      have hin : v.urn ∈ m.verdicts.map (·.urn) := List.mem_map_of_mem hv
      rw [hmeasured.urns] at hin
      exact List.mem_of_mem_filter hin
    obtain ⟨hmet,hfailing,unknown,hunknown,hsum⟩ :=
      viewTotals_last hmirrors hget' hscope hsub ilike order_by
    have hverdicts : m.verdicts.countP (·.met)+m.verdicts.countP (!·.met) = m.verdicts.length := by
      rw [List.length_eq_countP_add_countP (·.met)]
      simp
    refine ⟨_,_,_,hmet,hfailing,hunknown,?_,haffected,?_,?_⟩
    · rw [hcount,hlength,hsum,hverdicts]
    · intro htype
      have hlengths := congrArg List.length hmeasured.urns
      rw [List.length_map,judges_all htype] at hlengths
      omega
    · intro item hitem
      have hin := hitems item (hvalues ▸ hitem)
      rw [hmeasured.values] at hin
      rw [hverdicts]
      simpa using hin

end Agreement

def describedGms : DocGms := fun page => some <| page.filterMap fun urn =>
  if urn = ['b'] then some ⟨some urn,some ['d'],none,[(['c'],some ['d'])],[]⟩ else none

theorem no_events : (([] : List Ingestion.Feed.Event).map (·.id)).Nodup := List.nodup_nil

open Ingestion.Feed in
def sampleEstate : Estate where
  ingestion := wrapped [] no_events
  plan := storedPlan _
  timestamp := fun t => t
  configs := Table.empty _
  results := Table.empty _
  gms := describedGms
  isoformat := fun _ => []
  int := plainInt
  int_int := plainInt_int

def documentedWorld : World := ⟨viewRegistry,⟨id,List.Perm.refl⟩,measurer sampleEstate⟩

def created : Db := next Db.empty (⟨0,0⟩,.create ['m'] sampleConfig)

theorem run_agrees_with_view_sample : ∃ h db' result, Run system Db.empty h created ∧
    run created documentedWorld ⟨1,2⟩ true 0 ['m'] false none = .ok (db',result) ∧
    result.values = [("total".toList,.fin 2),("doc_health".toList,.fin 1)] ∧
    ∀ ilike order_by, Agrees sampleConfig.metric_type result
      (viewTotal ilike db' documentedWorld.registry order_by ['m']) := by
  have hr : Run system Db.empty [(Db.empty,⟨0,0⟩,.create ['m'] sampleConfig)] created :=
    .step .refl rfl
  have hget : created.metric_definitions.get? ['m'] = some (sampleConfig.row ['m'] 0 0) := rfl
  have hE : documentedWorld.measure = measurer sampleEstate := rfl
  have hrun : ∃ out, run created documentedWorld ⟨1,2⟩ true 0 ['m'] false none = .ok out ∧
      out.2.values = [("total".toList,.fin 2),("doc_health".toList,.fin 1)] := ⟨_,rfl,rfl⟩
  obtain ⟨⟨db',result⟩,hrun,hvalues⟩ := hrun
  exact ⟨_,db',result,hr,hrun,hvalues,
    (run_agrees_with_view hr hE hget).2 true db' result hrun⟩

end Metrics
end Dataspoke
