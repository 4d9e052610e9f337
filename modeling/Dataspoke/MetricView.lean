import Dataspoke.GroupMax
import Dataspoke.MetricVerdicts
import Dataspoke.ValidationListing

/-!
# The per-dataset view of a metric

The listing of the datasets in the scope of a metric, each with the verdict that is stored for
it, against the last real run of the metric.
-/

namespace Dataspoke
namespace Metrics

open Python Transition DatasetScope
open Registry (DatasetRegistry)
open Sql (Order page whereTrue mem_whereTrue page_all)
open Validation.Store (found)

section Listing

structure MetricDatasetRecord where
  dataset_urn : Str
  met : Str
  last_check_at : Option ℕ
  detail : Option (List (Str × Value))

/-- `sorted(_MET_STATES)`. -/
def MET_STATES : List Str := ["false".toList,"true".toList,"unknown".toList]

/-- A row of the left join. -/
abbrev Joined := DatasetRegistry × Option MetricDatasetResult

def inScope (registry : Registry.Db) (ast : DatasetFilter.FilterAst) : List DatasetRegistry :=
  whereTrue (condition ast none) registry.rows

def joined (db : Db) (metric_id : Str) (scope : List DatasetRegistry) : List Joined :=
  scope.map fun row => (row,db.metric_dataset_results.get? (metric_id,row.dataset_urn))

/-- `set(met or _MET_STATES)`. -/
def selectedStates : Option (List Str) → List Str
  | none | some [] => MET_STATES
  | some met => met

/-- The conditions on the `met` column; `none` is the miss of the join. -/
def selects (selected : List Str) (met : Option Bool) : Bool :=
  "true".toList ∈ selected && met == some true ||
    "false".toList ∈ selected && met == some false || "unknown".toList ∈ selected && met == none

def Joined.record (r : Joined) : MetricDatasetRecord where
  dataset_urn := r.1.dataset_urn
  met := match r.2 with
    | none => "unknown".toList
    | some row => if row.met then "true".toList else "false".toList
  last_check_at := r.2.map fun row => row.evidence_at.getD row.measured_at
  detail := r.2.map (·.detail)

variable (ilike : Str → Str → Bool)

def base (db : Db) (metric_id : Str) (selected : List Str) (dataset_urn : Option Str)
    (scope : List DatasetRegistry) : List Joined :=
  (joined db metric_id scope).filter fun r =>
    found ilike dataset_urn r.1.dataset_urn && selects selected (r.2.map (·.met))

def list_metric_datasets (db : Db) (registry : Registry.Db) (metric_id : Str)
    (met : Option (List Str)) (dataset_urn : Option Str) (offset limit : ℕ)
    (order_by : Order Joined) : Except Error (List MetricDatasetRecord × ℕ × Option ℕ) := do
  let definition ← get_metric db metric_id
  let ast ← (DatasetFilter.parse_filter (some definition.dataset_filter)).mapError .dataset_filter
  let selected := selectedStates met
  let unknown := selected.filter fun state => state ∉ MET_STATES
  if unknown ≠ [] then
    throw (.precondition_failed "INVALID_PARAMETER"
      ([.text "met must be one of "] ++ listPieces MET_STATES ++ [.text "; got "] ++
        listPieces (sortedSet unknown)))
  let scope := inScope registry ast
  let rows := base ilike db metric_id selected dataset_urn scope
  return ((page offset limit (order_by.order rows)).map Joined.record,rows.length,
    (scope.filterMap (·.attrs_synced_at)).max?)

end Listing

/-- What a request does to the verdicts of a metric. -/
inductive Effect
  | keep
  | clear
  | write (m : Measurement) (measured_at : ℕ)

def Effect.apply (last : Option (Measurement × ℕ)) : Effect → Option (Measurement × ℕ)
  | .keep => last
  | .clear => none
  | .write m measured_at => some (m,measured_at)

/-- Of the requests that are not rolled back, a deletion clears and a real run writes. -/
def effect (db : Db) (a : Clock × Op) (metric_id : Str) : Effect :=
  match request db a.1 a.2, a.2 with
  | .ok _, .delete id => if id = metric_id then .clear else .keep
  | .ok _, .run world _ _ id false scheduled_at =>
    if id = metric_id then
      ((db.metric_definitions.get? id).bind fun definition =>
        (measure world definition (scheduled_at.getD a.1.now)).toOption).elim .keep
          fun m => .write m a.1.measured_at
    else .keep
  | _, _ => .keep

/-- What the last real run of the metric measured, if there is one since its deletion. -/
def lastRun (metric_id : Str) : List (Db × Clock × Op) → Option (Measurement × ℕ)
  | [] => none
  | (db,a)::h => (effect db a metric_id).apply (lastRun metric_id h)

/-- The verdict of the last run on a dataset, with the instant of the run. -/
def verdictOn (last : Option (Measurement × ℕ)) (urn : Str) : Option (DatasetVerdict × ℕ) :=
  last.bind fun r => (r.1.verdicts.find? (·.urn = urn)).map (·,r.2)

/-- A dataset as the view is to show it. -/
def shown (last : Option (Measurement × ℕ)) (urn : Str) : MetricDatasetRecord :=
  match verdictOn last urn with
  | none => ⟨urn,"unknown".toList,none,none⟩
  | some (v,measured_at) => ⟨urn,if v.met then "true".toList else "false".toList,
      some (v.evidence_at.getD measured_at),some v.detail⟩

/-- The row that a run has for a dataset. -/
def said (metric_id : Str) (last : Option (Measurement × ℕ)) (urn : Str) :
    Option MetricDatasetResult :=
  (verdictOn last urn).map fun v => verdictRow metric_id v.2 v.1

section Refinement

variable {db db' : Db} {metric_id : Str}

theorem get?_remove_metric (t : Table MetricDatasetResult.key) (id metric_id urn : Str) :
    (t.remove fun row => row.metric_id = id).get? (metric_id,urn) =
      if id = metric_id then none else t.get? (metric_id,urn) := by
  rw [Table.get?_remove]
  cases hrow : t.get? (metric_id,urn) with
  | none => exact (ite_self _).symm
  | some row =>
    have hkey : row.metric_id = metric_id := congrArg Prod.fst (Table.get?_eq_some.mp hrow).2
    by_cases hid : id = metric_id
    · rw [if_pos hid,Option.filter_some_neg (by simp [hkey,hid])]
    · rw [if_neg hid,Option.filter_some_pos (by simp [hkey,Ne.symm hid])]

/-- The rows of a metric after its verdicts are replaced; those of the others stay. -/
theorem get?_replaced {id : Str} {verdicts : List DatasetVerdict} {measured_at : ℕ}
    (h : replace_dataset_verdicts db id verdicts measured_at = .ok db') (urn : Str) :
    db'.metric_dataset_results.get? (metric_id,urn) =
      if id = metric_id then (verdicts.find? (·.urn = urn)).map (verdictRow id measured_at)
      else db.metric_dataset_results.get? (metric_id,urn) := by
  have hget : db'.metric_dataset_results.get? (metric_id,urn) =
      ((db.metric_dataset_results.remove fun row => row.metric_id = id).get? (metric_id,urn)).or
        ((verdicts.find? fun v => (verdictRow id measured_at v).key = (metric_id,urn)).map
          (verdictRow id measured_at)) := by
    rw [Table.get?,(replace_dataset_verdicts_ok h).2,List.find?_append,List.find?_map]
    rfl
  rw [hget,get?_remove_metric]
  by_cases hid : id = metric_id
  · subst hid
    simp [verdictRow,MetricDatasetResult.key]
  · have hother : (verdicts.find? fun v =>
        (verdictRow id measured_at v).key = (metric_id,urn)) = none := by
      simp [verdictRow,MetricDatasetResult.key,hid]
    rw [if_neg hid,if_neg hid,hother,Option.map_none,Option.or_none]

/-- No two verdicts that are stored are on one dataset. -/
theorem replaced_nodup {verdicts : List DatasetVerdict} {measured_at : ℕ}
    (h : replace_dataset_verdicts db metric_id verdicts measured_at = .ok db') :
    (verdicts.map (·.urn)).Nodup := by
  have hn := db'.metric_dataset_results.nodup
  rw [(replace_dataset_verdicts_ok h).2,List.map_append,List.map_map] at hn
  have hkeys : (verdicts.map (·.urn)).map (Prod.mk metric_id) =
      verdicts.map (MetricDatasetResult.key ∘ verdictRow metric_id measured_at) := by
    rw [List.map_map]
    rfl
  exact List.Nodup.of_map (Prod.mk metric_id) (hkeys ▸ hn.of_append_right)

/-- The tables hold of a metric what its last run measured. -/
structure Mirrors (metric_id : Str) (last : Option (Measurement × ℕ)) (db : Db) : Prop where
  rows : ∀ urn, db.metric_dataset_results.get? (metric_id,urn) = said metric_id last urn
  result : latest db metric_id = last.map fun r =>
    ⟨metric_id,r.1.values,breakdown_from_verdicts r.1.verdicts r.1.dataset_count,r.2⟩
  once : ∀ r, last = some r → (r.1.verdicts.map (·.urn)).Nodup

variable {last : Option (Measurement × ℕ)}

theorem Mirrors.frame (hm : Mirrors metric_id last db)
    (hresults : resultsOf db' metric_id = resultsOf db metric_id)
    (hrows : ∀ urn, db'.metric_dataset_results.get? (metric_id,urn) =
      db.metric_dataset_results.get? (metric_id,urn)) : Mirrors metric_id last db' where
  rows urn := (hrows urn).trans (hm.rows urn)
  result := by
    rw [latest,hresults]
    exact hm.result
  once := hm.once

theorem Mirrors.put (hm : Mirrors metric_id last db) (h : ∃ row, db' = db.putDefinition row) :
    Mirrors metric_id last db' := by
  obtain ⟨row,rfl⟩ := h
  exact hm.frame rfl fun _ => rfl

theorem Mirrors.delete (hm : Mirrors metric_id last db) {id : Str}
    (h : delete_metric_config db id = .ok db') :
    Mirrors metric_id (if id = metric_id then none else last) db' := by
  obtain ⟨hresults,hverdicts⟩ := delete_metric_config_ok h
  have hget : ∀ urn, db'.metric_dataset_results.get? (metric_id,urn) =
      if id = metric_id then none else db.metric_dataset_results.get? (metric_id,urn) := by
    intro urn
    rw [hverdicts,get?_remove_metric]
  have hkept : resultsOf db' metric_id =
      (db.metric_results.filter fun r => !decide (r.metric_id = id)).filter
        fun r => r.metric_id = metric_id := by
    rw [resultsOf,hresults]
    simp only [ne_eq,decide_not]
  by_cases hid : id = metric_id
  · subst hid
    rw [if_pos rfl]
    refine ⟨fun urn => (hget urn).trans (if_pos rfl),?_,fun r hr => ?_⟩
    · rw [latest,hkept,filter_self]
      rfl
    · cases hr
  · rw [if_neg hid]
    exact hm.frame (hkept.trans (filter_other hid)) fun urn => (hget urn).trans (if_neg hid)

theorem Mirrors.run (hm : Mirrors metric_id last db) {id : Str} {m : Measurement}
    {measured_at : ℕ} (h : replace_dataset_verdicts { db with
      metric_results := db.metric_results ++ [⟨id,m.values,
        breakdown_from_verdicts m.verdicts m.dataset_count,measured_at⟩] } id m.verdicts
      measured_at = .ok db') :
    Mirrors metric_id (if id = metric_id then some (m,measured_at) else last) db' := by
  have hresults : resultsOf db' metric_id = resultsOf db metric_id ++
      [(⟨id,m.values,breakdown_from_verdicts m.verdicts m.dataset_count,measured_at⟩ :
        MetricResult)].filter fun r => r.metric_id = metric_id := by
    rw [resultsOf,(replace_dataset_verdicts_ok h).1,List.filter_append]
    rfl
  by_cases hid : id = metric_id
  · subst hid
    rw [if_pos rfl]
    refine ⟨fun urn => ?_,?_,?_⟩
    · rw [get?_replaced h,if_pos rfl,said,verdictOn,Option.bind_some,Option.map_map]
      rfl
    · rw [latest,hresults]
      simp
    · rintro _ ⟨⟩
      exact replaced_nodup h
  · rw [if_neg hid]
    refine hm.frame ?_ fun urn => (get?_replaced h urn).trans (if_neg hid)
    rw [hresults]
    simp [hid]

/-- A request takes the tables along with its effect on the last run. -/
theorem Mirrors.next (hm : Mirrors metric_id last db) (a : Clock × Op) :
    Mirrors metric_id ((effect db a metric_id).apply last) (next db a) := by
  obtain ⟨clock,op⟩ := a
  cases h : request db clock op with
  | error e =>
    rw [next_error h,effect,h]
    exact hm
  | ok db' =>
    rw [next_ok h,effect,h]
    cases op with
    | create id config => exact hm.put (create_metric_config_ok h)
    | replace id config => exact hm.put (replace_metric_config_ok h)
    | patch id patch => exact hm.put (patch_metric_config_ok h)
    | delete id =>
      have hdelete := hm.delete h
      by_cases hid : id = metric_id
      · simpa [hid,Effect.apply] using hdelete
      · simpa [hid,Effect.apply] using hdelete
    | run world acquired run_id id dry_run scheduled_at =>
      obtain ⟨⟨db'',r⟩,hrun,rfl⟩ := map_eq_ok.mp h
      rcases run_ok hrun with ⟨rfl,rfl⟩ | ⟨rfl,rfl,definition,m,hdefinition,hm',hreplace⟩
      · exact hm
      · have hrun := hm.run hreplace
        by_cases hid : id = metric_id
        · subst hid
          simpa [Effect.apply,hdefinition,hm',Except.toOption] using hrun
        · simpa [hid,Effect.apply] using hrun

theorem mirrors_lastRun {h : List (Db × Clock × Op)} (hr : Run system Db.empty h db)
    (metric_id : Str) : Mirrors metric_id (lastRun metric_id h) db := by
  induction hr with
  | refl => exact ⟨fun _ => rfl,rfl,nofun⟩
  | @step h t u a _ ht ih =>
    cases ht
    exact ih.next a

end Refinement

section View

variable {ilike : Str → Str → Bool} {db : Db} {metric_id : Str} {last : Option (Measurement × ℕ)}

theorem record_said (row : DatasetRegistry) :
    Joined.record (row,said metric_id last row.dataset_urn) = shown last row.dataset_urn := by
  rw [Joined.record,said,shown]
  cases verdictOn last row.dataset_urn <;> rfl

theorem said_met (urn : Str) {selected : List Str} :
    selects selected ((said metric_id last urn).map (·.met)) =
      decide ((shown last urn).met ∈ selected) := by
  rw [said,shown,selects]
  generalize "true".toList = t, "false".toList = f, "unknown".toList = u
  cases verdictOn last urn with
  | none => simp
  | some v =>
    obtain ⟨v,t⟩ := v
    cases hv : v.met <;> simp [verdictRow,hv]

theorem joined_said (hm : Mirrors metric_id last db) (scope : List DatasetRegistry) :
    joined db metric_id scope = scope.map fun row => (row,said metric_id last row.dataset_urn) :=
  List.map_congr_left fun row _ => by rw [hm.rows]

theorem base_said (hm : Mirrors metric_id last db) (selected : List Str) (text : Option Str)
    (scope : List DatasetRegistry) :
    base ilike db metric_id selected text scope =
      (scope.filter fun row => found ilike text row.dataset_urn &&
        decide ((shown last row.dataset_urn).met ∈ selected)).map
          fun row => (row,said metric_id last row.dataset_urn) := by
  rw [base,joined_said hm,List.filter_map]
  congr 1
  exact List.filter_congr fun row _ => by simp only [Function.comp_apply,said_met]

theorem verdictOn_eq_some (hn : ∀ r, last = some r → (r.1.verdicts.map (·.urn)).Nodup) {urn : Str}
    {v : DatasetVerdict × ℕ} : verdictOn last urn = some v ↔
      ∃ m, last = some (m,v.2) ∧ v.1 ∈ m.verdicts ∧ v.1.urn = urn := by
  obtain ⟨v,t⟩ := v
  cases last with
  | none => simp [verdictOn]
  | some r =>
    have hget := Table.get?_eq_some (t := (⟨r.1.verdicts,hn r rfl⟩ : Table DatasetVerdict.urn))
      (k := urn) (r := v)
    rw [Table.get?] at hget
    obtain ⟨m,t'⟩ := r
    rw [verdictOn,Option.bind_some,Option.map_eq_some_iff]
    constructor
    · rintro ⟨v',hv,heq⟩
      obtain ⟨rfl,rfl⟩ := Prod.mk.inj heq
      exact ⟨m,rfl,hget.mp hv⟩
    · rintro ⟨m',heq,hv⟩
      obtain ⟨rfl,rfl⟩ := Prod.mk.inj (Option.some.inj heq)
      exact ⟨v,hget.mpr hv,rfl⟩

def syncedAt (registry : Registry.Db) (urns : List Str) : Set ℕ :=
  {t | ∃ urn ∈ urns, ∃ row, registry.get? urn = some row ∧ row.attrs_synced_at = some t}

def failing (records : List MetricDatasetRecord) : List (Str × Option (List (Str × Value))) :=
  (records.filter fun r => r.met = "false".toList).map fun r => (r.dataset_urn,r.detail)

/-- The view of a metric shows the datasets `urns`, each with what the last run said of it: page by
page, narrowed to the states and the text that are asked for. -/
structure ShowsLastRun (ilike : Str → Str → Bool) (db : Db) (registry : Registry.Db)
    (order_by : Order Joined) (metric_id : Str) (urns : List Str)
    (last : Option (Measurement × ℕ)) : Prop where
  pages : ∃ synced, GroupMax.Greatest (syncedAt registry urns) synced ∧
    ∀ met text, (∀ state ∈ selectedStates met, state ∈ MET_STATES) →
      ∃ listed : List Str, listed.Perm (urns.filter fun urn => found ilike text urn &&
          decide ((shown last urn).met ∈ selectedStates met)) ∧
        ∀ offset limit, list_metric_datasets ilike db registry metric_id met text offset limit
          order_by = .ok (page offset limit (listed.map (shown last)),listed.length,synced)
  refused : ∀ met text offset limit, (∃ state ∈ selectedStates met, state ∉ MET_STATES) →
    ∃ message, list_metric_datasets ilike db registry metric_id met text offset limit order_by =
      .error (.precondition_failed "INVALID_PARAMETER" message)
  /-- The datasets that are not met are those of the latest breakdown that are still in scope. -/
  failing : (failing (urns.map (shown last))).Perm
    ((((latest db metric_id).elim [] (·.breakdown.datasets)).filter fun d => d.1 ∈ urns).map
      fun d => (d.1,some d.2))

variable {registry : Registry.Db} {ast : DatasetFilter.FilterAst} {urns : List Str}

theorem resolved_perm (rows : Order DatasetRegistry) :
    (scopeOf registry rows ast none).resolved_urns.Perm
      ((inScope registry ast).map (·.dataset_urn)) := by
  have hn : ((inScope registry ast).map (·.dataset_urn)).Nodup :=
    registry.nodup.sublist (List.filter_sublist.map _)
  refine (List.perm_ext_iff_of_nodup ?_ hn).mpr fun urn => ?_
  · exact (sortedSet_sorted _).imp fun h => ne_of_lt h
  · show urn ∈ sortedSet _ ↔ _
    rw [mem_sortedSet,List.mem_map,List.mem_map]
    exact exists_congr fun row => and_congr_left fun _ => rows.mem

theorem mem_failing {u : Str} {d : Option (List (Str × Value))} :
    (u,d) ∈ failing (urns.map (shown last)) ↔
      u ∈ urns ∧ ∃ v, verdictOn last u = some v ∧ v.1.met = false ∧ d = some v.1.detail := by
  rw [failing,List.filter_map,List.map_map,List.mem_map]
  have hshown : ∀ urn, ((shown last urn).met = "false".toList ↔
      ∃ v, verdictOn last urn = some v ∧ v.1.met = false) ∧
      (shown last urn).dataset_urn = urn ∧
      (shown last urn).detail = (verdictOn last urn).map (·.1.detail) := by
    intro urn
    rw [shown]
    cases hv : verdictOn last urn with
    | none => simp
    | some v =>
      obtain ⟨v,t⟩ := v
      cases hmet : v.met <;> simp [hmet]
  constructor
  · rintro ⟨urn,hurn,heq⟩
    obtain ⟨hurn,hfalse⟩ := List.mem_filter.mp hurn
    obtain ⟨v,hv,hmet⟩ := (hshown urn).1.mp (of_decide_eq_true hfalse)
    obtain ⟨rfl,rfl⟩ := Prod.mk.inj heq
    rw [(hshown urn).2.1,(hshown urn).2.2,hv]
    exact ⟨hurn,v,rfl,hmet,rfl⟩
  · rintro ⟨hurn,v,hv,hmet,rfl⟩
    refine ⟨u,List.mem_filter.mpr ⟨hurn,decide_eq_true ((hshown u).1.mpr ⟨v,hv,hmet⟩)⟩,?_⟩
    exact Prod.ext (hshown u).2.1 (by rw [Function.comp_apply,(hshown u).2.2,hv]; rfl)

theorem failing_nodup (hn : urns.Nodup) : (failing (urns.map (shown last))).Nodup := by
  have hurns : (urns.map (shown last)).map (·.dataset_urn) = urns := by
    rw [List.map_map]
    refine (List.map_congr_left fun urn _ => ?_).trans (List.map_id urns)
    rw [Function.comp_apply,shown]
    cases verdictOn last urn <;> rfl
  refine List.Nodup.of_map Prod.fst ?_
  rw [failing,List.map_map]
  exact (hurns ▸ hn).sublist (List.filter_sublist.map _)

/-- What fails in the view is what the latest result lists, as far as it is in scope. -/
theorem failing_perm (hm : Mirrors metric_id last db) (hn : urns.Nodup) :
    (failing (urns.map (shown last))).Perm
      ((((latest db metric_id).elim [] (·.breakdown.datasets)).filter fun d => d.1 ∈ urns).map
        fun d => (d.1,some d.2)) := by
  have hlist : ∀ d : Str × List (Str × Value),
      d ∈ (latest db metric_id).elim [] (·.breakdown.datasets) ↔
        ∃ v, verdictOn last d.1 = some v ∧ v.1.met = false ∧ d.2 = v.1.detail := by
    rintro ⟨u,d⟩
    rw [hm.result]
    simp only [verdictOn_eq_some hm.once]
    cases last with
    | none => simp
    | some r =>
      simp only [Option.map_some,Option.elim_some,breakdown_from_verdicts,List.mem_map,
        List.mem_filter,Bool.not_eq_true',Prod.mk.injEq]
      constructor
      · rintro ⟨v,⟨hv,hmet⟩,rfl,rfl⟩
        exact ⟨(v,r.2),⟨r.1,rfl,hv,rfl⟩,hmet,rfl⟩
      · rintro ⟨⟨v,t⟩,⟨m,heq,hv,hurn⟩,hmet,hd⟩
        obtain rfl := Option.some.inj heq
        exact ⟨v,⟨hv,hmet⟩,hurn,hd.symm⟩
  have hkeys : ((latest db metric_id).elim [] (·.breakdown.datasets) |>.map Prod.fst).Nodup := by
    rw [hm.result]
    cases hlast : last with
    | none => exact List.nodup_nil
    | some r =>
      have hsub : ((r.1.verdicts.filter (!·.met)).map fun v => (v.urn,v.detail)).map Prod.fst =
          (r.1.verdicts.filter (!·.met)).map (·.urn) := by
        rw [List.map_map]
        rfl
      exact hsub ▸ (hm.once r hlast).sublist (List.filter_sublist.map _)
  have hright : ((((latest db metric_id).elim [] (·.breakdown.datasets)).filter
      fun d => d.1 ∈ urns).map fun d => (d.1,some d.2)).Nodup := by
    refine List.Nodup.of_map Prod.fst ?_
    rw [List.map_map]
    exact hkeys.sublist (List.filter_sublist.map Prod.fst)
  refine (List.perm_ext_iff_of_nodup (failing_nodup hn) hright).mpr fun p => ?_
  obtain ⟨u,d⟩ := p
  rw [mem_failing,List.mem_map]
  constructor
  · rintro ⟨hurn,v,hv,hmet,rfl⟩
    have hin := (hlist (u,v.1.detail)).mpr ⟨v,hv,hmet,rfl⟩
    exact ⟨(u,v.1.detail),List.mem_filter.mpr ⟨hin,decide_eq_true hurn⟩,rfl⟩
  · rintro ⟨e,he,heq⟩
    obtain ⟨he,hurn⟩ := List.mem_filter.mp he
    obtain ⟨v,hv,hmet,hd⟩ := (hlist e).mp he
    obtain ⟨rfl,rfl⟩ := Prod.mk.inj heq
    exact ⟨of_decide_eq_true hurn,v,hv,hmet,congrArg some hd⟩

theorem list_metric_datasets_eq {definition : MetricDefinition}
    (hget : db.metric_definitions.get? metric_id = some definition)
    (hparse : DatasetFilter.parse_filter (some definition.dataset_filter) = .ok ast)
    (order_by : Order Joined) (met : Option (List Str)) (text : Option Str) (offset limit : ℕ) :
    list_metric_datasets ilike db registry metric_id met text offset limit order_by =
      if (selectedStates met).filter (fun state => state ∉ MET_STATES) ≠ [] then
        .error (.precondition_failed "INVALID_PARAMETER"
          ([.text "met must be one of "] ++ listPieces MET_STATES ++ [.text "; got "] ++
            listPieces (sortedSet ((selectedStates met).filter fun state => state ∉ MET_STATES))))
      else
        .ok ((page offset limit (order_by.order (base ilike db metric_id (selectedStates met) text
            (inScope registry ast)))).map Joined.record,
          (base ilike db metric_id (selectedStates met) text (inScope registry ast)).length,
          ((inScope registry ast).filterMap (·.attrs_synced_at)).max?) := by
  rw [list_metric_datasets,get_metric,hget]
  dsimp only [bind,Except.bind]
  rw [hparse]
  dsimp only [Except.mapError]
  by_cases h : (selectedStates met).filter (fun state => state ∉ MET_STATES) ≠ []
  · rw [if_pos h,if_pos h]
    rfl
  · rw [if_neg h,if_neg h]
    rfl

theorem unknown_states {met : Option (List Str)} :
    (selectedStates met).filter (fun state => state ∉ MET_STATES) = [] ↔
      ∀ state ∈ selectedStates met, state ∈ MET_STATES := by
  simp [List.filter_eq_nil_iff]

theorem page_map {α β : Type} (f : α → β) (offset limit : ℕ) (l : List α) :
    (page offset limit l).map f = page offset limit (l.map f) := by
  rw [page,page,List.map_take,List.map_drop]

theorem ordered_base (ilike : Str → Str → Bool) (hm : Mirrors metric_id last db)
    (order_by : Order Joined)
    (hurns : urns.Perm ((inScope registry ast).map (·.dataset_urn))) (selected : List Str)
    (text : Option Str) :
    let rows := order_by.order (base ilike db metric_id selected text (inScope registry ast))
    let listed := rows.map (·.1.dataset_urn)
    listed.Perm (urns.filter fun urn => found ilike text urn &&
        decide ((shown last urn).met ∈ selected)) ∧
      rows.map Joined.record = listed.map (shown last) := by
  intro rows listed
  have hrows : rows.Perm _ := (order_by.perm _).trans (.of_eq (base_said hm selected text _))
  constructor
  · refine (hrows.map _).trans ?_
    rw [List.map_map]
    refine List.Perm.trans (.of_eq ?_) (hurns.filter _).symm
    rw [List.filter_map]
    rfl
  · rw [List.map_map]
    refine List.map_congr_left fun r hr => ?_
    obtain ⟨row,-,rfl⟩ := List.mem_map.mp (hrows.mem_iff.mp hr)
    exact record_said row

theorem greatest_synced (hurns : urns.Perm ((inScope registry ast).map (·.dataset_urn))) :
    GroupMax.Greatest (syncedAt registry urns)
      ((inScope registry ast).filterMap (·.attrs_synced_at)).max? := by
  have hmem : ∀ t, t ∈ (inScope registry ast).filterMap (·.attrs_synced_at) ↔
      t ∈ syncedAt registry urns := by
    intro t
    rw [List.mem_filterMap]
    constructor
    · rintro ⟨row,hrow,ht⟩
      refine ⟨row.dataset_urn,hurns.mem_iff.mpr (List.mem_map_of_mem hrow),row,?_,ht⟩
      exact Table.mem_rows.mp (mem_whereTrue.mp hrow).1
    · rintro ⟨urn,hurn,row,hrow,ht⟩
      obtain ⟨row',hrow',rfl⟩ := List.mem_map.mp (hurns.mem_iff.mp hurn)
      have hsame := Table.mem_rows.mp (mem_whereTrue.mp hrow').1
      rw [hrow,Option.some.injEq] at hsame
      exact ⟨row',hrow',hsame ▸ ht⟩
  cases hmax : ((inScope registry ast).filterMap (·.attrs_synced_at)).max? with
  | none =>
    refine Set.eq_empty_iff_forall_notMem.mpr fun t ht => ?_
    have hnil := (hmem t).mpr ht
    rw [List.max?_eq_none_iff.mp hmax] at hnil
    cases hnil
  | some t =>
    obtain ⟨ht,hle⟩ := List.max?_eq_some_iff.mp hmax
    exact ⟨(hmem t).mp ht,fun s hs => hle s ((hmem s).mpr hs)⟩

/-- Over every run of requests, the view of a metric shows the scope that a run would resolve, each
dataset with what the last real run since the deletion of the metric said of it. -/
theorem view_shows_last_run {h : List (Db × Clock × Op)} (hr : Run system Db.empty h db)
    {definition : MetricDefinition} (hget : db.metric_definitions.get? metric_id = some definition)
    {rows : Order DatasetRegistry} {scope : ResolvedDatasetScope}
    (hscope : resolve_dataset_scope registry rows (some definition.dataset_filter) none = .ok scope)
    (ilike : Str → Str → Bool) (order_by : Order Joined) :
    ShowsLastRun ilike db registry order_by metric_id scope.resolved_urns
      (lastRun metric_id h) := by
  obtain ⟨ast,hparse,rfl⟩ := map_eq_ok.mp hscope
  have hm := mirrors_lastRun hr metric_id
  have hperm : (scopeOf registry rows ast none).resolved_urns.Perm _ := resolved_perm rows
  refine ⟨⟨_,greatest_synced hperm,fun met text hmet => ?_⟩,fun met text offset limit hbad => ?_,?_⟩
  · obtain ⟨hlisted,hrecords⟩ := ordered_base ilike hm order_by hperm (selectedStates met) text
    refine ⟨_,hlisted,fun offset limit => ?_⟩
    rw [list_metric_datasets_eq hget hparse,if_neg (not_not_intro (unknown_states.mpr hmet)),
      page_map,hrecords,List.length_map,(order_by.perm _).length_eq]
  · rw [list_metric_datasets_eq hget hparse,if_pos]
    · exact ⟨_,rfl⟩
    · rw [Ne,unknown_states]
      obtain ⟨state,hstate,hnot⟩ := hbad
      exact fun h => hnot (h state hstate)
  · exact failing_perm hm ((sortedSet_sorted _).imp fun h => ne_of_lt h)

end View

def viewRegistry : Registry.Db := ⟨[.new 0 ['b'] true,.new 0 ['c'] true],by decide⟩

def sameOrder : Order Joined := ⟨id,fun _ => .refl _⟩

theorem view_shows_last_run_sample : ∃ h db, Run system Db.empty h db ∧
    ShowsLastRun (fun _ _ => true) db viewRegistry sameOrder ['m'] [['b'],['c']]
      (lastRun ['m'] h) ∧
    [['b'],['c']].map (fun urn => (shown (lastRun ['m'] h) urn).met) =
      ["false".toList,"unknown".toList] := by
  have hr := run_of_replay (i:=(· = Db.empty)) (f:=fun db a => some (next db a))
    (l:=sampleRequests) (.refl (s:=Db.empty)) rfl
  have hscope : resolve_dataset_scope viewRegistry ⟨id,fun _ => .refl _⟩ (some []) none =
      .ok ⟨[['b'],['c']],[]⟩ := rfl
  exact ⟨_,_,hr,@view_shows_last_run _ ['m'] viewRegistry _ hr (sampleConfig.row ['m'] 0 0) rfl _ _
    hscope (fun _ _ => true) sameOrder,rfl⟩

end Metrics
end Dataspoke
