import Dataspoke.ValidationStore
import Mathlib.Logic.Function.Basic

/-!
# Runs of the validation store

What holds of the tables after any requests, the history of a dataset as the last report for each
data time, and what DataHub holds of its assertion.
-/

namespace Dataspoke
namespace Validation
namespace Store

open Python Transition
open RemoteCall (Fate inTurn)

variable {R : Runtime} {m : Meet} {r : Request} {db db' db₀ : Db} {h : List (Db × (Meet × Request))}
  {urn : Str}

theorem step_effect {l : Meet × Request} (hs : step R db l = some db') :
    db.clock < l.1.now ∧ db'.clock = l.1.now ∧ l.2.Admitted db ∧ Effect R l.1 db l.2 db' := by
  obtain ⟨hguard,heq⟩ := Option.ite_none_right_eq_some.mp hs
  obtain rfl := Option.some.inj heq
  refine ⟨hguard.1,rfl,hguard.2,?_⟩
  cases run_effect (R := R) (m := l.1) hguard.2 with
  | idle h1 h2 h3 h4 h5 h6 h7 => exact .idle h1 h2 h3 h4 h5 h6 h7
  | stored c h1 h2 h3 h4 h5 h6 h7 => exact .stored c h1 h2 h3 h4 h5 h6 h7
  | deleted urn h1 h2 h3 h4 h5 h6 h7 => exact .deleted urn h1 h2 h3 h4 h5 h6 h7
  | reported row run h1 h2 h3 h4 h5 h6 h7 h8 => exact .reported row run h1 h2 h3 h4 h5 h6 h7 h8

/-- The section has every field that has a default. -/
def Complete (items : List (Str × ℤ)) : Prop :=
  ∀ key, get? key DEFAULT_VALIDATION_ATTRIBUTE ≠ none → get? key items ≠ none

theorem complete_withDefaults (items : List (Str × ℤ)) : Complete (withDefaults items) := by
  have hfold : ∀ attr, Complete attr →
      Complete (items.foldl (fun attr item => setItem item.1 item.2 attr) attr) := by
    induction items with
    | nil => exact fun _ hattr => hattr
    | cons item items ih =>
      refine fun attr hattr => ih _ fun key hkey => ?_
      rw [get?_setItem]
      split
      · exact Option.some_ne_none _
      · exact hattr key hkey
  exact hfold _ fun _ hkey => hkey

/-- Another dataset has the assertion of the dataset. -/
def Shared (R : Runtime) (urn : Str) : Prop :=
  ∃ other, other ≠ urn ∧ build_assertion_urn R other = build_assertion_urn R urn

/-- DataHub has a run event for the result, sent since the assertion of its dataset was last
deleted. -/
def Told (R : Runtime) (datahub : List (Str × Emission)) (row : ValidationResult) : Prop :=
  ∃ run before after, datahub =
      before ++ (build_assertion_urn R row.dataset_urn,.assertionRunEvent run)::after ∧
    (run.asserteeUrn = row.dataset_urn ∧ run.actualAggValue = row.score ∧
      run.timestampMillis = R.epoch_ms row.data_time) ∧
    ((build_assertion_urn R row.dataset_urn,.hardDelete) ∈ after → Shared R row.dataset_urn)

/-- What the tables are to satisfy after any requests. -/
structure Invariant (R : Runtime) (db : Db) : Prop where
  /-- A result belongs to a configured dataset. -/
  configured : ∀ r ∈ db.results.rows, db.configs.get? r.dataset_urn ≠ none
  scored : ∀ r ∈ db.results.rows, validScore r.score = true
  stamped : ∀ r ∈ db.results.rows, r.ingestion_time ≤ db.clock
  distinct : ∀ a ∈ db.results.rows, ∀ b ∈ db.results.rows,
    a.ingestion_time = b.ingestion_time → a = b
  complete : ∀ c ∈ db.configs.rows, Complete c.«attribute»
  timed : ∀ c ∈ db.configs.rows, c.created_at ≤ c.updated_at ∧ c.updated_at ≤ db.clock
  /-- A validation event belongs to a configured dataset. -/
  logged : ∀ e ∈ db.events, VALIDATION_PREFIX.isPrefixOf e.event_type = true →
    e.entity_type = "dataset".toList ∧ db.configs.get? e.entity_id ≠ none
  /-- What is recorded as reported is stored, and DataHub has been told of it. -/
  recorded : ∀ e ∈ db.events, e.event_type = VALIDATION_RESULT_RECORDED →
    ∃ r ∈ db.results.rows, r.dataset_urn = e.entity_id ∧
      e.detail = .result r.data_time r.score r.«variables».length ∧ Told R db.datahub r

theorem stores_spec {c : Config} (hc : r.stores m db = some c) (hdb : Invariant R db)
    (hclock : db.clock < m.now) :
    Complete c.«attribute» ∧ c.created_at ≤ c.updated_at ∧ c.updated_at = m.now := by
  cases r with
  | upsert urn description vars attr parameter aspect =>
    obtain ⟨-,heq⟩ := Option.ite_none_right_eq_some.mp hc
    obtain rfl := Option.some.inj heq
    refine ⟨complete_withDefaults _,?_,rfl⟩
    cases hrow : db.configs.get? urn with
    | none => exact Nat.le_refl _
    | some row =>
      have htimed := hdb.timed row (Table.get?_eq_some.mp hrow).1
      change row.created_at ≤ m.now
      omega
  | patch urn p =>
    obtain ⟨row,hrow,rfl⟩ := Option.map_eq_some_iff.mp hc
    have hmem := (Table.get?_eq_some.mp hrow).1
    have htimed := hdb.timed row hmem
    refine ⟨?_,?_,rfl⟩
    · unfold Config.patched
      dsimp only
      cases p.«attribute».getD none with
      | none => exact hdb.complete row hmem
      | some items => exact complete_withDefaults items
    · change row.created_at ≤ m.now
      omega
  | delete | record | elsewhere => cases hc

theorem reports_spec {row : ValidationResult} (hrow : r.reports m db = some row) :
    ∃ c, db.configs.get? row.dataset_urn = some c ∧ validScore row.score = true ∧
      (∀ v ∈ row.«variables», v.1 ∈ c.«variables».map (·.name)) ∧ row.ingestion_time = m.now := by
  cases r with
  | record urn data_time score vars note id runId =>
    obtain ⟨c,hc,hrow⟩ := Option.bind_eq_some_iff.mp hrow
    obtain ⟨hvalid,heq⟩ := Option.ite_none_right_eq_some.mp hrow
    obtain rfl := Option.some.inj heq
    obtain ⟨hscore,hvars⟩ := Bool.and_eq_true_iff.mp hvalid
    refine ⟨c,hc,hscore,fun v hv => ?_,rfl⟩
    exact of_decide_eq_true (List.all_eq_true.mp hvars v hv)
  | upsert | patch | delete | elsewhere => cases hrow

theorem reports_fresh {row : ValidationResult} (hrow : r.reports m db = some row)
    (hadm : r.Admitted db) : db.results.get? row.id = none := by
  cases r with
  | record urn data_time score vars note id runId =>
    obtain ⟨c,-,hrow⟩ := Option.bind_eq_some_iff.mp hrow
    obtain ⟨-,heq⟩ := Option.ite_none_right_eq_some.mp hrow
    obtain rfl := Option.some.inj heq
    exact hadm
  | upsert | patch | delete | elsewhere => cases hrow

theorem deletes_spec (h : r.deletes db = some urn) : r = .delete urn ∧ db.configs.get? urn ≠ none := by
  cases r with
  | delete u =>
    obtain ⟨row,hrow,rfl⟩ := Option.map_eq_some_iff.mp h
    refine ⟨rfl,?_⟩
    rw [hrow]
    exact Option.some_ne_none _
  | upsert | patch | record | elsewhere => cases h

theorem mem_put_fresh {results : Table ValidationResult.id} {row a : ValidationResult}
    (hfresh : results.get? row.id = none) :
    a ∈ (results.put row).rows ↔ a ∈ results.rows ∨ a = row := by
  rw [Table.put_rows hfresh,List.mem_append,List.mem_singleton]

/-- A call to DataHub leaves it told, unless it deletes the assertion of the dataset alone. -/
theorem Told.apply {datahub : List (Str × Emission)} {row : ValidationResult} {x : Str × Emission}
    (h : Told R datahub row) (fate : Fate)
    (hx : x.2 = .hardDelete → x.1 = build_assertion_urn R row.dataset_urn →
      Shared R row.dataset_urn) :
    Told R (fate.apply (· ++ [x]) datahub) row := by
  obtain ⟨run,before,after,rfl,hrun,hafter⟩ := h
  unfold Fate.apply
  split
  · exact ⟨run,before,after,rfl,hrun,hafter⟩
  · refine ⟨run,before,after ++ [x],by simp,hrun,fun hmem => ?_⟩
    rcases List.mem_append.mp hmem with hmem | hmem
    · exact hafter hmem
    · obtain rfl := List.mem_singleton.mp hmem
      exact hx rfl rfl

/-- What DataHub has been told of a dataset stays told until its configuration is deleted. -/
theorem Told.step {row : ValidationResult} (h : Told R db.datahub row)
    (hkeeps : r.deletes db ≠ some row.dataset_urn) (hs : Effect R m db r db') :
    Told R db'.datahub row := by
  cases hs with
  | idle _ _ _ _ _ hdatahub => rwa [hdatahub]
  | stored c _ _ _ _ _ hdatahub =>
    rw [hdatahub]
    unfold register_assertion RemoteCall.inTurn
    dsimp only
    split
    · refine (h.apply m.first ?_).apply m.second ?_ <;> nofun
    · exact h.apply m.first nofun
  | deleted urn _ hdeletes _ _ _ hdatahub =>
    rw [hdatahub]
    refine h.apply m.first fun _ heq => ⟨urn,fun hurn => hkeeps ?_,heq⟩
    rw [hdeletes,hurn]
  | reported row run _ _ _ _ _ _ hdatahub =>
    rw [hdatahub]
    exact h.apply m.first nofun

theorem get?_remove (urn u : Str) : (db.configs.remove (·.dataset_urn = urn)).get? u =
    if u = urn then none else db.configs.get? u := by
  split
  · rename_i hu
    subst hu
    refine Table.get?_eq_none.mpr fun c hc heq => ?_
    exact absurd heq (of_decide_eq_false (Table.mem_remove.mp hc).2)
  · rename_i hu
    refine Option.ext fun c => ?_
    rw [Table.get?_eq_some,Table.get?_eq_some,Table.mem_remove]
    constructor
    · exact fun hc => ⟨hc.1.1,hc.2⟩
    · rintro ⟨hc,rfl⟩
      exact ⟨⟨hc,decide_eq_false hu⟩,rfl⟩

theorem get?_put_ne_none {c : Config} {u : Str} (hu : db.configs.get? u ≠ none) :
    (db.configs.put c).get? u ≠ none := by
  rw [Table.get?_put]
  split
  · exact Option.some_ne_none _
  · exact hu

theorem isPrefixOf_recorded : VALIDATION_PREFIX.isPrefixOf VALIDATION_RESULT_RECORDED = true := by
  decide

theorem mem_record_event {event_type : Str} {detail : Detail} {e : Event} :
    e ∈ (record_event m db urn event_type detail).events ↔
      e ∈ db.events ∨ e = ⟨"dataset".toList,urn,event_type,"success".toList,detail,m.now⟩ := by
  rw [record_event,List.mem_append,List.mem_singleton]

section Step

variable (hdb : Invariant R db) (hclock : db.clock < m.now) (hnow : db'.clock = m.now)
  (htold : ∀ row, Told R db.datahub row → r.deletes db ≠ some row.dataset_urn →
    Told R db'.datahub row)
include hdb hclock hnow htold

theorem Invariant.idle (hdeletes : r.deletes db = none) (hconfigs : db'.configs = db.configs) (hresults : db'.results = db.results)
    (hevents : ∃ events, db'.events = db.events ++ events ∧
      ∀ e ∈ events, VALIDATION_PREFIX.isPrefixOf e.event_type = false) : Invariant R db' := by
  have hle : db.clock ≤ db'.clock := by omega
  obtain ⟨events,hevents,hforeign⟩ := hevents
  have hold : ∀ e ∈ db'.events, VALIDATION_PREFIX.isPrefixOf e.event_type = true →
      e ∈ db.events := by
    intro e he hvalid
    rw [hevents] at he
    rcases List.mem_append.mp he with he | he
    · exact he
    · exact absurd hvalid (Bool.eq_false_iff.mp (hforeign e he))
  refine ⟨?_,?_,?_,?_,?_,?_,?_,?_⟩
  · rw [hconfigs,hresults]
    exact hdb.configured
  · rw [hresults]
    exact hdb.scored
  · rw [hresults]
    exact fun row hrow => (hdb.stamped row hrow).trans hle
  · rw [hresults]
    exact hdb.distinct
  · rw [hconfigs]
    exact hdb.complete
  · rw [hconfigs]
    exact fun c hc => ⟨(hdb.timed c hc).1,(hdb.timed c hc).2.trans hle⟩
  · rw [hconfigs]
    exact fun e he hvalid => hdb.logged e (hold e he hvalid) hvalid
  · intro e he htype
    have he := hold e he (by rw [htype]; exact isPrefixOf_recorded)
    obtain ⟨row,hrow,hurn,hdetail,hrun⟩ := hdb.recorded e he htype
    rw [hresults]
    exact ⟨row,hrow,hurn,hdetail,htold row hrun (by rw [hdeletes]; nofun)⟩

theorem Invariant.stored {c : Config} (hstores : r.stores m db = some c)
    (hdeletes : r.deletes db = none) (hconfigs : db'.configs = db.configs.put c) (hresults : db'.results = db.results)
    (hevents : c.Logged m db db') : Invariant R db' := by
  have hle : db.clock ≤ db'.clock := by omega
  obtain ⟨hcomplete,htimed,hupdated⟩ := stores_spec hstores hdb hclock
  have hkept : ∀ u, db.configs.get? u ≠ none → db'.configs.get? u ≠ none := by
    rw [hconfigs]
    exact fun u hu => get?_put_ne_none hu
  refine ⟨?_,?_,?_,?_,?_,?_,?_,?_⟩
  · rw [hresults]
    exact fun row hrow => hkept _ (hdb.configured row hrow)
  · rw [hresults]
    exact hdb.scored
  · rw [hresults]
    exact fun row hrow => (hdb.stamped row hrow).trans hle
  · rw [hresults]
    exact hdb.distinct
  · rw [hconfigs]
    intro x hx
    rcases Table.mem_put.mp hx with rfl | hx
    · exact hcomplete
    · exact hdb.complete x hx.1
  · rw [hconfigs]
    intro x hx
    rcases Table.mem_put.mp hx with rfl | hx
    · exact ⟨htimed,by omega⟩
    · exact ⟨(hdb.timed x hx.1).1,(hdb.timed x hx.1).2.trans hle⟩
  · intro e he hvalid
    rcases hevents with heq | ⟨event_type,detail,-,heq⟩
    · rw [heq] at he
      exact (hdb.logged e he hvalid).imp_right (hkept _)
    · rw [heq] at he
      rcases mem_record_event.mp he with he | rfl
      · exact (hdb.logged e he hvalid).imp_right (hkept _)
      · refine ⟨rfl,?_⟩
        rw [hconfigs,Table.get?_put,if_pos rfl]
        exact Option.some_ne_none _
  · intro e he htype
    have hold : e ∈ db.events := by
      rcases hevents with heq | ⟨event_type,detail,hne,heq⟩
      · rwa [heq] at he
      · rw [heq] at he
        rcases mem_record_event.mp he with he | rfl
        · exact he
        · exact absurd htype hne
    obtain ⟨row,hrow,hurn,hdetail,hrun⟩ := hdb.recorded e hold htype
    rw [hresults]
    exact ⟨row,hrow,hurn,hdetail,htold row hrun (by rw [hdeletes]; nofun)⟩

theorem Invariant.deleted (hdeletes : r.deletes db = some urn)
    (hconfigs : db'.configs = db.configs.remove (·.dataset_urn = urn))
    (hresults : db'.results = db.results.remove (·.dataset_urn = urn))
    (hevents : db'.events = db.events.filter fun e => !e.validates urn) : Invariant R db' := by
  have hle : db.clock ≤ db'.clock := by omega
  have hkept : ∀ u, u ≠ urn → db.configs.get? u ≠ none → db'.configs.get? u ≠ none := by
    intro u hne hu
    rw [hconfigs,get?_remove,if_neg hne]
    exact hu
  have hrows : ∀ row, row ∈ db'.results.rows ↔ row ∈ db.results.rows ∧ row.dataset_urn ≠ urn := by
    intro row
    rw [hresults,Table.mem_remove,decide_eq_false_iff_not]
  have hevent : ∀ e ∈ db'.events, e ∈ db.events ∧ e.validates urn = false := by
    intro e he
    rw [hevents,List.mem_filter] at he
    exact ⟨he.1,by simpa using he.2⟩
  have hother : ∀ e ∈ db'.events, VALIDATION_PREFIX.isPrefixOf e.event_type = true →
      e ∈ db.events ∧ e.entity_id ≠ urn := by
    intro e he hvalid
    obtain ⟨hold,hno⟩ := hevent e he
    refine ⟨hold,fun heq => ?_⟩
    have hentity := (hdb.logged e hold hvalid).1
    simp [Event.validates,hentity,heq,hvalid] at hno
  refine ⟨?_,?_,?_,?_,?_,?_,?_,?_⟩
  · intro row hrow
    have hin := (hrows row).mp hrow
    exact hkept _ hin.2 (hdb.configured row hin.1)
  · exact fun row hrow => hdb.scored row ((hrows row).mp hrow).1
  · exact fun row hrow => (hdb.stamped row ((hrows row).mp hrow).1).trans hle
  · exact fun a ha b hb => hdb.distinct a ((hrows a).mp ha).1 b ((hrows b).mp hb).1
  · rw [hconfigs]
    exact fun c hc => hdb.complete c (Table.mem_remove.mp hc).1
  · rw [hconfigs]
    intro c hc
    have htimed := hdb.timed c (Table.mem_remove.mp hc).1
    exact ⟨htimed.1,htimed.2.trans hle⟩
  · intro e he hvalid
    obtain ⟨hold,hne⟩ := hother e he hvalid
    exact (hdb.logged e hold hvalid).imp_right (hkept _ hne)
  · intro e he htype
    obtain ⟨hold,hne⟩ := hother e he (by rw [htype]; exact isPrefixOf_recorded)
    obtain ⟨row,hrow,hurn,hdetail,hrun⟩ := hdb.recorded e hold htype
    have hrow' : row.dataset_urn ≠ urn := by rwa [hurn]
    refine ⟨row,(hrows row).mpr ⟨hrow,hrow'⟩,hurn,hdetail,htold row hrun fun h => hrow' ?_⟩
    exact Option.some.inj (h.symm.trans hdeletes)

theorem Invariant.reported {row : ValidationResult} {run : RunEvent} (hadm : r.Admitted db)
    (hdeletes : r.deletes db = none) (hreports : r.reports m db = some row)
    (hconfigs : db'.configs = db.configs) (hresults : db'.results = db.results.put row)
    (hrun : run.asserteeUrn = row.dataset_urn ∧ run.actualAggValue = row.score ∧
      run.timestampMillis = R.epoch_ms row.data_time)
    (hdatahub : db'.datahub = m.first.apply (· ++
      [(build_assertion_urn R row.dataset_urn,.assertionRunEvent run)]) db.datahub)
    (hevents : db'.events = if m.first = .done then
      (record_event m db row.dataset_urn VALIDATION_RESULT_RECORDED
        (.result row.data_time row.score row.«variables».length)).events else db.events) :
    Invariant R db' := by
  have hle : db.clock ≤ db'.clock := by omega
  obtain ⟨c,hc,hscore,-,hstamp⟩ := reports_spec hreports
  have hfresh := reports_fresh hreports hadm
  have hrows : ∀ a, a ∈ db'.results.rows ↔ a ∈ db.results.rows ∨ a = row := by
    intro a
    rw [hresults]
    exact mem_put_fresh hfresh
  have hnew : ∀ e ∈ db'.events, e ∈ db.events ∨ m.first = .done ∧ e = ⟨"dataset".toList,
      row.dataset_urn,VALIDATION_RESULT_RECORDED,"success".toList,
      .result row.data_time row.score row.«variables».length,m.now⟩ := by
    intro e he
    rw [hevents] at he
    split at he
    · rename_i hdone
      exact (mem_record_event.mp he).imp_right fun heq => ⟨hdone,heq⟩
    · exact .inl he
  refine ⟨?_,?_,?_,?_,?_,?_,?_,?_⟩
  · rw [hconfigs]
    intro a ha
    rcases (hrows a).mp ha with ha | rfl
    · exact hdb.configured a ha
    · rw [hc]
      exact Option.some_ne_none _
  · intro a ha
    rcases (hrows a).mp ha with ha | rfl
    · exact hdb.scored a ha
    · exact hscore
  · intro a ha
    rcases (hrows a).mp ha with ha | rfl
    · exact (hdb.stamped a ha).trans hle
    · omega
  · intro a ha b hb heq
    rcases (hrows a).mp ha with ha | rfl
    · rcases (hrows b).mp hb with hb | rfl
      · exact hdb.distinct a ha b hb heq
      · have hbefore := hdb.stamped a ha
        omega
    · rcases (hrows b).mp hb with hb | rfl
      · have hbefore := hdb.stamped b hb
        omega
      · rfl
  · rw [hconfigs]
    exact hdb.complete
  · rw [hconfigs]
    exact fun c hc => ⟨(hdb.timed c hc).1,(hdb.timed c hc).2.trans hle⟩
  · rw [hconfigs]
    intro e he hvalid
    rcases hnew e he with he | ⟨-,rfl⟩
    · exact hdb.logged e he hvalid
    · refine ⟨rfl,?_⟩
      rw [hc]
      exact Option.some_ne_none _
  · intro e he htype
    rcases hnew e he with he | ⟨hdone,rfl⟩
    · obtain ⟨a,ha,hurn,hdetail,hrun'⟩ := hdb.recorded e he htype
      exact ⟨a,(hrows a).mpr (.inl ha),hurn,hdetail,htold a hrun' (by rw [hdeletes]; nofun)⟩
    · refine ⟨row,(hrows row).mpr (.inr rfl),rfl,rfl,run,db.datahub,[],?_,hrun,nofun⟩
      rw [hdatahub,hdone]
      rfl

end Step

theorem Invariant.step {l : Meet × Request} (hdb : Invariant R db) (hs : step R db l = some db') :
    Invariant R db' := by
  obtain ⟨hclock,hnow,hadm,heff⟩ := step_effect hs
  have htold : ∀ row, Told R db.datahub row → l.2.deletes db ≠ some row.dataset_urn →
      Told R db'.datahub row := fun row hrow hkeeps => hrow.step hkeeps heff
  cases heff with
  | idle _ hdeletes _ hconfigs hresults _ hevents =>
    exact hdb.idle hclock hnow htold hdeletes hconfigs hresults hevents
  | stored c hstores hdeletes _ hconfigs hresults _ hevents =>
    exact hdb.stored hclock hnow htold hstores hdeletes hconfigs hresults hevents
  | deleted urn _ hdeletes _ hconfigs hresults _ hevents =>
    exact hdb.deleted hclock hnow htold hdeletes hconfigs hresults hevents
  | reported row run _ hdeletes hreports hconfigs hresults hrun hdatahub hevents =>
    exact hdb.reported hclock hnow htold hadm hdeletes hreports hconfigs hresults hrun hdatahub
      hevents

theorem Fresh.invariant (h : Fresh db) : Invariant R db := by
  obtain ⟨hconfigs,hresults,-,hevents⟩ := h
  have hno : ∀ e ∈ db.events, ¬ VALIDATION_PREFIX.isPrefixOf e.event_type = true := fun e he =>
    Bool.eq_false_iff.mp (hevents e he)
  refine ⟨?_,?_,?_,?_,?_,?_,fun e he hvalid => absurd hvalid (hno e he),fun e he htype => ?_⟩
  · simp [hresults]
  · simp [hresults]
  · simp [hresults]
  · simp [hresults]
  · simp [hconfigs]
  · simp [hconfigs]
  · exact absurd isPrefixOf_recorded (htype ▸ hno e he)

theorem run_invariant (h₀ : Fresh db₀) (hr : Run (system R) db₀ h db) : Invariant R db :=
  hr.invariant h₀.invariant fun _ _ _ hdb hs => hdb.step hs

/-- After any requests, with any call to DataHub failing, results and validation events belong to
configured datasets, and what is recorded as reported is stored and known to DataHub. -/
theorem validation_store_consistent (hr : Reachable (system R) db) : Invariant R db := by
  obtain ⟨db₀,h,h₀,hr⟩ := hr
  exact run_invariant h₀ hr

/-- Nothing is stored. -/
def emptyDb : Db := ⟨0,Table.empty _,Table.empty _,Table.empty _,[],[]⟩

theorem emptyDb_fresh : Fresh emptyDb := ⟨rfl,rfl,rfl,List.forall_mem_nil _⟩

def sampleRuntime : Runtime := ⟨id,fun _ => [],id⟩

def meetAt (now : ℕ) (fate : Fate) : Meet := ⟨now,none,fate,.done⟩

/-- A configuration, a report, and a second one for its data time that DataHub is not told of. -/
def sampleRequests : List (Meet × Request) :=
  [(meetAt 1 .done,.upsert ['u'] [] [⟨['v'],[]⟩] none none true),
    (meetAt 2 .done,.record ['u'] 5 (.fin 1) [] none 0 0),
    (meetAt 3 .refused,.record ['u'] 5 (.fin 0) [(['v'],.fin 2)] none 1 1)]

theorem sample_run : ∃ h db, Run (system sampleRuntime) emptyDb h db ∧
    (decide (db.results.rows.length = 2) && decide (db.events.length = 2)) = true :=
  exists_run_of_replay (f := step sampleRuntime) (l := sampleRequests)
    (p := fun x => decide (x.2.results.rows.length = 2) && decide (x.2.events.length = 2))
    (by decide +kernel)

theorem validation_store_consistent_sample : ∃ db : Db, db.results.rows.length = 2 ∧
    Invariant sampleRuntime db := by
  obtain ⟨h,db,hr,hp⟩ := sample_run
  have hlength := of_decide_eq_true (Bool.and_eq_true_iff.mp hp).1
  exact ⟨db,hlength,validation_store_consistent ⟨emptyDb,h,emptyDb_fresh,hr⟩⟩

/-- A dataset's configuration, with the last report for each data time. -/
structure Slot where
  config : Config
  history : ℕ → Option ValidationResultRecord

/-- No report, where there is no slot. -/
def reports (slot : Option Slot) : ℕ → Option ValidationResultRecord :=
  (slot.map (·.history)).getD fun _ => none

def Request.registered (m : Meet) (db : Db) : Request → Bool
  | .upsert urn _ _ _ _ aspect => Registered m db urn aspect
  | _ => false

/-- What a request makes of the slot of a dataset, whatever becomes of its calls to DataHub. -/
def Slot.after (urn : Str) (m : Meet) (registered : Bool) (r : Request) (slot : Option Slot) :
    Option Slot :=
  match r with
  | .upsert u description vars attr parameter _ =>
    if u = urn ∧ registered = true then
      some ⟨⟨urn,description,vars,withDefaults (attr.getD []),parameter,
        (slot.map (·.config.created_at)).getD m.now,m.now⟩,reports slot⟩
    else slot
  | .patch u p =>
    if u = urn then slot.map fun s => { s with config := s.config.patched m p } else slot
  | .delete u => if u = urn then none else slot
  | .record u data_time score vars note _ _ =>
    if u = urn ∧ validScore score = true then
      slot.map fun s =>
        if vars.all fun v => v.1 ∈ s.config.«variables».map (·.name) then
          { s with history := Function.update s.history data_time (some ⟨data_time,score,vars,note⟩) }
        else s
    else slot
  | .elsewhere .. => slot

/-- The slot of a dataset after the requests of a run. -/
def slot (urn : Str) : List (Db × (Meet × Request)) → Option Slot
  | [] => none
  | (db,l)::h => Slot.after urn l.1 (l.2.registered l.1 db) l.2 (slot urn h)

/-- For each data time the history has the result of the dataset that was written last. -/
def Remembers (results : Table ValidationResult.id) (urn : Str)
    (history : ℕ → Option ValidationResultRecord) : Prop :=
  ∀ record : ValidationResultRecord, history record.data_time = some record ↔
    ∃ r ∈ results.rows, r.dataset_urn = urn ∧ r.record = record ∧
      ∀ a ∈ results.rows, a.dataset_urn = urn → a.data_time = r.data_time →
        a.ingestion_time ≤ r.ingestion_time

structure Represents (db : Db) (urn : Str) (slot : Option Slot) : Prop where
  config : db.configs.get? urn = slot.map (·.config)
  remembers : Remembers db.results urn (reports slot)

/-- A page of the history: its newest records, each data time once, and how many there are. -/
def Page (history : ℕ → Option ValidationResultRecord) (from_dt until_dt : Option ℕ) (limit : ℤ)
    (out : List ValidationResultRecord × ℕ) : Prop :=
  ∃ all : List ValidationResultRecord,
    (∀ record, record ∈ all ↔ history record.data_time = some record ∧
      (∀ t ∈ from_dt, t ≤ record.data_time) ∧ ∀ t ∈ until_dt, record.data_time < t) ∧
    all.Pairwise (fun a b => b.data_time < a.data_time) ∧
    out = (all.take (effective_limit limit),all.length)

theorem Remembers.page {results : Table ValidationResult.id}
    {history : ℕ → Option ValidationResultRecord} (hd : Distinct results urn)
    (hr : Remembers results urn history) (from_dt until_dt : Option ℕ) (limit : ℤ) :
    Page history from_dt until_dt limit (get_results results urn from_dt until_dt limit) := by
  obtain ⟨all,hall,-,hsorted,hlength,hpage⟩ := (collapsed_get_results hd from_dt until_dt limit).page
  refine ⟨all.map (·.record),fun record => ?_,List.pairwise_map.mpr hsorted,?_⟩
  · rw [List.mem_map,hr record]
    constructor
    · rintro ⟨r,hin,rfl⟩
      obtain ⟨hwindow,hlast⟩ := (hall r).mp hin
      obtain ⟨hrow,hurn,hfrom,huntil⟩ := mem_window.mp hwindow
      refine ⟨⟨r,hrow,hurn,rfl,fun a ha haurn htime => hlast a ?_ htime⟩,hfrom,huntil⟩
      refine mem_window.mpr ⟨ha,haurn,?_,?_⟩
      · rw [htime]
        exact hfrom
      · rw [htime]
        exact huntil
    · rintro ⟨⟨r,hrow,hurn,rfl,hlast⟩,hfrom,huntil⟩
      refine ⟨r,(hall r).mpr ⟨mem_window.mpr ⟨hrow,hurn,hfrom,huntil⟩,?_⟩,rfl⟩
      intro a ha htime
      have hin := mem_window.mp ha
      exact hlast a hin.1 hin.2.1 htime
  · rw [← List.map_take,List.length_map,hlength,← hpage]

theorem Invariant.distinct_results (hdb : Invariant R db) (urn : Str) : Distinct db.results urn :=
  fun a ha b hb _ _ _ heq => hdb.distinct a ha b hb heq

theorem after_deleted {slot : Option Slot} {u : Str} (hu : r.deletes db = some u) :
    Slot.after urn m (r.registered m db) r slot = if u = urn then none else slot := by
  obtain ⟨rfl,-⟩ := deletes_spec hu
  rfl

section After

variable {slot : Option Slot} (hslot : db.configs.get? urn = slot.map (·.config))
include hslot

theorem after_stored {c : Config} (hc : r.stores m db = some c) :
    Slot.after urn m (r.registered m db) r slot =
      if c.dataset_urn = urn then some ⟨c,reports slot⟩ else slot := by
  cases r with
  | upsert u description vars attr parameter aspect =>
    obtain ⟨hreg,heq⟩ := Option.ite_none_right_eq_some.mp hc
    obtain rfl := Option.some.inj heq
    by_cases hu : u = urn
    · subst hu
      refine (if_pos ⟨rfl,hreg⟩).trans ?_
      rw [if_pos rfl,hslot,Option.map_map]
      rfl
    · exact (if_neg fun hboth => hu hboth.1).trans (if_neg hu).symm
  | patch u p =>
    obtain ⟨row,hrow,rfl⟩ := Option.map_eq_some_iff.mp hc
    have hkey : (row.patched m p).dataset_urn = u := (Table.get?_eq_some.mp hrow).2
    rw [hkey]
    by_cases hu : u = urn
    · subst hu
      refine (if_pos rfl).trans ?_
      rw [if_pos rfl]
      rw [hslot] at hrow
      obtain ⟨s,rfl,rfl⟩ := Option.map_eq_some_iff.mp hrow
      rfl
    · exact (if_neg hu).trans (if_neg hu).symm
  | delete | record | elsewhere => cases hc

theorem after_reported {row : ValidationResult} (hrow : r.reports m db = some row) :
    Slot.after urn m (r.registered m db) r slot =
      if row.dataset_urn = urn then slot.map fun s =>
        { s with history := Function.update s.history row.data_time (some row.record) }
      else slot := by
  cases r with
  | record u data_time score vars note id runId =>
    obtain ⟨c,hc,hrow⟩ := Option.bind_eq_some_iff.mp hrow
    obtain ⟨hvalid,heq⟩ := Option.ite_none_right_eq_some.mp hrow
    obtain rfl := Option.some.inj heq
    obtain ⟨hscore,hvars⟩ := Bool.and_eq_true_iff.mp hvalid
    by_cases hu : u = urn
    · subst hu
      rw [hslot] at hc
      obtain ⟨s,rfl,rfl⟩ := Option.map_eq_some_iff.mp hc
      refine (if_pos ⟨rfl,hscore⟩).trans ?_
      rw [if_pos rfl,Option.map_some,Option.map_some]
      exact congrArg some (if_pos hvars)
    · exact (if_neg fun hboth => hu hboth.1).trans (if_neg hu).symm
  | upsert | patch | delete | elsewhere => cases hrow

theorem after_idle (hstores : r.stores m db = none) (hdeletes : r.deletes db = none)
    (hreports : r.reports m db = none) : Slot.after urn m (r.registered m db) r slot = slot := by
  cases r with
  | upsert u description vars attr parameter aspect =>
    refine if_neg fun hboth => ?_
    have hsome := (if_pos hboth.2).symm.trans hstores
    cases hsome
  | patch u p =>
    unfold Slot.after
    dsimp only
    split
    · rename_i hu
      subst hu
      have hnone := Option.map_eq_none_iff.mp hstores
      rw [hslot,Option.map_eq_none_iff] at hnone
      rw [hnone]
      rfl
    · rfl
  | delete u =>
    unfold Slot.after
    dsimp only
    split
    · rename_i hu
      subst hu
      have hnone := Option.map_eq_none_iff.mp hdeletes
      rw [hslot,Option.map_eq_none_iff] at hnone
      exact hnone.symm
    · rfl
  | record u data_time score vars note id runId =>
    unfold Slot.after
    dsimp only
    split
    · rename_i hboth
      obtain ⟨rfl,hscore⟩ := hboth
      cases slot with
      | none => rfl
      | some s =>
        have hvars : ¬ (vars.all fun v => v.1 ∈ s.config.«variables».map (·.name)) = true := by
          intro hvars
          rw [Request.reports,hslot,Option.map_some,Option.bind_some,
            if_pos (Bool.and_eq_true_iff.mpr ⟨hscore,hvars⟩)] at hreports
          cases hreports
        rw [Option.map_some,if_neg hvars]
    · rfl
  | elsewhere => rfl

end After

theorem Remembers.congr {results results' : Table ValidationResult.id}
    {history : ℕ → Option ValidationResultRecord} (hr : Remembers results urn history)
    (hrows : ∀ r, r.dataset_urn = urn → (r ∈ results'.rows ↔ r ∈ results.rows)) :
    Remembers results' urn history := by
  intro record
  rw [hr record]
  constructor
  · rintro ⟨r,hrow,hurn,hrecord,hlast⟩
    exact ⟨r,(hrows r hurn).mpr hrow,hurn,hrecord,
      fun a ha haurn => hlast a ((hrows a haurn).mp ha) haurn⟩
  · rintro ⟨r,hrow,hurn,hrecord,hlast⟩
    exact ⟨r,(hrows r hurn).mp hrow,hurn,hrecord,
      fun a ha haurn => hlast a ((hrows a haurn).mpr ha) haurn⟩

theorem Remembers.empty {results : Table ValidationResult.id}
    (hnone : ∀ r ∈ results.rows, r.dataset_urn ≠ urn) : Remembers results urn fun _ => none := by
  intro record
  constructor
  · intro hsome
    cases hsome
  · rintro ⟨r,hrow,hurn,-⟩
    exact absurd hurn (hnone r hrow)

/-- A result written after all the others is the last for its data time. -/
theorem Remembers.put {results : Table ValidationResult.id}
    {history : ℕ → Option ValidationResultRecord} {row : ValidationResult}
    (hr : Remembers results row.dataset_urn history) (hfresh : results.get? row.id = none)
    (hlate : ∀ a ∈ results.rows, a.ingestion_time < row.ingestion_time) :
    Remembers (results.put row) row.dataset_urn
      (Function.update history row.data_time (some row.record)) := by
  intro record
  by_cases htime : record.data_time = row.data_time
  · rw [htime,Function.update_self,Option.some_inj]
    constructor
    · rintro rfl
      refine ⟨row,(mem_put_fresh hfresh).mpr (.inr rfl),rfl,rfl,fun a ha _ _ => ?_⟩
      rcases (mem_put_fresh hfresh).mp ha with ha | rfl
      · exact (hlate a ha).le
      · exact le_rfl
    · rintro ⟨r,hrow,-,rfl,hlast⟩
      rcases (mem_put_fresh hfresh).mp hrow with hrow | rfl
      · have hle := hlast row ((mem_put_fresh hfresh).mpr (.inr rfl)) rfl htime.symm
        exact absurd (hlate r hrow) (Nat.not_lt.mpr hle)
      · rfl
  · rw [Function.update_of_ne htime,hr record]
    have hrows : ∀ a : ValidationResult, a.data_time = record.data_time →
        (a ∈ (results.put row).rows ↔ a ∈ results.rows) := by
      intro a hatime
      rw [mem_put_fresh hfresh]
      refine or_iff_left_of_imp ?_
      rintro rfl
      exact absurd hatime.symm htime
    constructor
    · rintro ⟨r,hrow,hurn,rfl,hlast⟩
      exact ⟨r,(hrows r rfl).mpr hrow,hurn,rfl,
        fun a ha haurn hatime => hlast a ((hrows a hatime).mp ha) haurn hatime⟩
    · rintro ⟨r,hrow,hurn,rfl,hlast⟩
      exact ⟨r,(hrows r rfl).mp hrow,hurn,rfl,
        fun a ha haurn hatime => hlast a ((hrows a hatime).mpr ha) haurn hatime⟩

theorem Represents.step {l : Meet × Request} {slot : Option Slot} (hrep : Represents db urn slot)
    (hdb : Invariant R db) (hs : step R db l = some db') :
    Represents db' urn (Slot.after urn l.1 (l.2.registered l.1 db) l.2 slot) := by
  obtain ⟨hclock,-,hadm,heff⟩ := step_effect hs
  cases heff with
  | idle hstores hdeletes hreports hconfigs hresults =>
    rw [after_idle hrep.config hstores hdeletes hreports]
    refine ⟨?_,?_⟩
    · rw [hconfigs]
      exact hrep.config
    · rw [hresults]
      exact hrep.remembers
  | stored c hstores _ _ hconfigs hresults =>
    rw [after_stored hrep.config hstores]
    refine ⟨?_,?_⟩
    · rw [hconfigs,Table.get?_put]
      split
      · rfl
      · exact hrep.config
    · rw [hresults]
      split
      · exact hrep.remembers
      · exact hrep.remembers
  | deleted u _ hdeletes _ hconfigs hresults =>
    rw [after_deleted hdeletes]
    have hrows : ∀ row, row ∈ db'.results.rows ↔ row ∈ db.results.rows ∧ row.dataset_urn ≠ u := by
      intro row
      rw [hresults,Table.mem_remove,decide_eq_false_iff_not]
    refine ⟨?_,?_⟩
    · rw [hconfigs,get?_remove]
      by_cases hu : u = urn
      · rw [if_pos hu,if_pos hu.symm]
        rfl
      · rw [if_neg hu,if_neg (Ne.symm hu)]
        exact hrep.config
    · split
      · rename_i hu
        subst hu
        exact .empty fun row hrow => ((hrows row).mp hrow).2
      · rename_i hu
        refine hrep.remembers.congr fun row hurn => ?_
        rw [hrows,hurn]
        exact and_iff_left (Ne.symm hu)
  | reported row run _ _ hreports hconfigs hresults =>
    rw [after_reported hrep.config hreports]
    obtain ⟨c,hc,-,-,hstamp⟩ := reports_spec hreports
    have hfresh := reports_fresh hreports hadm
    rw [← hconfigs] at hc
    by_cases hu : row.dataset_urn = urn
    · subst hu
      rw [if_pos rfl]
      have hconfig := hrep.config
      rw [← hconfigs,hc] at hconfig
      cases slot with
      | none => cases hconfig
      | some s =>
        refine ⟨hc.trans hconfig,?_⟩
        rw [hresults]
        refine hrep.remembers.put hfresh fun a ha => ?_
        have hstamped := hdb.stamped a ha
        omega
    · rw [if_neg hu]
      refine ⟨?_,?_⟩
      · rw [hconfigs]
        exact hrep.config
      · refine hrep.remembers.congr fun a ha => ?_
        rw [hresults,mem_put_fresh hfresh]
        refine or_iff_left_of_imp ?_
        rintro rfl
        exact absurd ha hu

theorem run_represents (h₀ : Fresh db₀) (hr : Run (system R) db₀ h db) (urn : Str) :
    Represents db urn (slot urn h) := by
  induction hr with
  | refl =>
    refine ⟨?_,.empty ?_⟩
    · refine Table.get?_eq_none.mpr ?_
      rw [h₀.1]
      exact List.forall_mem_nil _
    · rw [h₀.2.1]
      exact List.forall_mem_nil _
  | step hr hs ih => exact ih.step (run_invariant h₀ hr) hs

/-- The reads are those of the slots: the configuration that was stored last, and a page of the
last report for each data time since there is a configuration. -/
theorem validation_store_refines (h₀ : Fresh db₀) (hr : Run (system R) db₀ h db) (urn : Str) :
    db.configs.get? urn = (slot urn h).map (·.config) ∧
    ∀ from_dt until_dt limit, Page (reports (slot urn h)) from_dt until_dt limit
      (get_results db.results urn from_dt until_dt limit) := by
  have hrep := run_represents h₀ hr urn
  have hdistinct := (run_invariant h₀ hr).distinct_results urn
  exact ⟨hrep.config,fun from_dt until_dt limit => hrep.remembers.page hdistinct from_dt until_dt limit⟩

theorem validation_store_refines_sample : ∃ h db, Run (system sampleRuntime) emptyDb h db ∧
    db.results.rows.length = 2 ∧
    Page (reports (slot ['u'] h)) none none 10 (get_results db.results ['u'] none none 10) := by
  obtain ⟨h,db,hr,hp⟩ := sample_run
  have hlength := of_decide_eq_true (Bool.and_eq_true_iff.mp hp).1
  exact ⟨h,db,hr,hlength,(validation_store_refines emptyDb_fresh hr ['u']).2 none none 10⟩

/-- The assertion that DataHub holds: an aspect is overwritten, and a deletion removes all. -/
def held (datahub : List (Str × Emission)) (assertion_urn : Str) : Option AssertionInfo :=
  datahub.foldl (fun info e =>
    if e.1 = assertion_urn then
      match e.2 with
      | .assertionInfo info => some info
      | .hardDelete => none
      | .status | .assertionRunEvent _ => info
    else info) none

/-- What an assertion shows of a configuration. -/
def AssertionInfo.shows (info : AssertionInfo) (c : Config) : Prop :=
  info.description = c.description ∧ info.entity = c.dataset_urn ∧
    info.logic = List.intercalate ", ".toList (c.«variables».map (·.name))

/-- The configuration of a dataset that DataHub was last told of. -/
def told (urn : Str) : List (Db × (Meet × Request)) → Option Config
  | [] => none
  | (db,l)::h =>
    if l.1.first = .refused then told urn h
    else
      match l.2.stores l.1 db with
      | some c => if c.dataset_urn = urn then some c else told urn h
      | none => if l.2.deletes db = some urn then none else told urn h

/-- The last request that wrote the configuration of the dataset reached DataHub. -/
def Reached (urn : Str) : List (Db × (Meet × Request)) → Prop
  | [] => True
  | (db,l)::h =>
    if (∃ c, l.2.stores l.1 db = some c ∧ c.dataset_urn = urn) ∨ l.2.deletes db = some urn then
      l.1.first ≠ .refused
    else Reached urn h

theorem held_append (datahub : List (Str × Emission)) (e : Str × Emission) (urn : Str) :
    held (datahub ++ [e]) urn =
      if e.1 = urn then
        match e.2 with
        | .assertionInfo info => some info
        | .hardDelete => none
        | .status | .assertionRunEvent _ => held datahub urn
      else held datahub urn := by
  rw [held,List.foldl_append]
  rfl

/-- The dataset of a request. -/
def Request.dataset_urn : Request → Option Str
  | .upsert urn .. | .patch urn _ | .delete urn | .record urn .. => some urn
  | .elsewhere .. => none

/-- No other dataset of the requests has the guid of the dataset. -/
def Apart (R : Runtime) (urn : Str) (h : List (Db × (Meet × Request))) : Prop :=
  ∀ p ∈ h, ∀ u, p.2.2.dataset_urn = some u → R.guid u = R.guid urn → u = urn

theorem stores_urn {c : Config} (h : r.stores m db = some c) :
    r.dataset_urn = some c.dataset_urn := by
  cases r with
  | upsert =>
    obtain ⟨-,heq⟩ := Option.ite_none_right_eq_some.mp h
    obtain rfl := Option.some.inj heq
    rfl
  | patch u p =>
    obtain ⟨row,hrow,rfl⟩ := Option.map_eq_some_iff.mp h
    exact congrArg some (Table.get?_eq_some.mp hrow).2.symm
  | delete | record | elsewhere => cases h

theorem deletes_urn {u : Str} (h : r.deletes db = some u) : r.dataset_urn = some u := by
  rw [(deletes_spec h).1]
  rfl

/-- The assertion of a request is that of the dataset only if its dataset is. -/
theorem Apart.assertion_iff {l : Meet × Request} (hapart : Apart R urn ((db,l)::h)) {u : Str}
    (hu : l.2.dataset_urn = some u) :
    build_assertion_urn R u = build_assertion_urn R urn ↔ u = urn :=
  ⟨fun heq => hapart _ (.head _) u hu (List.append_cancel_left heq),fun heq => congrArg _ heq⟩

theorem held_register {c : Config} (hne : m.first ≠ .refused) (a : Str) :
    held (register_assertion R m db c).1.datahub a =
      if build_assertion_urn R c.dataset_urn = a then
        some (build_assertion_info R m c.dataset_urn c.description c.«variables»)
      else held db.datahub a := by
  have hstatus : ∀ l, held (l ++ [(build_assertion_urn R c.dataset_urn,.status)]) a = held l a := by
    intro l
    rw [held_append]
    exact ite_self _
  have hfirst : held (m.first.apply (· ++ [(build_assertion_urn R c.dataset_urn,.assertionInfo
      (build_assertion_info R m c.dataset_urn c.description c.«variables»))]) db.datahub) a =
      if build_assertion_urn R c.dataset_urn = a then
        some (build_assertion_info R m c.dataset_urn c.description c.«variables»)
      else held db.datahub a := by
    rw [Fate.apply,if_neg hne,held_append]
  unfold register_assertion inTurn
  dsimp only
  split
  · exact (RemoteCall.apply_view (held · a) hstatus m.second _).trans hfirst
  · exact hfirst

theorem register_refused {c : Config} (hfirst : m.first = .refused) :
    (register_assertion R m db c).1.datahub = db.datahub := by
  unfold register_assertion inTurn Fate.apply
  dsimp only
  rw [hfirst]
  rfl

/-- DataHub holds of the assertion of a dataset what it was last told. -/
theorem run_held (h₀ : Fresh db₀) (hr : Run (system R) db₀ h db) (hapart : Apart R urn h) :
    Option.Rel AssertionInfo.shows (held db.datahub (build_assertion_urn R urn)) (told urn h) := by
  induction hr with
  | refl =>
    rw [h₀.2.2.1]
    exact .none
  | @step h db db' l hr hs ih =>
    have ih := ih fun p hp => hapart p (.tail _ hp)
    obtain ⟨-,-,-,heff⟩ := step_effect hs
    by_cases hrefused : l.1.first = .refused
    · rw [told,if_pos hrefused]
      have hsame : db'.datahub = db.datahub := by
        cases heff with
        | idle _ _ _ _ _ hdatahub => exact hdatahub
        | stored c _ _ _ _ _ hdatahub => exact hdatahub.trans (register_refused hrefused)
        | deleted u _ _ _ _ _ hdatahub => exact hdatahub.trans (if_pos hrefused)
        | reported row run _ _ _ _ _ _ hdatahub => exact hdatahub.trans (if_pos hrefused)
      rw [hsame]
      exact ih
    · rw [told,if_neg hrefused]
      cases heff with
      | idle hstores hdeletes _ _ _ hdatahub =>
        rw [hstores,hdeletes,hdatahub]
        exact ih
      | stored c hstores _ _ _ _ hdatahub =>
        rw [hstores,hdatahub,held_register hrefused]
        dsimp only
        simp only [hapart.assertion_iff (stores_urn hstores)]
        split
        · exact .some ⟨rfl,rfl,rfl⟩
        · exact ih
      | deleted u hstores hdeletes _ _ _ hdatahub =>
        rw [hstores,hdeletes,hdatahub,Fate.apply,if_neg hrefused,held_append]
        simp only [hapart.assertion_iff (deletes_urn hdeletes),Option.some_inj]
        split
        · exact .none
        · exact ih
      | reported row run hstores hdeletes _ _ _ _ hdatahub =>
        rw [hstores,hdeletes,hdatahub,Fate.apply,if_neg hrefused,held_append]
        dsimp only
        rw [ite_self]
        exact ih

theorem run_told (h₀ : Fresh db₀) (hr : Run (system R) db₀ h db) (hreached : Reached urn h) :
    told urn h = db.configs.get? urn := by
  induction hr with
  | refl =>
    refine (Table.get?_eq_none.mpr ?_).symm
    rw [h₀.1]
    exact List.forall_mem_nil _
  | @step h db db' l hr hs ih =>
    obtain ⟨-,-,-,heff⟩ := step_effect hs
    rw [told]
    rw [Reached] at hreached
    cases heff with
    | idle hstores hdeletes _ hconfigs =>
      simp only [hstores,hdeletes,reduceCtorEq,false_and,exists_false,or_self,if_false,
        ite_self] at hreached ⊢
      rw [hconfigs]
      exact ih hreached
    | stored c hstores hdeletes _ hconfigs =>
      simp only [hstores,hdeletes,Option.some_inj,exists_eq_left',reduceCtorEq,or_false] at hreached ⊢
      rw [hconfigs,Table.get?_put]
      by_cases hu : c.dataset_urn = urn
      · rw [if_pos hu] at hreached
        rw [if_neg hreached,if_pos hu,if_pos hu]
      · rw [if_neg hu] at hreached
        rw [if_neg hu,if_neg hu,ite_self]
        exact ih hreached
    | deleted u hstores hdeletes _ hconfigs =>
      simp only [hstores,hdeletes,reduceCtorEq,false_and,exists_false,false_or,
        Option.some_inj] at hreached ⊢
      rw [hconfigs,get?_remove]
      by_cases hu : u = urn
      · rw [if_pos hu] at hreached
        rw [if_neg hreached,if_pos hu,if_pos hu.symm]
      · rw [if_neg hu] at hreached
        rw [if_neg hu,if_neg (Ne.symm hu),ite_self]
        exact ih hreached
    | reported row run hstores hdeletes _ hconfigs =>
      simp only [hstores,hdeletes,reduceCtorEq,false_and,exists_false,or_self,if_false,
        ite_self] at hreached ⊢
      rw [hconfigs]
      exact ih hreached

/-- DataHub shows of a dataset the configuration that it was last told of, and the one that is
stored where the last request that wrote it reached DataHub. -/
theorem validation_assertion_mirrors (h₀ : Fresh db₀) (hr : Run (system R) db₀ h db) (urn : Str)
    (hapart : Apart R urn h) :
    let assertion := held db.datahub (build_assertion_urn R urn)
    Option.Rel AssertionInfo.shows assertion (told urn h) ∧
    (Reached urn h → Option.Rel AssertionInfo.shows assertion (db.configs.get? urn)) := by
  intro assertion
  have hheld := run_held h₀ hr hapart
  refine ⟨hheld,fun hreached => ?_⟩
  rw [← run_told h₀ hr hreached]
  exact hheld

theorem validation_assertion_mirrors_sample : ∃ h db, Run (system sampleRuntime) emptyDb h db ∧
    db.events.length = 2 ∧ Option.Rel AssertionInfo.shows
      (held db.datahub (build_assertion_urn sampleRuntime ['u'])) (told ['u'] h) := by
  obtain ⟨h,db,hr,hp⟩ := sample_run
  have hlength := of_decide_eq_true (Bool.and_eq_true_iff.mp hp).2
  exact ⟨h,db,hr,hlength,
    (validation_assertion_mirrors emptyDb_fresh hr ['u'] fun _ _ _ _ heq => heq).1⟩

end Store
end Validation
end Dataspoke
