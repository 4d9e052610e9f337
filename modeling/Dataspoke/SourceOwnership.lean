import Dataspoke.SweepSources
import Dataspoke.Transition

/-!
# Who writes the ingestion sources

The requests on a source, and the sweep. The rows that mirror DataHub are the sweep's; the
others are the users', with their tier and platform derived from what they store.
-/

namespace Dataspoke
namespace Ingestion

open Python Transition

inductive SourceError
  | notFound
  | readonly
  /-- The text of the `ValueError` of `parse_recipe`. -/
  | recipe (message : String)
  | schedule
  | secretRef (code : String)

structure SourceBody where
  mode : Mode
  name : Str
  schedule : Option Str
  recipe : Items

structure SourcePatch where
  name : Option (Option Str)
  recipe : Option (Option Items)
  schedule : Option (Option Str)

section Requests

/-- `_validate_and_derive_tier`; `none` where it raises. -/
def validate_and_derive_tier (mode : Mode) (schedule : Option Str) : Option (Option Str) :=
  if mode ≠ .ACTIVE_CUSTOM_MANAGED then some none else cron_to_tier schedule

def reject_if_datahub_managed (mode : Mode) : Except SourceError Unit :=
  if mode = .DATAHUB_MANAGED then .error .readonly else .ok ()

def deriveTier (mode : Mode) (schedule : Option Str) : Except SourceError (Option Str) :=
  match validate_and_derive_tier mode schedule with
  | none => .error .schedule
  | some tier => .ok tier

def sourceType (recipe : Items) : Except SourceError Str :=
  match parse_recipe recipe with
  | .error message => .error (.recipe message)
  | .ok (source_type,_) => .ok source_type

variable (env : Runtime) (now : ℕ)

def verifySecretRefs (recipe : Items) : Except SourceError Unit :=
  match env.verify_secret_refs recipe with
  | some code => .error (.secretRef code)
  | none => .ok ()

/-- The checks that create and replace share: the platform and the tier of the body. -/
def checkBody (body : SourceBody) : Except SourceError (Str × Option Str) := do
  let source_type ← sourceType body.recipe
  let tier ← deriveTier body.mode body.schedule
  verifySecretRefs env body.recipe
  return (source_type,tier)

def newSource (body : SourceBody) (source_type : Str) (tier : Option Str) (id : ℕ) :
    IngestionSource where
  id := id
  mode := body.mode
  name := body.name
  platform := source_type
  recipe := body.recipe
  schedule := body.schedule
  schedule_tier := tier
  datahub_source_urn := none
  parent_source_id := none
  status := "OK".toList
  created_at := now
  updated_at := now

def create_source (body : SourceBody) (sources : Sources) : Except SourceError Sources := do
  reject_if_datahub_managed body.mode
  let (source_type,tier) ← checkBody env body
  return sources.insert (newSource now body source_type tier) (fun _ => rfl)
    (fun _ h => absurd rfl h)

/-- The row of the id, where it is a user's. -/
abbrev Writable (sources : Sources) (id : ℕ) :=
  {row : IngestionSource // (row ∈ sources.rows ∧ row.id = id) ∧ row.mode ≠ .DATAHUB_MANAGED}

/-- The lookup and the check that start every write request. -/
def writable (sources : Sources) (id : ℕ) : Except SourceError (Writable sources id) :=
  match h : sources.table.get? id with
  | none => .error .notFound
  | some row =>
    if hm : row.mode = .DATAHUB_MANAGED then .error .readonly
    else .ok ⟨row,Table.get?_eq_some.mp h,hm⟩

theorem Writable.parent {sources : Sources} {id : ℕ} (w : Writable sources id) :
    w.1.parent_source_id = none := by
  by_contra h
  exact w.2.2 (sources.linked w.1 w.2.1.1 h).1

theorem Writable.eq {sources : Sources} {id : ℕ} (w : Writable sources id)
    {row : IngestionSource} (hrow : row ∈ sources.rows) (hid : row.id = id) : row = w.1 :=
  Sources.ext_id hrow w.2.1.1 (hid.trans w.2.1.2.symm)

/-- Write a user's row, that keeps its id and its missing parent. -/
def Writable.set {sources : Sources} {id : ℕ} (w : Writable sources id)
    (f : IngestionSource → IngestionSource) (hf : ∀ row, (f row).id = row.id)
    (hp : ∀ row, (f row).parent_source_id = row.parent_source_id) : Sources :=
  sources.update id f hf fun row hrow hid _ h => by
    rw [hp,w.eq hrow hid,w.parent] at h
    exact absurd rfl h

def IngestionSource.replaced (body : SourceBody) (source_type : Str) (tier : Option Str)
    (now : ℕ) (row : IngestionSource) : IngestionSource :=
  { row with
    mode := body.mode, name := body.name, platform := source_type, recipe := body.recipe
    schedule := body.schedule, schedule_tier := tier, updated_at := now }

def replace_source (id : ℕ) (body : SourceBody) (sources : Sources) :
    Except SourceError Sources := do
  let row ← writable sources id
  let (source_type,tier) ← checkBody env body
  return row.set (.replaced body source_type tier now) (fun _ => rfl) (fun _ => rfl)

/-- The recipe of a patch with its platform, where it has one. -/
def patchRecipe : Option (Option Items) → Except SourceError (Option (Str × Items))
  | some (some recipe) => do
    let source_type ← sourceType recipe
    verifySecretRefs env recipe
    return some (source_type,recipe)
  | _ => .ok none

/-- The schedule of a patch with its tier, where it has one. -/
def patchSchedule (mode : Mode) :
    Option (Option Str) → Except SourceError (Option (Option Str × Option Str))
  | none => .ok none
  | some schedule => (deriveTier mode schedule).map fun tier => some (schedule,tier)

def IngestionSource.patched (name : Option Str) (recipe : Option (Str × Items))
    (schedule : Option (Option Str × Option Str)) (now : ℕ) (row : IngestionSource) :
    IngestionSource :=
  { row with
    name := name.getD row.name
    platform := (recipe.map Prod.fst).getD row.platform
    recipe := (recipe.map Prod.snd).getD row.recipe
    schedule := (schedule.map Prod.fst).getD row.schedule
    schedule_tier := (schedule.map Prod.snd).getD row.schedule_tier
    updated_at := now }

def patch_source (id : ℕ) (patch : SourcePatch) (sources : Sources) :
    Except SourceError Sources := do
  let row ← writable sources id
  let recipe ← patchRecipe env patch.recipe
  let schedule ← patchSchedule row.1.mode patch.schedule
  return row.set (.patched patch.name.join recipe schedule now) (fun _ => rfl) (fun _ => rfl)

def delete_source (id : ℕ) (sources : Sources) : Except SourceError Sources := do
  let _ ← writable sources id
  return sources.delete fun row => decide (row.id = id)

end Requests

/-- The rows, and the ids of those that a sweep has created. -/
structure Store where
  sources : Sources
  swept : List ℕ

inductive SourceOp
  | create (body : SourceBody)
  | replace (id : ℕ) (body : SourceBody)
  | patch (id : ℕ) (patch : SourcePatch)
  | delete (id : ℕ)
  /-- A sweep over the sources that DataHub lists; `none` where the listing fails. -/
  | sweep (dh_sources : Option (List ManagedSource))

structure SourceCall where
  env : Runtime
  now : ℕ
  op : SourceOp

def created (before after : Sources) : List ℕ :=
  (after.rows.filter fun row => before.next_id ≤ row.id).map (·.id)

namespace Store

/-- The rows after a request; one that raises commits nothing. -/
def commit (w : Store) : Except SourceError Sources → Store
  | .ok sources => { w with sources }
  | .error _ => w

def apply (w : Store) (call : SourceCall) : Store :=
  match call.op with
  | .create body => w.commit (create_source call.env call.now body w.sources)
  | .replace id body => w.commit (replace_source call.env call.now id body w.sources)
  | .patch id patch => w.commit (patch_source call.env call.now id patch w.sources)
  | .delete id => w.commit (delete_source id w.sources)
  | .sweep none => w
  | .sweep (some dh_sources) =>
    let sources := (sweepSources call.env call.now dh_sources w.sources).1
    ⟨sources,w.swept ++ created w.sources sources⟩

end Store

section Effect

variable {env : Runtime} {now : ℕ} {s s' s'' : Sources}

/-- The id is one that a parent link may have. -/
def ParentOk (s : Sources) (id : ℕ) : Prop :=
  id < s.next_id ∧ ∀ row ∈ s.rows, row.id = id → row.mode = .DATAHUB_MANAGED

/-- No row hangs on a user's row. -/
def Rooted (s : Sources) : Prop :=
  ∀ row ∈ s.rows, ∀ id, row.parent_source_id = some id → ParentOk s id

/-- What a sweep may do to the rows: the users' rows stay, and the ids of the others are old
ones or new. -/
structure SweepEffect (s s' : Sources) : Prop where
  users : ∀ row : IngestionSource, row.mode ≠ .DATAHUB_MANAGED → (row ∈ s'.rows ↔ row ∈ s.rows)
  managed : ∀ row ∈ s'.rows, row.mode = .DATAHUB_MANAGED →
    (∃ row' ∈ s.rows, row'.id = row.id ∧ row'.mode = .DATAHUB_MANAGED) ∨ s.next_id ≤ row.id
  next : s.next_id ≤ s'.next_id

theorem SweepEffect.refl (s : Sources) : SweepEffect s s :=
  ⟨fun _ _ => Iff.rfl,fun row hrow hm => .inl ⟨row,hrow,rfl,hm⟩,le_rfl⟩

theorem SweepEffect.trans (h : SweepEffect s s') (h' : SweepEffect s' s'') : SweepEffect s s'' := by
  refine ⟨fun row hm => (h'.users row hm).trans (h.users row hm),?_,h.next.trans h'.next⟩
  intro row hrow hm
  rcases h'.managed row hrow hm with ⟨row',hrow',hid,hm'⟩ | hnew
  · rw [← hid]
    exact h.managed row' hrow' hm'
  · exact .inr (h.next.trans hnew)

theorem SweepEffect.parentOk (h : SweepEffect s s') {id : ℕ} (hp : ParentOk s id) :
    ParentOk s' id := by
  refine ⟨hp.1.trans_le h.next,fun row hrow hid => ?_⟩
  by_contra hm
  exact hm (hp.2 row ((h.users row hm).mp hrow) hid)

theorem not_isManaged {row : IngestionSource} (hm : row.mode ≠ .DATAHUB_MANAGED) (urn : Str) :
    row.isManaged urn = false := by
  simp [IngestionSource.isManaged,hm]

theorem Upserted.effect {t : Named} {parent : Option ℕ} {id : ℕ}
    (h : Upserted env t parent s s' id) : SweepEffect s s' := by
  refine ⟨fun row hm => h.others row (not_isManaged hm _),?_,h.next⟩
  intro row hrow hm
  by_cases hu : row.isManaged t.1.urnText = true
  · obtain ⟨c,new,-,-,-,hid,hsole⟩ := h.row
    rw [hsole row hrow hu,hid]
    rcases h.issued with hnew | ⟨old,hold,hm',hid'⟩
    · exact .inr hnew.ge
    · exact .inl ⟨old,hold,hid',(isManaged_iff.mp hm').2⟩
  · have hold := (h.others row (by simpa using hu)).mp hrow
    exact .inl ⟨row,hold,rfl,hm⟩

theorem Upserted.rooted {t : Named} {parent : Option ℕ} {id : ℕ}
    (h : Upserted env t parent s s' id) (hr : Rooted s)
    (hp : ∀ pid, parent = some pid → ParentOk s pid) : Rooted s' ∧ ParentOk s' id := by
  obtain ⟨c,new,-,hnew,hw,hid,hsole⟩ := h.row
  constructor
  · intro row hrow pid hlink
    apply h.effect.parentOk
    by_cases hu : row.isManaged t.1.urnText = true
    · rw [hsole row hrow hu,hw.parent] at hlink
      exact hp pid hlink
    · exact hr row ((h.others row (by simpa using hu)).mp hrow) pid hlink
  · rw [← hid]
    refine ⟨s'.fresh new hnew,fun row hrow he => ?_⟩
    rw [Sources.ext_id hrow hnew he]
    exact hw.mode

theorem upsertAll_effect {todo : List (Named × Option ℕ)} {ids : List (Str × ℕ)}
    (h : upsertAll env now todo s = .ok (s',ids)) : SweepEffect s s' := by
  let I (acc : Sources × List (Str × ℕ)) : Prop := SweepEffect s acc.1
  have hstep : ∀ acc, ∀ t ∈ todo, ∀ acc', I acc → upsertNext env now acc t = .ok acc' → I acc' := by
    intro acc t _ acc' he ha
    obtain ⟨⟨rows,id⟩,hu,rfl⟩ := map_eq_ok.mp ha
    exact SweepEffect.trans he (upsert_managed_row_ok hu).effect
  exact Fold.foldlM_invariant (I:=I) hstep (.refl s) h

theorem upsertAll_rooted {todo : List (Named × Option ℕ)} {ids : List (Str × ℕ)}
    (h : upsertAll env now todo s = .ok (s',ids)) (hr : Rooted s)
    (hp : ∀ t ∈ todo, ∀ pid, t.2 = some pid → ParentOk s pid) :
    Rooted s' ∧ ∀ urn id, get? urn ids = some id → ParentOk s' id := by
  let I (acc : Sources × List (Str × ℕ)) : Prop :=
    SweepEffect s acc.1 ∧ Rooted acc.1 ∧ ∀ urn id, get? urn acc.2 = some id → ParentOk acc.1 id
  have hstep : ∀ acc, ∀ t ∈ todo, ∀ acc', I acc → upsertNext env now acc t = .ok acc' → I acc' := by
    rintro acc t ht acc' ⟨he,hroot,hids⟩ ha
    obtain ⟨⟨rows,id⟩,hu,rfl⟩ := map_eq_ok.mp ha
    have hu := upsert_managed_row_ok hu
    have hrooted := hu.rooted hroot fun pid hpid => he.parentOk (hp t ht pid hpid)
    refine ⟨he.trans hu.effect,hrooted.1,fun urn id' hget => ?_⟩
    rw [get?_setItem] at hget
    split at hget
    · cases hget
      exact hrooted.2
    · exact hu.effect.parentOk (hids urn id' hget)
  exact (Fold.foldlM_invariant (I:=I) hstep ⟨.refl s,hr,by simp [get?]⟩ h).2

theorem mem_of_delete {p : IngestionSource → Bool} {row : IngestionSource}
    (h : row ∈ (s.delete p).rows) : row ∈ s.rows :=
  (Table.mem_remove.mp h).1

theorem delete_effect {p : IngestionSource → Prop} [DecidablePred p]
    (hp : ∀ row, p row → row.mode = .DATAHUB_MANAGED) :
    SweepEffect s (s.delete fun row => decide (p row)) := by
  refine ⟨fun row hm => ⟨mem_of_delete,fun hrow => ?_⟩,
    fun row hrow hm => .inl ⟨row,mem_of_delete hrow,rfl,hm⟩,le_rfl⟩
  refine Table.mem_remove.mpr ⟨hrow,decide_eq_false fun hin => hm ?_⟩
  refine Sources.cascade_subset (fun r _ h => hp r h) ?_ _ row hrow hin
  intro r hr' parent _ hlink _
  exact (s.linked r hr' (by simp [hlink])).1

theorem delete_rooted {p : IngestionSource → Prop} [DecidablePred p]
    (hp : ∀ row, p row → row.mode = .DATAHUB_MANAGED) (hr : Rooted s) :
    Rooted (s.delete fun row => decide (p row)) :=
  fun row hrow id hlink => (delete_effect hp).parentOk (hr row (mem_of_delete hrow) id hlink)

/-- What step 1 does to the rows, for any list of sources. -/
theorem sweepSources_effect (dh_sources : List ManagedSource) :
    SweepEffect s (sweepSources env now dh_sources s).1 := by
  rw [sweepSources]
  split
  · exact .refl s
  rename_i a ids hA
  have ha := upsertAll_effect hA
  dsimp only
  split
  · exact ha
  rename_i b hB
  obtain ⟨⟨b',ids'⟩,hB',rfl⟩ := map_eq_ok.mp hB
  split
  · exact (ha.trans (upsertAll_effect hB')).trans (delete_effect fun row h => h.1)
  · exact ha

theorem sweepSources_rooted (dh_sources : List ManagedSource) (hr : Rooted s) :
    Rooted (sweepSources env now dh_sources s).1 := by
  rw [sweepSources]
  split
  · exact hr
  rename_i a ids hA
  have ha := upsertAll_rooted hA hr fun t ht pid hpid => by
    obtain ⟨p,-,rfl⟩ := List.mem_map.mp ht
    cases hpid
  dsimp only
  split
  · exact ha.1
  rename_i b hB
  obtain ⟨⟨b',ids'⟩,hB',rfl⟩ := map_eq_ok.mp hB
  have hb := upsertAll_rooted hB' ha.1 fun t ht pid hpid => by
    obtain ⟨-,urn,id,-,hget,ht⟩ := mem_linkedWrappers.mp ht
    rw [ht] at hpid
    cases hpid
    exact ha.2 urn _ hget
  split
  · exact delete_rooted (fun row h => h.1) hb.1
  · exact ha.1

end Effect

section Requests

variable {env : Runtime} {now : ℕ} {s s' : Sources} {id : ℕ} {body : SourceBody}

/-- A user's row holds what its recipe and schedule say. -/
structure Derived (row : IngestionSource) : Prop where
  active : row.mode = .ACTIVE_CUSTOM_MANAGED →
    cron_to_tier row.schedule = some row.schedule_tier
  passive : row.mode = .PASSIVE → row.schedule_tier = none
  platform : ∃ config, parse_recipe row.recipe = .ok (row.platform,config)

/-- What a request may do to the rows: write or delete one row that is a user's. -/
structure Edited (s s' : Sources) (id : ℕ) (new : Option IngestionSource) : Prop where
  rows : ∀ row, row ∈ s'.rows ↔ row ∈ s.rows ∧ row.id ≠ id ∨ new = some row
  user : ∀ row ∈ s.rows, row.id = id → row.mode ≠ .DATAHUB_MANAGED
  issued : id = s.next_id ∨ ∃ row ∈ s.rows, row.id = id
  new_id : ∀ row, new = some row → row.id = id
  root : ∀ row, new = some row → row.parent_source_id = none
  next : s.next_id ≤ s'.next_id

/-- The body passes the checks of create and replace. -/
def Accepted (env : Runtime) (body : SourceBody) : Prop := ∃ r, checkBody env body = .ok r

theorem sourceType_ok {recipe : Items} {source_type : Str}
    (h : sourceType recipe = .ok source_type) :
    ∃ config, parse_recipe recipe = .ok (source_type,config) := by
  rw [sourceType] at h
  cases hp : parse_recipe recipe with
  | error message =>
    rw [hp] at h
    cases h
  | ok r =>
    rw [hp] at h
    cases h
    exact ⟨r.2,rfl⟩

theorem deriveTier_ok {mode : Mode} {schedule tier : Option Str}
    (h : deriveTier mode schedule = .ok tier) :
    (mode = .ACTIVE_CUSTOM_MANAGED → cron_to_tier schedule = some tier) ∧
      (mode = .PASSIVE → tier = none) := by
  rw [deriveTier,validate_and_derive_tier] at h
  cases mode with
  | ACTIVE_CUSTOM_MANAGED =>
    rw [if_neg (by simp)] at h
    cases hc : cron_to_tier schedule with
    | none =>
      rw [hc] at h
      cases h
    | some t =>
      rw [hc] at h
      cases h
      exact ⟨fun _ => rfl,nofun⟩
  | _ =>
    cases h
    exact ⟨nofun,fun _ => rfl⟩

theorem checkBody_ok {source_type : Str} {tier : Option Str}
    (h : checkBody env body = .ok (source_type,tier)) :
    (∃ config, parse_recipe body.recipe = .ok (source_type,config)) ∧
      deriveTier body.mode body.schedule = .ok tier := by
  obtain ⟨source_type',hs,h⟩ := bind_eq_ok.mp h
  obtain ⟨tier',ht,h⟩ := bind_eq_ok.mp h
  obtain ⟨_,-,h⟩ := bind_eq_ok.mp h
  cases h
  exact ⟨sourceType_ok hs,ht⟩

theorem Writable.edited (w : Writable s id) {f : IngestionSource → IngestionSource}
    {hf : ∀ row, (f row).id = row.id}
    {hp : ∀ row, (f row).parent_source_id = row.parent_source_id} :
    Edited s (w.set f hf hp) id (some (f w.1)) := by
  refine ⟨fun row => Sources.mem_update.trans (or_congr_right ?_),?_,.inr ⟨w.1,w.2.1⟩,?_,?_,le_rfl⟩
  · constructor
    · rintro ⟨r,hr,hid,rfl⟩
      rw [w.eq hr hid]
    · intro h
      exact ⟨w.1,w.2.1.1,w.2.1.2,Option.some.inj h⟩
  · intro row hrow hid
    rw [w.eq hrow hid]
    exact w.2.2
  · rintro _ ⟨⟩
    rw [hf,w.2.1.2]
  · rintro _ ⟨⟩
    rw [hp,w.parent]

theorem create_source_ok (h : create_source env now body s = .ok s') :
    ∃ new, Edited s s' s.next_id (some new) ∧ Derived new ∧ new.mode ≠ .DATAHUB_MANAGED := by
  obtain ⟨_,hmode,h⟩ := bind_eq_ok.mp h
  obtain ⟨⟨source_type,tier⟩,hb,h⟩ := bind_eq_ok.mp h
  obtain ⟨hparse,htier⟩ := checkBody_ok hb
  have hm : body.mode ≠ .DATAHUB_MANAGED := by
    intro he
    rw [reject_if_datahub_managed,if_pos he] at hmode
    cases hmode
  cases h
  refine ⟨newSource now body source_type tier s.next_id,?_,?_,hm⟩
  · have hfresh : ∀ row ∈ s.rows, row.id ≠ s.next_id := fun row hrow => (s.fresh row hrow).ne
    refine ⟨fun row => Sources.mem_insert.trans ?_,fun row hrow hid => absurd hid (hfresh row hrow),
      .inl rfl,?_,?_,Nat.le_succ _⟩
    · rw [or_comm,eq_comm,Option.some.injEq]
      exact or_congr_left ⟨fun h => ⟨h,hfresh row h⟩,And.left⟩
    · rintro _ ⟨⟩
      rfl
    · rintro _ ⟨⟩
      rfl
  · exact ⟨(deriveTier_ok htier).1,(deriveTier_ok htier).2,hparse⟩

theorem replace_source_ok (h : replace_source env now id body s = .ok s') :
    Accepted env body ∧ (∃ row ∈ s.rows, row.id = id ∧ row.mode ≠ .DATAHUB_MANAGED) ∧
      ∃ new, Edited s s' id (some new) ∧ Derived new ∧ new.mode = body.mode := by
  obtain ⟨w,-,h⟩ := bind_eq_ok.mp h
  obtain ⟨⟨source_type,tier⟩,hb,h⟩ := bind_eq_ok.mp h
  obtain ⟨hparse,htier⟩ := checkBody_ok hb
  cases h
  refine ⟨⟨_,hb⟩,⟨w.1,w.2.1.1,w.2.1.2,w.2.2⟩,_,w.edited,?_,rfl⟩
  exact ⟨(deriveTier_ok htier).1,(deriveTier_ok htier).2,hparse⟩

theorem patchRecipe_ok {patch : Option (Option Items)} {source_type : Str} {recipe : Items}
    (h : patchRecipe env patch = .ok (some (source_type,recipe))) :
    ∃ config, parse_recipe recipe = .ok (source_type,config) := by
  rw [patchRecipe.eq_def] at h
  split at h
  · obtain ⟨source_type',hs,h⟩ := bind_eq_ok.mp h
    obtain ⟨_,-,h⟩ := bind_eq_ok.mp h
    cases h
    exact sourceType_ok hs
  · cases h

theorem patchSchedule_ok {mode : Mode} {patch : Option (Option Str)} {schedule tier : Option Str}
    (h : patchSchedule mode patch = .ok (some (schedule,tier))) :
    deriveTier mode schedule = .ok tier := by
  cases patch with
  | none => cases h
  | some schedule' =>
    obtain ⟨tier',ht,he⟩ := map_eq_ok.mp h
    cases he
    exact ht

/-- A patch of the recipe or of the schedule derives again what depends on it. -/
theorem patched_derived {row : IngestionSource} {mode : Mode} (hm : row.mode = mode)
    (hd : Derived row) {patch : SourcePatch} {recipe : Option (Str × Items)}
    {schedule : Option (Option Str × Option Str)}
    (hrecipe : patchRecipe env patch.recipe = .ok recipe)
    (hschedule : patchSchedule mode patch.schedule = .ok schedule) :
    Derived (row.patched patch.name.join recipe schedule now) := by
  subst hm
  have htier : (row.mode = .ACTIVE_CUSTOM_MANAGED →
        cron_to_tier ((schedule.map Prod.fst).getD row.schedule) =
          some ((schedule.map Prod.snd).getD row.schedule_tier)) ∧
      (row.mode = .PASSIVE → (schedule.map Prod.snd).getD row.schedule_tier = none) := by
    cases schedule with
    | none => exact ⟨hd.active,hd.passive⟩
    | some st => exact deriveTier_ok (patchSchedule_ok hschedule)
  have hplatform : ∃ config, parse_recipe ((recipe.map Prod.snd).getD row.recipe) =
      .ok ((recipe.map Prod.fst).getD row.platform,config) := by
    cases recipe with
    | none => exact hd.platform
    | some r => exact patchRecipe_ok hrecipe
  exact ⟨htier.1,htier.2,hplatform⟩

theorem patch_source_ok {patch : SourcePatch}
    (h : patch_source env now id patch s = .ok s') :
    ∃ new, Edited s s' id (some new) ∧ new.mode ≠ .DATAHUB_MANAGED ∧
      ((∀ row ∈ s.rows, row.mode ≠ .DATAHUB_MANAGED → Derived row) → Derived new) := by
  obtain ⟨w,-,h⟩ := bind_eq_ok.mp h
  obtain ⟨recipe,hrecipe,h⟩ := bind_eq_ok.mp h
  obtain ⟨schedule,hschedule,h⟩ := bind_eq_ok.mp h
  cases h
  refine ⟨_,w.edited,w.2.2,fun hd => ?_⟩
  exact patched_derived rfl (hd w.1 w.2.1.1 w.2.2) hrecipe hschedule

theorem delete_source_ok (hr : Rooted s) (h : delete_source id s = .ok s') :
    Edited s s' id none := by
  obtain ⟨w,-,h⟩ := bind_eq_ok.mp h
  cases h
  have huser : ∀ row ∈ s.rows, row.id = id → row.mode ≠ .DATAHUB_MANAGED := by
    intro row hrow hid
    rw [w.eq hrow hid]
    exact w.2.2
  refine ⟨fun row => ?_,huser,.inr ⟨w.1,w.2.1⟩,nofun,nofun,le_rfl⟩
  have hclosed : ∀ row ∈ s.rows, ∀ parent ∈ s.rows, row.parent_source_id = some parent.id →
      parent.id = id → row.id = id := by
    intro row hrow parent hparent hlink hid
    exact absurd ((hr row hrow _ hlink).2 parent hparent rfl) (huser parent hparent hid)
  exact (Sources.mem_delete (p:=fun row => row.id = id) hclosed).trans (by simp)

theorem Edited.rooted {new : Option IngestionSource} (h : Edited s s' id new) (hr : Rooted s) :
    Rooted s' := by
  intro row hrow pid hlink
  rcases (h.rows row).mp hrow with ⟨hold,-⟩ | hnew
  · obtain ⟨hlt,hmode⟩ := hr row hold pid hlink
    refine ⟨hlt.trans_le h.next,fun q hq hid => ?_⟩
    rcases (h.rows q).mp hq with ⟨hq,-⟩ | hq
    · exact hmode q hq hid
    · have he : id = pid := (h.new_id q hq).symm.trans hid
      rcases h.issued with hfresh | ⟨r,hr',hid'⟩
      · exact absurd (he.symm.trans hfresh) hlt.ne
      · exact absurd (hmode r hr' (hid'.trans he)) (h.user r hr' hid')
  · rw [h.root row hnew] at hlink
    cases hlink

/-- A request leaves the rows of the sweep alone. -/
theorem Edited.keeps {new : Option IngestionSource} (h : Edited s s' id new)
    {row : IngestionSource} (hrow : row ∈ s.rows) (hm : row.mode = .DATAHUB_MANAGED) :
    row ∈ s'.rows :=
  (h.rows row).mpr (.inl ⟨hrow,fun hid => h.user row hrow hid hm⟩)

end Requests

section Run

variable {w : Store} {call : SourceCall}

/-- The managed rows are those of the sweeps, and the users' rows say what they derive. -/
structure Owned (w : Store) : Prop where
  managed : ∀ row ∈ w.sources.rows, row.mode = .DATAHUB_MANAGED → row.id ∈ w.swept
  derived : ∀ row ∈ w.sources.rows, row.mode ≠ .DATAHUB_MANAGED → Derived row

/-- What the runs keep: besides, no sweep has created a user's row. -/
structure Consistent (w : Store) : Prop where
  owned : Owned w
  rooted : Rooted w.sources
  user : ∀ row ∈ w.sources.rows, row.mode ≠ .DATAHUB_MANAGED → row.id ∉ w.swept
  issued : ∀ id ∈ w.swept, id < w.sources.next_id

def sourceSystem : System Store SourceCall :=
  ofFun Consistent fun w call => some (w.apply call)

/-- A request changes and deletes no managed row. -/
def Spares (w : Store) (call : SourceCall) : Prop :=
  (∀ dh_sources, call.op ≠ .sweep dh_sources) → ∀ row ∈ w.sources.rows,
    row.mode = .DATAHUB_MANAGED → row ∈ (w.apply call).sources.rows

/-- No replace that passes the checks asks for the managed mode on a user's row. -/
def KeepsMode (w : Store) (call : SourceCall) : Prop :=
  ∀ id body, call.op = .replace id body → body.mode = .DATAHUB_MANAGED →
    Accepted call.env body → ∀ row ∈ w.sources.rows, row.id = id → row.mode = .DATAHUB_MANAGED

inductive Move (w : Store) (call : SourceCall) : Store → Prop
  | idle : Move w call w
  | sweep {dh_sources : List ManagedSource} (s' : Sources) (hop : call.op = .sweep (some dh_sources))
      (heffect : SweepEffect w.sources s') (hrooted : Rooted s') :
      Move w call ⟨s',w.swept ++ created w.sources s'⟩
  /-- A user's row is written or deleted. -/
  | edit {s' : Sources} {id : ℕ} {new : Option IngestionSource}
      (hedited : Edited w.sources s' id new)
      (hnew : ∀ row, new = some row → row.mode ≠ .DATAHUB_MANAGED ∧
        ((∀ row ∈ w.sources.rows, row.mode ≠ .DATAHUB_MANAGED → Derived row) → Derived row)) :
      Move w call { w with sources := s' }
  /-- A replace turns a user's row into a managed one. -/
  | seize {s' : Sources} {id : ℕ} {body : SourceBody} {new : IngestionSource}
      (hop : call.op = .replace id body) (hmode : body.mode = .DATAHUB_MANAGED)
      (hacc : Accepted call.env body)
      (hrow : ∃ row ∈ w.sources.rows, row.id = id ∧ row.mode ≠ .DATAHUB_MANAGED)
      (hedited : Edited w.sources s' id (some new)) (hnew : new.mode = .DATAHUB_MANAGED) :
      Move w call { w with sources := s' }

theorem move_commit {r : Except SourceError Sources}
    (h : ∀ s', r = .ok s' → Move w call { w with sources := s' }) :
    Move w call (w.commit r) := by
  cases r with
  | error => exact .idle
  | ok s' => exact h s' rfl

theorem apply_move (hr : Rooted w.sources) : Move w call (w.apply call) := by
  obtain ⟨env,now,op⟩ := call
  cases op with
  | create body =>
    refine move_commit fun s' h => ?_
    obtain ⟨new,he,hd,hm⟩ := create_source_ok h
    exact .edit he (by rintro _ ⟨⟩; exact ⟨hm,fun _ => hd⟩)
  | replace id body =>
    refine move_commit fun s' h => ?_
    obtain ⟨hacc,hrow,new,he,hd,hm⟩ := replace_source_ok h
    by_cases hb : body.mode = .DATAHUB_MANAGED
    · exact .seize rfl hb hacc hrow he (hm.trans hb)
    · exact .edit he (by rintro _ ⟨⟩; exact ⟨hm ▸ hb,fun _ => hd⟩)
  | patch id patch =>
    refine move_commit fun s' h => ?_
    obtain ⟨new,he,hm,hd⟩ := patch_source_ok h
    exact .edit he (by rintro _ ⟨⟩; exact ⟨hm,hd⟩)
  | delete id =>
    refine move_commit fun s' h => ?_
    exact .edit (delete_source_ok hr h) nofun
  | sweep dh_sources =>
    cases dh_sources with
    | none => exact .idle
    | some dh_sources =>
      exact .sweep _ rfl (sweepSources_effect dh_sources) (sweepSources_rooted dh_sources hr)

theorem Move.rooted {w' : Store} (h : Move w call w') (hr : Rooted w.sources) :
    Rooted w'.sources := by
  cases h with
  | idle => exact hr
  | sweep s' hop heffect hrooted => exact hrooted
  | edit hedited hnew => exact hedited.rooted hr
  | seize hop hmode hacc hrow hedited hnew => exact hedited.rooted hr

theorem spares (hr : Rooted w.sources) : Spares w call := by
  intro hop row hrow hm
  have hmove := @apply_move _ call hr
  generalize w.apply call = w' at hmove ⊢
  cases hmove with
  | idle => exact hrow
  | sweep s' hsweep => exact absurd hsweep (hop _)
  | edit hedited hnew => exact hedited.keeps hrow hm
  | seize hop' hmode hacc hrow' hedited hnew => exact hedited.keeps hrow hm

theorem mem_created {before after : Sources} {id : ℕ} :
    id ∈ created before after ↔ before.next_id ≤ id ∧ ∃ row ∈ after.rows, row.id = id := by
  rw [created,List.mem_map]
  constructor
  · rintro ⟨row,hrow,rfl⟩
    rw [List.mem_filter,decide_eq_true_iff] at hrow
    exact ⟨hrow.2,row,hrow.1,rfl⟩
  · rintro ⟨hle,row,hrow,rfl⟩
    exact ⟨row,List.mem_filter.mpr ⟨hrow,decide_eq_true hle⟩,rfl⟩

theorem Consistent.sweep {s' : Sources} (hc : Consistent w) (he : SweepEffect w.sources s')
    (hr : Rooted s') : Consistent ⟨s',w.swept ++ created w.sources s'⟩ := by
  refine ⟨⟨?_,?_⟩,hr,?_,?_⟩
  · intro row hrow hm
    rcases he.managed row hrow hm with ⟨old,hold,hid,hm'⟩ | hnew
    · exact List.mem_append_left _ (hid ▸ hc.owned.managed old hold hm')
    · exact List.mem_append_right _ (mem_created.mpr ⟨hnew,row,hrow,rfl⟩)
  · exact fun row hrow hm => hc.owned.derived row ((he.users row hm).mp hrow) hm
  · intro row hrow hm hin
    have hold := (he.users row hm).mp hrow
    rcases List.mem_append.mp hin with hin | hin
    · exact hc.user row hold hm hin
    · exact absurd (mem_created.mp hin).1 (w.sources.fresh row hold).not_ge
  · intro id hin
    rcases List.mem_append.mp hin with hin | hin
    · exact (hc.issued id hin).trans_le he.next
    · obtain ⟨-,row,hrow,rfl⟩ := mem_created.mp hin
      exact s'.fresh row hrow

theorem Edited.not_swept {s' : Sources} {id : ℕ} {new : Option IngestionSource}
    (he : Edited w.sources s' id new) (hc : Consistent w) : id ∉ w.swept := by
  intro hin
  rcases he.issued with rfl | ⟨row,hrow,rfl⟩
  · exact absurd (hc.issued _ hin) (lt_irrefl _)
  · exact hc.user row hrow (he.user row hrow rfl) hin

theorem Consistent.edit {s' : Sources} {id : ℕ} {new : Option IngestionSource}
    (hc : Consistent w) (he : Edited w.sources s' id new)
    (hnew : ∀ row, new = some row → row.mode ≠ .DATAHUB_MANAGED ∧ Derived row) :
    Consistent { w with sources := s' } := by
  refine ⟨⟨?_,?_⟩,he.rooted hc.rooted,?_,fun id hin => (hc.issued id hin).trans_le he.next⟩
  · intro row hrow hm
    rcases (he.rows row).mp hrow with ⟨hold,-⟩ | h
    · exact hc.owned.managed row hold hm
    · exact absurd hm (hnew row h).1
  · intro row hrow hm
    rcases (he.rows row).mp hrow with ⟨hold,-⟩ | h
    · exact hc.owned.derived row hold hm
    · exact (hnew row h).2
  · intro row hrow hm
    rcases (he.rows row).mp hrow with ⟨hold,-⟩ | h
    · exact hc.user row hold hm
    · rw [he.new_id row h]
      exact he.not_swept hc

theorem Consistent.move {w' : Store} (hc : Consistent w) (hg : KeepsMode w call)
    (h : Move w call w') : Consistent w' := by
  cases h with
  | idle => exact hc
  | sweep s' hop heffect hrooted => exact hc.sweep heffect hrooted
  | edit hedited hnew =>
    exact hc.edit hedited fun row h => ⟨(hnew row h).1,(hnew row h).2 hc.owned.derived⟩
  | seize hop hmode hacc hrow hedited hnew =>
    obtain ⟨row,hrow,hid,hm⟩ := hrow
    exact absurd (hg _ _ hop hmode hacc row hrow hid) hm

theorem exists_writable {s : Sources} {row : IngestionSource} (hrow : row ∈ s.rows)
    (hm : row.mode ≠ .DATAHUB_MANAGED) : ∃ r, writable s row.id = .ok r := by
  have hget : s.table.get? row.id = some row := Table.get?_eq_some.mpr ⟨hrow,rfl⟩
  rw [writable]
  split
  · rename_i hnone
    rw [hget] at hnone
    cases hnone
  · rename_i row' hsome
    rw [hget] at hsome
    cases hsome
    rw [dif_neg hm]
    exact ⟨_,rfl⟩

/-- Where the guard fails, a managed row appears that no sweep has created. -/
theorem seized (hc : Consistent w) (hg : ¬ KeepsMode w call) : ¬ Owned (w.apply call) := by
  intro ho
  refine hg fun id body hop hmode hacc row hrow hid => ?_
  by_contra hm
  subst hid
  obtain ⟨⟨source_type,tier⟩,hb⟩ := hacc
  obtain ⟨r,hr⟩ := exists_writable hrow hm
  have hok : ∃ s', replace_source call.env call.now row.id body w.sources = .ok s' :=
    ⟨_,bind_eq_ok.mpr ⟨r,hr,bind_eq_ok.mpr ⟨_,hb,rfl⟩⟩⟩
  obtain ⟨s',hs'⟩ := hok
  obtain ⟨-,-,new,he,-,hnew⟩ := replace_source_ok hs'
  have happly : w.apply call = { w with sources := s' } := by
    rw [Store.apply,hop]
    dsimp only
    rw [hs',Store.commit]
  rw [happly] at ho
  have hin := ho.managed new ((he.rows new).mpr (.inr rfl)) (hnew.trans hmode)
  rw [he.new_id new rfl] at hin
  exact he.not_swept hc hin

theorem run_rooted {w w' : Store} {h : List (Store × SourceCall)}
    (hr : Run sourceSystem w h w') (hi : Consistent w) : Visits (fun w => Rooted w.sources) h w' :=
  hr.visits (G:=fun _ _ => True) hi.rooted
    (fun _ _ _ hroot _ hstep => Option.some.inj hstep ▸ (apply_move hroot).rooted hroot)
    fun _ _ => trivial

/-- In every state the managed rows are the sweep's and the others derive what they store, just
where no replace turns a user's row into a managed one; no request touches a managed row. -/
theorem mode_ownership {w w' : Store} {h : List (Store × SourceCall)}
    (hr : Run sourceSystem w h w') (hi : Consistent w) :
    (Visits Owned h w' ↔ Meets KeepsMode h) ∧ Meets Spares h := by
  constructor
  · refine hr.visits_iff_meets hi (fun _ hc => hc.owned) ?_ ?_
    · rintro w call _ hc hg ⟨⟩
      exact hc.move hg (apply_move hc.rooted)
    · rintro w call _ hc hg ⟨⟩
      exact seized hc hg
  · exact fun p hp => spares ((run_rooted hr hi).2 p hp)

/-- `{"source": {"type": "postgres"}}`. -/
def postgresRecipe : Items := [(sourceKey,.obj [(typeKey,.str "postgres".toList)])]

def hourlyBody : SourceBody :=
  ⟨.ACTIVE_CUSTOM_MANAGED,"pg".toList,some "@hourly".toList,postgresRecipe⟩

def managedBody : SourceBody := ⟨.DATAHUB_MANAGED,"pg".toList,none,postgresRecipe⟩

def emptyStore : Store := ⟨noSources,[]⟩

theorem emptyStore_consistent : Consistent emptyStore :=
  ⟨⟨nofun,nofun⟩,nofun,nofun,nofun⟩

def sampleCalls : List SourceCall :=
  [⟨recipeRuntime,0,.create hourlyBody⟩,⟨recipeRuntime,1,.sweep (some [regularSource])⟩,
    ⟨recipeRuntime,2,.patch 0 ⟨none,none,some none⟩⟩,⟨recipeRuntime,3,.delete 1⟩]

theorem mode_ownership_sample : ∃ h w', Run sourceSystem emptyStore h w' ∧
    (Visits Owned h w' ∧ Meets Spares h) ∧ h.length = 4 := by
  have hr := run_of_replay (i:=Consistent) (f:=fun w call => some (w.apply call))
    (l:=sampleCalls) (.refl (s:=emptyStore)) rfl
  have h := mode_ownership hr emptyStore_consistent
  refine ⟨_,_,hr,⟨h.1.mpr ?_,h.2⟩,rfl⟩
  simp only [meets_cons,meets_nil,and_true]
  refine ⟨?_,?_,?_,?_⟩ <;>
    · intro _ _ hop
      cases hop

/-- A replace turns a user's source into a managed one. -/
theorem replace_makes_managed : ¬ ∀ w w' h, Run sourceSystem w h w' → Consistent w →
    Visits Owned h w' := by
  intro hall
  have hr := run_of_replay (i:=Consistent) (f:=fun w call => some (w.apply call))
    (l:=[⟨recipeRuntime,0,.create hourlyBody⟩,⟨recipeRuntime,1,.replace 0 managedBody⟩])
    (.refl (s:=emptyStore)) rfl
  have ho := (hall _ _ _ hr emptyStore_consistent).1
  have hin := ho.managed (IngestionSource.replaced managedBody "postgres".toList none 1
    (newSource 0 hourlyBody "postgres".toList (some "hourly".toList) 0)) (List.mem_singleton.mpr rfl) rfl
  cases hin

end Run

end Ingestion
end Dataspoke
