import Dataspoke.Fold
import Dataspoke.IngestionStore

/-!
# Step 1 of the sweep: the managed sources

The sources that DataHub lists are mirrored in two passes, regular ones and then the CLI
wrappers that name one of them, and the other managed rows are removed. Each pass commits.
-/

namespace Dataspoke
namespace Ingestion

open Python

structure ManagedSource where
  urn : Option Str
  name : Option Str
  recipe : Option Str
  /-- The interval of the schedule, where there is one. -/
  interval : Option Str
  executor_id : Option Str

inductive SweepError
  /-- `_mask_recipe_secrets` on a `source` that is no dict. -/
  | attributeError
  /-- `scalar_one_or_none` on two rows. -/
  | multipleResultsFound
  /-- The lookup of a `pipeline_name` that is not hashable. -/
  | typeError
  deriving DecidableEq

section Recipe

variable (env : Runtime)

def secretKeys : List Str :=
  ["password".toList,"secret".toList,"token".toList,"api_key".toList,"api_secret".toList,
    "client_secret".toList,"access_token".toList,"secret_key".toList,"private_key".toList,
    "auth_token".toList,"credential".toList,"credentials".toList,
    "aws_secret_access_key".toList]

def refChar (c : Char) : Bool :=
  ('A' ≤ c && c ≤ 'Z') || ('a' ≤ c && c ≤ 'z') || ('0' ≤ c && c ≤ '9') || c = '_' || c = '.' ||
    c = '-'

/-- `_SECRET_REF_RE_INLINE.match`; `$` also matches before a final newline. -/
def isSecretRef (s : Str) : Bool :=
  let s := if s.getLast? = some '\n' then s.dropLast else s
  ['$','\x7b'].isPrefixOf s && s.getLast? = some '\x7d' && 3 < s.length &&
    ((s.drop 2).dropLast).all refChar

def maskedValue : Str := "********".toList

/-- One entry of a dict in `_mask_dict_inplace`, its nested value masked already. -/
def maskEntry (k : Str) (v nested : Json) : Json :=
  match v with
  | .str s => if env.lower k ∈ secretKeys && !isSecretRef s then .str maskedValue else .str s
  | _ => nested

mutual

/-- `_mask_dict_inplace`; texts outside of dicts stay. -/
def mask : Json → Json
  | .obj items => .obj (maskItems items)
  | .arr xs => .arr (maskList xs)
  | v => v

def maskItems : Items → Items
  | [] => []
  | (k,v)::items => (k,maskEntry env k v (mask v))::maskItems items

def maskList : List Json → List Json
  | [] => []
  | x::xs => mask x::maskList xs

end

/-- `_mask_recipe_secrets`: `none` where `source` has a value without `get`. -/
def mask_recipe_secrets (recipe : Items) : Option Items :=
  match get? sourceKey recipe with
  | some (.obj source) =>
    match get? configKey source with
    | some (.obj config) =>
      some (setItem sourceKey
        (.obj (setItem configKey (mask env (.obj config)) source)) recipe)
    | _ => some recipe
  | some v => if truthy v then none else some recipe
  | none => some recipe

def parse_recipe_str_safe (recipe_str : Str) : Items :=
  if recipe_str.isEmpty then []
  else
    match env.json_loads recipe_str with
    | some (.obj items) => items
    | _ => []

end Recipe

section Step

variable (env : Runtime)

/-- The text after the last colon of a URN. -/
def urnId (urn : Str) : Str := ((splitLast ':' urn).map Prod.snd).getD urn

def is_cli_wrapper (executor_id : Option Str) (source_urn : Str) (name : Option Str) : Bool :=
  executor_id.any ("__datahub_cli_".toList.isPrefixOf ·) ||
    "cli-".toList.isPrefixOf (urnId source_urn) ||
    name.any ("[CLI] ".toList.isPrefixOf ·)

/-- `value or default`, for a text that may be missing. -/
def orElse (value : Option Str) (default : Str) : Str :=
  match value with
  | some s => if s.isEmpty then default else s
  | none => default

namespace ManagedSource

def urnText (s : ManagedSource) : Str := s.urn.getD []

def isWrapper (s : ManagedSource) : Bool := is_cli_wrapper s.executor_id s.urnText s.name

def recipeItems (s : ManagedSource) : Items := parse_recipe_str_safe env (s.recipe.getD [])

/-- `recipe_dict.get("pipeline_name")`, where it is a text that is not empty. -/
def pipelineName (s : ManagedSource) : Option Str :=
  match get? "pipeline_name".toList (s.recipeItems env) with
  | some (.str name) => if name.isEmpty then none else some name
  | _ => none

/-- Whether `parent_by_urn` can be asked for the `pipeline_name`. -/
def isHashable (s : ManagedSource) : Bool :=
  match get? "pipeline_name".toList (s.recipeItems env) with
  | some (.arr xs) => xs.isEmpty
  | some (.obj items) => items.isEmpty
  | _ => true

end ManagedSource

/-- An entry that the passes do not skip. -/
abbrev Named := {s : ManagedSource // s.urnText ≠ []}

def named (dh_sources : List ManagedSource) : List Named :=
  dh_sources.filterMap fun s => if h : s.urnText = [] then none else some ⟨s,h⟩

/-- The entries that pass A upserts. -/
def regulars (dh_sources : List ManagedSource) : List Named :=
  (named dh_sources).filter (!·.1.isWrapper)

/-- The entries that wait for pass B. -/
def wrappers (dh_sources : List ManagedSource) : List Named :=
  (named dh_sources).filter (·.1.isWrapper)

/-- What a managed row takes from its source. -/
structure Content where
  name : Str
  platform : Str
  recipe : Items
  schedule : Option Str
  schedule_tier : Option Str

def content (s : ManagedSource) : Option Content :=
  (mask_recipe_secrets env (s.recipeItems env)).map fun masked =>
    let schedule := s.interval.bind fun i => if i.isEmpty then none else some i
    { name := orElse s.name s.urnText
      platform := (safe_parse_recipe masked).1
      recipe := masked
      schedule
      schedule_tier := (cron_to_tier schedule).join }

def IngestionSource.setContent (c : Content) (parent : Option ℕ) (now : ℕ)
    (row : IngestionSource) : IngestionSource :=
  { row with
    name := c.name, platform := c.platform, recipe := c.recipe, schedule := c.schedule
    schedule_tier := c.schedule_tier, parent_source_id := parent, status := "OK".toList
    updated_at := now }

def newManagedRow (c : Content) (urn : Str) (parent : Option ℕ) (now id : ℕ) :
    IngestionSource where
  id := id
  mode := .DATAHUB_MANAGED
  name := c.name
  platform := c.platform
  recipe := c.recipe
  schedule := c.schedule
  schedule_tier := c.schedule_tier
  datahub_source_urn := some urn
  parent_source_id := parent
  status := "OK".toList
  created_at := now
  updated_at := now

/-- Whether the row is the managed one of the URN. -/
def IngestionSource.isManaged (urn : Str) (row : IngestionSource) : Bool :=
  row.datahub_source_urn = some urn && row.mode = .DATAHUB_MANAGED

variable (now : ℕ)

/-- `_upsert_managed_row`: the rows and the id of the one written. -/
def upsert_managed_row (s : Named) (parent : Option ℕ) (sources : Sources) :
    Except SweepError (Sources × ℕ) :=
  match content env s.1 with
  | none => .error .attributeError
  | some c =>
    match h : sources.rows.filter (IngestionSource.isManaged s.1.urnText) with
    | [] => .ok (sources.insert (newManagedRow c s.1.urnText parent now) (fun _ => rfl)
        (fun _ _ => ⟨rfl,_,rfl,s.2⟩),sources.next_id)
    | [row] => .ok (sources.update row.id (.setContent c parent now) (fun _ => rfl) (by
        intro r hr hid _ _
        have hmem : row ∈ sources.rows ∧ row.isManaged s.1.urnText = true :=
          List.mem_filter.mp (h ▸ List.mem_singleton.mpr rfl)
        rw [Sources.ext_id hr hmem.1 hid]
        have hm := hmem.2
        simp only [IngestionSource.isManaged,Bool.and_eq_true,decide_eq_true_iff] at hm
        exact ⟨hm.2,_,hm.1,s.2⟩),row.id)
    | _ => .error .multipleResultsFound

def upsertNext (acc : Sources × List (Str × ℕ)) (t : Named × Option ℕ) :
    Except SweepError (Sources × List (Str × ℕ)) :=
  (upsert_managed_row env now t.1 t.2 acc.1).map fun r =>
    (r.1,setItem t.1.1.urnText r.2 acc.2)

/-- The upserts of one pass: the rows, and their ids by URN. -/
def upsertAll (todo : List (Named × Option ℕ)) (sources : Sources) :
    Except SweepError (Sources × List (Str × ℕ)) :=
  todo.foldlM (upsertNext env now) (sources,[])

/-- Pass A: the rows, and `parent_by_urn`. -/
def passA (regulars : List Named) (sources : Sources) :
    Except SweepError (Sources × List (Str × ℕ)) :=
  upsertAll env now (regulars.map (·,none)) sources

/-- The wrappers that name the URN of a regular source, with its id; the orphans are left
out. -/
def linkedWrappers (wrappers : List Named) (parent_by_urn : List (Str × ℕ)) :
    List (Named × Option ℕ) :=
  wrappers.filterMap fun s =>
    ((s.1.pipelineName env).bind (get? · parent_by_urn)).map fun parent => (s,some parent)

/-- Pass B, on the wrappers that have a parent. -/
def passB (linked : List (Named × Option ℕ)) (sources : Sources) : Except SweepError Sources :=
  (upsertAll env now linked sources).map Prod.fst

/-- A managed row whose URN was not seen. -/
def Stale (seen : List Str) (row : IngestionSource) : Prop :=
  row.mode = .DATAHUB_MANAGED ∧ ∃ urn, row.datahub_source_urn = some urn ∧ urn ≠ [] ∧ urn ∉ seen

instance (seen : List Str) (row : IngestionSource) : Decidable (Stale seen row) :=
  match h : row.datahub_source_urn with
  | none => isFalse (by simp [Stale,h])
  | some urn => decidable_of_iff (row.mode = .DATAHUB_MANAGED ∧ urn ≠ [] ∧ urn ∉ seen)
      (by simp [Stale,h])

structure SourceCounts where
  sources_synced : ℕ
  sources_removed : ℕ

/-- Step 1: the rows as they are committed when it ends or raises, and the counts. -/
def sweepSources (dh_sources : List ManagedSource) (sources : Sources) :
    Sources × Except SweepError SourceCounts :=
  match passA env now (regulars dh_sources) sources with
  | .error e => (sources,.error e)
  | .ok (a,parent_by_urn) =>
    -- the first wrapper with an unhashable name ends pass B, after those before it
    let linked := linkedWrappers env ((wrappers dh_sources).takeWhile (·.1.isHashable env))
      parent_by_urn
    match passB env now linked a with
    | .error e => (a,.error e)
    | .ok b =>
      if (wrappers dh_sources).all (·.1.isHashable env) then
        let seen := (regulars dh_sources).map (·.1.urnText) ++ linked.map (·.1.1.urnText)
        (b.delete fun row => decide (Stale seen row),
          .ok ⟨seen.length,b.rows.countP fun row => decide (Stale seen row)⟩)
      else (a,.error .typeError)

end Step

section Upsert

variable {env : Runtime} {now : ℕ} {sources sources' : Sources}

/-- The row holds what a source says, under a parent. -/
structure Written (c : Content) (urn : Str) (parent : Option ℕ) (row : IngestionSource) :
    Prop where
  mode : row.mode = .DATAHUB_MANAGED
  urn : row.datahub_source_urn = some urn
  name : row.name = c.name
  platform : row.platform = c.platform
  recipe : row.recipe = c.recipe
  schedule : row.schedule = c.schedule
  schedule_tier : row.schedule_tier = c.schedule_tier
  parent : row.parent_source_id = parent
  status : row.status = "OK".toList

theorem isManaged_iff {urn : Str} {row : IngestionSource} : row.isManaged urn = true ↔
    row.datahub_source_urn = some urn ∧ row.mode = .DATAHUB_MANAGED := by
  simp [IngestionSource.isManaged]

theorem Written.isManaged {c : Content} {urn : Str} {parent : Option ℕ} {row : IngestionSource}
    (h : Written c urn parent row) : row.isManaged urn = true :=
  isManaged_iff.mpr ⟨h.urn,h.mode⟩

/-- At most one managed row has the URN. -/
def Sole (sources : Sources) (urn : Str) : Prop :=
  ∀ r ∈ sources.rows, ∀ r' ∈ sources.rows, r.isManaged urn = true → r'.isManaged urn = true →
    r = r'

/-- What the upsert of one source does to the rows. -/
structure Upserted (env : Runtime) (s : Named) (parent : Option ℕ) (sources : Sources)
    (sources' : Sources) (id : ℕ) : Prop where
  row : ∃ c row, content env s.1 = some c ∧ row ∈ sources'.rows ∧
    Written c s.1.urnText parent row ∧ row.id = id ∧
    ∀ r ∈ sources'.rows, r.isManaged s.1.urnText = true → r = row
  others : ∀ r : IngestionSource, r.isManaged s.1.urnText = false →
    (r ∈ sources'.rows ↔ r ∈ sources.rows)
  kept : ∀ r ∈ sources.rows, r.isManaged s.1.urnText = true → r.id = id
  issued : id = sources.next_id ∨ ∃ r ∈ sources.rows, r.isManaged s.1.urnText = true ∧ r.id = id
  next : sources.next_id ≤ sources'.next_id

theorem upsert_managed_row_ok {s : Named} {parent : Option ℕ} {id : ℕ}
    (h : upsert_managed_row env now s parent sources = .ok (sources',id)) :
    Upserted env s parent sources sources' id := by
  rw [upsert_managed_row] at h
  cases hc : content env s.1 with
  | none =>
    rw [hc] at h
    cases h
  | some c =>
    rw [hc] at h
    dsimp only at h
    split at h
    · rename_i hnil
      have hnone : ∀ r ∈ sources.rows, r.isManaged s.1.urnText = false := by
        intro r hr
        have hr' := List.filter_eq_nil_iff.mp hnil r hr
        simpa using hr'
      cases h
      have hw : Written c s.1.urnText parent
          (newManagedRow c s.1.urnText parent now sources.next_id) :=
        ⟨rfl,rfl,rfl,rfl,rfl,rfl,rfl,rfl,rfl⟩
      refine ⟨⟨c,_,hc,Sources.mem_insert.mpr (.inl rfl),hw,rfl,?_⟩,?_,?_,.inl rfl,
        Nat.le_succ _⟩
      · intro r hr hm
        rcases Sources.mem_insert.mp hr with rfl | hr
        · rfl
        · simp [hnone r hr] at hm
      · intro r hm
        refine Sources.mem_insert.trans ⟨fun hr => hr.resolve_left ?_,.inr⟩
        rintro rfl
        rw [hw.isManaged] at hm
        cases hm
      · intro r hr hm
        rw [hnone r hr] at hm
        cases hm
    · rename_i row hrow
      have hmem : ∀ r, r ∈ sources.rows ∧ r.isManaged s.1.urnText = true ↔ r = row := by
        intro r
        rw [← List.mem_filter,hrow,List.mem_singleton]
      obtain ⟨hrow,hm⟩ := (hmem row).mpr rfl
      obtain ⟨hurn,hmode⟩ := isManaged_iff.mp hm
      cases h
      have hw : Written c s.1.urnText parent (row.setContent c parent now) :=
        ⟨hmode,hurn,rfl,rfl,rfl,rfl,rfl,rfl,rfl⟩
      refine ⟨⟨c,_,hc,Sources.mem_update.mpr (.inr ⟨row,hrow,rfl,rfl⟩),hw,rfl,?_⟩,?_,?_,
        .inr ⟨row,hrow,hm,rfl⟩,le_rfl⟩
      · intro r hr hm'
        rcases Sources.mem_update.mp hr with ⟨hr,hid⟩ | ⟨r',hr',hid,rfl⟩
        · exact absurd (congrArg IngestionSource.id ((hmem r).mp ⟨hr,hm'⟩)) hid
        · rw [Sources.ext_id hr' hrow hid]
      · intro r hm'
        apply Sources.mem_update.trans
        constructor
        · rintro (⟨hr,-⟩ | ⟨r',hr',hid,rfl⟩)
          · exact hr
          · rw [Sources.ext_id hr' hrow hid,hw.isManaged] at hm'
            cases hm'
        · intro hr
          refine .inl ⟨hr,fun hid => ?_⟩
          rw [Sources.ext_id hr hrow hid,hm] at hm'
          cases hm'
      · intro r hr hm'
        rw [(hmem r).mp ⟨hr,hm'⟩]
    · cases h

theorem upsert_managed_row_ok_iff {s : Named} {parent : Option ℕ} :
    (∃ r, upsert_managed_row env now s parent sources = .ok r) ↔
      content env s.1 ≠ none ∧ Sole sources s.1.urnText := by
  rw [upsert_managed_row]
  cases hc : content env s.1 with
  | none => simp
  | some c =>
    dsimp only
    split
    · rename_i hnil
      refine iff_of_true ⟨_,rfl⟩ ⟨by simp,fun r hr _ _ hm => ?_⟩
      have hr' := List.filter_eq_nil_iff.mp hnil r hr
      exact absurd hm hr'
    · rename_i row hrow
      have hmem : ∀ r ∈ sources.rows, r.isManaged s.1.urnText = true → r = row := by
        intro r hr hm
        have hr' := List.mem_filter.mpr ⟨hr,hm⟩
        rwa [hrow,List.mem_singleton] at hr'
      refine iff_of_true ⟨_,rfl⟩ ⟨by simp,fun r hr r' hr' hm hm' => ?_⟩
      rw [hmem r hr hm,hmem r' hr' hm']
    · rename_i hnil hone
      refine iff_of_false (by simp) fun hsole => ?_
      have hnodup := sources.table.nodup.sublist
        ((List.filter_sublist (p:=IngestionSource.isManaged s.1.urnText)).map
          IngestionSource.id)
      cases hl : sources.rows.filter (IngestionSource.isManaged s.1.urnText) with
      | nil => exact hnil hl
      | cons a rest =>
        cases rest with
        | nil => exact hone a hl
        | cons b rest =>
          have ha := List.mem_filter.mp (hl ▸ List.mem_cons_self :
            a ∈ sources.rows.filter (IngestionSource.isManaged s.1.urnText))
          have hb := List.mem_filter.mp (hl ▸ List.mem_cons_of_mem _ List.mem_cons_self :
            b ∈ sources.rows.filter (IngestionSource.isManaged s.1.urnText))
          rw [hl] at hnodup
          have hab := hsole.2 a ha.1 b hb.1 ha.2 hb.2
          simp [hab] at hnodup

/-- An upsert leaves the rows of other URNs alone. -/
theorem Upserted.others_iff {s : Named} {parent : Option ℕ} {id : ℕ} {urn : Str}
    (h : Upserted env s parent sources sources' id) (hne : s.1.urnText ≠ urn)
    {r : IngestionSource} (hm : r.isManaged urn = true) :
    r ∈ sources'.rows ↔ r ∈ sources.rows := by
  refine h.others r ?_
  simp [IngestionSource.isManaged,(isManaged_iff.mp hm).1,Ne.symm hne]

/-- `Sole` reads the rows of its URN alone. -/
theorem sole_congr {urn : Str} (h : ∀ r : IngestionSource, r.isManaged urn = true →
    (r ∈ sources'.rows ↔ r ∈ sources.rows)) : Sole sources' urn ↔ Sole sources urn := by
  constructor
  · exact fun hs r hr r' hr' hm hm' => hs r ((h r hm).mpr hr) r' ((h r' hm').mpr hr') hm hm'
  · exact fun hs r hr r' hr' hm hm' => hs r ((h r hm).mp hr) r' ((h r' hm').mp hr') hm hm'

theorem Upserted.sole {s : Named} {parent : Option ℕ} {id : ℕ} {urn : Str}
    (h : Upserted env s parent sources sources' id) (hs : Sole sources s.1.urnText) :
    Sole sources' urn ↔ Sole sources urn := by
  by_cases hne : s.1.urnText = urn
  · subst hne
    obtain ⟨c,row,-,-,-,-,hrow⟩ := h.row
    refine iff_of_true (fun r hr r' hr' hm hm' => ?_) hs
    rw [hrow r hr hm,hrow r' hr' hm']
  · exact sole_congr fun r hm => h.others_iff hne hm

/-- No two entries with the same URN. -/
def Distinct (todo : List (Named × Option ℕ)) : Prop :=
  todo.Pairwise fun t u => t.1.1.urnText ≠ u.1.1.urnText

theorem upsertAll_ok_iff {todo : List (Named × Option ℕ)} :
    (∃ r, upsertAll env now todo sources = .ok r) ↔
      ∀ t ∈ todo, content env t.1.1 ≠ none ∧ Sole sources t.1.1.urnText := by
  rw [upsertAll,← Fold.along_const]
  refine Fold.foldlM_ok_iff (I:=fun _ => True) (D:=fun _ => True) (R:=fun _ _ => True)
    (P:=fun (acc : Sources × List (Str × ℕ)) _ (t : Named × Option ℕ) =>
      content env t.1.1 ≠ none ∧ Sole acc.1 t.1.1.urnText)
    ?_ ?_ (fun _ _ => trivial) (List.pairwise_of_forall fun _ _ => trivial) trivial
  · intro acc t _ _
    rw [← upsert_managed_row_ok_iff]
    constructor
    · rintro ⟨u,hu⟩
      obtain ⟨r,hr,-⟩ := map_eq_ok.mp hu
      exact ⟨r,hr⟩
    · rintro ⟨r,hr⟩
      exact ⟨_,map_eq_ok.mpr ⟨r,hr,rfl⟩⟩
  · intro acc t u _ _ hu
    obtain ⟨⟨rows,id⟩,hr,rfl⟩ := map_eq_ok.mp hu
    refine ⟨trivial,fun before y _ => and_congr_right fun _ => ?_⟩
    exact (upsert_managed_row_ok hr).sole (upsert_managed_row_ok_iff.mp ⟨_,hr⟩).2

/-- What a pass does to the rows and the ids. -/
structure Mirrored (env : Runtime) (todo : List (Named × Option ℕ))
    (acc acc' : Sources × List (Str × ℕ)) : Prop where
  row : ∀ t ∈ todo, ∃ c row, content env t.1.1 = some c ∧ row ∈ acc'.1.rows ∧
    Written c t.1.1.urnText t.2 row ∧ get? t.1.1.urnText acc'.2 = some row.id ∧
    ∀ r ∈ acc'.1.rows, r.isManaged t.1.1.urnText = true → r = row
  others : ∀ r : IngestionSource, (∀ t ∈ todo, r.isManaged t.1.1.urnText = false) →
    (r ∈ acc'.1.rows ↔ r ∈ acc.1.rows)
  ids : ∀ urn, (∀ t ∈ todo, t.1.1.urnText ≠ urn) → get? urn acc'.2 = get? urn acc.2
  kept : ∀ t ∈ todo, ∀ r ∈ acc.1.rows, r.isManaged t.1.1.urnText = true →
    get? t.1.1.urnText acc'.2 = some r.id

theorem isManaged_ne {urn urn' : Str} {row : IngestionSource} (h : row.isManaged urn = true)
    (hne : urn ≠ urn') : row.isManaged urn' = false := by
  simp [IngestionSource.isManaged,(isManaged_iff.mp h).1,hne]

theorem foldlM_upsertNext {todo : List (Named × Option ℕ)} (hd : Distinct todo)
    {acc acc' : Sources × List (Str × ℕ)}
    (h : todo.foldlM (upsertNext env now) acc = .ok acc') : Mirrored env todo acc acc' := by
  induction todo generalizing acc with
  | nil =>
    cases h
    exact ⟨by simp,fun _ _ => Iff.rfl,fun _ _ => rfl,by simp⟩
  | cons t todo ih =>
    obtain ⟨hne,hd⟩ := List.pairwise_cons.mp hd
    rw [List.foldlM_cons] at h
    obtain ⟨mid,hmid,h⟩ := bind_eq_ok.mp h
    obtain ⟨⟨rows,id⟩,hr,rfl⟩ := map_eq_ok.mp hmid
    have hu := upsert_managed_row_ok hr
    have hm := ih hd h
    have hids := hm.ids t.1.1.urnText (fun u hu' => (hne u hu').symm)
    rw [get?_setItem,if_pos rfl] at hids
    constructor
    case row =>
      intro u hu'
      rcases List.mem_cons.mp hu' with rfl | hu'
      · obtain ⟨c,row,hc,hrow,hw,hid,hsole⟩ := hu.row
        have hother : ∀ r : IngestionSource, r.isManaged u.1.1.urnText = true →
            (r ∈ acc'.1.rows ↔ r ∈ rows.rows) :=
          fun r hr' => hm.others r fun v hv => isManaged_ne hr' (hne v hv)
        refine ⟨c,row,hc,(hother row hw.isManaged).mpr hrow,hw,by rw [hids,hid],?_⟩
        exact fun r hr' hm' => hsole r ((hother r hm').mp hr') hm'
      · exact hm.row u hu'
    case others =>
      intro r hr'
      rw [List.forall_mem_cons] at hr'
      rw [hm.others r hr'.2]
      exact hu.others r hr'.1
    case ids =>
      intro urn hurn
      rw [List.forall_mem_cons] at hurn
      rw [hm.ids urn hurn.2,get?_setItem,if_neg (Ne.symm hurn.1)]
    case kept =>
      intro u hu' r hr' hm'
      rcases List.mem_cons.mp hu' with rfl | hu'
      · rw [hids,hu.kept r hr' hm']
      · have hne' := hne u hu'
        exact hm.kept u hu' r ((hu.others r (isManaged_ne hm' hne'.symm)).mpr hr') hm'

theorem upsertAll_mirrored {todo : List (Named × Option ℕ)} (hd : Distinct todo)
    {ids : List (Str × ℕ)} (h : upsertAll env now todo sources = .ok (sources',ids)) :
    Mirrored env todo (sources,[]) (sources',ids) :=
  foldlM_upsertNext hd h

end Upsert

section Tree

variable (env : Runtime)

/-- The listed URNs are distinct. -/
def DistinctUrns (dh_sources : List ManagedSource) : Prop :=
  ((named dh_sources).map (·.1.urnText)).Nodup

/-- The wrapper names the URN of the listed regular source `p`. -/
def Names (dh_sources : List ManagedSource) (s p : Named) : Prop :=
  p ∈ regulars dh_sources ∧ s.1.pipelineName env = some p.1.urnText

/-- The entries that are to be stored. -/
def ToStore (dh_sources : List ManagedSource) (s : Named) : Prop :=
  s ∈ regulars dh_sources ∨ s ∈ wrappers dh_sources ∧ ∃ p, Names env dh_sources s p

/-- A managed row by what it says, its parent by the URN. -/
structure Entry where
  urn : Option Str
  content : Content
  parent_urn : Option Str

def entry (sources : Sources) (row : IngestionSource) : Entry where
  urn := row.datahub_source_urn
  content := ⟨row.name,row.platform,row.recipe,row.schedule,row.schedule_tier⟩
  parent_urn := row.parent_source_id.bind fun id =>
    (sources.table.get? id).bind (·.datahub_source_urn)

/-- The stored set of managed rows. -/
def entries (sources : Sources) : Set Entry :=
  {e | ∃ row ∈ sources.rows, row.mode = .DATAHUB_MANAGED ∧ entry sources row = e}

/-- The listed regular sources, and the listed wrappers that name one of them. -/
def expected (dh_sources : List ManagedSource) : Set Entry :=
  {e | ∃ s ∈ regulars dh_sources, ∃ c, content env s.1 = some c ∧
    e = ⟨some s.1.urnText,c,none⟩} ∪
  {e | ∃ s ∈ wrappers dh_sources, ∃ p, Names env dh_sources s p ∧ ∃ c,
    content env s.1 = some c ∧ e = ⟨some s.1.urnText,c,some p.1.urnText⟩}

/-- A managed row is regular, or hangs on a stored regular one. -/
def Tree (sources : Sources) : Prop :=
  ∀ row ∈ sources.rows, row.mode = .DATAHUB_MANAGED → row.parent_source_id = none ∨
    ∃ p ∈ sources.rows, row.parent_source_id = some p.id ∧ p.mode = .DATAHUB_MANAGED ∧
      p.parent_source_id = none

/-- Step 1 as it is meant. -/
def MirrorsManaged (now : ℕ) (dh_sources : List ManagedSource) (sources : Sources) : Prop :=
  ∃ sources' counts, sweepSources env now dh_sources sources = (sources',.ok counts) ∧
    Tree sources' ∧ (∀ urn, Sole sources' urn) ∧ entries sources' = expected env dh_sources ∧
    ∀ dh_sources', dh_sources.Perm dh_sources' → ∃ sources'' counts',
      sweepSources env now dh_sources' sources = (sources'',.ok counts') ∧
      entries sources'' = entries sources'

/-- `recipe.source` is a dict, or a value that is false. -/
def Maskable (s : ManagedSource) : Prop :=
  ∀ v, get? sourceKey (s.recipeItems env) = some v → (∃ items, v = .obj items) ∨
    truthy v = false

/-- Every managed row has a URN. -/
def AllNamed (sources : Sources) : Prop :=
  ∀ row ∈ sources.rows, row.mode = .DATAHUB_MANAGED →
    ∃ urn, row.datahub_source_urn = some urn ∧ urn ≠ []

/-- What step 1 needs: names that can be looked up, recipes that can be masked, one managed row
for a URN at most, and a URN on every managed row. -/
structure Orderly (dh_sources : List ManagedSource) (sources : Sources) : Prop where
  hashable : ∀ s ∈ wrappers dh_sources, s.1.isHashable env = true
  maskable : ∀ s, ToStore env dh_sources s → Maskable env s.1
  sole : ∀ s, ToStore env dh_sources s → Sole sources s.1.urnText
  named : AllNamed sources

variable {env} {now : ℕ} {dh_sources : List ManagedSource} {sources sources' : Sources}
  {counts : SourceCounts}

theorem content_ne_none {s : ManagedSource} : content env s ≠ none ↔ Maskable env s := by
  rw [content,Ne,Option.map_eq_none_iff,mask_recipe_secrets,Maskable]
  cases hs : get? sourceKey (s.recipeItems env) with
  | none => simp
  | some v =>
    cases v with
    | obj source =>
      cases hc : get? configKey source with
      | none => simp [hc]
      | some w => cases w <;> simp [hc]
    | _ => simp

theorem DistinctUrns.eq (h : DistinctUrns dh_sources) {s t : Named} (hs : s ∈ named dh_sources)
    (ht : t ∈ named dh_sources) (he : s.1.urnText = t.1.urnText) : s = t :=
  List.inj_on_of_nodup_map h hs ht he

theorem mem_regulars {s : Named} :
    s ∈ regulars dh_sources ↔ s ∈ named dh_sources ∧ s.1.isWrapper = false := by
  simp [regulars]

theorem mem_wrappers {s : Named} :
    s ∈ wrappers dh_sources ↔ s ∈ named dh_sources ∧ s.1.isWrapper = true := by
  simp [wrappers]

theorem mem_named {s : Named} (h : s ∈ named dh_sources) : s.1 ∈ dh_sources := by
  obtain ⟨t,ht,hs⟩ := List.mem_filterMap.mp h
  split at hs
  · cases hs
  · cases hs
    exact ht

theorem ToStore.mem {s : Named} (h : ToStore env dh_sources s) : s ∈ named dh_sources :=
  h.elim (fun h => (mem_regulars.mp h).1) fun h => (mem_wrappers.mp h.1).1

theorem distinct_regulars (h : DistinctUrns dh_sources) :
    Distinct ((regulars dh_sources).map (·,none)) := by
  rw [Distinct,List.pairwise_map]
  exact (List.pairwise_map.mp h).sublist List.filter_sublist

theorem mem_linkedWrappers {ws : List Named} {ids : List (Str × ℕ)} {t : Named × Option ℕ} :
    t ∈ linkedWrappers env ws ids ↔ t.1 ∈ ws ∧
      ∃ urn id, t.1.1.pipelineName env = some urn ∧ get? urn ids = some id ∧ t.2 = some id := by
  rw [linkedWrappers,List.mem_filterMap]
  constructor
  · rintro ⟨s,hs,h⟩
    obtain ⟨id,hid,rfl⟩ := Option.map_eq_some_iff.mp h
    obtain ⟨urn,hurn,hget⟩ := Option.bind_eq_some_iff.mp hid
    exact ⟨hs,urn,id,hurn,hget,rfl⟩
  · rintro ⟨hs,urn,id,hurn,hget,ht⟩
    refine ⟨t.1,hs,?_⟩
    rw [hurn,Option.bind_some,hget,Option.map_some,← ht]

theorem distinct_linkedWrappers (h : DistinctUrns dh_sources) (ids : List (Str × ℕ)) :
    Distinct (linkedWrappers env (wrappers dh_sources) ids) := by
  rw [Distinct,linkedWrappers,List.pairwise_filterMap]
  refine ((List.pairwise_map.mp h).sublist List.filter_sublist).imp ?_
  intro s t hst a ha b hb
  obtain ⟨_,-,rfl⟩ := Option.map_eq_some_iff.mp ha
  obtain ⟨_,-,rfl⟩ := Option.map_eq_some_iff.mp hb
  exact hst

/-- The rows after the two passes. -/
structure Passed (env : Runtime) (dh_sources : List ManagedSource) (sources b : Sources) :
    Prop where
  regular : ∀ s ∈ regulars dh_sources, ∃ c row, content env s.1 = some c ∧ row ∈ b.rows ∧
    Written c s.1.urnText none row
  wrapper : ∀ s ∈ wrappers dh_sources, ∀ p, Names env dh_sources s p → ∃ c row q,
    content env s.1 = some c ∧ row ∈ b.rows ∧ q ∈ b.rows ∧ q.isManaged p.1.urnText = true ∧
      Written c s.1.urnText (some q.id) row
  sole : ∀ s, ToStore env dh_sources s → Sole b s.1.urnText
  others : ∀ r : IngestionSource,
    (∀ s, ToStore env dh_sources s → r.isManaged s.1.urnText = false) →
      (r ∈ b.rows ↔ r ∈ sources.rows)

section Passes

variable {a b : Sources} {ids ids' : List (Str × ℕ)}

theorem passA_ids (hA : Mirrored env ((regulars dh_sources).map (·,none)) (sources,[]) (a,ids))
    {urn : Str} {id : ℕ} : get? urn ids = some id ↔
      ∃ p ∈ regulars dh_sources, p.1.urnText = urn ∧
        ∃ row ∈ a.rows, row.isManaged urn = true ∧ row.id = id := by
  constructor
  · intro h
    by_cases hp : ∃ p ∈ regulars dh_sources, p.1.urnText = urn
    · obtain ⟨p,hp,rfl⟩ := hp
      obtain ⟨c,row,-,hrow,hw,hget,-⟩ := hA.row (p,none) (List.mem_map.mpr ⟨p,hp,rfl⟩)
      exact ⟨p,hp,rfl,row,hrow,hw.isManaged,Option.some.inj (hget.symm.trans h)⟩
    · have hnone := hA.ids urn fun t ht he => by
        obtain ⟨p,hp',rfl⟩ := List.mem_map.mp ht
        exact hp ⟨p,hp',he⟩
      rw [hnone] at h
      cases h
  · rintro ⟨p,hp,rfl,row,hrow,hm,rfl⟩
    obtain ⟨c,row',-,-,-,hget,hsole⟩ := hA.row (p,none) (List.mem_map.mpr ⟨p,hp,rfl⟩)
    rw [hget,hsole row hrow hm]

/-- The wrappers of pass B, with the rows that their parents have. -/
theorem mem_linked (hA : Mirrored env ((regulars dh_sources).map (·,none)) (sources,[]) (a,ids))
    {t : Named × Option ℕ} :
    t ∈ linkedWrappers env (wrappers dh_sources) ids ↔ t.1 ∈ wrappers dh_sources ∧
      ∃ p, Names env dh_sources t.1 p ∧
        ∃ row ∈ a.rows, row.isManaged p.1.urnText = true ∧ t.2 = some row.id := by
  rw [mem_linkedWrappers]
  refine and_congr_right fun _ => ?_
  constructor
  · rintro ⟨urn,id,hurn,hget,ht⟩
    obtain ⟨p,hp,rfl,row,hrow,hm,rfl⟩ := (passA_ids hA).mp hget
    exact ⟨p,⟨hp,hurn⟩,row,hrow,hm,ht⟩
  · rintro ⟨p,⟨hp,hurn⟩,row,hrow,hm,ht⟩
    exact ⟨_,_,hurn,(passA_ids hA).mpr ⟨p,hp,rfl,row,hrow,hm,rfl⟩,ht⟩

theorem exists_linked
    (hA : Mirrored env ((regulars dh_sources).map (·,none)) (sources,[]) (a,ids)) {s p : Named}
    (hs : s ∈ wrappers dh_sources) (hp : Names env dh_sources s p) :
    ∃ row ∈ a.rows, row.isManaged p.1.urnText = true ∧
      (s,some row.id) ∈ linkedWrappers env (wrappers dh_sources) ids := by
  obtain ⟨c,row,-,hrow,hw,-⟩ := hA.row (p,none) (List.mem_map.mpr ⟨p,hp.1,rfl⟩)
  exact ⟨row,hrow,hw.isManaged,(mem_linked hA).mpr ⟨hs,p,hp,row,hrow,hw.isManaged,rfl⟩⟩

/-- A row of a regular source is not one of a wrapper. -/
theorem regular_not_linked (hd : DistinctUrns dh_sources) {p : Named}
    (hp : p ∈ regulars dh_sources) {r : IngestionSource} (hm : r.isManaged p.1.urnText = true) :
    ∀ t ∈ linkedWrappers env (wrappers dh_sources) ids, r.isManaged t.1.1.urnText = false := by
  intro t ht
  refine isManaged_ne hm fun he => ?_
  have hw := mem_wrappers.mp (mem_linkedWrappers.mp ht).1
  have hr := mem_regulars.mp hp
  rw [hd.eq hr.1 hw.1 he,hw.2] at hr
  exact Bool.noConfusion hr.2

theorem passed (hd : DistinctUrns dh_sources)
    (hA : Mirrored env ((regulars dh_sources).map (·,none)) (sources,[]) (a,ids))
    (hB : Mirrored env (linkedWrappers env (wrappers dh_sources) ids) (a,[]) (b,ids')) :
    Passed env dh_sources sources b := by
  have hkeep : ∀ p ∈ regulars dh_sources, ∀ r : IngestionSource,
      r.isManaged p.1.urnText = true → (r ∈ b.rows ↔ r ∈ a.rows) :=
    fun p hp r hm => hB.others r (regular_not_linked hd hp hm)
  constructor
  case regular =>
    intro s hs
    obtain ⟨c,row,hc,hrow,hw,-,-⟩ := hA.row (s,none) (List.mem_map.mpr ⟨s,hs,rfl⟩)
    exact ⟨c,row,hc,(hkeep s hs row hw.isManaged).mpr hrow,hw⟩
  case wrapper =>
    intro s hs p hp
    obtain ⟨q,hq,hm,ht⟩ := exists_linked hA hs hp
    obtain ⟨c,row,hc,hrow,hw,-,-⟩ := hB.row _ ht
    exact ⟨c,row,q,hc,hrow,(hkeep p hp.1 q hm).mpr hq,hm,hw⟩
  case sole =>
    rintro s (hs | ⟨hs,p,hp⟩) r hr r' hr' hm hm'
    · obtain ⟨c,row,-,-,-,-,hsole⟩ := hA.row (s,none) (List.mem_map.mpr ⟨s,hs,rfl⟩)
      rw [hsole r ((hkeep s hs r hm).mp hr) hm,hsole r' ((hkeep s hs r' hm').mp hr') hm']
    · obtain ⟨q,-,-,ht⟩ := exists_linked hA hs hp
      obtain ⟨c,row,-,-,-,-,hsole⟩ := hB.row _ ht
      rw [hsole r hr hm,hsole r' hr' hm']
  case others =>
    intro r hr
    have hb := hB.others r fun t ht => by
      obtain ⟨hw,p,hp,-⟩ := (mem_linked hA).mp ht
      exact hr t.1 (.inr ⟨hw,p,hp⟩)
    refine hb.trans (hA.others r fun t ht => ?_)
    obtain ⟨s,hs,rfl⟩ := List.mem_map.mp ht
    exact hr s (.inl hs)

end Passes

section Removal

variable {b : Sources}

/-- The URNs of the rows that stay. -/
def Seen (env : Runtime) (dh_sources : List ManagedSource) (seen : List Str) : Prop :=
  ∀ urn, urn ∈ seen ↔ ∃ s, ToStore env dh_sources s ∧ s.1.urnText = urn

variable {seen : List Str}

/-- A row of a listed URN is not removed. -/
theorem Seen.kept (hs : Seen env dh_sources seen) {s : Named} (hst : ToStore env dh_sources s)
    {r : IngestionSource} (hm : r.isManaged s.1.urnText = true) : ¬ Stale seen r := by
  rintro ⟨-,urn,hurn,-,hnot⟩
  rw [(isManaged_iff.mp hm).1] at hurn
  cases hurn
  exact hnot ((hs _).mpr ⟨s,hst,rfl⟩)

/-- A row with a URN that is not removed is the row of a listed source. -/
theorem Seen.listed (hs : Seen env dh_sources seen) {r : IngestionSource}
    (hmode : r.mode = .DATAHUB_MANAGED) {urn : Str} (hurn : r.datahub_source_urn = some urn)
    (hne : urn ≠ []) (hr : ¬ Stale seen r) :
    ∃ s, ToStore env dh_sources s ∧ r.isManaged s.1.urnText = true := by
  have hin : urn ∈ seen := by
    by_contra hnot
    exact hr ⟨hmode,urn,hurn,hne,hnot⟩
  obtain ⟨s,hst,rfl⟩ := (hs urn).mp hin
  exact ⟨s,hst,isManaged_iff.mpr ⟨hurn,hmode⟩⟩

/-- The removal takes the rows that hang on a removed one. -/
theorem Passed.stale_closed (hp : Passed env dh_sources sources b)
    (hs : Seen env dh_sources seen) : ∀ row ∈ b.rows, ∀ parent ∈ b.rows,
      row.parent_source_id = some parent.id → Stale seen parent → Stale seen row := by
  intro row hrow parent hparent hlink hstale
  have hne : row.parent_source_id ≠ none := by simp [hlink]
  obtain ⟨hmode,urn,hurn,hnil⟩ := b.linked row hrow hne
  by_contra hkept
  obtain ⟨s,hst,hm⟩ := hs.listed hmode hurn hnil hkept
  rcases hst with hreg | ⟨hwrap,p,hnames⟩
  · obtain ⟨c,row',-,hrow',hw⟩ := hp.regular s hreg
    have he := hp.sole s (.inl hreg) row hrow row' hrow' hm hw.isManaged
    rw [he,hw.parent] at hlink
    cases hlink
  · obtain ⟨c,row',q,-,hrow',hq,hqm,hw⟩ := hp.wrapper s hwrap p hnames
    have he := hp.sole s (.inr ⟨hwrap,p,hnames⟩) row hrow row' hrow' hm hw.isManaged
    rw [he,hw.parent] at hlink
    have hqp := Sources.ext_id hq hparent (Option.some.inj hlink)
    rw [hqp] at hqm
    exact hs.kept (.inl hnames.1) hqm hstale

theorem Passed.mem_removed (hp : Passed env dh_sources sources b)
    (hs : Seen env dh_sources seen) {row : IngestionSource} :
    row ∈ (b.delete fun row => decide (Stale seen row)).rows ↔
      row ∈ b.rows ∧ ¬ Stale seen row :=
  Sources.mem_delete (hp.stale_closed hs)

theorem Passed.allNamed (hp : Passed env dh_sources sources b) (hn : AllNamed sources) :
    AllNamed b := by
  intro row hrow hmode
  by_cases hm : ∃ s, ToStore env dh_sources s ∧ row.isManaged s.1.urnText = true
  · obtain ⟨s,-,hm⟩ := hm
    exact ⟨_,(isManaged_iff.mp hm).1,s.2⟩
  · refine hn row ((hp.others row fun s hs => ?_).mp hrow) hmode
    exact Bool.eq_false_iff.mpr fun h => hm ⟨s,hs,h⟩

/-- What the managed rows are after the removal. -/
theorem Passed.stored (hp : Passed env dh_sources sources b) (hs : Seen env dh_sources seen)
    (hn : AllNamed sources) {row : IngestionSource}
    (hrow : row ∈ (b.delete fun row => decide (Stale seen row)).rows)
    (hmode : row.mode = .DATAHUB_MANAGED) :
    ∃ s, ToStore env dh_sources s ∧ row.isManaged s.1.urnText = true ∧ row ∈ b.rows := by
  obtain ⟨hb,hkept⟩ := (hp.mem_removed hs).mp hrow
  obtain ⟨urn,hurn,hne⟩ := hp.allNamed hn row hb hmode
  obtain ⟨s,hst,hm⟩ := hs.listed hmode hurn hne hkept
  exact ⟨s,hst,hm,hb⟩

theorem Passed.sole_removed (hp : Passed env dh_sources sources b)
    (hs : Seen env dh_sources seen) (hn : AllNamed sources) (urn : Str) :
    Sole (b.delete fun row => decide (Stale seen row)) urn := by
  intro r hr r' hr' hm hm'
  obtain ⟨s,hst,hms,hb⟩ := hp.stored hs hn hr (isManaged_iff.mp hm).2
  have hb' := ((hp.mem_removed hs).mp hr').1
  have he : s.1.urnText = urn := by
    have h := (isManaged_iff.mp hms).1
    rw [(isManaged_iff.mp hm).1] at h
    exact (Option.some.inj h).symm
  exact hp.sole s hst r hb r' hb' (he ▸ hm) (he ▸ hm')

/-- The row that a wrapper hangs on. -/
theorem Passed.parent_regular (hp : Passed env dh_sources sources b) {p : Named}
    (hreg : p ∈ regulars dh_sources) {q : IngestionSource} (hq : q ∈ b.rows)
    (hm : q.isManaged p.1.urnText = true) : q.parent_source_id = none := by
  obtain ⟨c,row,-,hrow,hw⟩ := hp.regular p hreg
  rw [hp.sole p (.inl hreg) q hq row hrow hm hw.isManaged]
  exact hw.parent

theorem Passed.tree (hp : Passed env dh_sources sources b) (hs : Seen env dh_sources seen)
    (hn : AllNamed sources) : Tree (b.delete fun row => decide (Stale seen row)) := by
  intro row hrow hmode
  obtain ⟨s,hst,hm,hb⟩ := hp.stored hs hn hrow hmode
  rcases hst with hreg | ⟨hwrap,p,hnames⟩
  · exact .inl (hp.parent_regular hreg hb hm)
  · obtain ⟨c,row',q,-,hrow',hq,hqm,hw⟩ := hp.wrapper s hwrap p hnames
    have he := hp.sole s (.inr ⟨hwrap,p,hnames⟩) row hb row' hrow' hm hw.isManaged
    refine .inr ⟨q,(hp.mem_removed hs).mpr ⟨hq,hs.kept (.inl hnames.1) hqm⟩,?_,
      (isManaged_iff.mp hqm).2,hp.parent_regular hnames.1 hq hqm⟩
    rw [he,hw.parent]

theorem Written.entry_none {c : Content} {urn : Str} {row : IngestionSource}
    (h : Written c urn none row) : entry sources row = ⟨some urn,c,none⟩ := by
  simp [entry,h.urn,h.name,h.platform,h.recipe,h.schedule,h.schedule_tier,h.parent]

theorem Written.entry_some {c : Content} {urn urn' : Str} {q row : IngestionSource}
    (h : Written c urn (some q.id) row) (hq : q ∈ sources.rows)
    (hm : q.isManaged urn' = true) : entry sources row = ⟨some urn,c,some urn'⟩ := by
  have hget : sources.table.get? q.id = some q := Table.get?_eq_some.mpr ⟨hq,rfl⟩
  simp [entry,h.urn,h.name,h.platform,h.recipe,h.schedule,h.schedule_tier,h.parent,hget,
    (isManaged_iff.mp hm).1]

theorem Passed.entries_removed (hp : Passed env dh_sources sources b)
    (hs : Seen env dh_sources seen) (hn : AllNamed sources) :
    entries (b.delete fun row => decide (Stale seen row)) = expected env dh_sources := by
  ext e
  constructor
  · rintro ⟨row,hrow,hmode,rfl⟩
    obtain ⟨s,hst,hm,hb⟩ := hp.stored hs hn hrow hmode
    rcases hst with hreg | ⟨hwrap,p,hnames⟩
    · obtain ⟨c,row',hc,hrow',hw⟩ := hp.regular s hreg
      rw [hp.sole s (.inl hreg) row hb row' hrow' hm hw.isManaged]
      exact .inl ⟨s,hreg,c,hc,hw.entry_none⟩
    · obtain ⟨c,row',q,hc,hrow',hq,hqm,hw⟩ := hp.wrapper s hwrap p hnames
      rw [hp.sole s (.inr ⟨hwrap,p,hnames⟩) row hb row' hrow' hm hw.isManaged]
      have hq' := (hp.mem_removed hs).mpr ⟨hq,hs.kept (.inl hnames.1) hqm⟩
      exact .inr ⟨s,hwrap,p,hnames,c,hc,hw.entry_some hq' hqm⟩
  · rintro (⟨s,hreg,c,hc,rfl⟩ | ⟨s,hwrap,p,hnames,c,hc,rfl⟩)
    · obtain ⟨c',row,hc',hrow,hw⟩ := hp.regular s hreg
      rw [hc] at hc'
      cases hc'
      have hrow' := (hp.mem_removed hs).mpr ⟨hrow,hs.kept (.inl hreg) hw.isManaged⟩
      exact ⟨row,hrow',hw.mode,hw.entry_none⟩
    · obtain ⟨c',row,q,hc',hrow,hq,hqm,hw⟩ := hp.wrapper s hwrap p hnames
      rw [hc] at hc'
      cases hc'
      have hkept := hs.kept (.inr ⟨hwrap,p,hnames⟩) hw.isManaged
      have hrow' := (hp.mem_removed hs).mpr ⟨hrow,hkept⟩
      have hq' := (hp.mem_removed hs).mpr ⟨hq,hs.kept (.inl hnames.1) hqm⟩
      exact ⟨row,hrow',hw.mode,hw.entry_some hq' hqm⟩

/-- A managed row without a URN stays, and is not one of a listed source. -/
theorem Passed.named_of_entries (hp : Passed env dh_sources sources b)
    (hs : Seen env dh_sources seen)
    (he : entries (b.delete fun row => decide (Stale seen row)) = expected env dh_sources) :
    AllNamed sources := by
  intro row hrow hmode
  by_contra hno
  have hnot : ∀ urn, urn ≠ [] → row.isManaged urn = false := by
    intro urn hne
    refine Bool.eq_false_iff.mpr fun h => hno ⟨urn,(isManaged_iff.mp h).1,hne⟩
  have hb : row ∈ b.rows := (hp.others row fun s _ => hnot _ s.2).mpr hrow
  have hkept : ¬ Stale seen row := by
    rintro ⟨-,urn,hurn,hne,-⟩
    exact hno ⟨urn,hurn,hne⟩
  have hin : entry (b.delete fun row => decide (Stale seen row)) row ∈
      expected env dh_sources := by
    rw [← he]
    exact ⟨row,(hp.mem_removed hs).mpr ⟨hb,hkept⟩,hmode,rfl⟩
  rcases hin with ⟨s,-,c,-,hentry⟩ | ⟨s,-,p,-,c,-,hentry⟩
  · exact hno ⟨_,congrArg Entry.urn hentry,s.2⟩
  · exact hno ⟨_,congrArg Entry.urn hentry,s.2⟩

end Removal

section Step

variable {a : Sources} {ids : List (Str × ℕ)}

theorem passA_ok_iff :
    (∃ r, passA env now (regulars dh_sources) sources = .ok r) ↔
      ∀ s ∈ regulars dh_sources, Maskable env s.1 ∧ Sole sources s.1.urnText := by
  rw [passA,upsertAll_ok_iff,List.forall_mem_map]
  simp only [content_ne_none]

/-- Pass A leaves the rows of the wrappers alone. -/
theorem sole_passA (hd : DistinctUrns dh_sources)
    (hA : Mirrored env ((regulars dh_sources).map (·,none)) (sources,[]) (a,ids)) {s : Named}
    (hs : s ∈ wrappers dh_sources) : Sole a s.1.urnText ↔ Sole sources s.1.urnText := by
  have hother : ∀ r : IngestionSource, r.isManaged s.1.urnText = true →
      (r ∈ a.rows ↔ r ∈ sources.rows) := by
    intro r hm
    refine hA.others r fun t ht => ?_
    obtain ⟨p,hp,rfl⟩ := List.mem_map.mp ht
    refine isManaged_ne hm fun he => ?_
    have hw := mem_wrappers.mp hs
    have hr := mem_regulars.mp hp
    rw [← hd.eq hw.1 hr.1 he,hw.2] at hr
    exact Bool.noConfusion hr.2
  exact sole_congr hother

theorem passB_ok_iff (hd : DistinctUrns dh_sources)
    (hA : Mirrored env ((regulars dh_sources).map (·,none)) (sources,[]) (a,ids)) :
    (∃ r, upsertAll env now (linkedWrappers env (wrappers dh_sources) ids) a = .ok r) ↔
      ∀ s ∈ wrappers dh_sources, (∃ p, Names env dh_sources s p) →
        Maskable env s.1 ∧ Sole sources s.1.urnText := by
  rw [upsertAll_ok_iff]
  constructor
  · rintro h s hs ⟨p,hp⟩
    obtain ⟨q,-,-,ht⟩ := exists_linked hA hs hp
    have hst := h _ ht
    exact ⟨content_ne_none.mp hst.1,(sole_passA hd hA hs).mp hst.2⟩
  · intro h t ht
    obtain ⟨hs,p,hp,-⟩ := (mem_linked hA).mp ht
    have hst := h t.1 hs ⟨p,hp⟩
    exact ⟨content_ne_none.mpr hst.1,(sole_passA hd hA hs).mpr hst.2⟩

theorem seen_linked
    (hA : Mirrored env ((regulars dh_sources).map (·,none)) (sources,[]) (a,ids)) :
    Seen env dh_sources ((regulars dh_sources).map (·.1.urnText) ++
      (linkedWrappers env (wrappers dh_sources) ids).map (·.1.1.urnText)) := by
  intro urn
  rw [List.mem_append,List.mem_map,List.mem_map]
  constructor
  · rintro (⟨s,hs,rfl⟩ | ⟨t,ht,rfl⟩)
    · exact ⟨s,.inl hs,rfl⟩
    · obtain ⟨hs,p,hp,-⟩ := (mem_linked hA).mp ht
      exact ⟨t.1,.inr ⟨hs,p,hp⟩,rfl⟩
  · rintro ⟨s,hs | ⟨hs,p,hp⟩,rfl⟩
    · exact .inl ⟨s,hs,rfl⟩
    · obtain ⟨q,-,-,ht⟩ := exists_linked hA hs hp
      exact .inr ⟨_,ht,rfl⟩

theorem sweepSources_ok (hd : DistinctUrns dh_sources)
    (h : sweepSources env now dh_sources sources = (sources',.ok counts)) :
    (∀ s ∈ wrappers dh_sources, s.1.isHashable env = true) ∧
      (∀ s, ToStore env dh_sources s → Maskable env s.1 ∧ Sole sources s.1.urnText) ∧
      ∃ b seen, Passed env dh_sources sources b ∧ Seen env dh_sources seen ∧
        sources' = b.delete fun row => decide (Stale seen row) := by
  rw [sweepSources] at h
  split at h
  · cases h
  · rename_i a ids hA
    have hmA := upsertAll_mirrored (distinct_regulars hd) hA
    dsimp only at h
    split at h
    · cases h
    · rename_i b hB
      split at h
      case isFalse => cases h
      rename_i hall
      have hhash := List.all_eq_true.mp hall
      rw [List.takeWhile_eq_self_iff.mpr hhash] at hB h
      obtain ⟨⟨b',ids'⟩,hB',rfl⟩ := map_eq_ok.mp hB
      have hmB := upsertAll_mirrored (distinct_linkedWrappers hd ids) hB'
      cases h
      refine ⟨hhash,?_,b',_,passed hd hmA hmB,seen_linked hmA,rfl⟩
      rintro s (hs | ⟨hs,hp⟩)
      · exact passA_ok_iff.mp ⟨_,hA⟩ s hs
      · exact (passB_ok_iff hd hmA).mp ⟨_,hB'⟩ s hs hp

theorem exists_sweepSources (hd : DistinctUrns dh_sources)
    (hhash : ∀ s ∈ wrappers dh_sources, s.1.isHashable env = true)
    (h : ∀ s, ToStore env dh_sources s → Maskable env s.1 ∧ Sole sources s.1.urnText) :
    ∃ sources' counts, sweepSources env now dh_sources sources = (sources',.ok counts) := by
  obtain ⟨⟨a,ids⟩,hA⟩ := (passA_ok_iff).mpr fun s hs => h s (.inl hs)
  have hmA := upsertAll_mirrored (distinct_regulars hd) hA
  obtain ⟨⟨b,ids'⟩,hB⟩ := (passB_ok_iff hd hmA).mpr fun s hs hp => h s (.inr ⟨hs,hp⟩)
  rw [sweepSources,hA]
  dsimp only
  rw [List.takeWhile_eq_self_iff.mpr hhash,passB,hB]
  dsimp only [Except.map]
  rw [if_pos (List.all_eq_true.mpr hhash)]
  exact ⟨_,_,rfl⟩

/-- Step 1 on an orderly store. -/
theorem Orderly.mirrors (ho : Orderly env dh_sources sources) (hd : DistinctUrns dh_sources) :
    ∃ sources' counts, sweepSources env now dh_sources sources = (sources',.ok counts) ∧
      Tree sources' ∧ (∀ urn, Sole sources' urn) ∧
      entries sources' = expected env dh_sources := by
  obtain ⟨sources',counts,h⟩ := exists_sweepSources hd ho.hashable
    fun s hs => ⟨ho.maskable s hs,ho.sole s hs⟩
  obtain ⟨-,-,b,seen,hp,hs,rfl⟩ := sweepSources_ok hd h
  exact ⟨_,counts,h,hp.tree hs ho.named,hp.sole_removed hs ho.named,
    hp.entries_removed hs ho.named⟩

end Step

section Order

variable {dh_sources' : List ManagedSource}

theorem named_perm (h : dh_sources.Perm dh_sources') : (named dh_sources).Perm (named dh_sources') :=
  h.filterMap _

theorem mem_regulars_perm (h : dh_sources.Perm dh_sources') {s : Named} :
    s ∈ regulars dh_sources' ↔ s ∈ regulars dh_sources :=
  ((named_perm h).filter _).symm.mem_iff

theorem mem_wrappers_perm (h : dh_sources.Perm dh_sources') {s : Named} :
    s ∈ wrappers dh_sources' ↔ s ∈ wrappers dh_sources :=
  ((named_perm h).filter _).symm.mem_iff

theorem names_perm (h : dh_sources.Perm dh_sources') {s p : Named} :
    Names env dh_sources' s p ↔ Names env dh_sources s p :=
  and_congr_left fun _ => mem_regulars_perm h

theorem toStore_perm (h : dh_sources.Perm dh_sources') {s : Named} :
    ToStore env dh_sources' s ↔ ToStore env dh_sources s :=
  or_congr (mem_regulars_perm h)
    (and_congr (mem_wrappers_perm h) (exists_congr fun _ => names_perm h))

theorem DistinctUrns.perm (hd : DistinctUrns dh_sources) (h : dh_sources.Perm dh_sources') :
    DistinctUrns dh_sources' :=
  ((named_perm h).map _).nodup_iff.mp hd

theorem expected_perm (h : dh_sources.Perm dh_sources') :
    expected env dh_sources' = expected env dh_sources := by
  ext e
  simp only [expected,Set.mem_union,Set.mem_ofPred_eq,mem_regulars_perm h,mem_wrappers_perm h,
    names_perm h]

theorem Orderly.perm (ho : Orderly env dh_sources sources) (h : dh_sources.Perm dh_sources') :
    Orderly env dh_sources' sources where
  hashable := fun s hs => ho.hashable s ((mem_wrappers_perm h).mp hs)
  maskable := fun s hs => ho.maskable s ((toStore_perm h).mp hs)
  sole := fun s hs => ho.sole s ((toStore_perm h).mp hs)
  named := ho.named

end Order

/-- Step 1 does what it is meant to do on just the orderly stores. -/
theorem managed_tree {dh_sources : List ManagedSource} (hd : DistinctUrns dh_sources)
    (env : Runtime) (now : ℕ) (sources : Sources) :
    MirrorsManaged env now dh_sources sources ↔ Orderly env dh_sources sources := by
  constructor
  · rintro ⟨sources',counts,h,-,-,he,-⟩
    obtain ⟨hhash,hall,b,seen,hp,hs,rfl⟩ := sweepSources_ok hd h
    exact ⟨hhash,fun s hst => (hall s hst).1,fun s hst => (hall s hst).2,hp.named_of_entries hs he⟩
  · intro ho
    obtain ⟨sources',counts,h,htree,hsole,he⟩ := ho.mirrors hd
    refine ⟨sources',counts,h,htree,hsole,he,fun dh_sources' hperm => ?_⟩
    obtain ⟨sources'',counts',h',-,-,he'⟩ := (ho.perm hperm).mirrors (hd.perm hperm)
    refine ⟨sources'',counts',h',?_⟩
    rw [he',expected_perm hperm,he]

def noSources : Sources := ⟨.empty _,0,nofun,nofun⟩

def regularSource : ManagedSource where
  urn := some "urn:li:dataHubIngestionSource:pg".toList
  name := some "pg".toList
  recipe := none
  interval := none
  executor_id := some "default".toList

/-- `{"pipeline_name": "urn:li:dataHubIngestionSource:pg"}`. -/
def wrapperRecipe : Str :=
  ['\x7b'] ++ "\"pipeline_name\": \"urn:li:dataHubIngestionSource:pg\"".toList ++ ['\x7d']

def wrapperSource : ManagedSource where
  urn := some "urn:li:dataHubIngestionSource:cli-pg".toList
  name := some "[CLI] postgres".toList
  recipe := some wrapperRecipe
  interval := none
  executor_id := some "__datahub_cli_".toList

/-- `{"source": "postgres"}`. -/
def textRecipe : Str := ['\x7b'] ++ "\"source\": \"postgres\"".toList ++ ['\x7d']

def textSource : ManagedSource := { regularSource with recipe := some textRecipe }

def recipeRuntime : Runtime where
  lower := lower
  json_loads := fun s =>
    if s = wrapperRecipe then
      some (.obj [("pipeline_name".toList,.str "urn:li:dataHubIngestionSource:pg".toList)])
    else if s = textRecipe then some (.obj [(sourceKey,.str "postgres".toList)])
    else none
  re_compile := fun _ => false
  allowDenyPattern := none
  verify_secret_refs := fun _ => none
  str_uuid := fun n => (toString n).toList

theorem managed_tree_sample : ∃ sources' counts,
    sweepSources recipeRuntime 0 [wrapperSource,regularSource] noSources =
      (sources',.ok counts) ∧ Tree sources' ∧
    entries sources' = expected recipeRuntime [wrapperSource,regularSource] := by
  have hd : DistinctUrns [wrapperSource,regularSource] := by
    show List.Nodup [wrapperSource.urnText,regularSource.urnText]
    decide
  have ho : Orderly recipeRuntime [wrapperSource,regularSource] noSources := by
    constructor
    case hashable =>
      exact List.all_eq_true.mp rfl
    case maskable =>
      intro s hs v hv
      have hnone : ∀ t ∈ [wrapperSource,regularSource],
          get? sourceKey (t.recipeItems recipeRuntime) = none := by
        intro t ht
        rw [List.mem_pair] at ht
        rcases ht with rfl | rfl <;> rfl
      rw [hnone s.1 (mem_named hs.mem)] at hv
      cases hv
    case sole => exact fun _ _ _ hr => nomatch hr
    case named => exact fun _ hr => nomatch hr
  obtain ⟨sources',counts,h,htree,-,he,-⟩ := (managed_tree hd recipeRuntime 0 noSources).mpr ho
  exact ⟨sources',counts,h,htree,he⟩

/-- A listed source whose `source` is a text ends the sweep. -/
theorem text_source_raises : ¬ ∀ env now dh_sources sources, DistinctUrns dh_sources →
    MirrorsManaged env now dh_sources sources := by
  intro h
  have hd : DistinctUrns [textSource] := List.nodup_singleton _
  obtain ⟨sources',counts,hok,-⟩ := h recipeRuntime 0 [textSource] noSources hd
  have hraise : (sweepSources recipeRuntime 0 [textSource] noSources).2 =
      .error .attributeError := rfl
  rw [hok] at hraise
  cases hraise

end Tree

end Ingestion
end Dataspoke
