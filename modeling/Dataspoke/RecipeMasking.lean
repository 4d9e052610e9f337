import Dataspoke.SweepSources

/-!
# Foreign recipes in step 1 of the sweep

Which texts of a recipe `_mask_recipe_secrets` leaves readable, and which recipes step 1 gets
through.
-/

namespace Dataspoke
namespace Ingestion

open Python

section Masking

variable (env : Runtime)

/-- A reference or the mask. -/
def Safe (s : Str) : Prop := isSecretRef s = true ∨ s = maskedValue

mutual

/-- `w` is `v` with safe texts for those whose nearest key is a secret one; `key` is the nearest
key of `v` itself. -/
def Protects (key : Str) : Json → Json → Prop
  | .str s, w => if env.lower key ∈ secretKeys then ∃ t, w = .str t ∧ Safe t else w = .str s
  | .arr xs, w => ∃ ys, w = .arr ys ∧ ProtectsList key xs ys
  | .obj items, w => ∃ items', w = .obj items' ∧ ProtectsItems items items'
  | v, w => w = v

def ProtectsList (key : Str) : List Json → List Json → Prop
  | [], ys => ys = []
  | x::xs, ys => ∃ y ys', ys = y::ys' ∧ Protects key x y ∧ ProtectsList key xs ys'

def ProtectsItems : Items → Items → Prop
  | [], items' => items' = []
  | (k,v)::items, items' =>
    ∃ v' rest, items' = (k,v')::rest ∧ Protects k v v' ∧ ProtectsItems items rest

end

mutual

/-- The texts whose nearest key is a secret one are safe, in a list always, as the value of a
key only if `direct`. -/
def Clear (direct : Bool) (key : Str) : Json → Prop
  | .str s => env.lower key ∈ secretKeys → Safe s
  | .arr xs => ClearList direct key xs
  | .obj items => ClearItems direct items
  | _ => True

def ClearList (direct : Bool) (key : Str) : List Json → Prop
  | [] => True
  | x::xs => Clear direct key x ∧ ClearList direct key xs

def ClearItems (direct : Bool) : Items → Prop
  | [] => True
  | (k,.str s)::items =>
    (direct = true → env.lower k ∈ secretKeys → Safe s) ∧ ClearItems direct items
  | (k,v)::items => Clear direct k v ∧ ClearItems direct items

end

def isObject : Json → Bool
  | .obj _ => true
  | _ => false

/-- The masked recipe has a protected value for `config` and is else as it was; to mask it
again changes nothing. -/
structure Masks (recipe source masked : Items) : Prop where
  ran : mask_recipe_secrets env recipe = some masked
  absent : get? configKey source = none → masked = recipe
  config : ∀ config, get? configKey source = some config → ∃ config',
    masked = setItem sourceKey (.obj (setItem configKey config' source)) recipe ∧
      Protects env configKey config config'
  again : mask_recipe_secrets env masked = some masked

variable {env}

theorem isSecretRef_masked : isSecretRef maskedValue = false := by decide

theorem maskEntry_idem (k : Str) (v nested nested' : Json)
    (h : (∀ s, v ≠ .str s) → maskEntry env k nested nested' = nested) :
    maskEntry env k (maskEntry env k v nested) nested' = maskEntry env k v nested := by
  cases v with
  | str s =>
    by_cases hs : env.lower k ∈ secretKeys
    · cases hr : isSecretRef s with
      | true => simp [maskEntry,hs,hr]
      | false => simp [maskEntry,hs,hr,isSecretRef_masked]
    · simp [maskEntry,hs]
  | _ => exact h nofun

theorem maskEntry_of_ne {k : Str} {v nested : Json} (h : ∀ s, v ≠ .str s) :
    maskEntry env k v nested = nested := by
  cases v with
  | str s => exact absurd rfl (h s)
  | _ => rfl

theorem mask_ne_str {v : Json} (h : ∀ s, v ≠ .str s) (s : Str) : mask env v ≠ .str s := by
  cases v with
  | str s => exact absurd rfl (h s)
  | _ => exact nofun

mutual

theorem mask_idem (v : Json) : mask env (mask env v) = mask env v := by
  cases v with
  | arr xs => exact congrArg Json.arr (maskList_idem xs)
  | obj items => exact congrArg Json.obj (maskItems_idem items)
  | _ => rfl

theorem maskList_idem (xs : List Json) : maskList env (maskList env xs) = maskList env xs := by
  cases xs with
  | nil => rfl
  | cons x xs =>
    simp only [maskList]
    rw [mask_idem x,maskList_idem xs]

theorem maskItems_idem (items : Items) :
    maskItems env (maskItems env items) = maskItems env items := by
  cases items with
  | nil => rfl
  | cons item items =>
    obtain ⟨k,v⟩ := item
    have hv := mask_idem v
    simp only [maskItems]
    rw [maskItems_idem items]
    refine congrArg (fun w => (k,w)::maskItems env items) ?_
    by_cases hs : ∃ s, v = .str s
    · obtain ⟨s,rfl⟩ := hs
      exact maskEntry_idem k _ _ _ fun h => absurd rfl (h s)
    · have hne : ∀ s, v ≠ .str s := fun s h => hs ⟨s,h⟩
      rw [maskEntry_of_ne hne,hv]
      exact maskEntry_of_ne (mask_ne_str hne)

end

theorem protects_str {key s : Str} :
    Protects env key (.str s) (.str s) ↔ (env.lower key ∈ secretKeys → Safe s) := by
  by_cases hk : env.lower key ∈ secretKeys
  · simp [Protects,hk]
  · simp [Protects,hk]

/-- The value of a key is protected by its mask. -/
theorem protects_maskEntry (key s : Str) :
    Protects env key (.str s) (maskEntry env key (.str s) (.str s)) := by
  by_cases hk : env.lower key ∈ secretKeys
  · cases hr : isSecretRef s with
    | true => simp [maskEntry,Protects,Safe,hk,hr]
    | false => simp [maskEntry,Protects,Safe,hk,hr]
  · simp [maskEntry,Protects,hk]

mutual

/-- What `mask` protects. -/
theorem protects_mask (key : Str) (v : Json) :
    Protects env key v (mask env v) ↔ Clear env false key v := by
  cases v with
  | str s => exact protects_str
  | arr xs =>
    rw [Clear,← protectsList_mask key xs]
    simp [Protects,mask]
  | obj items =>
    rw [Clear,← protectsItems_mask items]
    simp [Protects,mask]
  | _ => simp [Protects,mask,Clear]

theorem protectsList_mask (key : Str) (xs : List Json) :
    ProtectsList env key xs (maskList env xs) ↔ ClearList env false key xs := by
  cases xs with
  | nil => simp [ProtectsList,maskList,ClearList]
  | cons x xs =>
    rw [ClearList,← protects_mask key x,← protectsList_mask key xs]
    simp [ProtectsList,maskList]

theorem protectsItems_mask (items : Items) :
    ProtectsItems env items (maskItems env items) ↔ ClearItems env false items := by
  cases items with
  | nil => simp [ProtectsItems,maskItems,ClearItems]
  | cons item items =>
    obtain ⟨k,v⟩ := item
    have hcons : ProtectsItems env ((k,v)::items) (maskItems env ((k,v)::items)) ↔
        Protects env k v (maskEntry env k v (mask env v)) ∧ ClearItems env false items := by
      rw [← protectsItems_mask items]
      simp [ProtectsItems,maskItems]
    have hv := protects_mask k v
    rw [hcons]
    cases v with
    | str s =>
      have hs := @protects_maskEntry env k s
      simp only [ClearItems,mask]
      simp [hs]
    | _ =>
      rw [ClearItems]
      · exact and_congr_left fun _ => hv
      · exact nofun

end

mutual

/-- What is protected as it stands. -/
theorem protects_self (key : Str) (v : Json) :
    Protects env key v v ↔ Clear env true key v := by
  cases v with
  | str s => exact protects_str
  | arr xs =>
    rw [Clear,← protectsList_self key xs]
    simp [Protects]
  | obj items =>
    rw [Clear,← protectsItems_self items]
    simp [Protects]
  | _ => simp [Protects,Clear]

theorem protectsList_self (key : Str) (xs : List Json) :
    ProtectsList env key xs xs ↔ ClearList env true key xs := by
  cases xs with
  | nil => simp [ProtectsList,ClearList]
  | cons x xs =>
    rw [ClearList,← protects_self key x,← protectsList_self key xs]
    simp [ProtectsList]

theorem protectsItems_self (items : Items) :
    ProtectsItems env items items ↔ ClearItems env true items := by
  cases items with
  | nil => simp [ProtectsItems,ClearItems]
  | cons item items =>
    obtain ⟨k,v⟩ := item
    have hcons : ProtectsItems env ((k,v)::items) ((k,v)::items) ↔
        Protects env k v v ∧ ClearItems env true items := by
      rw [← protectsItems_self items]
      simp [ProtectsItems]
    have hv := protects_self k v
    rw [hcons,hv]
    cases v with
    | str s => simp [ClearItems,Clear]
    | _ =>
      rw [ClearItems]
      exact nofun

end

theorem get?_masked {recipe source masked : Items} {config' : Json}
    (hm : masked = setItem sourceKey (.obj (setItem configKey config' source)) recipe) :
    get? sourceKey masked = some (.obj (setItem configKey config' source)) ∧
      get? configKey (setItem configKey config' source) = some config' := by
  rw [hm,get?_setItem,get?_setItem,if_pos rfl,if_pos rfl]
  exact ⟨rfl,rfl⟩

theorem setItem_setItem (key : Str) (v w : Json) (items : Items) :
    setItem key w (setItem key v items) = setItem key w items := by
  induction items with
  | nil => simp [setItem]
  | cons item items ih =>
    obtain ⟨k,u⟩ := item
    by_cases hk : k = key
    · simp [setItem,hk]
    · simp [setItem,hk,ih]

variable (env) in
/-- An object under `config` is masked, any other value is stored as it is. -/
theorem mask_recipe_secrets_config {recipe source : Items} {config : Json}
    (hs : get? sourceKey recipe = some (.obj source))
    (hc : get? configKey source = some config) :
    mask_recipe_secrets env recipe = some (setItem sourceKey (.obj (setItem configKey
      (if isObject config then mask env config else config) source)) recipe) := by
  rw [mask_recipe_secrets,hs]
  dsimp only
  rw [hc]
  cases config with
  | obj items => rfl
  | _ => simp [isObject,setItem_eq_self hc,setItem_eq_self hs]

variable (env) in
theorem mask_again {recipe source : Items} {config : Json}
    (hs : get? sourceKey recipe = some (.obj source))
    (hc : get? configKey source = some config) :
    (mask_recipe_secrets env recipe).bind (mask_recipe_secrets env) =
      mask_recipe_secrets env recipe := by
  have hmask := mask_recipe_secrets_config env hs hc
  obtain ⟨hs',hc'⟩ := get?_masked rfl
  rw [hmask,Option.bind_some,mask_recipe_secrets_config env hs' hc',setItem_setItem,setItem_setItem]
  cases config with
  | obj items =>
    have hidem := @maskItems_idem env items
    simp only [isObject,mask,if_true,hidem]
  | _ => rfl

theorem protects_masked {config : Json} : Protects env configKey config
    (if isObject config then mask env config else config) ↔
      Clear env (!isObject config) configKey config := by
  cases config with
  | obj items => exact protects_mask _ _
  | _ => exact protects_self _ _

theorem Masks.clear {recipe source masked : Items} {config : Json}
    (h : Masks env recipe source masked) (hs : get? sourceKey recipe = some (.obj source))
    (hc : get? configKey source = some config) :
    Clear env (!isObject config) configKey config := by
  have hrun := mask_recipe_secrets_config env hs hc
  have hmasked := Option.some.inj (hrun.symm.trans h.ran)
  obtain ⟨w,hw,hp⟩ := h.config config hc
  obtain ⟨hs₁,hc₁⟩ := get?_masked hw
  obtain ⟨hs₂,hc₂⟩ := get?_masked hmasked.symm
  have hobj := Json.obj.inj (Option.some.inj (hs₁.symm.trans hs₂))
  rw [hobj,hc₂] at hc₁
  rw [← Option.some.inj hc₁] at hp
  exact protects_masked.mp hp

variable (env) in
/-- The masking of a recipe leaves no secret text readable exactly if the texts under a secret
key are safe wherever they stand in a list or in a `config` that is no object. -/
theorem recipe_masks_iff (recipe source : Items)
    (hs : get? sourceKey recipe = some (.obj source)) :
    (∃ masked, Masks env recipe source masked) ↔
      ∀ config, get? configKey source = some config →
        Clear env (!isObject config) configKey config := by
  constructor
  · rintro ⟨masked,h⟩ config hc
    exact h.clear hs hc
  intro h
  cases hc : get? configKey source with
  | none =>
    have hrun : mask_recipe_secrets env recipe = some recipe := by
      rw [mask_recipe_secrets,hs]
      dsimp only
      rw [hc]
    exact ⟨recipe,hrun,fun _ => rfl,fun _ h => (by cases hc.symm.trans h),hrun⟩
  | some config =>
    have hrun := mask_recipe_secrets_config env hs hc
    have hagain := mask_again env hs hc
    rw [hrun] at hagain
    refine ⟨_,hrun,fun hn => (by cases hn.symm.trans hc),fun config' hc' => ?_,hagain⟩
    obtain rfl := Option.some.inj (hc.symm.trans hc')
    exact ⟨_,rfl,protects_masked.mpr (h _ hc)⟩

def sourceWith (key : String) (v : Json) : Items :=
  [(typeKey,.str "mysql".toList),(configKey,.obj [(key.toList,v)])]

def recipeWith (key : String) (v : Json) : Items := [(sourceKey,.obj (sourceWith key v))]

theorem recipe_masks_password : ∃ masked,
    Masks recipeRuntime (recipeWith "password" (.str "hunter2".toList))
      (sourceWith "password" (.str "hunter2".toList)) masked := by
  refine (recipe_masks_iff recipeRuntime _ _ rfl).mpr fun config hc => ?_
  obtain rfl := Option.some.inj hc
  exact ⟨nofun,trivial⟩

/-- A text in a list under a secret key stays. -/
theorem listed_secret_readable :
    mask_recipe_secrets recipeRuntime (recipeWith "credentials" (.arr [.str "hunter2".toList])) =
        some (recipeWith "credentials" (.arr [.str "hunter2".toList])) ∧
      ¬ ∃ masked, Masks recipeRuntime (recipeWith "credentials" (.arr [.str "hunter2".toList]))
        (sourceWith "credentials" (.arr [.str "hunter2".toList])) masked := by
  refine ⟨rfl,fun ⟨masked,h⟩ => ?_⟩
  have hclear := h.clear rfl rfl
  obtain ⟨⟨hsafe,-⟩,-⟩ := hclear
  exact absurd (hsafe (by decide)) (by rw [Safe]; decide)

end Masking

section Totality

variable (env : Runtime)

/-- What a row is to hold of the source, where its recipe can be masked. -/
def contentOrRaise (s : ManagedSource) : Except SweepError (Option Content) :=
  match content env s with
  | some c => .ok (some c)
  | none => .error .attributeError

/-- What step 1 computes from one source, without a content for an orphan. -/
def process_source (parent_by_urn : List (Str × ℕ)) (s : ManagedSource) :
    Except SweepError (Option Content) :=
  if s.isWrapper then
    if s.isHashable env then
      match (s.pipelineName env).bind (get? · parent_by_urn) with
      | some _ => contentOrRaise env s
      | none => .ok none
    else .error .typeError
  else contentOrRaise env s

/-- A `source` that is true is an object, unless the source is a wrapper that names no parent;
the `pipeline_name` of a wrapper is no list or object with anything in it. -/
structure Processable (urns : List Str) (s : ManagedSource) : Prop where
  source : (s.isWrapper = true → ∃ urn ∈ urns, s.pipelineName env = some urn) →
    ∀ v, get? sourceKey (s.recipeItems env) = some v → truthy v = true → ∃ items, v = .obj items
  pipeline : s.isWrapper = true → ∀ v, get? "pipeline_name".toList (s.recipeItems env) = some v →
    (∀ xs, v = .arr xs → xs = []) ∧ ∀ items, v = .obj items → items = []

variable {env}

theorem maskable_iff {s : ManagedSource} : Maskable env s ↔
    ∀ v, get? sourceKey (s.recipeItems env) = some v → truthy v = true → ∃ items, v = .obj items := by
  refine forall₂_congr fun v _ => ?_
  cases truthy v with
  | true => simp
  | false => simp

theorem isHashable_iff {s : ManagedSource} : s.isHashable env = true ↔
    ∀ v, get? "pipeline_name".toList (s.recipeItems env) = some v →
      (∀ xs, v = .arr xs → xs = []) ∧ ∀ items, v = .obj items → items = [] := by
  rw [ManagedSource.isHashable]
  cases get? "pipeline_name".toList (s.recipeItems env) with
  | none => simp
  | some v => cases v <;> simp

theorem contentOrRaise_ok {s : ManagedSource} :
    (∃ r, contentOrRaise env s = .ok r) ↔ Maskable env s := by
  rw [← content_ne_none,contentOrRaise]
  cases content env s with
  | none => simp
  | some c => simp

theorem get?_ne_none {V : Type*} {key : Str} {items : List (Str × V)} :
    get? key items ≠ none ↔ key ∈ items.map Prod.fst := by
  induction items with
  | nil => simp [get?]
  | cons item items ih =>
    obtain ⟨k,v⟩ := item
    rw [get?,List.map_cons,List.mem_cons,← ih]
    by_cases hk : k = key
    · simp [hk]
    · simp [hk,Ne.symm hk]

theorem process_source_ok {parent_by_urn : List (Str × ℕ)} {s : ManagedSource} :
    (∃ r, process_source env parent_by_urn s = .ok r) ↔
      Processable env (parent_by_urn.map Prod.fst) s := by
  have hproc : Processable env (parent_by_urn.map Prod.fst) s ↔
      ((s.isWrapper = true → ∃ urn ∈ parent_by_urn.map Prod.fst, s.pipelineName env = some urn) →
        Maskable env s) ∧ (s.isWrapper = true → s.isHashable env = true) := by
    rw [maskable_iff,isHashable_iff]
    exact ⟨fun h => ⟨h.source,h.pipeline⟩,fun h => ⟨h.1,h.2⟩⟩
  have hlinked : (∃ urn ∈ parent_by_urn.map Prod.fst, s.pipelineName env = some urn) ↔
      (s.pipelineName env).bind (get? · parent_by_urn) ≠ none := by
    cases s.pipelineName env with
    | none => simp
    | some urn =>
      rw [Option.bind_some,get?_ne_none]
      simp
  rw [hproc,hlinked,process_source]
  by_cases hw : s.isWrapper = true
  · by_cases hh : s.isHashable env = true
    · rw [if_pos hw,if_pos hh]
      cases (s.pipelineName env).bind (get? · parent_by_urn) with
      | none => simp [hw,hh]
      | some id => simpa [hw,hh] using contentOrRaise_ok
    · rw [if_pos hw,if_neg hh]
      simp [hw,hh]
  · rw [if_neg hw,contentOrRaise_ok]
    simp [hw]

variable {now : ℕ} {sources sources' : Sources}

theorem upsertNext_error {acc : Sources × List (Str × ℕ)} {t : Named × Option ℕ} {e : SweepError}
    (h : upsertNext env now acc t = .error e) :
    e = .multipleResultsFound ∨ e = .attributeError ∧ content env t.1.1 = none := by
  rw [upsertNext] at h
  cases hu : upsert_managed_row env now t.1 t.2 acc.1 with
  | ok r =>
    rw [hu] at h
    cases h
  | error e' =>
    rw [hu] at h
    cases h
    rw [upsert_managed_row] at hu
    cases hc : content env t.1.1 with
    | none =>
      rw [hc] at hu
      cases hu
      exact .inr ⟨rfl,rfl⟩
    | some c =>
      rw [hc] at hu
      dsimp only at hu
      split at hu
      · cases hu
      · cases hu
      · cases hu
        exact .inl rfl

/-- Only a recipe that cannot be masked ends a pass with an `AttributeError`. -/
theorem upsertAll_error {todo : List (Named × Option ℕ)} {e : SweepError}
    (h : upsertAll env now todo sources = .error e) :
    e = .multipleResultsFound ∨ e = .attributeError ∧ ∃ t ∈ todo, content env t.1.1 = none := by
  rw [upsertAll] at h
  generalize (sources,([] : List (Str × ℕ))) = acc at h
  induction todo generalizing acc with
  | nil => cases h
  | cons t todo ih =>
    rw [List.foldlM_cons] at h
    cases hn : upsertNext env now acc t with
    | error e' =>
      rw [hn] at h
      cases h
      exact (upsertNext_error hn).imp_right fun hc => ⟨hc.1,t,List.mem_cons_self,hc.2⟩
    | ok acc' =>
      rw [hn] at h
      rcases ih acc' h with hmany | ⟨he,u,hu,hc⟩
      · exact .inl hmany
      · exact .inr ⟨he,u,List.mem_cons_of_mem _ hu,hc⟩

/-- The keys of `parent_by_urn`. -/
theorem keys_upsertAll {todo : List (Named × Option ℕ)} {ids : List (Str × ℕ)}
    (h : upsertAll env now todo sources = .ok (sources',ids)) (urn : Str) :
    urn ∈ ids.map Prod.fst ↔ urn ∈ todo.map (·.1.1.urnText) := by
  have hfold : ∀ acc acc' : Sources × List (Str × ℕ),
      todo.foldlM (upsertNext env now) acc = .ok acc' →
        (urn ∈ acc'.2.map Prod.fst ↔
          urn ∈ acc.2.map Prod.fst ∨ urn ∈ todo.map (·.1.1.urnText)) := by
    clear h
    induction todo with
    | nil =>
      intro acc acc' h
      cases h
      simp
    | cons t todo ih =>
      intro acc acc' h
      rw [List.foldlM_cons] at h
      obtain ⟨mid,hmid,h⟩ := bind_eq_ok.mp h
      obtain ⟨r,-,rfl⟩ := map_eq_ok.mp hmid
      rw [ih _ _ h,List.map_cons,List.mem_cons,keys_setItem]
      split
      next hmem =>
        constructor
        · exact Or.imp_right .inr
        · rintro (h | rfl | h)
          · exact .inl h
          · exact .inl hmem
          · exact .inr h
      next =>
        rw [List.mem_append,List.mem_singleton]
        exact or_assoc
  have := hfold _ _ h
  simpa using this

theorem multipleResultsFound_ne : (.error .multipleResultsFound : Except SweepError SourceCounts) ≠
    .error .attributeError ∧ (.error .multipleResultsFound : Except SweepError SourceCounts) ≠
      .error .typeError := by
  constructor <;>
  · intro h
    cases h

/-- Step 1 stumbles over the recipe of a listed source exactly if that source, taken by itself,
cannot be processed. -/
theorem step1_total (env : Runtime) (now : ℕ) (dh_sources : List ManagedSource)
    (sources : Sources) :
    (∀ parent_by_urn s, (∃ r, process_source env parent_by_urn s = .ok r) ↔
      Processable env (parent_by_urn.map Prod.fst) s) ∧
    ((∀ s ∈ named dh_sources,
        Processable env ((regulars dh_sources).map (·.1.urnText)) s.1) →
      (sweepSources env now dh_sources sources).2 ≠ .error .attributeError ∧
        (sweepSources env now dh_sources sources).2 ≠ .error .typeError) ∧
    ∀ counts, (sweepSources env now dh_sources sources).2 = .ok counts →
      ∀ s ∈ named dh_sources,
        Processable env ((regulars dh_sources).map (·.1.urnText)) s.1 := by
  refine ⟨fun _ _ => process_source_ok,?_⟩
  rw [sweepSources,passA]
  have hkeys : ∀ a ids, upsertAll env now ((regulars dh_sources).map (·,none)) sources =
      .ok (a,ids) → ∀ urn, urn ∈ ids.map Prod.fst ↔
        urn ∈ (regulars dh_sources).map (·.1.urnText) := by
    intro a ids h urn
    rw [keys_upsertAll h,List.map_map]
    rfl
  cases hA : upsertAll env now ((regulars dh_sources).map (·,none)) sources with
  | error e =>
    refine ⟨fun hall => ?_,fun _ h => by cases h⟩
    rcases upsertAll_error hA with rfl | ⟨rfl,t,ht,hc⟩
    · exact multipleResultsFound_ne
    · obtain ⟨s,hs,rfl⟩ := List.mem_map.mp ht
      obtain ⟨hnamed,hreg⟩ := mem_regulars.mp hs
      have hm := maskable_iff.mpr ((hall s hnamed).source fun hw => by simp [hreg] at hw)
      exact absurd hc (content_ne_none.mpr hm)
  | ok r =>
    obtain ⟨a,ids⟩ := r
    have hids := hkeys a ids hA
    dsimp only
    constructor
    · intro hall
      have hhash : (wrappers dh_sources).all (·.1.isHashable env) = true :=
        List.all_eq_true.mpr fun s hs => isHashable_iff.mpr
          ((hall s (mem_wrappers.mp hs).1).pipeline (mem_wrappers.mp hs).2)
      cases hB : passB env now (linkedWrappers env
          ((wrappers dh_sources).takeWhile (·.1.isHashable env)) ids) a with
      | error e =>
        have hup := map_eq_error.mp hB
        rcases upsertAll_error hup with rfl | ⟨rfl,t,ht,hc⟩
        · exact multipleResultsFound_ne
        · obtain ⟨hmem,urn,id,hname,hget,-⟩ := mem_linkedWrappers.mp ht
          have hnamed := (mem_wrappers.mp (List.takeWhile_subset _ hmem)).1
          have hurn := (hids urn).mp (get?_ne_none.mp (by rw [hget]; exact Option.some_ne_none id))
          have hm := maskable_iff.mpr ((hall t.1 hnamed).source fun _ => ⟨urn,hurn,hname⟩)
          exact absurd hc (content_ne_none.mpr hm)
      | ok b =>
        dsimp only
        rw [if_pos hhash]
        exact ⟨fun h => (by cases h),fun h => by cases h⟩
    · intro counts hok s hs
      cases hB : passB env now (linkedWrappers env
          ((wrappers dh_sources).takeWhile (·.1.isHashable env)) ids) a with
      | error e =>
        rw [hB] at hok
        cases hok
      | ok b =>
        rw [hB] at hok
        dsimp only at hok
        split at hok
        · rename_i hhash
          have hall := List.all_eq_true.mp hhash
          rw [List.takeWhile_eq_self_iff.mpr hall] at hB
          obtain ⟨r,hup,-⟩ := map_eq_ok.mp hB
          have hA' := upsertAll_ok_iff.mp ⟨_,hA⟩
          have hB' := upsertAll_ok_iff.mp ⟨r,hup⟩
          constructor
          case source =>
            intro hlink
            refine maskable_iff.mp (content_ne_none.mp ?_)
            by_cases hw : s.1.isWrapper = true
            · obtain ⟨urn,hurn,hname⟩ := hlink hw
              obtain ⟨id,hget⟩ :=
                Option.ne_none_iff_exists'.mp (get?_ne_none.mpr ((hids urn).mpr hurn))
              exact (hB' (s,some id) (mem_linkedWrappers.mpr
                ⟨mem_wrappers.mpr ⟨hs,hw⟩,urn,id,hname,hget,rfl⟩)).1
            · have hreg := mem_regulars.mpr ⟨hs,by simpa using hw⟩
              exact (hA' (s,none) (List.mem_map.mpr ⟨s,hreg,rfl⟩)).1
          case pipeline =>
            intro hw
            exact isHashable_iff.mp (hall s (mem_wrappers.mpr ⟨hs,hw⟩))
        · cases hok

/-- A source with the recipe of `textSource` under a URN of its own. -/
def malformedSource : ManagedSource :=
  { textSource with urn := some "urn:li:dataHubIngestionSource:my".toList }

/-- One malformed recipe keeps the well formed source beside it from being stored. -/
theorem text_source_aborts_sweep :
    process_source recipeRuntime [] malformedSource = .error .attributeError ∧
      (∃ c, process_source recipeRuntime [] regularSource = .ok (some c)) ∧
      sweepSources recipeRuntime 0 [regularSource,malformedSource] noSources =
        (noSources,.error .attributeError) ∧
      ¬ ∀ env parent_by_urn s, ∃ r, process_source env parent_by_urn s = .ok r := by
  have hraise : process_source recipeRuntime [] malformedSource = .error .attributeError := rfl
  refine ⟨hraise,⟨_,rfl⟩,rfl,fun h => ?_⟩
  obtain ⟨r,hr⟩ := h recipeRuntime [] malformedSource
  rw [hraise] at hr
  cases hr

end Totality

end Ingestion
end Dataspoke
