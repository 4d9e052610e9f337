import Mathlib.Data.List.Dedup
import Dataspoke.IngestionStore

/-!
# Step 2 of the sweep: the matched mappings

Every source evaluates its recipe on the datasets of its platform. What matches is upserted,
and the matched rows that no longer do are removed, unless the patterns could not be evaluated.
-/

namespace Dataspoke
namespace Ingestion

open Python

section Step

variable (env : Runtime)

/-- `_safe_parse_recipe(recipe)[0].lower()`. -/
def expected_platform (recipe : Items) : Str := env.lower (safe_parse_recipe recipe).1

/-- The datasets of a platform with their names, where both can be parsed. -/
def candidates (urns : List Str) (platform : Str) : List (Str × Str) :=
  urns.dedup.filterMap fun urn =>
    if platform_from_dataset_urn urn = some platform then
      (name_from_dataset_urn urn).map (urn,·)
    else none

/-- The set comprehension over the candidates; `none` where the matcher raises. -/
def matchedUrns (matcher : Matcher) : List (Str × Str) → Option (List Str)
  | [] => some []
  | (urn,name)::rest => (matcher name).bind fun accepted =>
    (matchedUrns matcher rest).map fun urns => if accepted then urn::urns else urns

/-- `matched_urns` and `patterns_degraded`. -/
def evaluate (urns : List Str) (recipe : Items) : List Str × Bool :=
  let (matcher,degraded_reason) := build_matcher_checked env recipe
  let matched_urns := matchedUrns matcher (candidates urns (expected_platform env recipe))
  (matched_urns.getD [],matched_urns.isNone || degraded_reason.isSome)

variable (now : ℕ)

def newMapping (derivation : Derivation) (k : ℕ × Str) : IngestionSourceDataset :=
  ⟨k.1,k.2,derivation,now,now⟩

/-- The conflict clause of the matched upsert. -/
def bumpMatched (row : IngestionSourceDataset) : Option IngestionSourceDataset :=
  if row.derivation = .matched then some { row with last_seen_at := now } else none

structure MappingCounts where
  datasets_mapped : ℕ
  sources_zero_coverage : ℕ
  sources_pattern_degraded : ℕ

def existingMatched (mappings : Mappings) (source_id : ℕ) : List Str :=
  (mappings.rows.filter fun row => row.source_id = source_id && row.derivation = .matched).map
    (·.dataset_urn)

def zeroCoverage (urns : List Str) (src : SweepSource) (e : List Str × Bool) : Bool :=
  e.1.isEmpty && !e.2 && src.parent_source_id.isNone && has_selection_patterns src.recipe &&
    !(candidates urns (expected_platform env src.recipe)).isEmpty

def mapSource (urns : List Str) (acc : Mappings × MappingCounts) (src : SweepSource) :
    Mappings × MappingCounts :=
  let e := evaluate env urns src.recipe
  let existing := existingMatched acc.1 src.id
  let r := Table.upserts (newMapping now .matched) (bumpMatched now) (fun k => k.2 ∉ existing)
    (e.1.map (src.id,·)) (acc.1,acc.2.datasets_mapped)
  let counts : MappingCounts := {
    datasets_mapped := r.2
    sources_zero_coverage :=
      acc.2.sources_zero_coverage + if zeroCoverage env urns src e then 1 else 0
    sources_pattern_degraded := acc.2.sources_pattern_degraded + if e.2 then 1 else 0 }
  if e.2 then (r.1,counts)
  else (r.1.remove fun row =>
    row.source_id = src.id && row.dataset_urn ∈ existing && row.dataset_urn ∉ e.1,counts)

def sweepMappings (urns : List Str) (sources : List SweepSource) (mappings : Mappings) :
    Mappings × MappingCounts :=
  sources.foldl (mapSource env now urns) (mappings,⟨0,0,0⟩)

end Step

section Evaluate

variable {env : Runtime} {urns : List Str} {recipe : Items}

theorem mem_candidates {platform urn name : Str} : (urn,name) ∈ candidates urns platform ↔
    urn ∈ urns ∧ platform_from_dataset_urn urn = some platform ∧
      name_from_dataset_urn urn = some name := by
  rw [candidates,List.mem_filterMap]
  constructor
  · rintro ⟨u,hu,h⟩
    split at h
    · rename_i hp
      obtain ⟨n,hn,he⟩ := Option.map_eq_some_iff.mp h
      cases he
      exact ⟨List.mem_dedup.mp hu,hp,hn⟩
    · cases h
  · rintro ⟨hu,hp,hn⟩
    exact ⟨urn,List.mem_dedup.mpr hu,by rw [if_pos hp,hn]; rfl⟩

theorem candidates_nodup (urns : List Str) (platform : Str) :
    ((candidates urns platform).map Prod.fst).Nodup := by
  rw [candidates,List.map_filterMap]
  refine (List.nodup_dedup urns).filterMap fun u u' b h h' => ?_
  have hfst : ∀ {u}, b ∈ Option.map Prod.fst
      (if platform_from_dataset_urn u = some platform then
        (name_from_dataset_urn u).map (u,·) else none) → b = u := by
    intro u h
    obtain ⟨x,hx,rfl⟩ := Option.map_eq_some_iff.mp h
    split at hx
    · obtain ⟨n,-,rfl⟩ := Option.map_eq_some_iff.mp hx
      rfl
    · cases hx
  exact (hfst h).symm.trans (hfst h')

theorem matchedUrns_eq_none {matcher : Matcher} {xs : List (Str × Str)} :
    matchedUrns matcher xs = none ↔ ∃ x ∈ xs, matcher x.2 = none := by
  induction xs with
  | nil => simp [matchedUrns]
  | cons x xs ih =>
    rw [matchedUrns]
    cases hx : matcher x.2 with
    | none => simp [hx]
    | some accepted => simp [hx,ih]

theorem mem_matchedUrns {matcher : Matcher} {xs : List (Str × Str)} {matched : List Str}
    (h : matchedUrns matcher xs = some matched) {urn : Str} :
    urn ∈ matched ↔ ∃ name, (urn,name) ∈ xs ∧ matcher name = some true := by
  induction xs generalizing matched with
  | nil =>
    cases h
    simp
  | cons x xs ih =>
    obtain ⟨u,n⟩ := x
    obtain ⟨accepted,ha,h⟩ := Option.bind_eq_some_iff.mp h
    obtain ⟨rest,hrest,rfl⟩ := Option.map_eq_some_iff.mp h
    cases accepted with
    | true =>
      rw [if_pos rfl,List.mem_cons,ih hrest]
      constructor
      · rintro (rfl | ⟨name,hmem,hname⟩)
        · exact ⟨n,List.mem_cons_self,ha⟩
        · exact ⟨name,List.mem_cons_of_mem _ hmem,hname⟩
      · rintro ⟨name,hmem,hname⟩
        rcases List.mem_cons.mp hmem with he | hmem
        · cases he
          exact .inl rfl
        · exact .inr ⟨name,hmem,hname⟩
    | false =>
      rw [if_neg Bool.false_ne_true,ih hrest]
      constructor
      · rintro ⟨name,hmem,hname⟩
        exact ⟨name,List.mem_cons_of_mem _ hmem,hname⟩
      · rintro ⟨name,hmem,hname⟩
        rcases List.mem_cons.mp hmem with he | hmem
        · cases he
          rw [ha] at hname
          cases hname
        · exact ⟨name,hmem,hname⟩

theorem matchedUrns_sublist {matcher : Matcher} {xs : List (Str × Str)} {matched : List Str}
    (h : matchedUrns matcher xs = some matched) : matched.Sublist (xs.map Prod.fst) := by
  induction xs generalizing matched with
  | nil =>
    cases h
    exact .slnil
  | cons x xs ih =>
    obtain ⟨accepted,-,h⟩ := Option.bind_eq_some_iff.mp h
    obtain ⟨rest,hrest,rfl⟩ := Option.map_eq_some_iff.mp h
    cases accepted with
    | true => exact (ih hrest).cons_cons _
    | false => exact (ih hrest).cons _

/-- The matcher of a pattern set that cannot be evaluated matches nothing. -/
theorem build_matcher_checked_degraded (h : (build_matcher_checked env recipe).2 ≠ none) :
    (build_matcher_checked env recipe).1 = matchNothing := by
  revert h
  rw [build_matcher_checked]
  split
  · exact fun _ => rfl
  · split
    · split
      · exact fun _ => rfl
      · exact fun _ => rfl
    · split
      · exact fun _ => rfl
      · exact fun _ => rfl
      · exact fun h => absurd rfl h

/-- The pattern set was not built, or its matcher raises on a dataset. -/
def PatternsDegraded (env : Runtime) (urns : List Str) (recipe : Items) : Prop :=
  (build_matcher_checked env recipe).2 ≠ none ∨ ∃ urn name,
    (urn,name) ∈ candidates urns (expected_platform env recipe) ∧
      (build_matcher_checked env recipe).1 name = none

theorem evaluate_degraded :
    (evaluate env urns recipe).2 = true ↔ PatternsDegraded env urns recipe := by
  rw [evaluate,PatternsDegraded,or_comm]
  simp only [Bool.or_eq_true,Option.isNone_iff_eq_none,matchedUrns_eq_none,Prod.exists,
    Option.isSome_iff_ne_none]

theorem matchedUrns_matchNothing (xs : List (Str × Str)) :
    matchedUrns matchNothing xs = some [] := by
  induction xs with
  | nil => rfl
  | cons x xs ih => simp [matchedUrns,matchNothing,ih]

/-- A degraded pattern set matches nothing. -/
theorem evaluate_fst_of_degraded (h : (evaluate env urns recipe).2 = true) :
    (evaluate env urns recipe).1 = [] := by
  rcases evaluate_degraded.mp h with hr | hraise
  · rw [evaluate]
    dsimp only
    rw [build_matcher_checked_degraded hr,matchedUrns_matchNothing]
    rfl
  · rw [evaluate]
    dsimp only
    rw [matchedUrns_eq_none.mpr (by simpa using hraise)]
    rfl

theorem mem_evaluate (h : (evaluate env urns recipe).2 = false) {urn : Str} :
    urn ∈ (evaluate env urns recipe).1 ↔ ∃ name,
      (urn,name) ∈ candidates urns (expected_platform env recipe) ∧
        (build_matcher_checked env recipe).1 name = some true := by
  rw [evaluate] at h ⊢
  rw [Bool.or_eq_false_iff,Option.isNone_eq_false_iff,Option.isSome_iff_exists] at h
  obtain ⟨⟨matched,hm⟩,-⟩ := h
  dsimp only
  rw [hm,Option.getD_some,mem_matchedUrns hm]

theorem evaluate_nodup (env : Runtime) (urns : List Str) (recipe : Items) :
    (evaluate env urns recipe).1.Nodup := by
  rw [evaluate]
  dsimp only
  cases hm : matchedUrns (build_matcher_checked env recipe).1
      (candidates urns (expected_platform env recipe)) with
  | none => exact List.nodup_nil
  | some matched => exact (candidates_nodup _ _).sublist (matchedUrns_sublist hm)

end Evaluate

section Reconcile

variable {env : Runtime} {now : ℕ} {urns : List Str}

/-- What the round of its source makes of the row of a dataset. -/
def reconciled (now : ℕ) (k : ℕ × Str) (e : List Str × Bool) :
    Option IngestionSourceDataset → Option IngestionSourceDataset
  | none => if k.2 ∈ e.1 then some (newMapping now .matched k) else none
  | some row =>
    if row.derivation ≠ .matched then some row
    else if k.2 ∈ e.1 then some { row with last_seen_at := now }
    else if e.2 then some row else none

theorem mem_existingMatched {mappings : Mappings} {id : ℕ} {urn : Str} :
    urn ∈ existingMatched mappings id ↔
      ∃ row, mappings.get? (id,urn) = some row ∧ row.derivation = .matched := by
  rw [existingMatched,List.mem_map]
  constructor
  · rintro ⟨row,hrow,rfl⟩
    simp only [List.mem_filter,Bool.and_eq_true,decide_eq_true_iff] at hrow
    exact ⟨row,Table.get?_eq_some.mpr ⟨hrow.1,by rw [IngestionSourceDataset.key,hrow.2.1]⟩,hrow.2.2⟩
  · rintro ⟨row,hrow,hm⟩
    obtain ⟨hmem,hk⟩ := Table.get?_eq_some.mp hrow
    obtain ⟨hid,hurn⟩ := Prod.mk.inj hk
    exact ⟨row,List.mem_filter.mpr ⟨hmem,by simp [hid,hm]⟩,hurn⟩

theorem bumpMatched_key (r r' : IngestionSourceDataset) (h : bumpMatched now r = some r') :
    r'.key = r.key := by
  rw [bumpMatched] at h
  split at h
  · cases h
    rfl
  · cases h

theorem bumpMatched_idem (k : ℕ × Str) (o : Option IngestionSourceDataset) :
    Table.merged (newMapping now .matched k) (bumpMatched now)
      (some (Table.merged (newMapping now .matched k) (bumpMatched now) o)) =
    Table.merged (newMapping now .matched k) (bumpMatched now) o := by
  cases o with
  | none => simp [Table.merged,bumpMatched,newMapping]
  | some r => by_cases hm : r.derivation = .matched <;> simp [Table.merged,bumpMatched,hm]

theorem mem_map_pair {id : ℕ} {us : List Str} {k : ℕ × Str} :
    k ∈ us.map (id,·) ↔ k.1 = id ∧ k.2 ∈ us := by
  rw [List.mem_map]
  constructor
  · rintro ⟨u,hu,rfl⟩
    exact ⟨rfl,hu⟩
  · rintro ⟨rfl,hu⟩
    exact ⟨k.2,hu,rfl⟩

theorem mapSource_upserts (e : List Str × Bool) (counted : ℕ × Str → Bool) (id : ℕ)
    (acc : Mappings × ℕ) (k : ℕ × Str) :
    (Table.upserts (newMapping now .matched) (bumpMatched now) counted (e.1.map (id,·)) acc).1.get? k =
      if k.1 = id ∧ k.2 ∈ e.1 then
        some (Table.merged (newMapping now .matched k) (bumpMatched now) (acc.1.get? k))
      else acc.1.get? k := by
  rw [Table.get?_upserts (fun _ => rfl) bumpMatched_key bumpMatched_idem]
  simp only [mem_map_pair]

/-- A round writes the rows of its source alone. -/
theorem mapSource_get? (acc : Mappings × MappingCounts) (src : SweepSource) (k : ℕ × Str) :
    (mapSource env now urns acc src).1.get? k =
      if k.1 = src.id then reconciled now k (evaluate env urns src.recipe) (acc.1.get? k)
      else acc.1.get? k := by
  have hdeg := @evaluate_fst_of_degraded env urns src.recipe
  rw [mapSource]
  generalize evaluate env urns src.recipe = e at hdeg ⊢
  cases hd : e.2 with
  | true =>
    rw [if_pos rfl]
    dsimp only
    rw [mapSource_upserts,hdeg hd]
    cases hold : acc.1.get? k <;> simp [reconciled,hd,hdeg hd]
  | false =>
    rw [if_neg Bool.false_ne_true]
    dsimp only
    rw [Table.get?_remove,mapSource_upserts]
    by_cases hk : k.1 = src.id
    · obtain ⟨id,urn⟩ := k
      obtain rfl : id = src.id := hk
      have hex := @mem_existingMatched acc.1 src.id urn
      cases hold : acc.1.get? (src.id,urn) with
      | none =>
        by_cases hu : urn ∈ e.1 <;> simp [reconciled,Table.merged,newMapping,hu]
      | some row =>
        obtain ⟨-,hrow⟩ := Table.get?_eq_some.mp hold
        obtain ⟨hid,hurn⟩ := Prod.mk.inj hrow
        simp only [hold,Option.some.injEq,exists_eq_left'] at hex
        by_cases hu : urn ∈ e.1 <;> by_cases hm : row.derivation = .matched <;>
          simp [reconciled,Table.merged,bumpMatched,hu,hm,hd,hid,hurn,hex]
    · rw [if_neg hk,if_neg (fun h => hk h.1)]
      cases hold : acc.1.get? k with
      | none => rfl
      | some row =>
        have hid : row.source_id = k.1 :=
          congrArg Prod.fst (Table.get?_eq_some.mp hold).2
        rw [Option.filter_some,hid]
        simp [hk]

/-- The pairs that the sources match. -/
def matchedKeys (env : Runtime) (urns : List Str) (sources : List SweepSource) :
    List (ℕ × Str) :=
  sources.flatMap fun src => (evaluate env urns src.recipe).1.map (src.id,·)

theorem mem_matchedKeys {sources : List SweepSource} {k : ℕ × Str} :
    k ∈ matchedKeys env urns sources ↔
      ∃ src ∈ sources, k.1 = src.id ∧ k.2 ∈ (evaluate env urns src.recipe).1 := by
  simp only [matchedKeys,List.mem_flatMap,mem_map_pair]

theorem matchedKeys_nodup {sources : List SweepSource}
    (hn : (sources.map SweepSource.id).Nodup) : (matchedKeys env urns sources).Nodup := by
  rw [matchedKeys,List.nodup_flatMap]
  constructor
  · intro src _
    exact (evaluate_nodup env urns src.recipe).map fun _ _ h => (Prod.mk.inj h).2
  · refine (List.pairwise_map.mp hn).imp fun hne k hk hk' => hne ?_
    exact (mem_map_pair.mp hk).1.symm.trans (mem_map_pair.mp hk').1

theorem mapSource_datasets_mapped (acc : Mappings × MappingCounts) (src : SweepSource) :
    (mapSource env now urns acc src).2.datasets_mapped = acc.2.datasets_mapped +
      ((evaluate env urns src.recipe).1.map (src.id,·)).countP fun k =>
        (acc.1.get? k).isNone := by
  have hnodup : ((evaluate env urns src.recipe).1.map (src.id,·)).Nodup :=
    (evaluate_nodup env urns src.recipe).map fun _ _ h => (Prod.mk.inj h).2
  have hcount : (mapSource env now urns acc src).2.datasets_mapped =
      (Table.upserts (newMapping now .matched) (bumpMatched now)
        (fun k => k.2 ∉ existingMatched acc.1 src.id)
        ((evaluate env urns src.recipe).1.map (src.id,·)) (acc.1,acc.2.datasets_mapped)).2 := by
    rw [mapSource]
    split <;> rfl
  rw [hcount,Table.upserts_snd (fun _ => rfl) bumpMatched_key hnodup]
  refine congrArg _ (List.countP_congr fun k hk => ?_)
  have hex := @mem_existingMatched acc.1 src.id k.2
  have hk' : (src.id,k.2) = k := Prod.ext (mem_map_pair.mp hk).1.symm rfl
  rw [hk'] at hex
  cases hold : acc.1.get? k with
  | none => simp [Table.writes,hex,hold]
  | some row =>
    by_cases hm : row.derivation = .matched <;> simp [Table.writes,bumpMatched,hex,hold,hm]

variable {sources : List SweepSource}

theorem foldl_mapSource_of_not_mem {k : ℕ × Str} (hk : k.1 ∉ sources.map SweepSource.id)
    (acc : Mappings × MappingCounts) :
    (sources.foldl (mapSource env now urns) acc).1.get? k = acc.1.get? k := by
  induction sources generalizing acc with
  | nil => rfl
  | cons src sources ih =>
    rw [List.map_cons,List.mem_cons,not_or] at hk
    rw [List.foldl_cons,ih hk.2,mapSource_get?,if_neg hk.1]

theorem foldl_mapSource_of_mem (hn : (sources.map SweepSource.id).Nodup)
    {src : SweepSource} (hsrc : src ∈ sources) {k : ℕ × Str} (hk : k.1 = src.id)
    (acc : Mappings × MappingCounts) :
    (sources.foldl (mapSource env now urns) acc).1.get? k =
      reconciled now k (evaluate env urns src.recipe) (acc.1.get? k) := by
  induction sources generalizing acc with
  | nil => cases hsrc
  | cons head sources ih =>
    rw [List.map_cons,List.nodup_cons] at hn
    rw [List.foldl_cons]
    rcases List.mem_cons.mp hsrc with rfl | hsrc
    · rw [foldl_mapSource_of_not_mem (hk ▸ hn.1),mapSource_get?,if_pos hk]
    · have hne : k.1 ≠ head.id := fun he =>
        hn.1 (List.mem_map.mpr ⟨src,hsrc,hk.symm.trans he⟩)
      rw [ih hn.2 hsrc,mapSource_get?,if_neg hne]

theorem foldl_mapSource_datasets_mapped (hn : (sources.map SweepSource.id).Nodup)
    (acc : Mappings × MappingCounts) :
    (sources.foldl (mapSource env now urns) acc).2.datasets_mapped = acc.2.datasets_mapped +
      (matchedKeys env urns sources).countP fun k => (acc.1.get? k).isNone := by
  induction sources generalizing acc with
  | nil => simp [matchedKeys]
  | cons src sources ih =>
    rw [List.map_cons,List.nodup_cons] at hn
    have hrest : ((matchedKeys env urns sources).countP fun k =>
        ((mapSource env now urns acc src).1.get? k).isNone) =
        (matchedKeys env urns sources).countP fun k => (acc.1.get? k).isNone := by
      refine List.countP_congr fun k hk => ?_
      obtain ⟨src',hsrc',hid,-⟩ := mem_matchedKeys.mp hk
      have hne : k.1 ≠ src.id := fun he =>
        hn.1 (List.mem_map.mpr ⟨src',hsrc',hid.symm.trans he⟩)
      rw [mapSource_get?,if_neg hne]
    have hcons : matchedKeys env urns (src::sources) =
        (evaluate env urns src.recipe).1.map (src.id,·) ++ matchedKeys env urns sources := rfl
    rw [List.foldl_cons,ih hn.2,hrest,mapSource_datasets_mapped,hcons,List.countP_append,
      Nat.add_assoc]

end Reconcile

section Law

variable {env : Runtime} {now : ℕ} {urns : List Str} {sources : Sources} {mappings : Mappings}

/-- What step 2 is to do to the mappings. -/
structure MappingLaw (env : Runtime) (urns : List Str) (sources : Sources) (before : Mappings)
    (after : Mappings × MappingCounts) : Prop where
  others : ∀ row : IngestionSourceDataset, row.derivation ≠ .matched →
    (row ∈ after.1.rows ↔ row ∈ before.rows)
  degraded : ∀ src ∈ sources.rows, PatternsDegraded env urns src.recipe → ∀ row ∈ before.rows,
    row.source_id = src.id → row ∈ after.1.rows
  exact : ∀ src ∈ sources.rows, ¬ PatternsDegraded env urns src.recipe →
    ∃ source_type config, parse_recipe src.recipe = .ok (source_type,config) ∧ ∀ urn,
      (∃ row ∈ after.1.rows, row.key = (src.id,urn) ∧ row.derivation = .matched) ↔
        urn ∈ urns ∧ platform_from_dataset_urn urn = some (env.lower source_type) ∧
        (∃ name, name_from_dataset_urn urn = some name ∧
          (build_matcher_checked env src.recipe).1 name = some true) ∧
        ∀ row ∈ before.rows, row.key = (src.id,urn) → row.derivation = .matched
  first_seen : ∀ row ∈ before.rows, ∀ row' ∈ after.1.rows, row'.key = row.key →
    row'.first_seen_at = row.first_seen_at
  inserted : after.2.datasets_mapped =
    after.1.rows.countP fun row => (before.get? row.key).isNone

theorem sweepMappings_of_mem {src : IngestionSource} (hsrc : src ∈ sources.rows) {k : ℕ × Str}
    (hk : k.1 = src.id) : (sweepMappings env now urns sources.snapshot mappings).1.get? k =
      reconciled now k (evaluate env urns src.recipe) (mappings.get? k) :=
  foldl_mapSource_of_mem sources.snapshot_nodup (List.mem_map.mpr ⟨src,hsrc,rfl⟩) hk _

theorem sweepMappings_of_not_mem {k : ℕ × Str}
    (hk : k.1 ∉ sources.rows.map IngestionSource.id) :
    (sweepMappings env now urns sources.snapshot mappings).1.get? k = mappings.get? k :=
  foldl_mapSource_of_not_mem (sources.snapshot_ids ▸ hk) _

/-- The row of a pair after step 2, by whether its source is stored. -/
theorem sweepMappings_get? (k : ℕ × Str) :
    (∃ src ∈ sources.rows, k.1 = src.id ∧
      (sweepMappings env now urns sources.snapshot mappings).1.get? k =
        reconciled now k (evaluate env urns src.recipe) (mappings.get? k)) ∨
    (∀ src ∈ sources.rows, k.1 ≠ src.id) ∧
      (sweepMappings env now urns sources.snapshot mappings).1.get? k = mappings.get? k := by
  by_cases hk : k.1 ∈ sources.rows.map IngestionSource.id
  · obtain ⟨src,hsrc,hid⟩ := List.mem_map.mp hk
    exact .inl ⟨src,hsrc,hid.symm,sweepMappings_of_mem hsrc hid.symm⟩
  · refine .inr ⟨fun src hsrc he => hk ?_,sweepMappings_of_not_mem hk⟩
    exact List.mem_map.mpr ⟨src,hsrc,he.symm⟩

theorem reconciled_other {k : ℕ × Str} {e : List Str × Bool}
    {old : Option IngestionSourceDataset} {row : IngestionSourceDataset}
    (hm : row.derivation ≠ .matched) : reconciled now k e old = some row ↔ old = some row := by
  cases old with
  | none =>
    rw [reconciled]
    split
    · refine iff_of_false (fun h => hm ?_) nofun
      rw [← Option.some.inj h]
      rfl
    · exact iff_of_false nofun nofun
  | some r =>
    rw [reconciled]
    by_cases hr : r.derivation = .matched
    · have hne : some r ≠ some row := fun h => hm (Option.some.inj h ▸ hr)
      refine iff_of_false (fun h => hm ?_) hne
      rw [if_neg (by simp [hr])] at h
      split at h
      · rw [← Option.some.inj h]
        exact hr
      · split at h
        · exact absurd h hne
        · cases h
    · rw [if_pos hr]

theorem reconciled_matched {k : ℕ × Str} {e : List Str × Bool}
    {old : Option IngestionSourceDataset} (he : e.2 = false) :
    (∃ row, reconciled now k e old = some row ∧ row.derivation = .matched) ↔
      k.2 ∈ e.1 ∧ ∀ row, old = some row → row.derivation = .matched := by
  cases old with
  | none =>
    by_cases hu : k.2 ∈ e.1
    · simp [reconciled,hu,newMapping]
    · simp [reconciled,hu]
  | some r =>
    by_cases hm : r.derivation = .matched
    · by_cases hu : k.2 ∈ e.1 <;> simp [reconciled,hu,hm,he]
    · simp [reconciled,hm]

theorem reconciled_first_seen {k : ℕ × Str} {e : List Str × Bool}
    {row row' : IngestionSourceDataset} (h : reconciled now k e (some row) = some row') :
    row'.first_seen_at = row.first_seen_at := by
  rw [reconciled] at h
  split at h
  · rw [Option.some.inj h]
  · split at h
    · rw [← Option.some.inj h]
    · split at h
      · rw [Option.some.inj h]
      · cases h

/-- A recipe whose patterns were built can be parsed. -/
theorem parse_recipe_ok_of_checked {recipe : Items}
    (h : (build_matcher_checked env recipe).2 = none) :
    ∃ source_type config, parse_recipe recipe = .ok (source_type,config) := by
  rw [build_matcher_checked] at h
  cases hp : parse_recipe recipe with
  | error message =>
    rw [hp] at h
    cases h
  | ok r => exact ⟨r.1,r.2,rfl⟩

/-- Step 2 obeys the mapping law. -/
theorem sweepMappings_lawful (env : Runtime) (now : ℕ) (urns : List Str) (sources : Sources)
    (mappings : Mappings) :
    MappingLaw env urns sources mappings (sweepMappings env now urns sources.snapshot mappings) := by
  constructor
  case others =>
    intro row hm
    rw [Table.mem_rows,Table.mem_rows]
    rcases sweepMappings_get? row.key with ⟨src,-,-,hget⟩ | ⟨-,hget⟩
    · rw [hget,reconciled_other hm]
    · rw [hget]
  case degraded =>
    intro src hsrc hd row hrow hid
    have hd' := evaluate_degraded.mpr hd
    rw [Table.mem_rows,sweepMappings_of_mem hsrc hid,Table.mem_rows.mp hrow,reconciled,
      evaluate_fst_of_degraded hd',hd']
    simp
  case exact =>
    intro src hsrc hd
    have hd' : (evaluate env urns src.recipe).2 = false := by
      simpa using evaluate_degraded.not.mpr hd
    rw [PatternsDegraded,not_or,not_not] at hd
    obtain ⟨source_type,config,hparse⟩ := parse_recipe_ok_of_checked hd.1
    refine ⟨source_type,config,hparse,fun urn => ?_⟩
    have hplatform : expected_platform env src.recipe = env.lower source_type := by
      rw [expected_platform,safe_parse_recipe,hparse]
    have hrow : (∃ row ∈ (sweepMappings env now urns sources.snapshot mappings).1.rows,
        row.key = (src.id,urn) ∧ row.derivation = .matched) ↔
        ∃ row, reconciled now (src.id,urn) (evaluate env urns src.recipe)
          (mappings.get? (src.id,urn)) = some row ∧ row.derivation = .matched := by
      rw [← sweepMappings_of_mem hsrc rfl]
      simp only [Table.get?_eq_some,and_assoc]
    rw [hrow,reconciled_matched hd',mem_evaluate hd',hplatform]
    simp only [mem_candidates,Table.get?_eq_some,and_imp]
    constructor
    · rintro ⟨⟨name,⟨hu,hp,hn⟩,hm⟩,hold⟩
      exact ⟨hu,hp,⟨name,hn,hm⟩,hold⟩
    · rintro ⟨hu,hp,⟨name,hn,hm⟩,hold⟩
      exact ⟨⟨name,⟨hu,hp,hn⟩,hm⟩,hold⟩
  case first_seen =>
    intro row hrow row' hrow' hk
    have hget' := Table.mem_rows.mp hrow'
    rw [hk] at hget'
    rcases sweepMappings_get? row.key with ⟨src,-,-,hget⟩ | ⟨-,hget⟩
    · rw [hget,Table.mem_rows.mp hrow] at hget'
      exact reconciled_first_seen hget'
    · rw [hget,Table.mem_rows.mp hrow] at hget'
      rw [Option.some.inj hget']
  case inserted =>
    rw [sweepMappings,foldl_mapSource_datasets_mapped sources.snapshot_nodup,Nat.zero_add]
    symm
    apply Table.countP_rows (matchedKeys_nodup sources.snapshot_nodup)
    · intro row hrow hnew
      refine ⟨?_,hnew⟩
      rw [Option.isNone_iff_eq_none] at hnew
      have hget' := Table.mem_rows.mp hrow
      rcases sweepMappings_get? row.key with ⟨src,hsrc,hid,hget⟩ | ⟨-,hget⟩
      · refine mem_matchedKeys.mpr ⟨src.snapshot,List.mem_map.mpr ⟨src,hsrc,rfl⟩,hid,?_⟩
        rw [sweepMappings] at hget
        rw [hget,hnew,reconciled] at hget'
        by_contra hno
        rw [IngestionSource.snapshot_recipe] at hno
        rw [if_neg hno] at hget'
        cases hget'
      · rw [sweepMappings] at hget
        rw [hget,hnew] at hget'
        cases hget'
    · intro k hk hnew
      obtain ⟨_,hsnap,hid,hu⟩ := mem_matchedKeys.mp hk
      obtain ⟨src,hsrc,rfl⟩ := Sources.mem_snapshot.mp hsnap
      have hget := @sweepMappings_of_mem env now urns sources mappings src hsrc k hid
      rw [Option.isNone_iff_eq_none] at hnew
      rw [IngestionSource.snapshot_recipe] at hu
      rw [hnew,reconciled,if_pos hu] at hget
      obtain ⟨hrow,hkey⟩ := Table.get?_eq_some.mp hget
      exact ⟨_,hrow,hkey,by rw [hkey,hnew]; rfl⟩

end Law

end Ingestion
end Dataspoke
