import Dataspoke.Fold
import Dataspoke.IngestionStore
import Mathlib.Data.List.MinMax
import Mathlib.Data.Prod.Lex
import Mathlib.Data.Rat.Defs
import Mathlib.Algebra.Order.Ring.Unbundled.Rat

/-!
# Reverse lookups

The three ways from a dataset to the sources that cover it. The database returns the rows of
a query in any order; a tie in the rank of two rows is decided by that order.
-/

namespace Dataspoke
namespace Ingestion
namespace Lookup

open Python

/-- A row of `ingestion_source_dataset`, its derivation as the text column holds it. -/
structure DatasetRow where
  source_id : ℕ
  dataset_urn : Str
  derivation : Str
  last_seen_at : ℤ

abbrev DatasetRow.key (row : DatasetRow) : ℕ × Str := (row.source_id,row.dataset_urn)

structure Tables where
  sources : Table IngestionSource.id
  datasets : Table DatasetRow.key

abbrev Pair := DatasetRow × IngestionSource

/-- The columns that the batch lookup selects. -/
structure Columns where
  dataset_urn : Str
  derivation : Str
  last_seen_at : ℤ
  id : ℕ
  parent_source_id : Option ℕ

def Pair.columns (pair : Pair) : Columns :=
  ⟨pair.1.dataset_urn,pair.1.derivation,pair.1.last_seen_at,pair.2.id,pair.2.parent_source_id⟩

namespace Tables

variable (db : Tables)

def join : List Pair :=
  db.datasets.rows.flatMap fun row =>
    (db.sources.rows.filter fun source => row.source_id = source.id).map fun source =>
      (row,source)

def covering (urn : Str) : List Pair := db.join.filter fun pair => pair.1.dataset_urn = urn

def coveringAny (urns : List Str) : List Pair :=
  db.join.filter fun pair => pair.1.dataset_urn ∈ urns

def byIds (ids : List ℕ) : List IngestionSource :=
  db.sources.rows.filter fun source => source.id ∈ ids

/-- No parent has a parent. -/
def DepthOne : Prop :=
  ∀ source ∈ db.sources.rows, ∀ p, source.parent_source_id = some p →
    ∀ parent, db.sources.get? p = some parent → parent.parent_source_id = none

end Tables

/-- What the database returns to each query, in an order of its own. -/
structure Replies (db : Tables) where
  rows : Str → List Pair
  columns : List Str → List Columns
  pairs : List Str → List Pair
  sources : List ℕ → List IngestionSource
  rows_perm : ∀ urn, (rows urn).Perm (db.covering urn)
  columns_perm : ∀ urns, (columns urns).Perm ((db.coveringAny urns).map Pair.columns)
  pairs_perm : ∀ urns, (pairs urns).Perm (db.coveringAny urns)
  sources_perm : ∀ ids, (sources ids).Perm (db.byIds ids)

section Rank

def emitted : Str := "emitted".toList

def pipelineName : Str := "pipeline_name".toList

def matched : Str := "matched".toList

/-- `_DERIVATION_PRIORITY.get(derivation, 99)`. -/
def derivationPriority (derivation : Str) : ℕ :=
  if derivation = emitted then 0
  else if derivation = pipelineName then 1
  else if derivation = matched then 2
  else 99

abbrev Rank := ℕ ×ₗ ℕ ×ₗ ℚ

variable (timestamp : ℤ → ℚ)

def reverse_lookup_rank (derivation : Str) (is_wrapper : Bool) (last_seen_at : ℤ) : Rank :=
  toLex (derivationPriority derivation,
    toLex (if is_wrapper then 1 else 0,-timestamp last_seen_at))

def reverse_lookup_key (pair : Pair) : Rank :=
  reverse_lookup_rank timestamp pair.1.derivation pair.2.parent_source_id.isSome
    pair.1.last_seen_at

end Rank

section Lookups

variable (timestamp : ℤ → ℚ) {db : Tables} (q : Replies db)

/-- The parent of a wrapper, if it is there, and else the source itself. -/
def resolved (db : Tables) (source : IngestionSource) : IngestionSource :=
  match source.parent_source_id with
  | none => source
  | some p => (db.sources.get? p).getD source

def reverse_lookup (urn : Str) : Option IngestionSource :=
  match (q.rows urn).mergeSort fun a b =>
      reverse_lookup_key timestamp a ≤ reverse_lookup_key timestamp b with
  | [] => none
  | (_,best)::_ => some (resolved db best)

abbrev Winners := List (Str × Rank × ℕ × Option ℕ)

def entry (row : Columns) : Rank × ℕ × Option ℕ :=
  (reverse_lookup_rank timestamp row.derivation row.parent_source_id.isSome row.last_seen_at,
    row.id,row.parent_source_id)

def winner (winners : Winners) (row : Columns) : Winners :=
  match get? row.dataset_urn winners with
  | none => setItem row.dataset_urn (entry timestamp row) winners
  | some current =>
    if (entry timestamp row).1 < current.1 then
      setItem row.dataset_urn (entry timestamp row) winners
    else winners

/-- `{r.id: r for r in …}.get(id)`. -/
def byId (sources : List IngestionSource) (id : ℕ) : Option IngestionSource :=
  sources.find? fun source => source.id = id

def loadedOwner (loaded : List IngestionSource) (own_id : ℕ) (parent_id : Option ℕ) :
    Option IngestionSource :=
  match parent_id with
  | none => byId loaded own_id
  | some p => (byId loaded p).or (byId loaded own_id)

def assignOwner (loaded : List IngestionSource) (result : List (Str × Option IngestionSource))
    (entry : Str × Rank × ℕ × Option ℕ) : List (Str × Option IngestionSource) :=
  match loadedOwner loaded entry.2.2.1 entry.2.2.2 with
  | none => result
  | some owner => setItem entry.1 (some owner) result

/-- The early returns, for no URN and for no row, give what the loops give. -/
def reverse_lookup_batch (urns : List Str) : List (Str × Option IngestionSource) :=
  let winners := (q.columns urns).foldl (winner timestamp) []
  let wanted := winners.flatMap fun entry => entry.2.2.1::entry.2.2.2.toList
  winners.foldl (assignOwner (q.sources wanted))
    (urns.foldl (fun result urn => setItem urn none result) [])

def resolvedIn (parents : List IngestionSource) (source : IngestionSource) : IngestionSource :=
  match source.parent_source_id with
  | none => source
  | some p => (byId parents p).getD source

/-- The ids seen for a URN are those of the sources listed for it. -/
def listOwner (parents : List IngestionSource) (result : List (Str × List IngestionSource))
    (pair : Pair) : List (Str × List IngestionSource) :=
  let source := resolvedIn parents pair.2
  match get? pair.1.dataset_urn result with
  | none => result
  | some listed =>
    if listed.any (·.id = source.id) then result
    else setItem pair.1.dataset_urn (listed ++ [source]) result

def sortOwners (sources : List IngestionSource) : List IngestionSource :=
  sources.mergeSort fun a b => a.name < b.name || a.name = b.name && a.id ≤ b.id

def reverse_lookup_all_batch (urns : List Str) : List (Str × List IngestionSource) :=
  let rows := q.pairs urns
  let parents := q.sources (rows.filterMap fun pair => pair.2.parent_source_id)
  (rows.foldl (listOwner parents)
    (urns.foldl (fun result urn => setItem urn [] result) [])).map fun entry =>
      (entry.1,sortOwners entry.2)

end Lookups

section Argmin

variable {α β : Type*} [LinearOrder β] (f : α → β)

/-- The head of a list sorted by a key is the first of its elements of least key. -/
theorem head?_mergeSort (l : List α) :
    (l.mergeSort fun a b => f a ≤ f b).head? = l.argmin f := by
  have trans : ∀ a b c : α, decide (f a ≤ f b) = true → decide (f b ≤ f c) = true →
      decide (f a ≤ f c) = true := by
    intro a b c hab hbc
    simp only [decide_eq_true_eq] at hab hbc ⊢
    exact hab.trans hbc
  have total : ∀ a b : α, (decide (f a ≤ f b) || decide (f b ≤ f a)) = true := by
    intro a b
    simpa using le_total (f a) (f b)
  induction l with
  | nil => simp
  | cons a l ih =>
    obtain ⟨l₁,l₂,hal,hl,hl₁⟩ := List.mergeSort_cons trans total a l
    have hsorted := List.pairwise_mergeSort trans total (a::l)
    rw [hal] at hsorted ⊢
    rw [List.argmin_cons,← ih,hl]
    cases l₁ with
    | nil =>
      cases l₂ with
      | nil => rfl
      | cons c l₂ =>
        have hac : f a ≤ f c := by simpa using (List.pairwise_cons.mp hsorted).1 c (by simp)
        simp [not_lt.mpr hac]
    | cons c l₁ =>
      have hca : f c < f a := by simpa using hl₁ c List.mem_cons_self
      simp [hca]

theorem argmin_cons_of_le {a : α} {l : List α} (h : ∀ b ∈ l, f a ≤ f b) :
    (a::l).argmin f = some a := by
  rw [List.argmin_cons]
  cases hc : l.argmin f with
  | none => rfl
  | some c => exact if_neg (not_lt.mpr (h c (List.argmin_mem hc)))

end Argmin

section Least

variable (timestamp : ℤ → ℚ) {db : Tables}

theorem mem_join {pair : Pair} : pair ∈ db.join ↔
    pair.1 ∈ db.datasets.rows ∧ db.sources.get? pair.1.source_id = some pair.2 := by
  obtain ⟨row,source⟩ := pair
  simp only [Tables.join,List.mem_flatMap,List.mem_map,List.mem_filter,decide_eq_true_eq,
    Prod.mk.injEq,Table.get?_eq_some]
  constructor
  · rintro ⟨row',hrow,source',⟨hsource,hid⟩,rfl,rfl⟩
    exact ⟨hrow,hsource,hid.symm⟩
  · rintro ⟨hrow,hsource,hid⟩
    exact ⟨row,hrow,source,⟨hsource,hid.symm⟩,rfl,rfl⟩

theorem mem_covering {urn : Str} {pair : Pair} :
    pair ∈ db.covering urn ↔ pair ∈ db.join ∧ pair.1.dataset_urn = urn := by
  simp [Tables.covering]

/-- A covering row that no other precedes in rank. -/
def Least (db : Tables) (urn : Str) (pair : Pair) : Prop :=
  pair ∈ db.covering urn ∧ ∀ other ∈ db.covering urn,
    reverse_lookup_key timestamp pair ≤ reverse_lookup_key timestamp other

variable (q : Replies db)

theorem reverse_lookup_eq (urn : Str) :
    reverse_lookup timestamp q urn =
      ((q.rows urn).argmin (reverse_lookup_key timestamp)).map fun pair =>
        resolved db pair.2 := by
  rw [← head?_mergeSort,reverse_lookup]
  split <;> simp_all

theorem reverse_lookup_least {urn : Str} {source : IngestionSource}
    (h : reverse_lookup timestamp q urn = some source) :
    ∃ pair, Least timestamp db urn pair ∧ source = resolved db pair.2 := by
  rw [reverse_lookup_eq,Option.map_eq_some_iff] at h
  obtain ⟨pair,hpair,rfl⟩ := h
  have hmem := (q.rows_perm urn).mem_iff.mp (List.argmin_mem hpair)
  refine ⟨pair,⟨hmem,fun other hother => ?_⟩,rfl⟩
  exact List.le_of_mem_argmin ((q.rows_perm urn).mem_iff.mpr hother) hpair

theorem reverse_lookup_eq_none (urn : Str) :
    reverse_lookup timestamp q urn = none ↔ db.covering urn = [] := by
  rw [reverse_lookup_eq,Option.map_eq_none_iff,List.argmin_eq_none]
  constructor
  · intro h
    exact List.Perm.nil_eq (h ▸ q.rows_perm urn) |>.symm
  · intro h
    exact List.Perm.eq_nil (h ▸ q.rows_perm urn)

end Least

section Batch

variable (timestamp : ℤ → ℚ)

theorem get?_winners (rows : List Columns) (urn : Str) :
    get? urn (rows.foldl (winner timestamp) []) =
      ((rows.filter fun row => row.dataset_urn = urn).argmin
        fun row => (entry timestamp row).1).map (entry timestamp) := by
  induction rows using List.reverseRecOn with
  | nil => rfl
  | append_singleton rows row ih =>
    rw [List.foldl_append,List.foldl_cons,List.foldl_nil,List.filter_append]
    by_cases hu : row.dataset_urn = urn
    · subst hu
      have hf : [row].filter (fun r => r.dataset_urn = row.dataset_urn) = [row] := by simp
      rw [hf,List.argmin_concat,winner,ih]
      cases hc : (rows.filter fun r => r.dataset_urn = row.dataset_urn).argmin
        fun row => (entry timestamp row).1 with
      | none => simp [get?_setItem]
      | some c =>
        by_cases hlt : (entry timestamp row).1 < (entry timestamp c).1
        · simp [hlt,get?_setItem]
        · simp [hlt,ih,hc]
    · have hf : [row].filter (fun r => r.dataset_urn = urn) = [] := by simp [hu]
      rw [hf,List.append_nil,← ih,winner]
      split
      · rw [get?_setItem,if_neg (Ne.symm hu)]
      · split_ifs
        · rw [get?_setItem,if_neg (Ne.symm hu)]
        · rfl

theorem nodup_winners (rows : List Columns) :
    ((rows.foldl (winner timestamp) []).map Prod.fst).Nodup := by
  refine Fold.foldl_invariant (I:=fun winners : Winners => (winners.map Prod.fst).Nodup) ?_ List.nodup_nil
  intro winners row _ hn
  unfold winner
  split
  · exact nodup_setItem hn
  · split_ifs
    · exact nodup_setItem hn
    · exact hn

theorem get?_assignOwner (loaded : List IngestionSource) (urn : Str) {winners : Winners}
    (hn : (winners.map Prod.fst).Nodup) (result : List (Str × Option IngestionSource)) :
    get? urn (winners.foldl (assignOwner loaded) result) =
      ((get? urn winners).bind fun entry => loadedOwner loaded entry.2.1 entry.2.2).elim
        (get? urn result) fun owner => some (some owner) := by
  induction winners generalizing result with
  | nil => rfl
  | cons w winners ih =>
    obtain ⟨k,entry⟩ := w
    have hn' := List.nodup_cons.mp hn
    rw [List.foldl_cons,ih hn'.2,get?]
    by_cases hk : k = urn
    · subst hk
      have hnone : get? k winners = none := by
        cases h : get? k winners with
        | none => rfl
        | some e => exact absurd (List.mem_map_of_mem (mem_of_get? h)) hn'.1
      rw [if_pos rfl,hnone,assignOwner]
      cases hl : loadedOwner loaded entry.2.1 entry.2.2 with
      | none => simp [hl]
      | some owner => simp [hl,get?_setItem]
    · rw [if_neg hk,assignOwner]
      split
      · rfl
      · rw [get?_setItem,if_neg (Ne.symm hk)]

variable {db : Tables} (q : Replies db)

theorem byId_sources {ids : List ℕ} {id : ℕ} (hid : id ∈ ids) :
    byId (q.sources ids) id = db.sources.get? id := by
  have hmem : ∀ source, source.id = id → (source ∈ q.sources ids ↔ source ∈ db.sources.rows) := by
    intro source hs
    rw [(q.sources_perm ids).mem_iff]
    simp [Tables.byIds,hs,hid]
  cases hg : db.sources.get? id with
  | none =>
    refine List.find?_eq_none.mpr fun source hs => ?_
    rw [decide_eq_true_eq]
    intro he
    exact Table.get?_eq_none.mp hg source ((hmem source he).mp hs) he
  | some source =>
    obtain ⟨hsource,he⟩ := Table.get?_eq_some.mp hg
    cases hf : byId (q.sources ids) id with
    | none =>
      have := List.find?_eq_none.mp hf source ((hmem source he).mpr hsource)
      exact absurd (decide_eq_true he) this
    | some other =>
      have ho : other.id = id := by simpa using List.find?_some hf
      have hother := (hmem other ho).mp (List.mem_of_find?_eq_some hf)
      exact congrArg some (Table.eq_of_key_eq hother hsource (ho.trans he.symm))

theorem get?_of_mem_join {pair : Pair} (h : pair ∈ db.join) :
    db.sources.get? pair.2.id = some pair.2 :=
  Table.mem_rows.mp (Table.get?_eq_some.mp (mem_join.mp h).2).1

theorem loadedOwner_sources {ids : List ℕ} {pair : Pair} (hpair : pair ∈ db.join)
    (hown : pair.2.id ∈ ids) (hparent : ∀ p, pair.2.parent_source_id = some p → p ∈ ids) :
    loadedOwner (q.sources ids) pair.2.id pair.2.parent_source_id =
      some (resolved db pair.2) := by
  have hself := get?_of_mem_join hpair
  unfold loadedOwner resolved
  cases hp : pair.2.parent_source_id with
  | none =>
    dsimp only
    rw [byId_sources q hown,hself]
  | some p =>
    dsimp only
    rw [byId_sources q hown,byId_sources q (hparent p hp),hself]
    cases db.sources.get? p <;> rfl

/-- The first row of least rank among those that the batch reads for the URN. -/
def first (urns : List Str) (urn : Str) : Option Columns :=
  ((q.columns urns).filter fun row => row.dataset_urn = urn).argmin fun row =>
    (entry timestamp row).1

theorem batch_none {urns : List Str} {urn : Str} (hu : urn ∈ urns)
    (h : first timestamp q urns urn = none) :
    get? urn (reverse_lookup_batch timestamp q urns) = some none := by
  have hw := get?_winners timestamp (q.columns urns) urn
  rw [← first,h,Option.map_none] at hw
  rw [reverse_lookup_batch,get?_assignOwner _ _ (nodup_winners timestamp _),hw,
    get?_fromkeys,if_pos hu]
  rfl

theorem batch_some {urns : List Str} {urn : Str} {pair : Pair} (hpair : pair ∈ db.join)
    (h : first timestamp q urns urn = some pair.columns) :
    get? urn (reverse_lookup_batch timestamp q urns) = some (some (resolved db pair.2)) := by
  have hw := get?_winners timestamp (q.columns urns) urn
  rw [← first,h,Option.map_some] at hw
  have hmem := mem_of_get? hw
  rw [reverse_lookup_batch,get?_assignOwner _ _ (nodup_winners timestamp _),hw,
    Option.bind_some,entry,Pair.columns,loadedOwner_sources q hpair]
  · rfl
  · exact List.mem_flatMap.mpr ⟨_,hmem,List.mem_cons_self⟩
  · intro p hp
    refine List.mem_flatMap.mpr ⟨_,hmem,List.mem_cons_of_mem _ ?_⟩
    simp [entry,Pair.columns,hp]

theorem mem_coveringAny {urns : List Str} {pair : Pair} :
    pair ∈ db.coveringAny urns ↔ pair ∈ db.join ∧ pair.1.dataset_urn ∈ urns := by
  simp [Tables.coveringAny]

theorem mem_columns {urns : List Str} {urn : Str} (hu : urn ∈ urns) (row : Columns) :
    row ∈ (q.columns urns).filter (fun row => row.dataset_urn = urn) ↔
      ∃ pair ∈ db.covering urn, pair.columns = row := by
  rw [List.mem_filter,(q.columns_perm urns).mem_iff,List.mem_map]
  constructor
  · rintro ⟨⟨pair,hpair,rfl⟩,hurn⟩
    have hurn : pair.1.dataset_urn = urn := of_decide_eq_true hurn
    exact ⟨pair,mem_covering.mpr ⟨(mem_coveringAny.mp hpair).1,hurn⟩,rfl⟩
  · rintro ⟨pair,hpair,rfl⟩
    obtain ⟨hjoin,hurn⟩ := mem_covering.mp hpair
    exact ⟨⟨pair,mem_coveringAny.mpr ⟨hjoin,hurn ▸ hu⟩,rfl⟩,decide_eq_true hurn⟩

theorem first_least {urns : List Str} {urn : Str} (hu : urn ∈ urns) {row : Columns}
    (h : first timestamp q urns urn = some row) :
    ∃ pair, Least timestamp db urn pair ∧ pair.columns = row := by
  obtain ⟨pair,hpair,rfl⟩ := (mem_columns q hu row).mp (List.argmin_mem h)
  refine ⟨pair,⟨hpair,fun other hother => ?_⟩,rfl⟩
  exact List.le_of_mem_argmin (f:=fun row => (entry timestamp row).1)
    ((mem_columns q hu other.columns).mpr ⟨other,hother,rfl⟩) h

theorem first_eq_none {urns : List Str} {urn : Str} (hu : urn ∈ urns) :
    first timestamp q urns urn = none ↔ db.covering urn = [] := by
  rw [first,List.argmin_eq_none,List.eq_nil_iff_forall_not_mem,List.eq_nil_iff_forall_not_mem]
  constructor
  · exact fun h pair hpair => h _ ((mem_columns q hu _).mpr ⟨pair,hpair,rfl⟩)
  · intro h row hrow
    obtain ⟨pair,hpair,-⟩ := (mem_columns q hu row).mp hrow
    exact h pair hpair

end Batch

section All

variable {db : Tables} (q : Replies db)

theorem resolvedIn_sources {ids : List ℕ} {source : IngestionSource}
    (h : ∀ p, source.parent_source_id = some p → p ∈ ids) :
    resolvedIn (q.sources ids) source = resolved db source := by
  unfold resolvedIn resolved
  cases hp : source.parent_source_id with
  | none => rfl
  | some p =>
    dsimp only
    rw [byId_sources q (h p hp)]

theorem resolved_mem {source : IngestionSource} (h : source ∈ db.sources.rows) :
    resolved db source ∈ db.sources.rows := by
  unfold resolved
  split
  · exact h
  · rename_i p hp
    cases hg : db.sources.get? p with
    | none => exact h
    | some parent => exact (Table.get?_eq_some.mp hg).1

/-- The sources listed for a URN after the rows of the loop. -/
def Lists (db : Tables) (rows : List Pair) (urn : Str) (listed : List IngestionSource) : Prop :=
  ∀ source, source ∈ listed ↔ ∃ pair ∈ rows, pair.1.dataset_urn = urn ∧ source = resolved db pair.2

theorem listOwner_lists {parents : List IngestionSource} {urns : List Str} (rows : List Pair)
    (hjoin : ∀ pair ∈ rows, pair ∈ db.join)
    (hres : ∀ pair ∈ rows, resolvedIn parents pair.2 = resolved db pair.2) {urn : Str}
    (hu : urn ∈ urns) :
    ∃ listed, get? urn (rows.foldl (listOwner parents)
        (urns.foldl (fun result urn => setItem urn [] result) [])) = some listed ∧
      Lists db rows urn listed := by
  induction rows using List.reverseRecOn with
  | nil => exact ⟨[],by simp [get?_fromkeys,hu],by simp [Lists]⟩
  | append_singleton rows pair ih =>
    obtain ⟨listed,hget,hl⟩ := ih (fun p hp => hjoin p (List.mem_append_left _ hp))
      fun p hp => hres p (List.mem_append_left _ hp)
    have hpair : pair ∈ rows ++ [pair] := by simp
    rw [List.foldl_append,List.foldl_cons,List.foldl_nil,listOwner,hres pair hpair]
    by_cases hp : pair.1.dataset_urn = urn
    · rw [hp,hget]
      dsimp only
      by_cases hany : listed.any (·.id = (resolved db pair.2).id) = true
      · -- a source of this id is listed, and ids are unique
        rw [if_pos hany]
        obtain ⟨other,hother,hid⟩ := List.any_eq_true.mp hany
        obtain ⟨p,hp',-,rfl⟩ := (hl other).mp hother
        have hrows : ∀ p ∈ rows ++ [pair], resolved db p.2 ∈ db.sources.rows := fun p h =>
          resolved_mem (Table.get?_eq_some.mp (mem_join.mp (hjoin p h)).2).1
        have heq : resolved db p.2 = resolved db pair.2 :=
          Table.eq_of_key_eq (hrows p (List.mem_append_left _ hp')) (hrows pair hpair)
            (by simpa using hid)
        refine ⟨listed,hget,fun source => ⟨fun h => ?_,?_⟩⟩
        · obtain ⟨p,hp',h⟩ := (hl source).mp h
          exact ⟨p,List.mem_append_left _ hp',h⟩
        · rintro ⟨p',hp',hurn,rfl⟩
          rcases List.mem_append.mp hp' with hp' | hp'
          · exact (hl _).mpr ⟨p',hp',hurn,rfl⟩
          · rw [List.mem_singleton.mp hp',← heq]
            exact hother
      · rw [if_neg hany]
        refine ⟨listed ++ [resolved db pair.2],by rw [get?_setItem,if_pos rfl],fun source => ?_⟩
        rw [List.mem_append,hl source,List.mem_singleton]
        constructor
        · rintro (⟨p,hp',h⟩ | rfl)
          · exact ⟨p,List.mem_append_left _ hp',h⟩
          · exact ⟨pair,hpair,hp,rfl⟩
        · rintro ⟨p',hp',hurn,rfl⟩
          rcases List.mem_append.mp hp' with hp' | hp'
          · exact .inl ⟨p',hp',hurn,rfl⟩
          · rw [List.mem_singleton.mp hp']
            exact .inr rfl
    · have hsame : Lists db (rows ++ [pair]) urn listed := by
        intro source
        rw [hl source]
        simp [or_and_right,exists_or,hp]
      refine ⟨listed,?_,hsame⟩
      split
      · exact hget
      · split_ifs
        · exact hget
        · rw [get?_setItem,if_neg (Ne.symm hp)]
          exact hget

/-- Every URN is listed with the resolved sources of its covering rows. -/
theorem all_batch_lists {urns : List Str} {urn : Str} (hu : urn ∈ urns) :
    ∃ listed, get? urn (reverse_lookup_all_batch q urns) = some listed ∧
      ∀ source, source ∈ listed ↔
        ∃ pair ∈ db.covering urn, source = resolved db pair.2 := by
  have hmem : ∀ pair, pair ∈ q.pairs urns ↔ pair ∈ db.join ∧ pair.1.dataset_urn ∈ urns :=
    fun pair => (q.pairs_perm urns).mem_iff.trans mem_coveringAny
  obtain ⟨listed,hget,hl⟩ := listOwner_lists (q.pairs urns)
    (fun pair hp => ((hmem pair).mp hp).1)
    (fun pair hp => resolvedIn_sources q fun p h => List.mem_filterMap.mpr ⟨pair,hp,h⟩) hu
  refine ⟨sortOwners listed,?_,fun source => ?_⟩
  · rw [reverse_lookup_all_batch,get?_map_snd,hget]
    rfl
  · rw [sortOwners,List.mem_mergeSort,hl source]
    constructor
    · rintro ⟨pair,hp,hurn,rfl⟩
      exact ⟨pair,mem_covering.mpr ⟨((hmem pair).mp hp).1,hurn⟩,rfl⟩
    · rintro ⟨pair,hp,rfl⟩
      obtain ⟨hjoin,hurn⟩ := mem_covering.mp hp
      exact ⟨pair,(hmem pair).mpr ⟨hjoin,hurn ▸ hu⟩,hurn,rfl⟩

end All

section Agreement

variable (timestamp : ℤ → ℚ) {db : Tables}

/-- Not a wrapper whose parent is there. -/
def Regular (db : Tables) (source : IngestionSource) : Prop :=
  ∀ p, source.parent_source_id = some p → db.sources.get? p = none

/-- The three lookups agree on a URN: one owner, which is listed among all the covering
sources, and none exactly if nothing is listed. -/
structure Agree (q : Replies db) (urns : List Str) (urn : Str) : Prop where
  batch : get? urn (reverse_lookup_batch timestamp q urns) =
    some (reverse_lookup timestamp q urn)
  listed : ∃ listed, get? urn (reverse_lookup_all_batch q urns) = some listed ∧
    (∀ source, reverse_lookup timestamp q urn = some source → source ∈ listed) ∧
    (reverse_lookup timestamp q urn = none ↔ listed = []) ∧
    ∀ source ∈ listed, Regular db source

/-- The rows that tie for the least rank belong to one owner. -/
def OneOwner (db : Tables) (urn : Str) : Prop :=
  ∀ a b, Least timestamp db urn a → Least timestamp db urn b →
    resolved db a.2 = resolved db b.2

theorem resolved_regular (hdepth : db.DepthOne) {source : IngestionSource}
    (h : source ∈ db.sources.rows) : Regular db (resolved db source) := by
  intro p hp
  unfold resolved at hp
  split at hp
  next hnone => exact absurd (hnone.symm.trans hp) (by simp)
  next p' hsome =>
    cases hg : db.sources.get? p' with
    | none =>
      rw [hg] at hp
      have : p' = p := Option.some.inj (hsome.symm.trans hp)
      exact this ▸ hg
    | some parent =>
      rw [hg] at hp
      exact absurd ((hdepth source h p' hsome parent hg).symm.trans hp) (by simp)

theorem agree_of_oneOwner (hdepth : db.DepthOne) (q : Replies db) {urns : List Str} {urn : Str}
    (hu : urn ∈ urns) (h : OneOwner timestamp db urn) : Agree timestamp q urns urn := by
  obtain ⟨listed,hget,hl⟩ := all_batch_lists q hu
  refine ⟨?_,listed,hget,fun source hs => ?_,?_,fun source hs => ?_⟩
  · cases hf : first timestamp q urns urn with
    | none =>
      rw [batch_none timestamp q hu hf,(reverse_lookup_eq_none timestamp q urn).mpr
        ((first_eq_none timestamp q hu).mp hf)]
    | some row =>
      obtain ⟨pair,hpair,rfl⟩ := first_least timestamp q hu hf
      rw [batch_some timestamp q (mem_covering.mp hpair.1).1 hf]
      cases hs : reverse_lookup timestamp q urn with
      | none =>
        have := (reverse_lookup_eq_none timestamp q urn).mp hs
        exact absurd (this ▸ hpair.1) List.not_mem_nil
      | some source =>
        obtain ⟨pair',hpair',rfl⟩ := reverse_lookup_least timestamp q hs
        rw [h pair pair' hpair hpair']
  · obtain ⟨pair,hpair,rfl⟩ := reverse_lookup_least timestamp q hs
    exact (hl _).mpr ⟨pair,hpair.1,rfl⟩
  · rw [reverse_lookup_eq_none,List.eq_nil_iff_forall_not_mem,List.eq_nil_iff_forall_not_mem]
    constructor
    · intro hnone source hs
      obtain ⟨pair,hpair,-⟩ := (hl source).mp hs
      exact hnone pair hpair
    · exact fun hnone pair hpair => hnone _ ((hl _).mpr ⟨pair,hpair,rfl⟩)
  · obtain ⟨pair,hpair,rfl⟩ := (hl source).mp hs
    have hrow := (Table.get?_eq_some.mp (mem_join.mp (mem_covering.mp hpair).1).2).1
    exact resolved_regular hdepth hrow

def stored (db : Tables) : Replies db where
  rows := db.covering
  columns urns := (db.coveringAny urns).map Pair.columns
  pairs := db.coveringAny
  sources := db.byIds
  rows_perm _ := .refl _
  columns_perm _ := .refl _
  pairs_perm _ := .refl _
  sources_perm _ := .refl _

theorem exists_front {α : Type} {l : List α} {a : α} (h : a ∈ l) :
    ∃ rest : List α, (a::rest).Perm l := by
  obtain ⟨before,after,rfl⟩ := List.append_of_mem h
  exact ⟨before ++ after,List.perm_middle.symm⟩

/-- One lookup may read the one row first, and the batch the other. -/
theorem exists_replies {urns : List Str} {urn : Str} (hu : urn ∈ urns) {a b : Pair}
    (ha : a ∈ db.covering urn) (hb : b ∈ db.covering urn) :
    ∃ q : Replies db, (∃ rest, q.rows urn = a::rest) ∧
      ∃ rest, q.columns urns = b.columns::rest := by
  obtain ⟨rows,hrows⟩ := exists_front ha
  have hb' : b.columns ∈ (db.coveringAny urns).map Pair.columns := by
    obtain ⟨hjoin,hurn⟩ := mem_covering.mp hb
    exact List.mem_map_of_mem (mem_coveringAny.mpr ⟨hjoin,hurn ▸ hu⟩)
  obtain ⟨columns,hcolumns⟩ := exists_front hb'
  refine ⟨{ stored db with
    rows := Function.update db.covering urn (a::rows)
    columns := Function.update (stored db).columns urns (b.columns::columns)
    rows_perm := ?_
    columns_perm := ?_ },⟨rows,Function.update_self ..⟩,⟨columns,Function.update_self ..⟩⟩
  · intro u
    by_cases h : u = urn
    · subst h
      rw [Function.update_self]
      exact hrows
    · rw [Function.update_of_ne h]
  · intro us
    by_cases h : us = urns
    · subst h
      rw [Function.update_self]
      exact hcolumns
    · rw [Function.update_of_ne h]
      exact .refl _

theorem oneOwner_of_agree {urns : List Str} {urn : Str} (hu : urn ∈ urns)
    (h : ∀ q : Replies db, get? urn (reverse_lookup_batch timestamp q urns) =
      some (reverse_lookup timestamp q urn)) : OneOwner timestamp db urn := by
  intro a b ha hb
  obtain ⟨q,⟨rows,hrows⟩,columns,hcolumns⟩ := exists_replies hu ha.1 hb.1
  have hone : reverse_lookup timestamp q urn = some (resolved db a.2) := by
    have hle : ∀ c ∈ rows, reverse_lookup_key timestamp a ≤ reverse_lookup_key timestamp c :=
      fun c hc => ha.2 c ((q.rows_perm urn).mem_iff.mp (hrows ▸ List.mem_cons_of_mem _ hc))
    rw [reverse_lookup_eq,hrows,argmin_cons_of_le _ hle]
    rfl
  have hmany : get? urn (reverse_lookup_batch timestamp q urns) =
      some (some (resolved db b.2)) := by
    have hurn : b.columns.dataset_urn = urn := (mem_covering.mp hb.1).2
    refine batch_some timestamp q (mem_covering.mp hb.1).1 ?_
    have hfilter : (q.columns urns).filter (fun row => row.dataset_urn = urn) =
        b.columns::columns.filter fun row => row.dataset_urn = urn := by
      simp [hcolumns,hurn]
    rw [first,hfilter]
    refine argmin_cons_of_le _ fun row hrow => ?_
    have hrow' : row ∈ (q.columns urns).filter fun row => row.dataset_urn = urn :=
      hfilter ▸ List.mem_cons_of_mem _ hrow
    obtain ⟨c,hc,rfl⟩ := (mem_columns q hu row).mp hrow'
    exact hb.2 c hc
  have hagree := h q
  rw [hone,hmany] at hagree
  exact (Option.some.inj (Option.some.inj hagree)).symm

/-- Whatever orders the rows come in, the lookups agree on the URNs exactly if for each of
them the rows of least rank belong to one owner. -/
theorem lookups_agree (db : Tables) (hdepth : db.DepthOne) (urns : List Str) :
    (∀ q : Replies db, ∀ urn ∈ urns, Agree timestamp q urns urn) ↔
      ∀ urn ∈ urns, OneOwner timestamp db urn := by
  constructor
  · exact fun h urn hu => oneOwner_of_agree timestamp hu fun q => (h q urn hu).batch
  · exact fun h q urn hu => agree_of_oneOwner timestamp hdepth q hu (h urn hu)

def regularSource (id : ℕ) : IngestionSource where
  id := id
  mode := .DATAHUB_MANAGED
  name := []
  platform := []
  recipe := []
  schedule := none
  schedule_tier := none
  datahub_source_urn := none
  parent_source_id := none
  status := []
  created_at := 0
  updated_at := 0

def sampleRow (id : ℕ) : DatasetRow := ⟨id,['u'],matched,0⟩

def tied : Tables where
  sources := ⟨[regularSource 1,regularSource 2],by decide⟩
  datasets := ⟨[sampleRow 1,sampleRow 2],by decide⟩

theorem tied_depthOne : tied.DepthOne := by
  intro source hs p hp
  have : source = regularSource 1 ∨ source = regularSource 2 := by simpa [tied] using hs
  rcases this with rfl | rfl <;> cases hp

def backwards : Replies tied :=
  { stored tied with
    columns := fun urns => ((stored tied).columns urns).reverse
    columns_perm := fun _ => List.reverse_perm _ }

def seconds (t : ℤ) : ℚ := t/1000000

/-- A source and its wrapper that cover one dataset. -/
def wrapped : Tables where
  sources := ⟨[regularSource 1,{ regularSource 2 with parent_source_id := some 1 }],by decide⟩
  datasets := ⟨[sampleRow 1,sampleRow 2],by decide⟩

theorem lookups_agree_sample : Agree seconds (stored wrapped) [['u']] ['u'] := by
  have hdepth : wrapped.DepthOne := by
    rintro source (_ | ⟨_,_ | ⟨_,⟨⟩⟩⟩) p ⟨⟩ parent hparent
    cases hparent
    rfl
  have howner : ∀ pair ∈ wrapped.join, resolved wrapped pair.2 = regularSource 1 := by
    rintro pair (_ | ⟨_,_ | ⟨_,⟨⟩⟩⟩) <;> rfl
  refine (lookups_agree seconds wrapped hdepth [['u']]).mpr (fun urn _ a b ha hb => ?_) _ _
    (.head _)
  rw [howner a (List.mem_of_mem_filter ha.1),howner b (List.mem_of_mem_filter hb.1)]

theorem tied_owners :
    reverse_lookup seconds backwards ['u'] = some (regularSource 1) ∧
      get? ['u'] (reverse_lookup_batch seconds backwards [['u']]) =
        some (some (regularSource 2)) := by
  constructor
  · have hrows : backwards.rows ['u'] =
        [(sampleRow 1,regularSource 1),(sampleRow 2,regularSource 2)] := rfl
    rw [reverse_lookup_eq,hrows,argmin_cons_of_le]
    · rfl
    · intro pair hpair
      rw [List.mem_singleton.mp hpair]
      exact le_of_eq rfl
  · have hjoin : (sampleRow 2,regularSource 2) ∈ tied.join :=
      mem_join.mpr ⟨List.mem_cons_of_mem _ List.mem_cons_self,rfl⟩
    have hrows : (backwards.columns [['u']]).filter (fun row => row.dataset_urn = ['u']) =
        [Pair.columns (sampleRow 2,regularSource 2),Pair.columns (sampleRow 1,regularSource 1)] :=
      rfl
    refine batch_some seconds backwards hjoin ?_
    rw [first,hrows,argmin_cons_of_le]
    intro row hrow
    rw [List.mem_singleton.mp hrow]
    exact le_of_eq rfl

theorem lookups_disagree : ¬ ∀ db : Tables, db.DepthOne → ∀ (q : Replies db) (urns : List Str),
    ∀ urn ∈ urns, Agree seconds q urns urn := by
  intro h
  have hagree := (h tied tied_depthOne backwards [['u']] ['u'] (by simp)).batch
  rw [tied_owners.1,tied_owners.2] at hagree
  have hid := congrArg IngestionSource.id (Option.some.inj (Option.some.inj hagree))
  exact absurd hid (by decide)

end Agreement

end Lookup
end Ingestion
end Dataspoke
