import Dataspoke.ThreeValued
import Dataspoke.ValidationRuns

/-!
# Listing validation across datasets

The listings of the datasets that have a configuration, of those that have none, and of both.
-/

namespace Dataspoke
namespace Validation
namespace Store

open Python Transition
open Registry (DatasetRegistry)
open Sql (Order page page_all)

/-- How the database orders texts, which tells different texts apart. -/
structure Collation where
  le : Str → Str → Bool
  trans : ∀ a b c, le a b = true → le b c = true → le a c = true
  total : ∀ a b, (le a b || le b a) = true
  antisymm : ∀ a b, le a b = true → le b a = true → a = b

structure ListItem where
  dataset_urn : Str
  description : Option Str
  variable_count : Option ℕ
  latest_data_time : Option ℕ
  latest_score : Option Number
  updated_at : ℕ

section Listings

variable (ilike : Str → Str → Bool) (K : Collation) (db : Db) (text : Option Str)

/-- `dataset_urn.ilike(f"%{text}%")` where there is a text to look for. -/
def found (urn : Str) : Bool := text.all fun t => t.isEmpty || ilike urn t

def coveredItem (latest : List (Str × ℕ × Number)) (c : Config) : ListItem where
  dataset_urn := c.dataset_urn
  description := some c.description
  variable_count := some c.«variables».length
  latest_data_time := (get? c.dataset_urn latest).map (·.1)
  latest_score := (get? c.dataset_urn latest).map (·.2)
  updated_at := c.updated_at

def uncoveredItem (row : DatasetRegistry) : ListItem :=
  ⟨row.dataset_urn,none,none,none,none,row.updated_at⟩

def list_covered (order : Order Config) (offset limit : ℕ) : List ListItem × ℕ :=
  let base := db.configs.rows.filter fun c => found ilike text c.dataset_urn
  let config_rows := page offset limit (order.order base)
  let latest_by_urn := latest_results_by_urn db.results (config_rows.map (·.dataset_urn))
  (config_rows.map (coveredItem latest_by_urn),base.length)

/-- The registered datasets that are found, each with its configuration. -/
def joined : List (DatasetRegistry × Option Config) :=
  (db.registry.rows.filter fun row => row.datahub_registered && found ilike text row.dataset_urn).map
    fun row => (row,db.configs.get? row.dataset_urn)

/-- `ORDER BY dataset_urn`. -/
def byUrn (a b : DatasetRegistry × Option Config) : Bool := K.le a.1.dataset_urn b.1.dataset_urn

def list_uncovered (offset limit : ℕ) : List ListItem × ℕ :=
  let base := (joined ilike db text).filter fun r => r.2.isNone
  ((page offset limit (base.mergeSort (byUrn K))).map fun r => uncoveredItem r.1,base.length)

/-- `ORDER BY conf.updated_at DESC NULLS LAST, dataset_urn`. -/
def byUpdate (a b : DatasetRegistry × Option Config) : Bool :=
  match a.2, b.2 with
  | some c, some c' => c'.updated_at < c.updated_at || c.updated_at = c'.updated_at && byUrn K a b
  | some _, none => true
  | none, some _ => false
  | none, none => byUrn K a b

def list_both (offset limit : ℕ) : List ListItem × ℕ :=
  let base := joined ilike db text
  let rows := page offset limit (base.mergeSort (byUpdate K))
  let covered_urns := (rows.filter fun r => r.2.isSome).map (·.1.dataset_urn)
  let latest_by_urn := latest_results_by_urn db.results covered_urns
  (rows.map fun r => r.2.elim (uncoveredItem r.1) (coveredItem latest_by_urn),base.length)

end Listings

variable {ilike : Str → Str → Bool} {K : Collation} {db : Db} {text : Option Str}

/-- The latest result of a dataset. -/
def newestResult (results : Table ValidationResult.id) (urn : Str) : Option (ℕ × Number) :=
  (history results urn none none).head?.map fun r => (r.data_time,r.score)

/-- An item, whatever page it is on. -/
def item (results : Table ValidationResult.id) (c : Config) : ListItem :=
  ⟨c.dataset_urn,some c.description,some c.«variables».length,
    (newestResult results c.dataset_urn).map (·.1),(newestResult results c.dataset_urn).map (·.2),
    c.updated_at⟩

theorem coveredItem_eq {results : Table ValidationResult.id} {urns : List Str} {c : Config}
    (hd : Distinct results c.dataset_urn) (hurn : c.dataset_urn ∈ urns) :
    coveredItem (latest_results_by_urn results urns) c = item results c := by
  have hlatest : get? c.dataset_urn (latest_results_by_urn results urns) =
      newestResult results c.dataset_urn := by
    rw [latest_results_by_urn,if_neg (List.ne_nil_of_mem hurn)]
    exact get?_measured_latest hd hurn
  rw [coveredItem,item,hlatest]

theorem list_covered_eq (hd : ∀ urn, Distinct db.results urn) (order : Order Config)
    (offset limit : ℕ) :
    list_covered ilike db text order offset limit =
      (page offset limit ((order.order (db.configs.rows.filter fun c =>
          found ilike text c.dataset_urn)).map (item db.results)),
        (db.configs.rows.filter fun c => found ilike text c.dataset_urn).length) := by
  unfold list_covered
  dsimp only
  rw [page,page,← List.map_drop,← List.map_take]
  refine Prod.ext (List.map_congr_left fun c hc => ?_) rfl
  exact coveredItem_eq (hd _) (List.mem_map_of_mem hc)

/-- The item of a registered dataset. -/
def joinedItem (results : Table ValidationResult.id) (r : DatasetRegistry × Option Config) :
    ListItem := r.2.elim (uncoveredItem r.1) (item results)

theorem mem_joined {r : DatasetRegistry × Option Config} : r ∈ joined ilike db text ↔
    r.1 ∈ db.registry.rows ∧ r.1.datahub_registered = true ∧
      found ilike text r.1.dataset_urn = true ∧ r.2 = db.configs.get? r.1.dataset_urn := by
  unfold joined
  rw [List.mem_map]
  constructor
  · rintro ⟨row,hrow,rfl⟩
    obtain ⟨hrow,hboth⟩ := List.mem_filter.mp hrow
    exact ⟨hrow,(Bool.and_eq_true_iff.mp hboth).1,(Bool.and_eq_true_iff.mp hboth).2,rfl⟩
  · rintro ⟨hrow,hreg,hfound,hc⟩
    exact ⟨r.1,List.mem_filter.mpr ⟨hrow,Bool.and_eq_true_iff.mpr ⟨hreg,hfound⟩⟩,
      Prod.ext rfl hc.symm⟩

theorem list_both_eq (hd : ∀ urn, Distinct db.results urn) (offset limit : ℕ) :
    list_both ilike K db text offset limit =
      (page offset limit (((joined ilike db text).mergeSort (byUpdate K)).map
        (joinedItem db.results)),(joined ilike db text).length) := by
  unfold list_both
  dsimp only
  rw [page,page,← List.map_drop,← List.map_take]
  refine Prod.ext (List.map_congr_left fun r hr => ?_) rfl
  obtain ⟨row,conf⟩ := r
  cases conf with
  | none => rfl
  | some c =>
    have hin := mem_joined.mp (List.mem_mergeSort.mp (List.mem_of_mem_drop (List.mem_of_mem_take hr)))
    have hkey : c.dataset_urn = row.dataset_urn := (Table.get?_eq_some.mp hin.2.2.2.symm).2
    refine coveredItem_eq (hd _) ?_
    rw [hkey]
    exact List.mem_map.mpr ⟨(row,some c),List.mem_filter.mpr ⟨hr,rfl⟩,rfl⟩

theorem byUrn_trans (a b c : DatasetRegistry × Option Config) (hab : byUrn K a b = true)
    (hbc : byUrn K b c = true) : byUrn K a c = true := K.trans _ _ _ hab hbc

theorem byUrn_total (a b : DatasetRegistry × Option Config) :
    (byUrn K a b || byUrn K b a) = true := K.total _ _

theorem byUpdate_trans (a b c : DatasetRegistry × Option Config) (hab : byUpdate K a b = true)
    (hbc : byUpdate K b c = true) : byUpdate K a c = true := by
  obtain ⟨a,x⟩ := a
  obtain ⟨b,y⟩ := b
  obtain ⟨c,z⟩ := c
  cases x <;> cases y <;> cases z <;>
    simp only [byUpdate,Bool.or_eq_true,Bool.and_eq_true,decide_eq_true_eq,reduceCtorEq] at hab hbc ⊢
  · exact byUrn_trans _ _ _ hab hbc
  · rename_i x y z
    rcases hab with hab | hab
    · exact .inl (by rcases hbc with hbc | hbc <;> omega)
    · rcases hbc with hbc | hbc
      · exact .inl (by omega)
      · exact .inr ⟨hab.1.trans hbc.1,byUrn_trans _ _ _ hab.2 hbc.2⟩

theorem byUpdate_total (a b : DatasetRegistry × Option Config) :
    (byUpdate K a b || byUpdate K b a) = true := by
  obtain ⟨a,x⟩ := a
  obtain ⟨b,y⟩ := b
  cases x with
  | none =>
    cases y with
    | none => exact byUrn_total _ _
    | some y => rfl
  | some x =>
    cases y with
    | none => rfl
    | some y =>
      have htotal := byUrn_total (K := K) (a,some x) (b,some y)
      simp only [byUpdate,Bool.or_eq_true,Bool.and_eq_true,decide_eq_true_eq] at htotal ⊢
      rcases Nat.lt_trichotomy y.updated_at x.updated_at with hlt | heq | hlt
      · exact .inl (.inl hlt)
      · exact htotal.imp (fun h => .inr ⟨heq.symm,h⟩) fun h => .inr ⟨heq,h⟩
      · exact .inr (.inl hlt)

/-- A list in which what satisfies `p` comes first. -/
theorem eq_append_filter {α : Type*} {p : α → Bool} {l : List α}
    (hl : l.Pairwise fun a b => p b = true → p a = true) :
    l = l.filter p ++ l.filter fun a => !p a := by
  induction l with
  | nil => rfl
  | cons a l ih =>
    obtain ⟨ha,hl⟩ := List.pairwise_cons.mp hl
    cases hp : p a with
    | true =>
      rw [List.filter_cons_of_pos hp,List.filter_cons_of_neg (by simp [hp]),List.cons_append]
      exact congrArg (a::·) (ih hl)
    | false =>
      have hnone : l.filter p = [] := List.filter_eq_nil_iff.mpr fun b hb hpb => by
        rw [ha b hb hpb] at hp
        cases hp
      have hall : (l.filter fun a => !p a) = l := List.filter_eq_self.mpr fun b hb => by
        have hpb := List.filter_eq_nil_iff.mp hnone b hb
        simpa using hpb
      rw [List.filter_cons_of_neg (by simp [hp]),List.filter_cons_of_pos (by simp [hp]),hnone,hall]
      rfl

theorem joined_nodup : ((joined ilike db text).map (·.1.dataset_urn)).Nodup := by
  have heq : (joined ilike db text).map (·.1.dataset_urn) = (db.registry.rows.filter fun row =>
      row.datahub_registered && found ilike text row.dataset_urn).map (·.dataset_urn) := by
    rw [joined,List.map_map]
    rfl
  rw [heq]
  exact db.registry.nodup.sublist (List.filter_sublist.map _)

/-- Those without a configuration come last in the listing of both, in the order of the listing
of their own. -/
theorem uncovered_of_both :
    (((joined ilike db text).mergeSort (byUpdate K)).filter fun r => r.2.isNone) =
      ((joined ilike db text).filter fun r => r.2.isNone).mergeSort (byUrn K) := by
  have hsorted : (((joined ilike db text).mergeSort (byUpdate K)).filter fun r => r.2.isNone).Pairwise
      fun a b => byUrn K a b = true := by
    have hpair := List.pairwise_mergeSort byUpdate_trans (byUpdate_total (K := K))
      (joined ilike db text)
    refine (hpair.filter fun r => r.2.isNone).imp_of_mem fun {a b} ha hb hab => ?_
    obtain ⟨row,conf⟩ := a
    obtain ⟨row',conf'⟩ := b
    have hconf := Option.isNone_iff_eq_none.mp (List.mem_filter.mp ha).2
    have hconf' := Option.isNone_iff_eq_none.mp (List.mem_filter.mp hb).2
    dsimp only at hconf hconf'
    subst hconf hconf'
    exact hab
  have hsorted' := List.pairwise_mergeSort byUrn_trans (byUrn_total (K := K))
    ((joined ilike db text).filter fun r => r.2.isNone)
  have hperm : (((joined ilike db text).mergeSort (byUpdate K)).filter fun r => r.2.isNone).Perm
      (((joined ilike db text).filter fun r => r.2.isNone).mergeSort (byUrn K)) :=
    ((List.mergeSort_perm _ _).filter _).trans (List.mergeSort_perm _ _).symm
  refine hperm.eq_of_pairwise (fun a b ha hb hab hba => ?_) hsorted hsorted'
  have ha := (List.mem_filter.mp ha).1
  have hb := List.mem_mergeSort.mp hb
  exact List.inj_on_of_nodup_map joined_nodup (List.mem_mergeSort.mp ha) (List.mem_filter.mp hb).1
    (K.antisymm _ _ hab hba)

theorem both_split : (joined ilike db text).mergeSort (byUpdate K) =
    (((joined ilike db text).mergeSort (byUpdate K)).filter fun r => r.2.isSome) ++
      ((joined ilike db text).filter fun r => r.2.isNone).mergeSort (byUrn K) := by
  rw [← uncovered_of_both]
  have hfirst : ((joined ilike db text).mergeSort (byUpdate K)).Pairwise
      fun a b => b.2.isSome = true → a.2.isSome = true := by
    refine (List.pairwise_mergeSort byUpdate_trans byUpdate_total _).imp fun {a b} hab hb => ?_
    obtain ⟨row,conf⟩ := a
    obtain ⟨row',conf'⟩ := b
    cases conf <;> cases conf'
    · exact hb
    · exact absurd hab Bool.false_ne_true
    · rfl
    · rfl
  refine (eq_append_filter hfirst).trans ?_
  congr 1
  exact List.filter_congr fun r _ => Option.not_isSome r.2

theorem known_items (results : Table ValidationResult.id) (l : List (DatasetRegistry × Option Config)) :
    (l.filter fun r => r.2.isSome).map (joinedItem results) =
      (l.filterMap Prod.snd).map (item results) := by
  induction l with
  | nil => rfl
  | cons r l ih =>
    obtain ⟨row,conf⟩ := r
    cases conf with
    | none => exact ih
    | some c => exact congrArg (item results c::·) ih

theorem joined_key {r : DatasetRegistry × Option Config} (hr : r ∈ joined ilike db text) {c : Config}
    (hc : r.2 = some c) : c.dataset_urn = r.1.dataset_urn := by
  have hrow := (mem_joined.mp hr).2.2.2
  rw [hc] at hrow
  exact (Table.get?_eq_some.mp hrow.symm).2

theorem joined_configs : ((joined ilike db text).filterMap Prod.snd).Perm
    ((db.configs.rows.filter fun c => found ilike text c.dataset_urn).filter fun c =>
      Registry.flag? db.registry c.dataset_urn = some true) := by
  have hnodup : ((joined ilike db text).filterMap Prod.snd).Nodup := by
    refine List.Nodup.of_map Config.dataset_urn ?_
    rw [List.map_filterMap]
    have hsub : ((joined ilike db text).filterMap fun r => r.2.map (·.dataset_urn)).Sublist
        ((joined ilike db text).map (·.1.dataset_urn)) := by
      have hmem : ∀ r ∈ joined ilike db text, ∀ c, r.2 = some c → c.dataset_urn = r.1.dataset_urn :=
        fun r hr c hc => joined_key hr hc
      revert hmem
      generalize joined ilike db text = l
      intro hmem
      induction l with
      | nil => exact List.Sublist.slnil
      | cons r l ih =>
        have htail := ih fun r hr => hmem r (List.mem_cons_of_mem _ hr)
        cases hc : r.2 with
        | none =>
          rw [List.filterMap_cons_none (by rw [hc]; rfl)]
          exact htail.cons _
        | some c =>
          rw [List.filterMap_cons_some (by rw [hc]; rfl),List.map_cons,
            ← hmem r List.mem_cons_self c hc]
          exact htail.cons_cons _
    exact joined_nodup.sublist hsub
  have hrows : db.configs.rows.Nodup := db.configs.nodup.of_map
  refine (List.perm_ext_iff_of_nodup hnodup ((hrows.filter _).filter _)).mpr fun c => ?_
  rw [List.mem_filterMap,List.mem_filter,List.mem_filter,decide_eq_true_eq]
  constructor
  · rintro ⟨r,hr,hc⟩
    obtain ⟨hrow,hreg,hfound,hconf⟩ := mem_joined.mp hr
    have hkey := joined_key hr hc
    rw [hc] at hconf
    refine ⟨⟨(Table.get?_eq_some.mp hconf.symm).1,by rwa [hkey]⟩,?_⟩
    rw [hkey,Registry.flag?_row hrow,hreg]
  · rintro ⟨⟨hc,hfound⟩,hflag⟩
    obtain ⟨row,hrow,hurn,hreg⟩ := Registry.flag?_eq_some.mp hflag
    refine ⟨(row,some c),mem_joined.mpr ⟨hrow,hreg,?_,?_⟩,rfl⟩
    · rwa [hurn]
    · dsimp only
      rw [hurn]
      exact (Table.mem_rows.mp hc).symm

/-- The listing of both is that of the registered datasets with a configuration, the latest update
first, and after it the listing of those without one; its total is the sum of theirs. -/
theorem validation_listings_agree {R : Runtime} (hr : Reachable (system R) db)
    (ilike : Str → Str → Bool) (K : Collation) (order : Order Config) (text : Option Str) :
    let covered := list_covered ilike db text order
    let uncovered := list_uncovered ilike K db text
    let both := list_both ilike K db text
    ∃ known : List ListItem,
      known.Perm ((covered 0 (covered 0 0).2).1.filter fun i =>
        Registry.flag? db.registry i.dataset_urn = some true) ∧
      known.Pairwise (fun a b => b.updated_at ≤ a.updated_at) ∧
      ∀ offset limit,
        both offset limit = (page offset limit (known ++ (uncovered 0 (uncovered 0 0).2).1),
          known.length + (uncovered 0 0).2) ∧
        covered offset limit =
          (page offset limit (covered 0 (covered 0 0).2).1,(covered 0 0).2) ∧
        uncovered offset limit =
          (page offset limit (uncovered 0 (uncovered 0 0).2).1,(uncovered 0 0).2) := by
  intro covered uncovered both
  obtain ⟨db₀,h,h₀,hr⟩ := hr
  have hd := (run_invariant h₀ hr).distinct_results
  let bare := ((joined ilike db text).filter fun r => r.2.isNone).mergeSort (byUrn K)
  let sorted := (joined ilike db text).mergeSort (byUpdate K)
  let known := sorted.filter fun r => r.2.isSome
  let base := db.configs.rows.filter fun c => found ilike text c.dataset_urn
  have hcovered : ∀ offset limit, covered offset limit =
      (page offset limit ((order.order base).map (item db.results)),base.length) :=
    fun offset limit => list_covered_eq hd order offset limit
  have hfull : (covered 0 (covered 0 0).2).1 = (order.order base).map (item db.results) := by
    have hlength : (covered 0 0).2 = ((order.order base).map (item db.results)).length := by
      rw [hcovered,List.length_map]
      exact (order.perm base).length_eq.symm
    rw [hlength,hcovered]
    exact page_all _
  have hbare : bare.map (joinedItem db.results) = bare.map fun r => uncoveredItem r.1 := by
    refine List.map_congr_left fun r hr => ?_
    have hnone := (List.mem_filter.mp (List.mem_mergeSort.mp hr)).2
    rw [joinedItem,Option.isNone_iff_eq_none.mp hnone]
    rfl
  have hall : sorted.map (joinedItem db.results) =
      known.map (joinedItem db.results) ++ bare.map fun r => uncoveredItem r.1 := by
    rw [← hbare,← List.map_append]
    exact congrArg _ both_split
  have huncovered : (uncovered 0 (uncovered 0 0).2).1 = bare.map fun r => uncoveredItem r.1 := by
    have hlength : (uncovered 0 0).2 = bare.length := (List.length_mergeSort _).symm
    rw [hlength]
    exact congrArg _ (page_all bare)
  have hcount : (joined ilike db text).length = known.length + bare.length := by
    have hlength : sorted.length = known.length + bare.length :=
      (congrArg List.length both_split).trans List.length_append
    rwa [List.length_mergeSort] at hlength
  refine ⟨known.map (joinedItem db.results),?_,?_,fun offset limit => ⟨?_,?_,?_⟩⟩
  · rw [hfull,List.filter_map,known_items]
    refine List.Perm.map _ (((List.mergeSort_perm _ _).filterMap _).trans (joined_configs.trans ?_))
    exact ((order.perm base).filter _).symm
  · refine List.pairwise_map.mpr ?_
    have hpair := List.pairwise_mergeSort byUpdate_trans (byUpdate_total (K := K))
      (joined ilike db text)
    refine (hpair.filter fun r => r.2.isSome).imp_of_mem fun {a b} ha hb hab => ?_
    obtain ⟨c,hc⟩ := Option.isSome_iff_exists.mp (List.mem_filter.mp ha).2
    obtain ⟨c',hc'⟩ := Option.isSome_iff_exists.mp (List.mem_filter.mp hb).2
    rw [joinedItem,joinedItem,hc,hc']
    rw [byUpdate,hc,hc'] at hab
    simp only [Bool.or_eq_true,Bool.and_eq_true,decide_eq_true_eq] at hab
    change c'.updated_at ≤ c.updated_at
    omega
  · refine (list_both_eq hd offset limit).trans (Prod.ext ?_ ?_)
    · rw [huncovered]
      exact congrArg (page offset limit) hall
    · rw [List.length_map]
      exact hcount.trans (congrArg (known.length + ·) (List.length_mergeSort _))
  · rw [hfull,hcovered,hcovered]
  · rw [huncovered]
    refine Prod.ext ?_ rfl
    change (page offset limit bare).map _ = page offset limit (bare.map _)
    rw [page,page,List.map_take,List.map_drop]

def codePoints : Collation where
  le a b := decide (a ≤ b)
  trans _ _ _ hab hbc := decide_eq_true ((of_decide_eq_true hab).trans (of_decide_eq_true hbc))
  total a b := by
    rw [Bool.or_eq_true,decide_eq_true_eq,decide_eq_true_eq]
    exact le_total a b
  antisymm _ _ hab hba := le_antisymm (of_decide_eq_true hab) (of_decide_eq_true hba)

/-- Three datasets are registered, and the configuration of one of them is deleted. -/
def listingRequests : List (Meet × Request) :=
  [(meetAt 1 .done,.upsert ['u'] [] [] none none true),
    (meetAt 2 .done,.record ['u'] 5 (.fin 1) [] none 0 0),
    (meetAt 3 .refused,.upsert ['w'] [] [⟨['v'],[]⟩] none none true),
    (meetAt 4 .done,.upsert ['x'] [] [] none none true),(meetAt 5 .done,.delete ['x'])]

/-- Two datasets with a configuration come before the one without. -/
theorem validation_listings_agree_sample : ∃ (db : Db) (known : List ListItem),
    known.length = 2 ∧ (list_uncovered (fun _ _ => true) codePoints db none 0 0).2 = 1 ∧
    ∀ offset limit, (list_both (fun _ _ => true) codePoints db none offset limit).1 =
      page offset limit (known ++ (list_uncovered (fun _ _ => true) codePoints db none 0 1).1) := by
  obtain ⟨h,db,hr,hp⟩ := exists_run_of_replay (i := Fresh) (f := step sampleRuntime) (s := emptyDb)
    (l := listingRequests)
    (p := fun x => (list_uncovered (fun _ _ => true) codePoints x.2 none 0 0).2 = 1 ∧
      (list_both (fun _ _ => true) codePoints x.2 none 0 0).2 = 3) (by decide +kernel)
  obtain ⟨huncovered,hboth⟩ := of_decide_eq_true hp
  obtain ⟨known,-,-,hpages⟩ := validation_listings_agree ⟨emptyDb,h,emptyDb_fresh,hr⟩
    (fun _ _ => true) codePoints ⟨id,fun _ => .refl _⟩ none
  simp only [huncovered] at hpages
  have htotal : known.length+1 = 3 := (congrArg Prod.snd (hpages 0 0).1).symm.trans hboth
  exact ⟨db,known,by omega,huncovered,fun offset limit => congrArg Prod.fst (hpages offset limit).1⟩

end Store
end Validation
end Dataspoke
