import Dataspoke.FilterParser
import Dataspoke.MetagenStore
import Dataspoke.Registry
import Dataspoke.ThreeValued
import Mathlib.Data.List.Infix

/-!
# Coverage views of the metadata generation

Filters compiled to conditions on registry rows, and the three views built from them: the
confs that match a page of datasets, the datasets that no conf covers, and those that one
conf covers.
-/

namespace Dataspoke
namespace Coverage

open Python DatasetFilter Sql
open Registry (DatasetRegistry)
open Metagen (MetagenBoundary)

def scalarColumn (row : DatasetRegistry) : ScalarColumn → Option Str
  | .dataset_urn => some row.dataset_urn
  | .origin => row.origin
  | .platform_urn => row.platform_urn

def arrayColumn (row : DatasetRegistry) : ArrayColumn → List Str
  | .tag_urns => row.tag_urns
  | .glossary_term_urns => row.glossary_term_urns

def boolColumn (row : DatasetRegistry) : BoolColumn → Bool
  | .is_primary => row.is_primary

mutual

/-- `_compile`, as the condition's value on a row. -/
def compile (row : DatasetRegistry) : Node → Truth
  | .BoolNode .AND children => Truth.all (compileList row children)
  | .BoolNode .OR children => Truth.any (compileList row children)
  | .Equals column value => eq (scalarColumn row column) value
  | .NotEquals column value => ne (scalarColumn row column) value
  | .InList column values => eqAny (scalarColumn row column) values
  | .NotInList column values => (eqAny (scalarColumn row column) values).not
  | .BoolEquals column value => eq (some (boolColumn row column)) value
  | .ArrayContains column value => contains (arrayColumn row column) value
  | .ArrayNotContains column value => (contains (arrayColumn row column) value).not

def compileList (row : DatasetRegistry) : List Node → List Truth
  | [] => []
  | node::nodes => compile row node::compileList row nodes

end

abbrev Clause := DatasetRegistry → Truth

def filter_clause (ast : FilterAst) : Clause := fun row =>
  match ast.root with
  | none => some true
  | some root => compile row root

def dataset_filter_clause (dataset_filter : Str) : Except Exc Clause :=
  (parse_filter (some dataset_filter)).map filter_clause

structure MetagenConfig where
  id : ℕ
  name : Str
  is_enabled : Bool
  dataset_filter : Str

structure Tables where
  registry : Registry.Db
  boundaries : Table MetagenBoundary.dataset_urn
  confs : Table MetagenConfig.id

def Tables.enabled (db : Tables) : List MetagenConfig := db.confs.rows.filter (·.is_enabled)

/-- The registered rows, each with its boundary by a left join. -/
def Tables.registered (db : Tables) : List (DatasetRegistry × Option MetagenBoundary) :=
  (db.registry.rows.filter (·.datahub_registered)).map fun row =>
    (row,db.boundaries.get? row.dataset_urn)

def clauses (confs : List MetagenConfig) : Except Exc (List Clause) :=
  confs.mapM fun conf => dataset_filter_clause conf.dataset_filter

section Match

/-- Each conf whose column is true; NULL reads as no match. -/
def addMatches (batch : List MetagenConfig) (result : List (Str × List (ℕ × Str)))
    (row : Str × List Truth) : List (Str × List (ℕ × Str)) :=
  match get? row.1 result with
  | none => result
  | some found =>
    setItem row.1 (found ++ ((batch.zip row.2).filter fun p => p.2 = some true).map
      fun p => (p.1.id,p.1.name)) result

variable (db : Tables) (rows : Order (Str × List Truth))

/-- One statement of a batch, with a column for each conf. -/
def matchBatch (urns : List Str) (result : List (Str × List (ℕ × Str)))
    (batch : List MetagenConfig) : Except Exc (List (Str × List (ℕ × Str))) := do
  let columns ← clauses batch
  let selected := db.registered.filter fun joined => joined.1.dataset_urn ∈ urns
  return (rows.order (selected.map fun joined =>
    (joined.1.dataset_urn,columns.map fun clause => clause joined.1))).foldl
      (addMatches batch) result

def match_confs_for_urns (byName : Order MetagenConfig) (size : ℕ) (urns : List Str) :
    Except Exc (List (Str × List (ℕ × Str))) :=
  if urns = [] then .ok []
  else (slices size (byName.order db.enabled)).foldlM (matchBatch db rows urns)
    (urns.foldl (fun result urn => setItem urn [] result) [])

end Match

section Views

inductive Reason
  | no_conf_match | boundary_blocked
  deriving DecidableEq

structure UncoveredRow where
  dataset_urn : Str
  reason : Reason

structure CoveredDatasetRow where
  dataset_urn : Str
  is_enabled : Bool
  allowed : List Str
  blocked : Bool
  reason : Option Reason

/-- `coalesce(or_(…), false)`; with no conf it is false, as an empty `or_` is here. -/
def matched (columns : List Clause) (row : DatasetRegistry) : Truth :=
  some ((Truth.any (columns.map fun clause => clause row)).getD false)

def cardinality (boundary : Option MetagenBoundary) : ℕ :=
  (boundary.map (·.allowed.length)).getD 0

def writable (boundary : Option MetagenBoundary) : Truth :=
  Truth.all [some boundary.isSome,some (boundary.map (·.is_enabled) = some true),
    some (0 < cardinality boundary)]

def blocked (boundary : Option MetagenBoundary) : Truth :=
  Truth.any [some boundary.isNone,some (boundary.map (·.is_enabled) = some false),
    some (cardinality boundary = 0)]

inductive CoverageError
  | metagen_conf_not_found
  | filter (e : Exc)

/-- `column.ilike(f"%{text}%")` when there is a text to look for. -/
def search (ilike : Str → Str → Bool) (text : Option Str) (urn : Str) : Bool :=
  match text with
  | none => true
  | some text => text.isEmpty || ilike urn text

variable (ilike : Str → Str → Bool) (db : Tables)

def uncoveredRow (columns : List Clause) (joined : DatasetRegistry × Option MetagenBoundary) :
    UncoveredRow where
  dataset_urn := joined.1.dataset_urn
  reason :=
    if (matched columns joined.1).not = some true then .no_conf_match else .boundary_blocked

def uncoveredRows (columns : List Clause) (include_disallowed : Bool) (text : Option Str) :
    List UncoveredRow :=
  let base := whereTrue (fun joined =>
    if include_disallowed then
      Truth.any [(matched columns joined.1).not,(writable joined.2).not]
    else (matched columns joined.1).not) db.registered
  (base.filter fun joined => search ilike text joined.1.dataset_urn).map (uncoveredRow columns)

/-- The rows of a page, and how many there are in all. -/
def list_uncovered (confs : Order MetagenConfig) (pages : Order UncoveredRow)
    (include_disallowed : Bool) (text : Option Str) (offset limit : ℕ) :
    Except CoverageError (List UncoveredRow × ℕ) := do
  let columns ← (clauses (confs.order db.enabled)).mapError .filter
  let rows := uncoveredRows ilike db columns include_disallowed text
  return (page offset limit (pages.order rows),rows.length)

def coveredRow (joined : DatasetRegistry × Option MetagenBoundary) : CoveredDatasetRow where
  dataset_urn := joined.1.dataset_urn
  is_enabled := (joined.2.map (·.is_enabled)).getD false
  allowed := (joined.2.map (·.allowed)).getD []
  blocked := (blocked joined.2).getD false
  reason := if (blocked joined.2).getD false then some .boundary_blocked else none

def coveredRows (clause : Clause) (include_disallowed : Bool) (text : Option Str) :
    List CoveredDatasetRow :=
  let base := whereTrue (fun joined => clause joined.1) db.registered
  let base := if include_disallowed then base
    else whereTrue (fun joined => (blocked joined.2).not) base
  (base.filter fun joined => search ilike text joined.1.dataset_urn).map coveredRow

def list_covered_datasets (pages : Order CoveredDatasetRow) (conf_id : ℕ)
    (include_disallowed : Bool) (text : Option Str) (offset limit : ℕ) :
    Except CoverageError (List CoveredDatasetRow × ℕ) :=
  match db.confs.get? conf_id with
  | none => .error .metagen_conf_not_found
  | some conf => do
    let clause ← (dataset_filter_clause conf.dataset_filter).mapError .filter
    let rows := coveredRows ilike db clause include_disallowed text
    return (page offset limit (pages.order rows),rows.length)

end Views

def Valid (conf : MetagenConfig) : Prop :=
  ∃ ast, parse_filter (some conf.dataset_filter) = .ok ast

def compiled (conf : MetagenConfig) : Clause :=
  match dataset_filter_clause conf.dataset_filter with
  | .ok clause => clause
  | .error _ => fun _ => none

def Matches (conf : MetagenConfig) (row : DatasetRegistry) : Prop :=
  compiled conf row = some true

instance (conf : MetagenConfig) (row : DatasetRegistry) : Decidable (Matches conf row) :=
  inferInstanceAs (Decidable (compiled conf row = some true))

theorem dataset_filter_clause_of_valid {conf : MetagenConfig} (h : Valid conf) :
    dataset_filter_clause conf.dataset_filter = .ok (compiled conf) := by
  obtain ⟨ast,hast⟩ := h
  have hok : dataset_filter_clause conf.dataset_filter = .ok (filter_clause ast) := by
    rw [dataset_filter_clause,hast]
    rfl
  rw [compiled,hok]

theorem clauses_of_valid {confs : List MetagenConfig} (h : ∀ conf ∈ confs, Valid conf) :
    clauses confs = .ok (confs.map compiled) := by
  induction confs with
  | nil => rfl
  | cons conf confs ih =>
    have hrest := ih fun c hc => h c (List.mem_cons_of_mem _ hc)
    rw [clauses] at hrest ⊢
    rw [List.mapM_cons,dataset_filter_clause_of_valid (h conf List.mem_cons_self),hrest]
    rfl

/-- The negation of the coalesced union is true exactly where no conf's clause is. -/
theorem not_matched_iff {confs : List MetagenConfig} {row : DatasetRegistry} :
    (matched (confs.map compiled) row).not = some true ↔ ∀ conf ∈ confs, ¬Matches conf row := by
  rw [matched,Truth.not_some,Option.some.injEq,Bool.not_eq_true',← Bool.not_eq_true,
    Truth.getD_eq_true,Truth.any_eq_true]
  simp [Matches]

/-- A boundary is there, is enabled and allows something. -/
def Writable (boundary : Option MetagenBoundary) : Prop :=
  ∃ b, boundary = some b ∧ b.is_enabled = true ∧ b.allowed ≠ []

theorem not_writable_iff {boundary : Option MetagenBoundary} :
    (writable boundary).not = some true ↔ ¬Writable boundary := by
  rw [writable,Truth.not_all,Truth.any_eq_true]
  cases boundary with
  | none => simp [Writable]
  | some b =>
    cases he : b.is_enabled <;> cases ha : b.allowed <;> simp [Writable,cardinality,he,ha]

/-- A dataset is blocked exactly if it is not writable, as the columns are not NULL. -/
theorem not_blocked_iff {boundary : Option MetagenBoundary} :
    (blocked boundary).not = some true ↔ Writable boundary := by
  rw [blocked,Truth.not_eq_true]
  cases boundary with
  | none => simp [Writable,Truth.any,Truth.or]
  | some b =>
    cases he : b.is_enabled <;> cases ha : b.allowed <;>
      simp [Writable,cardinality,Truth.any,Truth.or,he,ha]

section Membership

variable {db : Tables}

theorem mem_enabled {conf : MetagenConfig} :
    conf ∈ db.enabled ↔ conf ∈ db.confs.rows ∧ conf.is_enabled = true := by
  simp [Tables.enabled]

theorem mem_registered {row : DatasetRegistry} {boundary : Option MetagenBoundary} :
    (row,boundary) ∈ db.registered ↔
      row ∈ db.registry.rows ∧ row.datahub_registered = true ∧
        boundary = db.boundaries.get? row.dataset_urn := by
  simp only [Tables.registered,List.mem_map,List.mem_filter,Prod.mk.injEq]
  constructor
  · rintro ⟨r,⟨hr,hreg⟩,rfl,rfl⟩
    exact ⟨hr,hreg,rfl⟩
  · rintro ⟨hr,hreg,rfl⟩
    exact ⟨row,⟨hr,hreg⟩,rfl,rfl⟩

theorem search_none (ilike : Str → Str → Bool) (urn : Str) : search ilike none urn = true := rfl

/-- Whom the uncovered view lists, and why. -/
theorem mem_uncoveredRows (ilike : Str → Str → Bool) {confs : List MetagenConfig}
    {include_disallowed : Bool} {u : UncoveredRow} :
    u ∈ uncoveredRows ilike db (confs.map compiled) include_disallowed none ↔
      ∃ row boundary, (row,boundary) ∈ db.registered ∧ row.dataset_urn = u.dataset_urn ∧
        ((∀ conf ∈ confs, ¬Matches conf row) ∧ u.reason = .no_conf_match ∨
          (∃ conf ∈ confs, Matches conf row) ∧ include_disallowed = true ∧
            ¬Writable boundary ∧ u.reason = .boundary_blocked) := by
  simp only [uncoveredRows,List.mem_map,List.mem_filter,search_none,and_true,mem_whereTrue,
    Prod.exists]
  refine exists_congr fun row => exists_congr fun boundary => ?_
  rw [and_assoc]
  refine and_congr_right fun _ => ?_
  by_cases hm : ∀ conf ∈ confs, ¬Matches conf row
  · have hn := not_matched_iff.mpr hm
    have hex : ¬∃ conf ∈ confs, Matches conf row := by
      rintro ⟨conf,hc,h⟩
      exact hm conf hc h
    have hcond : (if include_disallowed then
        Truth.any [(matched (confs.map compiled) row).not,(writable boundary).not]
        else (matched (confs.map compiled) row).not) = some true := by
      cases include_disallowed with
      | true => exact Truth.any_eq_true.mpr (by simp [hn])
      | false => exact hn
    have hrow : uncoveredRow (confs.map compiled) (row,boundary) =
        ⟨row.dataset_urn,.no_conf_match⟩ := by simp [uncoveredRow,hn]
    rw [hrow]
    constructor
    · rintro ⟨-,rfl⟩
      exact ⟨rfl,.inl ⟨hm,rfl⟩⟩
    · rintro ⟨hu,⟨-,hr⟩ | ⟨h,-⟩⟩
      · exact ⟨hcond,by rw [hu,← hr]⟩
      · exact absurd h hex
  · have hn : ¬(matched (confs.map compiled) row).not = some true :=
      fun h => hm (not_matched_iff.mp h)
    have hex : ∃ conf ∈ confs, Matches conf row := by
      push Not at hm
      exact hm
    have hcond : (if include_disallowed then
        Truth.any [(matched (confs.map compiled) row).not,(writable boundary).not]
        else (matched (confs.map compiled) row).not) = some true ↔
          include_disallowed = true ∧ ¬Writable boundary := by
      cases include_disallowed with
      | true => simp [Truth.any_eq_true,eq_comm (a:=some true),hn,not_writable_iff]
      | false => simp [hn]
    have hrow : uncoveredRow (confs.map compiled) (row,boundary) =
        ⟨row.dataset_urn,.boundary_blocked⟩ := by simp [uncoveredRow,hn]
    rw [hrow,hcond]
    constructor
    · rintro ⟨⟨hi,hw⟩,rfl⟩
      exact ⟨rfl,.inr ⟨hex,hi,hw,rfl⟩⟩
    · rintro ⟨hu,⟨h,-⟩ | ⟨-,hi,hw,hr⟩⟩
      · exact absurd h hm
      · exact ⟨⟨hi,hw⟩,by rw [hu,← hr]⟩

theorem mem_coveredRows (ilike : Str → Str → Bool) {conf : MetagenConfig} {urn : Str} :
    (∃ row ∈ coveredRows ilike db (compiled conf) false none, row.dataset_urn = urn) ↔
      ∃ row boundary, (row,boundary) ∈ db.registered ∧ row.dataset_urn = urn ∧
        Matches conf row ∧ Writable boundary := by
  simp only [coveredRows,List.mem_map,List.mem_filter,search_none,and_true,mem_whereTrue,
    Prod.exists,not_blocked_iff,Bool.false_eq_true,if_false]
  constructor
  · rintro ⟨_,⟨row,boundary,⟨⟨hreg,hm⟩,hw⟩,rfl⟩,rfl⟩
    exact ⟨row,boundary,hreg,rfl,hm,hw⟩
  · rintro ⟨row,boundary,hreg,rfl,hm,hw⟩
    exact ⟨_,⟨row,boundary,⟨⟨hreg,hm⟩,hw⟩,rfl⟩,rfl⟩

end Membership

section Matching

variable {db : Tables} (rows : Order (Str × List Truth))

def hits (batch : List MetagenConfig) (columns : List Truth) : List (ℕ × Str) :=
  ((batch.zip columns).filter fun p => p.2 = some true).map fun p => (p.1.id,p.1.name)

/-- A dataset's list grows by the hits of its own rows. -/
theorem get?_addMatches (batch : List MetagenConfig) (urn : Str)
    (selected : List (Str × List Truth)) (result : List (Str × List (ℕ × Str))) :
    get? urn (selected.foldl (addMatches batch) result) = (get? urn result).map fun found =>
      found ++ (selected.filter fun row => row.1 = urn).flatMap fun row => hits batch row.2 := by
  induction selected generalizing result with
  | nil => simp
  | cons row selected ih =>
    rw [List.foldl_cons,ih,addMatches]
    by_cases hu : row.1 = urn
    · subst hu
      cases hg : get? row.1 result with
      | none => simp [hg]
      | some found => simp [get?_setItem,hits]
    · have hf : (row::selected).filter (fun r => r.1 = urn) =
          selected.filter fun r => r.1 = urn := by simp [hu]
      rw [hf]
      split
      · rfl
      · rw [get?_setItem,if_neg (Ne.symm hu)]

theorem hits_compiled (batch : List MetagenConfig) (row : DatasetRegistry) :
    hits batch ((batch.map compiled).map fun clause => clause row) =
      (batch.filter fun conf => Matches conf row).map fun conf => (conf.id,conf.name) := by
  induction batch with
  | nil => rfl
  | cons conf batch ih =>
    have ih' : ((batch.zip ((batch.map compiled).map fun clause => clause row)).filter
        fun p => p.2 = some true).map (fun p => (p.1.id,p.1.name)) = _ := ih
    by_cases hm : compiled conf row = some true
    · simp [hits,Matches,hm] at ih' ⊢
      exact ih'
    · simp [hits,Matches,hm] at ih' ⊢
      exact ih'

/-- A registered dataset is one row of a batch's statement. -/
theorem selected_filter {urns : List Str} {row : DatasetRegistry}
    (hrow : row ∈ db.registry.rows) (hreg : row.datahub_registered = true)
    (hu : row.dataset_urn ∈ urns) (columns : List Clause) :
    ((rows.order ((db.registered.filter fun joined => joined.1.dataset_urn ∈ urns).map
      fun joined => (joined.1.dataset_urn,columns.map fun clause => clause joined.1))).filter
        fun r => r.1 = row.dataset_urn) =
      [(row.dataset_urn,columns.map fun clause => clause row)] := by
  have hone : db.registry.rows.filter (fun r => r.dataset_urn = row.dataset_urn &&
      (decide (r.dataset_urn ∈ urns) && r.datahub_registered)) = [row] := by
    rw [← Table.filter_key hrow]
    refine List.filter_congr fun r hr => ?_
    by_cases hk : r.dataset_urn = row.dataset_urn
    · have : r = row := Table.eq_of_key_eq hr hrow hk
      subst this
      simp [hu,hreg]
    · simp [hk]
  have hsel : ((db.registered.filter fun joined => joined.1.dataset_urn ∈ urns).map
      fun joined => (joined.1.dataset_urn,columns.map fun clause => clause joined.1)).filter
        (fun r => r.1 = row.dataset_urn) =
      [(row.dataset_urn,columns.map fun clause => clause row)] := by
    simp only [Tables.registered,List.filter_map,List.filter_filter,Function.comp_def,
      List.map_map]
    rw [hone]
    rfl
  exact List.perm_singleton.mp (hsel ▸ (rows.perm _).filter _)

/-- The loop over the batches gives a registered dataset its confs in their order. -/
theorem foldlM_matchBatch {urns : List Str} {row : DatasetRegistry}
    (hrow : row ∈ db.registry.rows) (hreg : row.datahub_registered = true)
    (hu : row.dataset_urn ∈ urns) {batches : List (List MetagenConfig)}
    (hvalid : ∀ batch ∈ batches, ∀ conf ∈ batch, Valid conf)
    {result : List (Str × List (ℕ × Str))} {found : List (ℕ × Str)}
    (hf : get? row.dataset_urn result = some found) :
    ∃ result', batches.foldlM (matchBatch db rows urns) result = .ok result' ∧
      get? row.dataset_urn result' = some (found ++
        (batches.flatten.filter fun conf => Matches conf row).map fun conf =>
          (conf.id,conf.name)) := by
  induction batches generalizing result found with
  | nil => exact ⟨result,rfl,by simpa using hf⟩
  | cons batch batches ih =>
    have hbatch := clauses_of_valid (hvalid batch List.mem_cons_self)
    obtain ⟨result',hr,hg⟩ := ih (fun b hb => hvalid b (List.mem_cons_of_mem _ hb))
      ((get?_addMatches batch row.dataset_urn _ result).trans
        (by rw [hf,selected_filter rows hrow hreg hu (batch.map compiled)]; rfl))
    refine ⟨result',?_,?_⟩
    · rw [List.foldlM_cons,matchBatch,hbatch]
      exact hr
    · rw [hg,List.flatten_cons,List.filter_append,List.map_append]
      simp only [List.flatMap_cons,List.flatMap_nil,List.append_nil,hits_compiled,
        List.append_assoc]

theorem match_confs_for_urns_eq (hvalid : ∀ conf ∈ db.enabled, Valid conf)
    (byName : Order MetagenConfig) {size : ℕ} (hs : 0 < size) {urns : List Str}
    {row : DatasetRegistry} (hrow : row ∈ db.registry.rows)
    (hreg : row.datahub_registered = true) (hu : row.dataset_urn ∈ urns) :
    ∃ result, match_confs_for_urns db rows byName size urns = .ok result ∧
      get? row.dataset_urn result = some
        (((byName.order db.enabled).filter fun conf => Matches conf row).map fun conf =>
          (conf.id,conf.name)) := by
  have hne : urns ≠ [] := List.ne_nil_of_mem hu
  have hflat := flatten_slices hs (byName.order db.enabled)
  have hbatches : ∀ batch ∈ slices size (byName.order db.enabled), ∀ conf ∈ batch,
      Valid conf := by
    intro batch hb conf hc
    have : conf ∈ (slices size (byName.order db.enabled)).flatten :=
      List.mem_flatten.mpr ⟨batch,hb,hc⟩
    rw [hflat,byName.mem] at this
    exact hvalid conf this
  have hinit : get? row.dataset_urn
      (urns.foldl (fun result urn => setItem urn [] result) []) =
        some ([] : List (ℕ × Str)) := by
    rw [get?_fromkeys,if_pos hu]
  obtain ⟨result,hr,hg⟩ := foldlM_matchBatch rows hrow hreg hu hbatches hinit
  refine ⟨result,?_,?_⟩
  · rw [match_confs_for_urns,if_neg hne]
    exact hr
  · rw [hg,hflat,List.nil_append]

end Matching

section Agreement

variable (ilike : Str → Str → Bool) (db : Tables) (rows : Order (Str × List Truth))
  (byName confs : Order MetagenConfig) (uncovered : Order UncoveredRow)
  (covered : Order CoveredDatasetRow)

/-- Some page of the uncovered view lists the dataset with the reason. -/
def Uncovered (include_disallowed : Bool) (urn : Str) (reason : Reason) : Prop :=
  ∃ offset limit page total,
    list_uncovered ilike db confs uncovered include_disallowed none offset limit =
      .ok (page,total) ∧ ⟨urn,reason⟩ ∈ page

/-- Some page of the conf's covered view lists the dataset. -/
def Covered (conf_id : ℕ) (urn : Str) : Prop :=
  ∃ offset limit page total,
    list_covered_datasets ilike db covered conf_id false none offset limit =
      .ok (page,total) ∧ ∃ row ∈ page, row.dataset_urn = urn

/-- The dataset is asked for, and no conf is found for it. -/
def Unmatched (size : ℕ) (urns : List Str) (urn : Str) : Prop :=
  ∃ result, match_confs_for_urns db rows byName size urns = .ok result ∧
    get? urn result = some []

variable {ilike db rows byName confs uncovered covered}

theorem uncovered_iff (hvalid : ∀ conf ∈ db.enabled, Valid conf) {include_disallowed : Bool}
    {urn : Str} {reason : Reason} :
    Uncovered ilike db confs uncovered include_disallowed urn reason ↔
      ⟨urn,reason⟩ ∈ uncoveredRows ilike db ((confs.order db.enabled).map compiled)
        include_disallowed none := by
  have hclauses := clauses_of_valid fun conf hc => hvalid conf ((confs.mem).mp hc)
  have hok : ∀ offset limit,
      list_uncovered ilike db confs uncovered include_disallowed none offset limit = .ok
        (page offset limit (uncovered.order (uncoveredRows ilike db
          ((confs.order db.enabled).map compiled) include_disallowed none)),
        (uncoveredRows ilike db ((confs.order db.enabled).map compiled)
          include_disallowed none).length) := by
    intro offset limit
    rw [list_uncovered,hclauses]
    rfl
  constructor
  · rintro ⟨offset,limit,page,total,h,hmem⟩
    rw [hok] at h
    obtain ⟨rfl,-⟩ := Prod.mk.inj (Except.ok.inj h)
    exact uncovered.mem.mp (page_subset _ _ _ hmem)
  · intro h
    have hmem := uncovered.mem.mpr h
    rw [← page_all (uncovered.order _)] at hmem
    exact ⟨0,_,_,_,hok 0 _,hmem⟩

theorem covered_iff {conf : MetagenConfig} (hconf : conf ∈ db.confs.rows) (hvalid : Valid conf)
    {urn : Str} : Covered ilike db covered conf.id urn ↔
      ∃ row ∈ coveredRows ilike db (compiled conf) false none, row.dataset_urn = urn := by
  have hok : ∀ offset limit,
      list_covered_datasets ilike db covered conf.id false none offset limit = .ok
        (page offset limit (covered.order (coveredRows ilike db (compiled conf) false none)),
        (coveredRows ilike db (compiled conf) false none).length) := by
    intro offset limit
    rw [list_covered_datasets,Table.mem_rows.mp hconf]
    dsimp only
    rw [dataset_filter_clause_of_valid hvalid]
    rfl
  constructor
  · rintro ⟨offset,limit,page,total,h,row,hmem,hurn⟩
    rw [hok] at h
    obtain ⟨rfl,-⟩ := Prod.mk.inj (Except.ok.inj h)
    exact ⟨row,covered.mem.mp (page_subset _ _ _ hmem),hurn⟩
  · rintro ⟨row,hrow,hurn⟩
    have hmem := covered.mem.mpr hrow
    rw [← page_all (covered.order _)] at hmem
    exact ⟨0,_,_,_,hok 0 _,row,hmem,hurn⟩

theorem unmatched_iff (hvalid : ∀ conf ∈ db.enabled, Valid conf) {size : ℕ} (hs : 0 < size)
    {urns : List Str} {row : DatasetRegistry} (hrow : row ∈ db.registry.rows)
    (hreg : row.datahub_registered = true) (hu : row.dataset_urn ∈ urns) :
    Unmatched db rows byName size urns row.dataset_urn ↔
      ∀ conf ∈ db.enabled, ¬Matches conf row := by
  obtain ⟨result,hr,hg⟩ := match_confs_for_urns_eq rows hvalid byName hs hrow hreg hu
  have hiff : (((byName.order db.enabled).filter fun conf => Matches conf row).map
      fun conf => (conf.id,conf.name)) = [] ↔ ∀ conf ∈ db.enabled, ¬Matches conf row := by
    rw [List.map_eq_nil_iff,List.filter_eq_nil_iff]
    simp [byName.mem]
  rw [← hiff]
  constructor
  · rintro ⟨result',hr',hg'⟩
    obtain rfl := Except.ok.inj (hr.symm.trans hr')
    exact Option.some.inj (hg.symm.trans hg')
  · exact fun h => ⟨result,hr,hg.trans (congrArg some h)⟩

theorem exists_row {urn : Str} (h : Registry.Registered db.registry urn) :
    ∃ row ∈ db.registry.rows, row.datahub_registered = true ∧ row.dataset_urn = urn := by
  obtain ⟨row,hrow,hflag⟩ := Option.map_eq_some_iff.mp h
  obtain ⟨hmem,hurn⟩ := Table.get?_eq_some.mp hrow
  exact ⟨row,hmem,hflag,hurn⟩

theorem registered_of_row {row : DatasetRegistry} (hrow : row ∈ db.registry.rows)
    (hflag : row.datahub_registered = true) :
    Registry.Registered db.registry row.dataset_urn :=
  Option.map_eq_some_iff.mpr ⟨row,Table.mem_rows.mp hrow,hflag⟩

/-- The views agree: a registered dataset is listed as matched by no conf exactly if no conf
is found for it, and the uncovered datasets with the disallowed ones are the registered
datasets that no enabled conf covers. -/
theorem views_agree (ilike : Str → Str → Bool) (db : Tables) (rows : Order (Str × List Truth))
    (byName confs : Order MetagenConfig) (uncovered : Order UncoveredRow)
    (covered : Order CoveredDatasetRow) (size : ℕ) (hs : 0 < size)
    (hvalid : ∀ conf ∈ db.enabled, Valid conf) :
    (∀ urn, Registry.Registered db.registry urn → ∀ include_disallowed urns, urn ∈ urns →
      (Uncovered ilike db confs uncovered include_disallowed urn .no_conf_match ↔
        Unmatched db rows byName size urns urn)) ∧
    ∀ urn, (∃ reason, Uncovered ilike db confs uncovered true urn reason) ↔
      Registry.Registered db.registry urn ∧
        ¬∃ conf ∈ db.enabled, Covered ilike db covered conf.id urn := by
  constructor
  · intro urn hreg include_disallowed urns hu
    obtain ⟨row,hrow,hflag,rfl⟩ := exists_row hreg
    rw [uncovered_iff hvalid,mem_uncoveredRows,unmatched_iff hvalid hs hrow hflag hu]
    constructor
    · rintro ⟨row',_,hmem,hurn,⟨hno,-⟩ | ⟨-,-,-,hr⟩⟩
      · obtain rfl := Table.eq_of_key_eq (mem_registered.mp hmem).1 hrow hurn
        exact fun conf hc => hno conf (confs.mem.mpr hc)
      · cases hr
    · intro hno
      exact ⟨row,_,mem_registered.mpr ⟨hrow,hflag,rfl⟩,rfl,
        .inl ⟨fun conf hc => hno conf (confs.mem.mp hc),rfl⟩⟩
  · intro urn
    constructor
    · rintro ⟨reason,h⟩
      obtain ⟨row,boundary,hmem,rfl,hcase⟩ := (mem_uncoveredRows ilike).mp
        ((uncovered_iff hvalid).mp h)
      obtain ⟨hrow,hflag,rfl⟩ := mem_registered.mp hmem
      refine ⟨registered_of_row hrow hflag,?_⟩
      rintro ⟨conf,hc,hcov⟩
      obtain ⟨row',_,hmem',hurn,hm,hw⟩ := (mem_coveredRows ilike).mp
        ((covered_iff (mem_enabled.mp hc).1 (hvalid conf hc)).mp hcov)
      obtain ⟨hrow',-,rfl⟩ := mem_registered.mp hmem'
      obtain rfl := Table.eq_of_key_eq hrow' hrow hurn
      rcases hcase with ⟨hno,-⟩ | ⟨-,-,hnw,-⟩
      · exact hno conf (confs.mem.mpr hc) hm
      · exact hnw hw
    · rintro ⟨hreg,hnone⟩
      obtain ⟨row,hrow,hflag,rfl⟩ := exists_row hreg
      have hmem := mem_registered.mpr ⟨hrow,hflag,rfl⟩
      by_cases hm : ∃ conf ∈ confs.order db.enabled, Matches conf row
      · have hw : ¬Writable (db.boundaries.get? row.dataset_urn) := by
          intro hw
          obtain ⟨conf,hc,hmatch⟩ := hm
          have hc := confs.mem.mp hc
          exact hnone ⟨conf,hc,(covered_iff (mem_enabled.mp hc).1 (hvalid conf hc)).mpr
            ((mem_coveredRows ilike).mpr ⟨row,_,hmem,rfl,hmatch,hw⟩)⟩
        exact ⟨.boundary_blocked,(uncovered_iff hvalid).mpr
          ((mem_uncoveredRows ilike).mpr ⟨row,_,hmem,rfl,.inr ⟨hm,rfl,hw,rfl⟩⟩)⟩
      · push Not at hm
        exact ⟨.no_conf_match,(uncovered_iff hvalid).mpr
          ((mem_uncoveredRows ilike).mpr ⟨row,_,hmem,rfl,.inl ⟨hm,rfl⟩⟩)⟩

/-- Containment up to case; the sample looks for no text. -/
def caseless (urn text : Str) : Bool := lower text <:+: lower urn

def sample : Tables where
  registry := ⟨[.new 0 ['u'] true,.new 0 ['v'] true],by decide⟩
  boundaries := ⟨[⟨['u'],true,[]⟩],by decide⟩
  confs := ⟨[⟨1,['c'],true,[]⟩],by decide⟩

def asStored {α : Type} : Order α := ⟨id,fun _ => .refl _⟩

theorem views_agree_sample :
    (∀ urn, Registry.Registered sample.registry urn → ∀ include_disallowed urns, urn ∈ urns →
      (Uncovered caseless sample asStored asStored include_disallowed urn .no_conf_match ↔
        Unmatched sample asStored asStored 8 urns urn)) ∧
    ∀ urn, (∃ reason, Uncovered caseless sample asStored asStored true urn reason) ↔
      Registry.Registered sample.registry urn ∧
        ¬∃ conf ∈ sample.enabled, Covered caseless sample asStored conf.id urn :=
  views_agree caseless sample asStored asStored asStored asStored asStored 8 (by decide)
    fun conf hc => by
      have : conf = ⟨1,['c'],true,[]⟩ := by simpa [Tables.enabled,sample] using hc
      exact this ▸ ⟨⟨none⟩,rfl⟩

end Agreement

end Coverage
end Dataspoke
