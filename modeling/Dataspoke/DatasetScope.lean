import Dataspoke.FilterFormat
import Dataspoke.MetagenCoverage
import Mathlib.Data.Char
import Mathlib.Data.List.Lex
import Mathlib.Data.List.Sort

/-!
# The scope of a filter

`resolve_dataset_scope`: the registered datasets that a filter selects, narrowed to the URNs of
an override, and the named URNs that are reported as unresolved.
-/

namespace Dataspoke
namespace DatasetScope

open Python DatasetFilter Sql Coverage
open Registry (DatasetRegistry)

def addUrn (found : List Str) (value : Str) : List Str :=
  if value ∈ found then found else found ++ [value]

mutual

def walk (found : List Str) : Node → List Str
  | .BoolNode _ children => walkList found children
  | .Equals .dataset_urn value | .NotEquals .dataset_urn value => addUrn found value
  | .InList .dataset_urn values | .NotInList .dataset_urn values => values.foldl addUrn found
  | _ => found

def walkList (found : List Str) : List Node → List Str
  | [] => found
  | node::nodes => walkList (walk found node) nodes

end

def literal_dataset_urns (ast : FilterAst) : List Str := ast.root.elim [] (walk [])

structure ResolvedDatasetScope where
  resolved_urns : List Str
  unresolved_urns : List Str

def condition (ast : FilterAst) (override : Option (List Str)) (row : DatasetRegistry) : Truth :=
  Truth.all ([some row.datahub_registered,filter_clause ast row] ++
    override.elim [] fun urns => [eqAny (some row.dataset_urn) urns])

def sortedSet (urns : List Str) : List Str := urns.dedup.insertionSort (· ≤ ·)

/-- The generator reads `named` while it grows. -/
def namedUrns (ast : FilterAst) (override : Option (List Str)) : List Str :=
  (override.getD []).foldl addUrn (literal_dataset_urns ast)

def scopeOf (db : Registry.Db) (rows : Order DatasetRegistry) (ast : FilterAst)
    (override : Option (List Str)) : ResolvedDatasetScope :=
  let resolved := sortedSet
    ((rows.order (whereTrue (condition ast override) db.rows)).map (·.dataset_urn))
  { resolved_urns := resolved
    unresolved_urns := (namedUrns ast override).filter fun urn => urn ∉ resolved }

/-- `resolve_dataset_scope`; `rows` is the order in which the statement returns its rows. -/
def resolve_dataset_scope (db : Registry.Db) (rows : Order DatasetRegistry)
    (dataset_filter : Option Str) (override : Option (List Str)) :
    Except Exc ResolvedDatasetScope :=
  (parse_filter dataset_filter).map fun ast => scopeOf db rows ast override

mutual

/-- The `dataset_urn` literals of a filter, in source order. -/
def literals : Node → List Str
  | .BoolNode _ children => literalsList children
  | .Equals .dataset_urn value | .NotEquals .dataset_urn value => [value]
  | .InList .dataset_urn values | .NotInList .dataset_urn values => values
  | _ => []

def literalsList : List Node → List Str
  | [] => []
  | node::nodes => literals node ++ literalsList nodes

end

/-- The URNs that the filter and then the override name. -/
def mentions (ast : FilterAst) (override : Option (List Str)) : List Str :=
  ast.root.elim [] literals ++ override.getD []

/-- A registered dataset that the filter selects, and the override names if there is one. -/
structure Selected (db : Registry.Db) (ast : FilterAst) (override : Option (List Str))
    (row : DatasetRegistry) : Prop where
  mem : row ∈ db.rows
  registered : row.datahub_registered = true
  satisfies : filter_clause ast row = some true
  named : ∀ urns, override = some urns → row.dataset_urn ∈ urns

open Classical in
/-- The scope as it is meant: each named URN that is not registered is reported once, in the
order in which they are first named. -/
structure Exact (db : Registry.Db) (ast : FilterAst) (override : Option (List Str))
    (scope : ResolvedDatasetScope) : Prop where
  sorted : scope.resolved_urns.Pairwise (· < ·)
  resolved : ∀ urn, urn ∈ scope.resolved_urns ↔
    ∃ row, Selected db ast override row ∧ row.dataset_urn = urn
  unresolved : scope.unresolved_urns =
    (mentions ast override).eraseDups.filter fun urn => ¬ Registry.Registered db urn

theorem foldl_addUrn (urns : List Str) : urns.foldl addUrn [] = urns.eraseDups := by
  induction urns using List.reverseRecOn with
  | nil => rfl
  | append_singleton urns urn ih =>
    rw [List.foldl_append,ih,List.eraseDups_append,List.foldl_cons,List.foldl_nil,addUrn]
    have hmem : urn ∈ urns.eraseDups ↔ urn ∈ urns := List.mem_eraseDups
    by_cases h : urn ∈ urns
    · rw [if_pos (hmem.mpr h)]
      simp [h,List.removeAll]
    · rw [if_neg (hmem.not.mpr h)]
      simp [h,List.removeAll,List.eraseDups_cons]

mutual

theorem walk_eq (found : List Str) (node : Node) :
    walk found node = (literals node).foldl addUrn found := by
  cases node with
  | BoolNode op children => exact walkList_eq found children
  | Equals column value => cases column <;> rfl
  | NotEquals column value => cases column <;> rfl
  | InList column values => cases column <;> rfl
  | NotInList column values => cases column <;> rfl
  | _ => rfl

theorem walkList_eq (found : List Str) (nodes : List Node) :
    walkList found nodes = (literalsList nodes).foldl addUrn found := by
  cases nodes with
  | nil => rfl
  | cons node nodes =>
    rw [walkList,literalsList,List.foldl_append,walk_eq found node,walkList_eq _ nodes]

end

/-- The named URNs, each once and in source order. -/
theorem namedUrns_eq (ast : FilterAst) (override : Option (List Str)) :
    namedUrns ast override = (mentions ast override).eraseDups := by
  have hliterals : literal_dataset_urns ast = (ast.root.elim [] literals).foldl addUrn [] := by
    rw [literal_dataset_urns]
    cases ast.root with
    | none => rfl
    | some root => exact walk_eq [] root
  rw [namedUrns,hliterals,mentions,← foldl_addUrn,List.foldl_append]

section Resolved

variable {db : Registry.Db} {ast : FilterAst} {override : Option (List Str)}

theorem mem_sortedSet {urns : List Str} {urn : Str} : urn ∈ sortedSet urns ↔ urn ∈ urns := by
  rw [sortedSet,List.mem_insertionSort,List.mem_dedup]

theorem sortedSet_sorted (urns : List Str) : (sortedSet urns).Pairwise (· < ·) := by
  have hle : (sortedSet urns).Pairwise (· ≤ ·) := List.pairwise_insertionSort _ _
  have hne : (sortedSet urns).Nodup :=
    (List.perm_insertionSort _ _).nodup_iff.mpr urns.nodup_dedup
  exact (hle.and hne).imp fun h => lt_of_le_of_ne h.1 h.2

theorem eqAny_eq_true {urn : Str} {urns : List Str} :
    eqAny (some urn) urns = some true ↔ urn ∈ urns := by
  simp [eqAny,Truth.any_eq_true,eq]

theorem condition_eq_true {row : DatasetRegistry} : condition ast override row = some true ↔
    row.datahub_registered = true ∧ filter_clause ast row = some true ∧
      ∀ urns, override = some urns → row.dataset_urn ∈ urns := by
  rw [condition,Truth.all_eq_true]
  cases override with
  | none => simp
  | some urns =>
    simp [eqAny_eq_true]

theorem mem_resolved {rows : Order DatasetRegistry} {urn : Str} :
    urn ∈ (scopeOf db rows ast override).resolved_urns ↔
      ∃ row, Selected db ast override row ∧ row.dataset_urn = urn := by
  show urn ∈ sortedSet _ ↔ _
  rw [mem_sortedSet,List.mem_map]
  refine exists_congr fun row => and_congr_left fun _ => ?_
  rw [rows.mem,mem_whereTrue,condition_eq_true]
  exact ⟨fun ⟨h,hr,hs,hn⟩ => ⟨h,hr,hs,hn⟩,fun ⟨h,hr,hs,hn⟩ => ⟨h,hr,hs,hn⟩⟩

theorem registered_iff {urn : Str} : Registry.Registered db urn ↔
    ∃ row ∈ db.rows, row.datahub_registered = true ∧ row.dataset_urn = urn := by
  rw [Registry.Registered,Registry.flag?,Option.map_eq_some_iff]
  constructor
  · rintro ⟨row,hrow,hreg⟩
    obtain ⟨hmem,hurn⟩ := Table.get?_eq_some.mp hrow
    exact ⟨row,hmem,hreg,hurn⟩
  · rintro ⟨row,hmem,hreg,hurn⟩
    exact ⟨row,Table.get?_eq_some.mpr ⟨hmem,hurn⟩,hreg⟩

theorem filter_eq_filter_iff {urns : List Str} {p q : Str → Bool} :
    urns.filter p = urns.filter q ↔ ∀ urn ∈ urns, p urn = q urn := by
  refine ⟨fun h urn hurn => ?_,List.filter_congr⟩
  have hmem : urn ∈ urns.filter p ↔ urn ∈ urns.filter q := by rw [h]
  rw [List.mem_filter,List.mem_filter,and_congr_right_iff] at hmem
  exact Bool.eq_iff_iff.mpr (hmem hurn)

/-- The scope is exact exactly if every registered dataset that is named is selected. -/
theorem scopeOf_exact_iff (rows : Order DatasetRegistry) :
    Exact db ast override (scopeOf db rows ast override) ↔
      ∀ row ∈ db.rows, row.datahub_registered = true →
        row.dataset_urn ∈ mentions ast override → filter_clause ast row = some true ∧
          ∀ urns, override = some urns → row.dataset_urn ∈ urns := by
  classical
  have hparts : Exact db ast override (scopeOf db rows ast override) ↔
      (scopeOf db rows ast override).unresolved_urns =
        (mentions ast override).eraseDups.filter fun urn => ¬ Registry.Registered db urn :=
    ⟨fun h => h.unresolved,fun h => ⟨sortedSet_sorted _,fun _ => mem_resolved,h⟩⟩
  have hsame : ∀ urn, (decide (urn ∉ (scopeOf db rows ast override).resolved_urns) =
      decide (¬ Registry.Registered db urn)) ↔
        (Registry.Registered db urn →
          urn ∈ (scopeOf db rows ast override).resolved_urns) := by
    intro urn
    have hsub : urn ∈ (scopeOf db rows ast override).resolved_urns →
        Registry.Registered db urn := by
      rw [mem_resolved,registered_iff]
      exact fun ⟨row,h,hurn⟩ => ⟨row,h.mem,h.registered,hurn⟩
    rw [decide_eq_decide,not_iff_not]
    exact ⟨fun h => h.mpr,fun h => ⟨hsub,h⟩⟩
  rw [hparts]
  show (namedUrns ast override).filter _ = _ ↔ _
  rw [namedUrns_eq,filter_eq_filter_iff]
  constructor
  · intro h row hrow hreg hurn
    have hres := (hsame row.dataset_urn).mp (h _ (List.mem_eraseDups.mpr hurn))
      (registered_iff.mpr ⟨row,hrow,hreg,rfl⟩)
    obtain ⟨row',hsel,he⟩ := mem_resolved.mp hres
    rw [Table.eq_of_key_eq hsel.mem hrow he] at hsel
    exact ⟨hsel.satisfies,hsel.named⟩
  · intro h urn hurn
    refine (hsame urn).mpr fun hreg => ?_
    obtain ⟨row,hrow,hflag,rfl⟩ := registered_iff.mp hreg
    obtain ⟨hsat,hnamed⟩ := h row hrow hflag (List.mem_eraseDups.mp hurn)
    exact mem_resolved.mpr ⟨row,⟨hrow,hflag,hsat,hnamed⟩,rfl⟩

end Resolved

/-- A valid filter resolves to an exact scope exactly if it and the override let through every
registered dataset that they name. -/
theorem resolve_dataset_scope_exact (db : Registry.Db) (rows : Order DatasetRegistry)
    (dataset_filter : Option Str) (override : Option (List Str)) (ast : FilterAst)
    (h : parse_filter dataset_filter = .ok ast) :
    ∃ scope, resolve_dataset_scope db rows dataset_filter override = .ok scope ∧
      (Exact db ast override scope ↔
        ∀ row ∈ db.rows, row.datahub_registered = true →
          row.dataset_urn ∈ mentions ast override → filter_clause ast row = some true ∧
            ∀ urns, override = some urns → row.dataset_urn ∈ urns) := by
  refine ⟨scopeOf db rows ast override,?_,scopeOf_exact_iff rows⟩
  rw [resolve_dataset_scope,h]
  rfl

def sampleUrn : Str := "urn:li:dataset:(urn:li:dataPlatform:mysql,db.t,PROD)".toList

def sampleRegistry : Registry.Db := ⟨[.new 0 sampleUrn true],List.nodup_singleton _⟩

/-- An override that names no registered dataset. -/
theorem resolve_dataset_scope_sample : ∃ scope,
    resolve_dataset_scope sampleRegistry asStored (some sampleText) (some [['v']]) = .ok scope ∧
      Exact sampleRegistry ⟨some sampleNode⟩ (some [['v']]) scope := by
  obtain ⟨scope,hscope,hexact⟩ := resolve_dataset_scope_exact sampleRegistry asStored
    (some sampleText) (some [['v']]) _ sample_parses
  refine ⟨scope,hscope,hexact.mpr fun row hrow _ hurn => ?_⟩
  obtain rfl := List.mem_singleton.mp hrow
  exact absurd hurn (by decide)

def exclusion : Str := ScalarColumn.dataset_urn.text ++ '!' :: '=' :: (quoted sampleUrn ++ [])

theorem exclusion_parses :
    parse_filter (some exclusion) = .ok ⟨some (.NotEquals .dataset_urn sampleUrn)⟩ := by
  have hlex : Lexes exclusion [(.ident,ScalarColumn.dataset_urn.text),(.neq,['!','=']),
      (.string,sampleUrn)] := by
    refine .ident (fits_scalar .dataset_urn) ?_ (.neq (.string nofun .nil))
    rintro _ ⟨⟩
    rfl
  have hpred : Predicate [(.ident,ScalarColumn.dataset_urn.text),(.neq,['!','=']),
      (.string,sampleUrn)] (.NotEquals .dataset_urn sampleUrn) :=
    .not_equals (isScalar_text .dataset_urn) rfl
  exact (parse_filter_ok_iff _ _).mpr ⟨by decide,_,hlex,by decide,.expr (.term (.predicate hpred))⟩

/-- A registered dataset that a filter excludes is reported as unresolved. -/
theorem excluded_reported : ∃ scope,
    resolve_dataset_scope sampleRegistry asStored (some exclusion) none = .ok scope ∧
      Registry.Registered sampleRegistry sampleUrn ∧ sampleUrn ∈ scope.unresolved_urns ∧
      ¬ Exact sampleRegistry ⟨some (.NotEquals .dataset_urn sampleUrn)⟩ none scope := by
  have hreg : Registry.Registered sampleRegistry sampleUrn :=
    registered_iff.mpr ⟨_,List.mem_singleton_self _,rfl,rfl⟩
  have hmem : sampleUrn ∈ (scopeOf sampleRegistry asStored
      ⟨some (.NotEquals .dataset_urn sampleUrn)⟩ none).unresolved_urns := by decide
  refine ⟨_,by rw [resolve_dataset_scope,exclusion_parses]; rfl,hreg,hmem,fun h => ?_⟩
  rw [h.unresolved,List.mem_filter] at hmem
  simp [hreg] at hmem

end DatasetScope
end Dataspoke
