import Dataspoke.FilterCompleteness
import Dataspoke.MetagenCoverage

/-!
# Filters under NULL

The two-valued reading of a filter: a predicate on a NULL column holds in neither of its
forms, and a group is the conjunction or the disjunction of its children. The compiled
condition is true exactly where this reading holds.
-/

namespace Dataspoke
namespace Coverage

open Python DatasetFilter Sql
open Registry (DatasetRegistry)

mutual

/-- The two-valued reading. -/
def holds (row : DatasetRegistry) : Node → Bool
  | .BoolNode .AND children => holdsAll row children
  | .BoolNode .OR children => holdsAny row children
  | .Equals column value => (scalarColumn row column).any fun a => a = value
  | .NotEquals column value => (scalarColumn row column).any fun a => a ≠ value
  | .InList column values => (scalarColumn row column).any fun a => a ∈ values
  | .NotInList column values => (scalarColumn row column).any fun a => a ∉ values
  | .BoolEquals column value => boolColumn row column = value
  | .ArrayContains column value => value ∈ arrayColumn row column
  | .ArrayNotContains column value => value ∉ arrayColumn row column

def holdsAll (row : DatasetRegistry) : List Node → Bool
  | [] => true
  | node::nodes => holds row node && holdsAll row nodes

def holdsAny (row : DatasetRegistry) : List Node → Bool
  | [] => false
  | node::nodes => holds row node || holdsAny row nodes

end

/-- The empty filter holds of every row. -/
def evaluate (row : DatasetRegistry) (ast : FilterAst) : Bool := ast.root.elim true (holds row)

mutual

/-- Every value list in the tree has a value. -/
def Listed : Node → Prop
  | .BoolNode _ children => ListedAll children
  | .InList _ values => values ≠ []
  | .NotInList _ values => values ≠ []
  | _ => True

def ListedAll : List Node → Prop
  | [] => True
  | node::nodes => Listed node ∧ ListedAll nodes

end

theorem listed_of_valueList {ls : List Lexeme} {vs : List Str} (h : ValueList ls vs) :
    vs ≠ [] := by
  cases h with
  | last _ => simp
  | cons _ _ => simp

theorem listed_of_predicate {ls : List Lexeme} {n : Node} (h : Predicate ls n) : Listed n := by
  cases h with
  | in_list _ _ _ hvalues => exact listed_of_valueList hvalues
  | not_in_list _ _ _ _ hvalues => exact listed_of_valueList hvalues
  | equals | not_equals | array_contains | array_not_contains | bool_equals => trivial

mutual

theorem listed_of_term {depth : ℕ} {ls : List Lexeme} {n : Node} : Term depth ls n → Listed n
  | .predicate h => listed_of_predicate h
  | .group _ h _ => listed_of_expr h

theorem listed_of_expr {depth : ℕ} {ls : List Lexeme} {n : Node} : Expr depth ls n → Listed n
  | .term h => listed_of_term h
  | .chain h hs => ⟨listed_of_term h,listed_of_operands hs⟩

theorem listed_of_operands {depth : ℕ} {op : BoolOp} {ls : List Lexeme} {ns : List Node} :
    Operands depth op ls ns → ListedAll ns
  | .one _ h => ⟨listed_of_term h,trivial⟩
  | .cons _ h hs => ⟨listed_of_term h,listed_of_operands hs⟩

end

/-- A parsed filter has a value in each of its lists. -/
theorem listed_of_parse {text : Option Str} {ast : FilterAst}
    (h : parse_filter text = .ok ast) : ∀ n ∈ ast.root, Listed n := by
  obtain ⟨-,ls,-,-,hfilter⟩ := (parse_filter_ok_iff text ast).mp h
  cases hfilter with
  | empty => exact nofun
  | expr hexpr =>
    rintro _ ⟨⟩
    exact listed_of_expr hexpr

section Conditions

variable {α : Type*} [DecidableEq α]

theorem eq_eq_true {x : Option α} {v : α} :
    eq x v = some true ↔ x.any (fun a => a = v) = true := by
  cases x with
  | none => simp [eq]
  | some a => simp [eq]

theorem ne_eq_true {x : Option α} {v : α} :
    ne x v = some true ↔ x.any (fun a => a ≠ v) = true := by
  cases x with
  | none => simp [ne]
  | some a => simp [ne]

/-- A comparison with a value of the column is never NULL. -/
theorem any_eq_some (a : α) (vs : List α) : eqAny (some a) vs = some (decide (a ∈ vs)) := by
  induction vs with
  | nil => rfl
  | cons v vs ih =>
    have hcons : eqAny (some a) (v::vs) = Truth.or (eq (some a) v) (eqAny (some a) vs) := rfl
    rw [hcons,ih]
    by_cases hav : a = v <;> by_cases hmem : a ∈ vs <;> simp [eq,Truth.or,hav,hmem]

/-- NULL is neither in a list nor not in it, if the list has a value. -/
theorem any_eq_none {vs : List α} (hvs : vs ≠ []) : eqAny (none : Option α) vs = none := by
  obtain ⟨v,vs,rfl⟩ := List.exists_cons_of_ne_nil hvs
  clear hvs
  induction vs generalizing v with
  | nil => rfl
  | cons w vs ih =>
    have hcons : eqAny (none : Option α) (v::w::vs) =
        Truth.or (eq none v) (eqAny none (w::vs)) := rfl
    rw [hcons,ih]
    rfl

theorem eqAny_eq_true {x : Option α} {vs : List α} (hvs : vs ≠ []) :
    eqAny x vs = some true ↔ ∃ a, x = some a ∧ a ∈ vs := by
  cases x with
  | none => simp [any_eq_none hvs]
  | some a => simp [any_eq_some]

theorem not_eqAny_eq_true {x : Option α} {vs : List α} (hvs : vs ≠ []) :
    (eqAny x vs).not = some true ↔ ∃ a, x = some a ∧ a ∉ vs := by
  cases x with
  | none => simp [any_eq_none hvs,Truth.not]
  | some a => simp [any_eq_some]

end Conditions

section Agreement

variable (row : DatasetRegistry)

mutual

/-- One node: the condition is true where the reading holds, and NULL never turns into true. -/
theorem compile_eq_true : ∀ n, Listed n → (compile row n = some true ↔ holds row n = true)
  | .BoolNode .AND children, h => by
    rw [compile,holds,Truth.all_eq_true]
    exact all_compile_eq_true children h
  | .BoolNode .OR children, h => by
    rw [compile,holds,Truth.any_eq_true]
    exact any_compile_eq_true children h
  | .Equals column value, _ => eq_eq_true
  | .NotEquals column value, _ => ne_eq_true
  | .InList column values, h => by
    rw [compile,holds,eqAny_eq_true h,Option.any_eq_true]
    simp
  | .NotInList column values, h => by
    rw [compile,holds,not_eqAny_eq_true h,Option.any_eq_true]
    simp
  | .BoolEquals column value, _ => by simp [compile,holds,eq]
  | .ArrayContains column value, _ => by simp [compile,holds,contains]
  | .ArrayNotContains column value, _ => by simp [compile,holds,contains]

theorem all_compile_eq_true : ∀ ns, ListedAll ns →
    ((∀ x ∈ compileList row ns, x = some true) ↔ holdsAll row ns = true)
  | [], _ => by simp [compileList,holdsAll]
  | n::ns, h => by
    have hn := compile_eq_true n h.1
    have hns := all_compile_eq_true ns h.2
    rw [compileList,holdsAll,List.forall_mem_cons,Bool.and_eq_true,hn,hns]

theorem any_compile_eq_true : ∀ ns, ListedAll ns →
    (some true ∈ compileList row ns ↔ holdsAny row ns = true)
  | [], _ => by simp [compileList,holdsAny]
  | n::ns, h => by
    have hn := compile_eq_true n h.1
    have hns := any_compile_eq_true ns h.2
    rw [compileList,holdsAny,List.mem_cons,Bool.or_eq_true,← hn,← hns,eq_comm]

end

/-- On a column with a value the negated forms select what the affirmative ones leave. -/
structure Complements (column : ScalarColumn) : Prop where
  not_equals : ∀ value, compile row (.NotEquals column value) = some true ↔
    compile row (.Equals column value) ≠ some true
  not_in : ∀ values, compile row (.NotInList column values) = some true ↔
    compile row (.InList column values) ≠ some true

theorem complements_of_value {column : ScalarColumn} (h : scalarColumn row column ≠ none) :
    Complements row column := by
  obtain ⟨a,ha⟩ := Option.ne_none_iff_exists'.mp h
  constructor
  · intro value
    simp [compile,ne,eq,ha]
  · intro values
    simp [compile,any_eq_some,ha]

/-- The condition of a filter is true exactly where its two-valued reading holds, for every
tree whose lists have values, as those of a parsed filter have. Where a column is not NULL its
negated predicates are the complements of the affirmative ones; an array column never is. -/
theorem filter_clause_exact :
    (∀ text ast, parse_filter text = .ok ast → ∀ n ∈ ast.root, Listed n) ∧
    ∀ ast row, (∀ n ∈ ast.root, Listed n) →
      (filter_clause ast row = some true ↔ evaluate row ast = true) ∧
      (∀ column, scalarColumn row column ≠ none → Complements row column) ∧
      ∀ column value, compile row (.ArrayNotContains column value) = some true ↔
        compile row (.ArrayContains column value) ≠ some true := by
  constructor
  · intro text ast h
    exact listed_of_parse h
  · intro ast row hlisted
    refine ⟨?_,fun column hcolumn => complements_of_value row hcolumn,fun column value => ?_⟩
    · obtain ⟨root⟩ := ast
      cases root with
      | none => simp [filter_clause,evaluate]
      | some n => exact compile_eq_true row n (hlisted n rfl)
    · simp [compile,contains]

/-- A row without an origin is selected by neither form. -/
def unswept : DatasetRegistry := .new 0 ['u'] true

theorem filter_clause_unswept :
    ¬ filter_clause ⟨some (.NotInList .origin [['P']])⟩ unswept = some true ∧
      filter_clause ⟨some (.BoolNode .OR [.Equals .origin ['P'],
        .ArrayNotContains .tag_urns ['t']])⟩ unswept = some true := by
  have hnot := (filter_clause_exact.2 ⟨some (.NotInList .origin [['P']])⟩ unswept
    (by rintro _ ⟨⟩; exact List.cons_ne_nil _ _)).1
  have hor := (filter_clause_exact.2 ⟨some (.BoolNode .OR [.Equals .origin ['P'],
    .ArrayNotContains .tag_urns ['t']])⟩ unswept
    (by rintro _ ⟨⟩; exact ⟨trivial,trivial,trivial⟩)).1
  constructor
  · rw [hnot]
    decide
  · rw [hor]
    decide

end Agreement

end Coverage
end Dataspoke
