import Mathlib.Algebra.Ring.Nat
import Mathlib.Data.List.Basic
import Mathlib.Tactic.Common

/-!
# Three-valued conditions

The conditions of SQL: true, false or NULL. A query keeps the rows for which its condition
is true, so a condition and its negation together may leave rows out; `coalesce` closes the
gap.
-/

namespace Dataspoke
namespace Sql

/-- A condition; NULL is `none`. -/
abbrev Truth := Option Bool

namespace Truth

def not (x : Truth) : Truth := x.map Bool.not

def and : Truth → Truth → Truth
  | some false, _ => some false
  | _, some false => some false
  | some true, some true => some true
  | _, _ => none

def or : Truth → Truth → Truth
  | some true, _ => some true
  | _, some true => some true
  | some false, some false => some false
  | _, _ => none

/-- `and_(*xs)`. -/
def all (xs : List Truth) : Truth := xs.foldr and (some true)

/-- `or_(*xs)`. -/
def any (xs : List Truth) : Truth := xs.foldr or (some false)

@[simp] theorem not_some (b : Bool) : not (some b) = some !b := rfl

theorem not_eq_true {x : Truth} : not x = some true ↔ x = some false := by
  rcases x with _ | ⟨_ | _⟩ <;> simp [not]

theorem and_eq_true {x y : Truth} : and x y = some true ↔ x = some true ∧ y = some true := by
  rcases x with _ | ⟨_ | _⟩ <;> rcases y with _ | ⟨_ | _⟩ <;> simp [and]

theorem or_eq_true {x y : Truth} : or x y = some true ↔ x = some true ∨ y = some true := by
  rcases x with _ | ⟨_ | _⟩ <;> rcases y with _ | ⟨_ | _⟩ <;> simp [or]

theorem not_and (x y : Truth) : not (and x y) = or (not x) (not y) := by
  rcases x with _ | ⟨_ | _⟩ <;> rcases y with _ | ⟨_ | _⟩ <;> rfl

theorem all_eq_true {xs : List Truth} : all xs = some true ↔ ∀ x ∈ xs, x = some true := by
  induction xs with
  | nil => simp [all]
  | cons x xs ih =>
    rw [List.forall_mem_cons,← ih]
    exact and_eq_true

theorem any_eq_true {xs : List Truth} : any xs = some true ↔ some true ∈ xs := by
  induction xs with
  | nil => simp [any]
  | cons x xs ih =>
    rw [List.mem_cons,← ih,eq_comm (a:=some true)]
    exact or_eq_true

theorem not_all (xs : List Truth) : not (all xs) = any (xs.map not) := by
  induction xs with
  | nil => rfl
  | cons x xs ih =>
    rw [List.map_cons]
    show not (and x (all xs)) = or (not x) (any (xs.map not))
    rw [not_and,ih]

/-- `coalesce(x, false)` is true where the condition is, and false where it is not. -/
theorem getD_eq_true {x : Truth} : x.getD false = true ↔ x = some true := by
  rcases x with _ | ⟨_ | _⟩ <;> simp

end Truth

section Operators

variable {α : Type*} [DecidableEq α]

/-- `x = v`. -/
def eq (x : Option α) (v : α) : Truth := x.map fun a => a = v

/-- `x != v`. -/
def ne (x : Option α) (v : α) : Truth := x.map fun a => a ≠ v

/-- `x = ANY(vs)`. -/
def eqAny (x : Option α) (vs : List α) : Truth := Truth.any (vs.map (eq x))

/-- `xs @> ARRAY[v]`. -/
def contains (xs : List α) (v : α) : Truth := some (v ∈ xs)

end Operators

/-- The rows for which the condition is true. -/
def whereTrue {α : Type*} (condition : α → Truth) (rows : List α) : List α :=
  rows.filter fun row => condition row = some true

theorem mem_whereTrue {α : Type*} {condition : α → Truth} {rows : List α} {row : α} :
    row ∈ whereTrue condition rows ↔ row ∈ rows ∧ condition row = some true := by
  simp [whereTrue]

/-- An order in which rows come back. -/
structure Order (α : Type*) where
  order : List α → List α
  perm : ∀ rows, (order rows).Perm rows

theorem Order.mem {α : Type*} (o : Order α) {rows : List α} {row : α} :
    row ∈ o.order rows ↔ row ∈ rows := (o.perm rows).mem_iff

/-- `OFFSET … LIMIT …`. -/
def page {α : Type*} (offset limit : ℕ) (rows : List α) : List α :=
  (rows.drop offset).take limit

theorem page_all {α : Type*} (rows : List α) : page 0 rows.length rows = rows := by
  simp [page]

theorem page_subset {α : Type*} (offset limit : ℕ) (rows : List α) :
    page offset limit rows ⊆ rows :=
  fun _ h => List.mem_of_mem_drop (List.mem_of_mem_take h)

/-- Consecutive reads of pages of the given sizes. -/
def readPages {β : Type*} (read : ℕ → ℕ → List β) : ℕ → List ℕ → List β
  | _, [] => []
  | offset, limit::limits => read offset limit ++ readPages read (offset+limit) limits

theorem readPages_page {α : Type*} (rows : List α) (offset : ℕ) (limits : List ℕ) :
    readPages (fun offset limit => page offset limit rows) offset limits =
      page offset limits.sum rows := by
  induction limits generalizing offset with
  | nil => simp [readPages,page]
  | cons limit limits ih =>
    rw [readPages,ih,List.sum_cons,page,page,page,List.take_add,List.drop_drop]

end Sql
end Dataspoke
