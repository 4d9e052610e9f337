import Mathlib.Data.Rat.Defs
import Mathlib.Algebra.Order.Field.Rat
import Mathlib.Data.List.Nodup
import Mathlib.Tactic.Common

/-! The values of the source language that the modelled functions pass around: strings as
lists of code points, JSON values as `json.loads` builds them, and floats as far as they
are compared. -/

namespace Dataspoke
namespace Python

abbrev Str := List Char

/-! The instances that `in` on texts, optional texts and pairs rests on. -/

instance : LawfulBEq Str := inferInstance
instance : LawfulBEq (Option Str) := inferInstance
instance : LawfulBEq (Str × Str) := inferInstance
instance : LawfulBEq (ℕ × Str) := inferInstance

/-- A Python float, or an int where the code compares it with one. -/
inductive Number
  | fin (q : ℚ) | posInf | negInf | nan
  deriving DecidableEq

namespace Number

/-- The comparison `x < y`, false when either side is a NaN. -/
def lt : Number → Number → Bool
  | .nan, _ | _, .nan => false
  | .fin p, .fin q => decide (p < q)
  | .negInf, .negInf | .posInf, _ | _, .negInf => false
  | .negInf, _ | _, .posInf => true

/-- The comparison `x <= y`, false when either side is a NaN. -/
def le : Number → Number → Bool
  | .nan, _ | _, .nan => false
  | x, y => !lt y x

end Number

/-- A JSON value; an object is the item list of a dict, its keys in insertion order. -/
inductive Json
  | null
  | bool (b : Bool)
  | num (x : Number)
  | str (s : Str)
  | arr (xs : List Json)
  | obj (items : List (Str × Json))

/-- A piece of an f-string: literal text, `{value!r}` of a string, an int or a float. -/
inductive Piece
  | text (s : String)
  | repr (s : Str)
  | num (n : ℕ)
  | float (x : Number)
  deriving DecidableEq

/-- `str.isspace` of one character. -/
def isspace (c : Char) : Bool :=
  let n := c.toNat
  (9 ≤ n && n ≤ 13) || (28 ≤ n && n ≤ 32) || n = 0x85 || n = 0xa0 || n = 0x1680 ||
    (0x2000 ≤ n && n ≤ 0x200a) || n = 0x2028 || n = 0x2029 || n = 0x202f || n = 0x205f ||
    n = 0x3000

/-- `str.lower` on text of ASCII characters. -/
def lower (s : Str) : Str := s.map Char.toLower

/-- `dict.get(key)` on an item list. -/
def get? {V : Type*} (key : Str) : List (Str × V) → Option V
  | [] => none
  | (k,v)::items => if k = key then some v else get? key items

theorem mem_of_get? {V : Type*} {key : Str} {v : V} {items : List (Str × V)}
    (h : get? key items = some v) : (key,v) ∈ items := by
  fun_induction get? key items with
  | case1 => cases h
  | case2 => simp_all
  | case3 _ _ _ _ ih => exact List.mem_cons_of_mem _ (ih h)

theorem get?_eq_some_iff {V : Type*} {key : Str} {v : V} {items : List (Str × V)}
    (hn : (items.map Prod.fst).Nodup) : get? key items = some v ↔ (key,v) ∈ items := by
  refine ⟨mem_of_get?,fun h => ?_⟩
  fun_induction get? key items with
  | case1 => cases h
  | case2 w items =>
    simp only [List.map_cons,List.nodup_cons,List.mem_map,Prod.exists] at hn
    rcases List.mem_cons.mp h with h | h
    · cases h
      rfl
    · exact absurd ⟨key,v,h,rfl⟩ hn.1
  | case3 k w items hk ih =>
    rcases List.mem_cons.mp h with h | h
    · cases h
      exact absurd rfl hk
    · exact ih (List.nodup_cons.mp hn).2 h

/-- `items[key] = v`. -/
def setItem {V : Type*} (key : Str) (v : V) : List (Str × V) → List (Str × V)
  | [] => [(key,v)]
  | (k,w)::items => if k = key then (k,v)::items else (k,w)::setItem key v items

theorem get?_setItem {V : Type*} (key : Str) (v : V) (items : List (Str × V)) (k : Str) :
    get? k (setItem key v items) = if k = key then some v else get? k items := by
  induction items with
  | nil => simp [setItem,get?,eq_comm]
  | cons item items ih =>
    obtain ⟨k',w⟩ := item
    rw [setItem]
    by_cases hk : k' = key
    · rw [if_pos hk,get?,get?,hk]
      by_cases hkey : key = k
      · rw [if_pos hkey,if_pos hkey.symm]
      · rw [if_neg hkey,if_neg (Ne.symm hkey),if_neg hkey]
    · rw [if_neg hk,get?,get?,ih]
      by_cases hk' : k' = k
      · rw [if_pos hk',if_pos hk',if_neg (fun h => hk (hk'.trans h))]
      · rw [if_neg hk',if_neg hk']

/-- An assignment of the value that is there changes nothing. -/
theorem setItem_eq_self {V : Type*} {key : Str} {v : V} {items : List (Str × V)}
    (h : get? key items = some v) : setItem key v items = items := by
  induction items with
  | nil => cases h
  | cons item items ih =>
    obtain ⟨k,w⟩ := item
    rw [get?] at h
    rw [setItem]
    by_cases hk : k = key
    · rw [if_pos hk] at h ⊢
      rw [Option.some.inj h]
    · rw [if_neg hk] at h ⊢
      rw [ih h]

theorem keys_setItem {V : Type*} (key : Str) (v : V) (items : List (Str × V)) :
    (setItem key v items).map Prod.fst =
      if key ∈ items.map Prod.fst then items.map Prod.fst
      else items.map Prod.fst ++ [key] := by
  induction items with
  | nil => rfl
  | cons item items ih =>
    obtain ⟨k,w⟩ := item
    by_cases hk : k = key
    · simp [setItem,hk]
    · by_cases hm : key ∈ items.map Prod.fst
      · have hn : key ∈ ((k,w)::items).map Prod.fst := List.mem_cons_of_mem _ hm
        rw [if_pos hm] at ih
        rw [setItem,if_neg hk,List.map_cons,ih,if_pos hn]
        rfl
      · have hn : key ∉ ((k,w)::items).map Prod.fst := by
          rw [List.map_cons,List.mem_cons]
          exact fun h => h.elim (Ne.symm hk) hm
        rw [if_neg hm] at ih
        rw [setItem,if_neg hk,List.map_cons,ih,if_neg hn]
        rfl

theorem nodup_setItem {V : Type*} {key : Str} {v : V} {items : List (Str × V)}
    (h : (items.map Prod.fst).Nodup) : ((setItem key v items).map Prod.fst).Nodup := by
  rw [keys_setItem]
  split_ifs with hk
  · exact h
  · exact List.concat_eq_append ▸ h.concat hk

/-- `{urn: v for urn in urns}`. -/
theorem get?_fromkeys {V : Type*} (v : V) (urns : List Str) (urn : Str) (items : List (Str × V)) :
    get? urn (urns.foldl (fun result urn => setItem urn v result) items) =
      if urn ∈ urns then some v else get? urn items := by
  induction urns generalizing items with
  | nil => simp
  | cons u urns ih =>
    rw [List.foldl_cons,ih,get?_setItem]
    by_cases hu : urn ∈ urns
    · simp [hu]
    · by_cases huu : urn = u
      · simp [huu]
      · simp [hu,huu]

theorem get?_map_snd {V W : Type*} (f : V → W) (urn : Str) (items : List (Str × V)) :
    get? urn (items.map fun entry => (entry.1,f entry.2)) = (get? urn items).map f := by
  induction items with
  | nil => rfl
  | cons item items ih =>
    by_cases hk : item.1 = urn
    · simp [get?,hk]
    · simp [get?,hk,ih]

/-- The slices `xs[start:start+size]` for `start in range(0,len(xs),size)`. -/
def slices {α : Type*} (size : ℕ) (xs : List α) : List (List α) :=
  (List.range ((xs.length+size-1)/size)).map fun i => (xs.drop (size*i)).take size

theorem flatten_slices {α : Type*} {size : ℕ} (hs : 0 < size) (xs : List α) :
    (slices size xs).flatten = xs := by
  have htake : ∀ n, ((List.range n).map fun i => (xs.drop (size*i)).take size).flatten =
      xs.take (size*n) := by
    intro n
    induction n with
    | zero => simp
    | succ n ih => simp [List.range_succ,ih,Nat.mul_succ,List.take_add]
  have hlen : xs.length ≤ size*((xs.length+size-1)/size) := by
    have h := Nat.lt_mul_div_succ (xs.length+size-1) hs
    rw [Nat.mul_add,Nat.mul_one] at h
    omega
  rw [slices,htake,List.take_of_length_le hlen]

section Raise

variable {ε α β : Type}

theorem bind_eq_ok {x : Except ε α} {f : α → Except ε β} {b : β} :
    (x >>= f) = .ok b ↔ ∃ a, x = .ok a ∧ f a = .ok b := by
  cases x <;> simp [bind,Except.bind]

theorem bind_eq_error {x : Except ε α} {f : α → Except ε β} {e : ε} :
    (x >>= f) = .error e ↔ x = .error e ∨ ∃ a, x = .ok a ∧ f a = .error e := by
  cases x <;> simp [bind,Except.bind]

theorem map_eq_ok {x : Except ε α} {f : α → β} {b : β} :
    x.map f = .ok b ↔ ∃ a, x = .ok a ∧ f a = b := by
  cases x <;> simp [Except.map]

theorem map_eq_error {x : Except ε α} {f : α → β} {e : ε} :
    x.map f = .error e ↔ x = .error e := by
  cases x <;> simp [Except.map]

end Raise

section Loops

variable {α β : Type} {f : α → Option β} {xs : List α}

theorem mapM_eq_some {ys : List β} :
    xs.mapM f = some ys ↔ xs.map f = ys.map some := by
  induction xs generalizing ys with
  | nil => cases ys <;> simp
  | cons x xs ih =>
    rw [List.mapM_cons,List.map_cons]
    cases hx : f x with
    | none => cases ys <;> simp
    | some y =>
      cases ys with
      | nil => cases xs.mapM f <;> simp
      | cons y' ys =>
        rw [List.map_cons,List.cons.injEq,← ih]
        cases xs.mapM f <;> simp

theorem mapM_eq_none : xs.mapM f = none ↔ ∃ x ∈ xs, f x = none := by
  induction xs with
  | nil => simp
  | cons x xs ih =>
    rw [List.mapM_cons,List.exists_mem_cons_iff,← ih]
    cases f x with
    | none => simp
    | some y => cases xs.mapM f <;> simp

theorem mem_mapM {ys : List β} (h : xs.mapM f = some ys) {y : β} (hy : y ∈ ys) :
    ∃ x ∈ xs, f x = some y := by
  have hmem : some y ∈ xs.map f := by
    rw [mapM_eq_some.mp h]
    exact List.mem_map_of_mem hy
  exact List.mem_map.mp hmem

end Loops

end Python
end Dataspoke
