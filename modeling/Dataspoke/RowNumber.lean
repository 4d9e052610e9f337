import Mathlib.Data.List.Dedup
import Mathlib.Data.List.Perm.Lattice
import Mathlib.Data.List.Sort

/-!
# Row numbers

`row_number() OVER (PARTITION BY ... ORDER BY ...)`, and the rows that have the number one.
-/

namespace Dataspoke
namespace RowNumber

variable {ρ κ : Type} [DecidableEq κ] (part : ρ → κ) (le : ρ → ρ → Bool)

/-- The rows with their numbers, given the rows before them. -/
def number : (before : List ρ) → List ρ → List (ρ × ℕ)
  | _, [] => []
  | before, r::rows =>
    (r,(before.filter fun b => part b = part r).length + 1)::number (r::before) rows

/-- `row_number()`; rows that the order does not tell apart stay as the table has them. -/
def row_number (rows : List ρ) : List (ρ × ℕ) := number part [] (rows.mergeSort le)

/-- The rows with number one. -/
def firstRows (rows : List ρ) : List ρ :=
  ((row_number part le rows).filter fun r => r.2 = 1).map Prod.fst

/-- The rows with number one are those whose partition is new. -/
def newRows : (before : List ρ) → List ρ → List ρ
  | _, [] => []
  | before, r::rows =>
    if ∃ b ∈ before, part b = part r then newRows (r::before) rows
    else r::newRows (r::before) rows

variable {part le}

theorem number_eq (before rows : List ρ) :
    ((number part before rows).filter fun r => r.2 = 1).map Prod.fst =
      newRows part before rows := by
  induction rows generalizing before with
  | nil => rfl
  | cons r rows ih =>
    by_cases hold : ∃ b ∈ before, part b = part r
    · have hne : (before.filter fun b => part b = part r).length + 1 ≠ 1 := by
        obtain ⟨b,hb,hpart⟩ := hold
        have hmem : b ∈ before.filter fun b => part b = part r :=
          List.mem_filter.mpr ⟨hb,decide_eq_true hpart⟩
        have hpos := List.length_pos_of_mem hmem
        omega
      rw [number,newRows,if_pos hold,List.filter_cons_of_neg (by simpa using hne)]
      exact ih (r::before)
    · have hnil : before.filter (fun b => part b = part r) = [] :=
        List.filter_eq_nil_iff.mpr fun b hb hpart => hold ⟨b,hb,of_decide_eq_true hpart⟩
      rw [number,newRows,if_neg hold,hnil,List.filter_cons_of_pos rfl,List.map_cons]
      exact congrArg (r::·) (ih (r::before))

theorem firstRows_eq (rows : List ρ) :
    firstRows part le rows = newRows part [] (rows.mergeSort le) := number_eq [] _

theorem mem_newRows {before rows : List ρ} {r : ρ} : r ∈ newRows part before rows ↔
    ∃ earlier later, rows = earlier ++ r::later ∧ ∀ b ∈ before ++ earlier, part b ≠ part r := by
  induction rows generalizing before with
  | nil => simp [newRows]
  | cons a rows ih =>
    constructor
    · intro h
      have hrest : r ∈ newRows part (a::before) rows → ∃ earlier later,
          a::rows = earlier ++ r::later ∧ ∀ b ∈ before ++ earlier, part b ≠ part r := by
        intro h
        obtain ⟨earlier,later,hrows,hnew⟩ := ih.mp h
        refine ⟨a::earlier,later,by rw [hrows]; rfl,fun b hb => hnew b ?_⟩
        simp only [List.mem_append,List.mem_cons] at hb ⊢
        tauto
      rw [newRows] at h
      split at h
      · exact hrest h
      · rename_i hold
        rcases List.mem_cons.mp h with rfl | h
        · refine ⟨[],rows,rfl,fun b hb hpart => hold ⟨b,?_,hpart⟩⟩
          rwa [List.append_nil] at hb
        · exact hrest h
    · rintro ⟨earlier,later,hrows,hnew⟩
      cases earlier with
      | nil =>
        obtain ⟨rfl,-⟩ := List.cons.inj hrows
        have hold : ¬ ∃ b ∈ before, part b = part a := by
          rintro ⟨b,hb,hpart⟩
          exact hnew b (List.mem_append_left _ hb) hpart
        rw [newRows,if_neg hold]
        exact List.mem_cons_self
      | cons c earlier =>
        rw [List.cons_append,List.cons.injEq] at hrows
        obtain ⟨rfl,hrows⟩ := hrows
        have hin : r ∈ newRows part (a::before) rows := by
          refine ih.mpr ⟨earlier,later,hrows,fun b hb => hnew b ?_⟩
          simp only [List.mem_append,List.mem_cons] at hb ⊢
          tauto
        rw [newRows]
        split
        · exact hin
        · exact List.mem_cons_of_mem _ hin

theorem newRows_pairwise (before rows : List ρ) :
    (newRows part before rows).Pairwise (fun a b => part a ≠ part b) := by
  induction rows generalizing before with
  | nil => exact List.Pairwise.nil
  | cons r rows ih =>
    rw [newRows]
    split
    · exact ih _
    · refine List.pairwise_cons.mpr ⟨fun b hb hpart => ?_,ih _⟩
      obtain ⟨earlier,later,-,hnew⟩ := mem_newRows.mp hb
      exact hnew r (List.mem_append_left _ List.mem_cons_self) hpart

/-- One row of each partition has the number one. -/
theorem firstRows_pairwise (rows : List ρ) :
    (firstRows part le rows).Pairwise (fun a b => part a ≠ part b) := by
  rw [firstRows_eq]
  exact newRows_pairwise [] _

theorem exists_newRows {before rows : List ρ} {r : ρ} (hr : r ∈ rows) :
    (∃ b ∈ before, part b = part r) ∨ ∃ a ∈ newRows part before rows, part a = part r := by
  induction rows generalizing before with
  | nil => cases hr
  | cons a rows ih =>
    by_cases hold : ∃ b ∈ before, part b = part a
    · rw [newRows,if_pos hold]
      rcases List.mem_cons.mp hr with rfl | hr
      · exact Or.inl hold
      · have hrest : (∃ b ∈ a::before, part b = part r) ∨
            ∃ c ∈ newRows part (a::before) rows, part c = part r := ih hr
        rcases hrest with ⟨b,hb,hpart⟩ | hnew
        · rcases List.mem_cons.mp hb with rfl | hb
          · obtain ⟨c,hc,hsame⟩ := hold
            exact Or.inl ⟨c,hc,hsame.trans hpart⟩
          · exact Or.inl ⟨b,hb,hpart⟩
        · exact Or.inr hnew
    · rw [newRows,if_neg hold]
      rcases List.mem_cons.mp hr with rfl | hr
      · exact Or.inr ⟨r,List.mem_cons_self,rfl⟩
      · have hrest : (∃ b ∈ a::before, part b = part r) ∨
            ∃ c ∈ newRows part (a::before) rows, part c = part r := ih hr
        rcases hrest with ⟨b,hb,hpart⟩ | ⟨c,hc,hpart⟩
        · rcases List.mem_cons.mp hb with rfl | hb
          · exact Or.inr ⟨b,List.mem_cons_self,hpart⟩
          · exact Or.inl ⟨b,hb,hpart⟩
        · exact Or.inr ⟨c,List.mem_cons_of_mem _ hc,hpart⟩

/-- Each partition has a row with number one. -/
theorem exists_firstRows {rows : List ρ} {r : ρ} (hr : r ∈ rows) :
    ∃ a ∈ firstRows part le rows, part a = part r := by
  have hsorted : r ∈ rows.mergeSort le := List.mem_mergeSort.mpr hr
  have hnew : (∃ b ∈ ([] : List ρ), part b = part r) ∨
      ∃ a ∈ newRows part [] (rows.mergeSort le), part a = part r := exists_newRows hsorted
  rw [firstRows_eq]
  rcases hnew with ⟨b,hb,-⟩ | hnew
  · cases hb
  · exact hnew

theorem mem_of_firstRows {rows : List ρ} {r : ρ} (h : r ∈ firstRows part le rows) : r ∈ rows := by
  rw [firstRows_eq] at h
  obtain ⟨earlier,later,hrows,-⟩ := mem_newRows.mp h
  have hmem : r ∈ rows.mergeSort le := by
    rw [hrows]
    exact List.mem_append_right _ List.mem_cons_self
  exact List.mem_mergeSort.mp hmem

section Order

variable (trans : ∀ a b c, le a b = true → le b c = true → le a c = true)
  (total : ∀ a b, (le a b || le b a) = true)

include trans total

/-- The row with number one is the least of its partition, where the order tells its rows
apart. -/
theorem mem_firstRows {rows : List ρ} {r : ρ}
    (hanti : ∀ a ∈ rows, part a = part r → le a r = true → le r a = true → a = r) :
    r ∈ firstRows part le rows ↔ r ∈ rows ∧ ∀ a ∈ rows, part a = part r → le r a = true := by
  have hsorted := List.pairwise_mergeSort trans total rows
  have hmem : ∀ a, a ∈ rows.mergeSort le ↔ a ∈ rows := fun a => List.mem_mergeSort
  rw [firstRows_eq,mem_newRows]
  constructor
  · rintro ⟨earlier,later,hrows,hnew⟩
    rw [hrows] at hmem
    rw [hrows,List.pairwise_append,List.pairwise_cons] at hsorted
    refine ⟨(hmem r).mp (by simp),fun a ha hpart => ?_⟩
    rcases List.mem_append.mp ((hmem a).mpr ha) with ha | ha
    · exact absurd hpart (hnew a ha)
    · rcases List.mem_cons.mp ha with rfl | ha
      · have hself := total a a
        rwa [Bool.or_self] at hself
      · exact hsorted.2.1.1 a ha
  · rintro ⟨hr,hleast⟩
    obtain ⟨earlier,later,hrows,hfirst⟩ := List.eq_append_cons_of_mem ((hmem r).mpr hr)
    refine ⟨earlier,later,hrows,fun b hb hpart => hfirst ?_⟩
    rw [hrows] at hmem
    have hbrows : b ∈ rows := (hmem b).mp (List.mem_append_left _ hb)
    rw [hrows,List.pairwise_append] at hsorted
    have hbr : le b r = true := hsorted.2.2 b hb r List.mem_cons_self
    rw [← hanti b hbrows hpart hbr (hleast b hbrows hpart)]
    exact hb

end Order

end RowNumber
end Dataspoke
