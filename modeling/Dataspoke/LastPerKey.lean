import Dataspoke.Python
import Mathlib.Data.Char
import Mathlib.Data.List.Induction
import Mathlib.Data.List.Sort
import Mathlib.Data.List.Lex

/-!
# The last item of each key

A loop that holds for each key the item of the greatest time so far, the later item on ties,
and the held items sorted by their keys.
-/

namespace Dataspoke
namespace LastPerKey

open Python

variable {ρ τ : Type} [LinearOrder τ] (time : ρ → τ) (key : ρ → Str)

def hold (latest : List (Str × ρ)) (x : ρ) : List (Str × ρ) :=
  match get? (key x) latest with
  | some held => if time held ≤ time x then setItem (key x) x latest else latest
  | none => setItem (key x) x latest

def collapse (xs : List ρ) : List (Str × ρ) := xs.foldl (hold time key) []

/-- The item of the greatest time, the last one on ties. -/
def later (held : Option ρ) (x : ρ) : Option ρ :=
  match held with
  | some h => if time h ≤ time x then some x else some h
  | none => some x

def latestOf (xs : List ρ) : Option ρ := xs.foldl (later time) none

/-- The item is the last of the greatest time. -/
def IsLast (xs : List ρ) (k : ρ) : Prop :=
  ∃ before after, xs = before ++ k::after ∧ (∀ x ∈ before, time x ≤ time k) ∧
    ∀ x ∈ after, time x < time k

def sorted (entries : List (Str × ρ)) : List (Str × ρ) :=
  entries.insertionSort fun a b => a.1 ≤ b.1

variable {time key}

theorem latestOf_concat (xs : List ρ) (x : ρ) :
    latestOf time (xs ++ [x]) = later time (latestOf time xs) x := by
  rw [latestOf,List.foldl_append]
  rfl

theorem collapse_concat (xs : List ρ) (x : ρ) :
    collapse time key (xs ++ [x]) = hold time key (collapse time key xs) x := by
  rw [collapse,List.foldl_append]
  rfl

theorem get?_hold (latest : List (Str × ρ)) (x : ρ) (b : Str) :
    get? b (hold time key latest x) =
      if b = key x then later time (get? b latest) x else get? b latest := by
  unfold hold
  by_cases hb : b = key x
  · subst hb
    rw [if_pos rfl]
    split
    · rename_i held hget
      rw [hget,later]
      split
      · rw [get?_setItem,if_pos rfl]
      · exact hget
    · rename_i hget
      rw [hget,get?_setItem,if_pos rfl]
      rfl
  · rw [if_neg hb]
    split
    · split
      · rw [get?_setItem,if_neg hb]
      · rfl
    · rw [get?_setItem,if_neg hb]

/-- What is held for a key is the last of the items with the key. -/
theorem get?_collapse (xs : List ρ) (b : Str) :
    get? b (collapse time key xs) = latestOf time (xs.filter fun x => key x = b) := by
  induction xs using List.reverseRecOn with
  | nil => rfl
  | append_singleton xs x ih =>
    rw [collapse_concat,get?_hold,ih,List.filter_append]
    by_cases hb : b = key x
    · have hx : [x].filter (fun x => key x = b) = [x] := by simp [hb]
      rw [if_pos hb,hx,latestOf_concat]
    · have hx : [x].filter (fun x => key x = b) = [] := by simp [Ne.symm hb]
      rw [if_neg hb,hx,List.append_nil]

theorem nodup_collapse (xs : List ρ) : ((collapse time key xs).map Prod.fst).Nodup := by
  induction xs using List.reverseRecOn with
  | nil => exact List.nodup_nil
  | append_singleton xs x ih =>
    rw [collapse_concat]
    unfold hold
    split
    · split
      · exact nodup_setItem ih
      · exact ih
    · exact nodup_setItem ih

theorem later_ne_none (held : Option ρ) (x : ρ) : later time held x ≠ none := by
  unfold later
  split
  · split
    · exact Option.some_ne_none _
    · exact Option.some_ne_none _
  · exact Option.some_ne_none _

theorem latestOf_isLast {xs : List ρ} {k : ρ} (h : latestOf time xs = some k) :
    IsLast time xs k := by
  induction xs using List.reverseRecOn generalizing k with
  | nil => cases h
  | append_singleton xs x ih =>
    rw [latestOf_concat] at h
    cases hxs : latestOf time xs with
    | none =>
      have hnil : xs = [] := by
        rcases List.eq_nil_or_concat xs with hnil | ⟨ys,y,hxs'⟩
        · exact hnil
        · rw [hxs',List.concat_eq_append,latestOf_concat] at hxs
          exact absurd hxs (later_ne_none _ y)
      rw [hxs] at h
      obtain rfl := Option.some.inj h
      exact ⟨xs,[],rfl,by simp [hnil],nofun⟩
    | some held =>
      obtain ⟨before,after,heq,hbefore,hafter⟩ := ih hxs
      rw [hxs] at h
      unfold later at h
      dsimp only at h
      split at h
      · rename_i hle
        obtain rfl := Option.some.inj h
        refine ⟨xs,[],rfl,fun y hy => ?_,nofun⟩
        rw [heq,List.mem_append,List.mem_cons] at hy
        rcases hy with hy | rfl | hy
        · exact (hbefore y hy).trans hle
        · exact hle
        · exact (hafter y hy).le.trans hle
      · rename_i hlt
        obtain rfl := Option.some.inj h
        refine ⟨before,after ++ [x],by simp [heq],hbefore,fun y hy => ?_⟩
        rcases List.mem_append.mp hy with hy | hy
        · exact hafter y hy
        · rw [List.mem_singleton.mp hy]
          exact not_le.mp hlt

theorem latestOf_isSome {xs : List ρ} {x : ρ} (h : x ∈ xs) : ∃ k, latestOf time xs = some k := by
  rcases List.eq_nil_or_concat xs with rfl | ⟨ys,y,rfl⟩
  · cases h
  · rw [List.concat_eq_append,latestOf_concat]
    exact Option.ne_none_iff_exists'.mp (later_ne_none _ y)

theorem IsLast.mem {xs : List ρ} {k : ρ} (h : IsLast time xs k) : k ∈ xs := by
  obtain ⟨before,after,rfl,-⟩ := h
  exact List.mem_append_right _ List.mem_cons_self

theorem IsLast.le {xs : List ρ} {k x : ρ} (h : IsLast time xs k) (hx : x ∈ xs) :
    time x ≤ time k := by
  obtain ⟨before,after,rfl,hbefore,hafter⟩ := h
  rcases List.mem_append.mp hx with hx | hx
  · exact hbefore x hx
  rcases List.mem_cons.mp hx with rfl | hx
  · exact le_rfl
  · exact (hafter x hx).le

/-- Items of distinct times have one last item, in whatever order they come. -/
theorem latestOf_perm {xs ys : List ρ} (hperm : xs.Perm ys) (hn : (xs.map time).Nodup) :
    latestOf time xs = latestOf time ys := by
  cases hx : latestOf time xs with
  | none =>
    cases hy : latestOf time ys with
    | none => rfl
    | some k =>
      have hmem : k ∈ xs := hperm.symm.subset (latestOf_isLast hy).mem
      have hsome : ∃ k', latestOf time xs = some k' := latestOf_isSome hmem
      obtain ⟨k',hk'⟩ := hsome
      rw [hx] at hk'
      cases hk'
  | some k =>
    have hlast := latestOf_isLast hx
    have hsome : ∃ k', latestOf time ys = some k' := latestOf_isSome (hperm.subset hlast.mem)
    obtain ⟨k',hk'⟩ := hsome
    have hlast' := latestOf_isLast hk'
    have htime : time k = time k' :=
      le_antisymm (hlast'.le (hperm.subset hlast.mem)) (hlast.le (hperm.symm.subset hlast'.mem))
    rw [hk',List.inj_on_of_nodup_map hn hlast.mem (hperm.symm.subset hlast'.mem) htime]

/-- Entries of a map, as the list of its keys has them. -/
theorem mem_collapse {xs : List ρ} {b : Str} {k : ρ} : (b,k) ∈ collapse time key xs ↔
    latestOf time (xs.filter fun x => key x = b) = some k := by
  rw [← get?_collapse,get?_eq_some_iff (nodup_collapse xs)]

theorem sorted_pairwise {entries : List (Str × ρ)} (hn : (entries.map Prod.fst).Nodup) :
    (sorted entries).Pairwise fun a b => a.1 < b.1 := by
  have hle : (sorted entries).Pairwise fun a b => a.1 ≤ b.1 :=
    List.pairwise_insertionSort (fun a b : Str × ρ => a.1 ≤ b.1) entries
  have hnodup : ((sorted entries).map Prod.fst).Nodup :=
    ((List.perm_insertionSort _ entries).map Prod.fst).nodup_iff.mpr hn
  have hne : (sorted entries).Pairwise fun a b => a.1 ≠ b.1 := List.pairwise_map.mp hnodup
  exact (hle.and hne).imp fun h => lt_of_le_of_ne h.1 h.2

/-- The sorted map of items of distinct times does not depend on their order. -/
theorem sorted_collapse_perm {xs ys : List ρ} (hperm : xs.Perm ys) (hn : (xs.map time).Nodup) :
    sorted (collapse time key xs) = sorted (collapse time key ys) := by
  have hmem : ∀ e, e ∈ collapse time key xs ↔ e ∈ collapse time key ys := by
    rintro ⟨b,k⟩
    have hsub : ((xs.filter fun x => key x = b).map time).Nodup :=
      hn.sublist (List.filter_sublist.map time)
    rw [mem_collapse,mem_collapse,latestOf_perm (hperm.filter _) hsub]
  have hentries : (collapse time key xs).Perm (collapse time key ys) :=
    (List.perm_ext_iff_of_nodup (nodup_collapse xs).of_map (nodup_collapse ys).of_map).mpr hmem
  have hsorted : (sorted (collapse time key xs)).Perm (sorted (collapse time key ys)) :=
    (List.perm_insertionSort _ _).trans (hentries.trans (List.perm_insertionSort _ _).symm)
  refine hsorted.eq_of_pairwise (fun a b _ _ hab hba => (lt_asymm hab hba).elim)
    (sorted_pairwise (nodup_collapse xs)) (sorted_pairwise (nodup_collapse ys))

end LastPerKey
end Dataspoke
