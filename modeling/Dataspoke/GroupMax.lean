import Mathlib.Data.List.AList
import Mathlib.Data.List.Dedup
import Mathlib.Data.List.Induction
import Mathlib.Data.List.MinMax
import Mathlib.Order.Bounds.Basic

/-!
# The maximum of each group

`max(…) GROUP BY …`, and a dict that keeps the greatest time for each key while the groups are
folded into it. A dict is an association list whose keys are distinct; nothing reads their
order.
-/

namespace Dataspoke
namespace GroupMax

section Dicts

abbrev Dict (κ ν : Type) := AList fun _ : κ => ν

variable {κ ν : Type} [DecidableEq κ]

/-- `d[k] = v` for each item in turn. -/
def insertAll (items : List (κ × ν)) (d : Dict κ ν) : Dict κ ν :=
  items.foldl (fun d item => d.insert item.1 item.2) d

/-- Where items of one key have one value, their order does not matter. -/
theorem lookup_insertAll {items : List (κ × ν)} {d : Dict κ ν}
    (h : ∀ x ∈ items, ∀ y ∈ items, x.1 = y.1 → x.2 = y.2) {k : κ} {v : ν} :
    (insertAll items d).lookup k = some v ↔
      (k,v) ∈ items ∨ (∀ x ∈ items, x.1 ≠ k) ∧ d.lookup k = some v := by
  induction items using List.reverseRecOn with
  | nil => simp [insertAll]
  | append_singleton items item ih =>
    have hmem : ∀ x ∈ items, x ∈ items ++ [item] := fun x hx => List.mem_append_left _ hx
    have hlast : item ∈ items ++ [item] := List.mem_append_right _ List.mem_cons_self
    have hstep : insertAll (items ++ [item]) d = (insertAll items d).insert item.1 item.2 := by
      rw [insertAll,List.foldl_append]
      rfl
    rw [hstep]
    by_cases hk : k = item.1
    · subst hk
      rw [AList.lookup_insert,Option.some.injEq]
      constructor
      · rintro rfl
        exact .inl hlast
      · rintro (hv | ⟨hnone,-⟩)
        · exact h _ hlast _ hv rfl
        · exact absurd rfl (hnone _ hlast)
    · rw [AList.lookup_insert_ne hk,ih fun x hx y hy => h x (hmem x hx) y (hmem y hy)]
      have hold : (k,v) ∈ items ++ [item] ↔ (k,v) ∈ items := by
        rw [List.mem_append,List.mem_singleton]
        exact or_iff_left fun he => hk (congrArg Prod.fst he)
      have hnew : (∀ x ∈ items ++ [item], x.1 ≠ k) ↔ ∀ x ∈ items, x.1 ≠ k := by
        constructor
        · exact fun hx x hmem' => hx x (hmem x hmem')
        · intro hx x hmem'
          rcases List.mem_append.mp hmem' with hin | hin
          · exact hx x hin
          · exact List.mem_singleton.mp hin ▸ Ne.symm hk
      rw [hold,hnew]

end Dicts

section Greatest

variable {τ : Type} [LinearOrder τ]

/-- The greatest element of the set, and none for the empty set. -/
def Greatest (S : Set τ) : Option τ → Prop
  | none => S = ∅
  | some t => IsGreatest S t

theorem Greatest.unique {S : Set τ} {a b : Option τ} (ha : Greatest S a) (hb : Greatest S b) :
    a = b := by
  cases a with
  | none =>
    cases b with
    | none => rfl
    | some t =>
      have hS : S = ∅ := ha
      have hmem : t ∈ S := hb.1
      rw [hS] at hmem
      cases hmem
  | some s =>
    cases b with
    | none =>
      have hS : S = ∅ := hb
      have hmem : s ∈ S := ha.1
      rw [hS] at hmem
      cases hmem
    | some t => exact congrArg some (IsGreatest.unique ha hb)

theorem Greatest.insert {S : Set τ} {o : Option τ} (h : Greatest S o) (t : τ) :
    Greatest (insert t S) (some (o.elim t fun current => max t current)) := by
  cases o with
  | none =>
    have hS : S = ∅ := h
    rw [hS,insert_empty_eq]
    exact isGreatest_singleton
  | some current => exact IsGreatest.insert t h

/-- The greatest of the greatest elements of some sets is the greatest of their union. -/
theorem greatest_union {ι : Type} {S : ι → Set τ} {o : Option τ}
    (hbounded : ∀ i, (S i).Nonempty → ∃ t, IsGreatest (S i) t)
    (h : Greatest {t | ∃ i, IsGreatest (S i) t} o) : Greatest {s | ∃ i, s ∈ S i} o := by
  have habove : ∀ s ∈ {s | ∃ i, s ∈ S i}, ∃ t ∈ {t | ∃ i, IsGreatest (S i) t}, s ≤ t := by
    rintro s ⟨i,hi⟩
    obtain ⟨t,ht⟩ := hbounded i ⟨s,hi⟩
    exact ⟨t,⟨i,ht⟩,ht.2 hi⟩
  cases o with
  | none =>
    refine Set.eq_empty_iff_forall_notMem.mpr fun s hs => ?_
    obtain ⟨t,ht,-⟩ := habove s hs
    exact (Set.eq_empty_iff_forall_notMem.mp h) t ht
  | some t =>
    obtain ⟨⟨i,hi⟩,hmax⟩ := h
    refine ⟨⟨i,hi.1⟩,fun s hs => ?_⟩
    obtain ⟨t',ht',hle⟩ := habove s hs
    exact hle.trans (hmax ht')

end Greatest

section Groups

variable {ρ κ ω τ : Type} [DecidableEq κ] [DecidableEq ω] [LinearOrder τ]
  (key : ρ → κ) (time : ρ → τ)

def times (rows : List ρ) (k : κ) : Set τ := {t | ∃ r ∈ rows, key r = k ∧ time r = t}

/-- `SELECT key, max(time) … GROUP BY key`. -/
def groupMax (rows : List ρ) : List (κ × τ) :=
  (rows.map key).dedup.filterMap fun k =>
    ((rows.filter fun r => key r = k).map time).max?.map fun t => (k,t)

/-- `latest[k] = t` if the key is new or the time later. -/
def keepLater (latest : Dict ω τ) (k : ω) (t : τ) : Dict ω τ :=
  match latest.lookup k with
  | none => latest.insert k t
  | some current => if current < t then latest.insert k t else latest

/-- The groups folded into the keys that they are mapped to. -/
def fold (owner : κ → Option ω) (groups : List (κ × τ)) : Dict ω τ :=
  groups.foldl (fun latest group =>
    match owner group.1 with
    | none => latest
    | some k => keepLater latest k group.2) ∅

variable {key time}

theorem greatest_max? (rows : List ρ) (k : κ) : Greatest (times key time rows k)
    ((rows.filter fun r => key r = k).map time).max? := by
  have hmem : ∀ t, t ∈ (rows.filter fun r => key r = k).map time ↔ t ∈ times key time rows k := by
    intro t
    simp only [times,List.mem_map,List.mem_filter,decide_eq_true_eq,Set.mem_ofPred_eq,and_assoc]
  cases hm : ((rows.filter fun r => key r = k).map time).max? with
  | none =>
    have hnil := List.max?_eq_none_iff.mp hm
    refine Set.eq_empty_iff_forall_notMem.mpr fun t ht => ?_
    rw [← hmem,hnil] at ht
    cases ht
  | some t =>
    obtain ⟨ht,hmax⟩ := List.max?_eq_some_iff.mp hm
    exact ⟨(hmem t).mp ht,fun s hs => hmax s ((hmem s).mpr hs)⟩

theorem exists_greatest {rows : List ρ} {k : κ} (h : (times key time rows k).Nonempty) :
    ∃ t, IsGreatest (times key time rows k) t := by
  have hmax : Greatest (times key time rows k) _ := greatest_max? rows k
  cases hm : ((rows.filter fun r => key r = k).map time).max? with
  | none =>
    rw [hm] at hmax
    exact absurd hmax h.ne_empty
  | some t =>
    rw [hm] at hmax
    exact ⟨t,hmax⟩

theorem mem_groupMax {rows : List ρ} {k : κ} {t : τ} :
    (k,t) ∈ groupMax key time rows ↔ IsGreatest (times key time rows k) t := by
  have hmax : Greatest (times key time rows k) _ := greatest_max? rows k
  constructor
  · intro h
    obtain ⟨k',-,hk'⟩ := List.mem_filterMap.mp h
    obtain ⟨t',ht',he⟩ := Option.map_eq_some_iff.mp hk'
    obtain ⟨rfl,rfl⟩ := Prod.mk.inj he
    rw [ht'] at hmax
    exact hmax
  · intro h
    obtain ⟨r,hr,hk,-⟩ := h.1
    have hsome : ((rows.filter fun r => key r = k).map time).max? = some t :=
      hmax.unique (b:=some t) h
    refine List.mem_filterMap.mpr ⟨k,List.mem_dedup.mpr (List.mem_map.mpr ⟨r,hr,hk⟩),?_⟩
    rw [hsome]
    rfl

theorem lookup_keepLater (latest : Dict ω τ) (k : ω) (t : τ) (k' : ω) :
    (keepLater latest k t).lookup k' =
      if k' = k then some ((latest.lookup k).elim t fun current => max t current)
      else latest.lookup k' := by
  unfold keepLater
  by_cases hk : k' = k
  · subst hk
    rw [if_pos rfl]
    cases hl : latest.lookup k' with
    | none => exact AList.lookup_insert latest
    | some current =>
      by_cases hlt : current < t
      · simp [hlt,max_eq_left hlt.le]
      · simp [hlt,hl,max_eq_right (not_lt.mp hlt)]
  · rw [if_neg hk]
    split
    · exact AList.lookup_insert_ne hk
    · split
      · exact AList.lookup_insert_ne hk
      · rfl

omit [DecidableEq κ] in
/-- The dict holds the greatest time of the groups that go to a key. -/
theorem lookup_fold (owner : κ → Option ω) (groups : List (κ × τ)) (k : ω) :
    Greatest {t | ∃ g ∈ groups, owner g.1 = some k ∧ g.2 = t} ((fold owner groups).lookup k) := by
  induction groups using List.reverseRecOn with
  | nil => simp [fold,Greatest]
  | append_singleton groups g ih =>
    have hstep : fold owner (groups ++ [g]) = match owner g.1 with
        | none => fold owner groups
        | some k => keepLater (fold owner groups) k g.2 := by
      rw [fold,List.foldl_append]
      rfl
    by_cases hk : owner g.1 = some k
    · have hset : {t | ∃ g' ∈ groups ++ [g], owner g'.1 = some k ∧ g'.2 = t} =
          insert g.2 {t | ∃ g' ∈ groups, owner g'.1 = some k ∧ g'.2 = t} := by
        ext t
        simp only [List.mem_append,List.mem_singleton,Set.mem_ofPred_eq,Set.mem_insert_iff]
        constructor
        · rintro ⟨g',hg' | rfl,hown,rfl⟩
          · exact .inr ⟨g',hg',hown,rfl⟩
          · exact .inl rfl
        · rintro (rfl | ⟨g',hg',hown,rfl⟩)
          · exact ⟨g,.inr rfl,hk,rfl⟩
          · exact ⟨g',.inl hg',hown,rfl⟩
      rw [hset,hstep,hk]
      dsimp only
      rw [lookup_keepLater,if_pos rfl]
      exact ih.insert g.2
    · have hset : {t | ∃ g' ∈ groups ++ [g], owner g'.1 = some k ∧ g'.2 = t} =
          {t | ∃ g' ∈ groups, owner g'.1 = some k ∧ g'.2 = t} := by
        ext t
        simp only [List.mem_append,List.mem_singleton,Set.mem_ofPred_eq]
        constructor
        · rintro ⟨g',hg' | rfl,hown,rfl⟩
          · exact ⟨g',hg',hown,rfl⟩
          · exact absurd hown hk
        · rintro ⟨g',hg',hown,rfl⟩
          exact ⟨g',.inl hg',hown,rfl⟩
      rw [hset,hstep]
      cases ho : owner g.1 with
      | none => exact ih
      | some k' =>
        have hne : k ≠ k' := fun he => hk (he ▸ ho)
        dsimp only
        rw [lookup_keepLater,if_neg hne]
        exact ih

/-- Groups in any order, folded into their owners, give each owner the greatest time of all its
rows. -/
theorem lookup_fold_groupMax (owner : κ → Option ω) {rows : List ρ} {groups : List (κ × τ)}
    (hperm : groups.Perm (groupMax key time rows)) (k : ω) :
    Greatest {t | ∃ r ∈ rows, owner (key r) = some k ∧ time r = t}
      ((fold owner groups).lookup k) := by
  have hunion : {t | ∃ r ∈ rows, owner (key r) = some k ∧ time r = t} =
      {t | ∃ i : {a : κ // owner a = some k}, t ∈ times key time rows i} := by
    ext t
    simp only [Set.mem_ofPred_eq,times]
    constructor
    · rintro ⟨r,hr,hown,ht⟩
      exact ⟨⟨key r,hown⟩,r,hr,rfl,ht⟩
    · rintro ⟨⟨a,hown⟩,r,hr,rfl,ht⟩
      exact ⟨r,hr,hown,ht⟩
  have hgroups : {t | ∃ g ∈ groups, owner g.1 = some k ∧ g.2 = t} =
      {t | ∃ i : {a : κ // owner a = some k}, IsGreatest (times key time rows i) t} := by
    ext t
    simp only [Set.mem_ofPred_eq]
    constructor
    · rintro ⟨g,hg,hown,rfl⟩
      exact ⟨⟨g.1,hown⟩,mem_groupMax.mp (hperm.mem_iff.mp hg)⟩
    · rintro ⟨⟨a,hown⟩,ht⟩
      exact ⟨(a,t),hperm.mem_iff.mpr (mem_groupMax.mpr ht),hown,rfl⟩
  have hfold := lookup_fold owner groups k
  rw [hgroups] at hfold
  rw [hunion]
  exact greatest_union (fun _ hi => exists_greatest hi) hfold

end Groups

end GroupMax
end Dataspoke
