import Mathlib.Data.List.Nodup
import Mathlib.Data.List.TakeWhile
import Mathlib.Tactic.Common

/-!
# Bounded caches with an insertion order

A map and the queue of its keys. A new key that finds the map full evicts the first key of
the queue that is still in the map.
-/

namespace Dataspoke
namespace FifoCache

structure Cache (K V : Type*) where
  entries : List (K × V)
  order : List K

variable {K V : Type*}

def Cache.empty : Cache K V := ⟨[],[]⟩

def Cache.keys (c : Cache K V) : List K := c.entries.map Prod.fst

def Cache.push (c : Cache K V) (k : K) (v : V) : Cache K V :=
  ⟨c.entries++[(k,v)],c.order++[k]⟩

@[simp] theorem keys_push {c : Cache K V} {k : K} {v : V} : (c.push k v).keys = c.keys++[k] := by
  simp [Cache.push,Cache.keys]

theorem mem_push {c : Cache K V} {k : K} {v : V} {e : K × V} (h : e ∈ (c.push k v).entries) :
    e ∈ c.entries ∨ e = (k,v) :=
  (List.mem_append.mp h).imp_right List.mem_singleton.mp

/-- No key of the map is missing from the queue. -/
def Covered (c : Cache K V) : Prop := ∀ k ∈ c.keys, k ∈ c.order

/-- The queue lists the keys of the map, once each and in the order of the map. -/
structure Listed (c : Cache K V) : Prop where
  order : c.order = c.keys
  nodup : c.order.Nodup

section Listed

variable {c : Cache K V} {k : K} {v : V}

theorem listed_empty : Listed (Cache.empty : Cache K V) := ⟨rfl,List.nodup_nil⟩

theorem Listed.covered (h : Listed c) : Covered c := fun _ hk => h.order ▸ hk

theorem Covered.push (h : Covered c) : Covered (c.push k v) := by
  intro k' hk
  rw [keys_push,List.mem_append] at hk
  exact List.mem_append.mpr (hk.imp_left (h k'))

theorem Listed.push (h : Listed c) (hk : k ∉ c.keys) : Listed (c.push k v) := by
  constructor
  · rw [keys_push,← h.order]
    rfl
  · rw [← h.order] at hk
    show (c.order++[k]).Nodup
    rw [← List.concat_eq_append]
    exact h.nodup.concat hk

theorem Listed.tail {e : K × V} {rest : List (K × V)} (h : Listed c) (hc : c.entries = e::rest) :
    Listed (⟨rest,rest.map Prod.fst⟩ : Cache K V) := by
  have horder : c.order = e.1::rest.map Prod.fst := by rw [h.order,Cache.keys,hc,List.map_cons]
  exact ⟨rfl,(List.nodup_cons.mp (horder ▸ h.nodup)).2⟩

end Listed

section Updates

variable [DecidableEq K]

/-- Delete the entry of a key. The queue keeps its place. -/
def Cache.del (c : Cache K V) (k : K) : Cache K V :=
  { c with entries := c.entries.filter (·.1 ≠ k) }

def Cache.replace (c : Cache K V) (k : K) (v : V) : Cache K V :=
  { c with entries := c.entries.map fun e => if e.1 = k then (k,v) else e }

variable {c : Cache K V} {k : K} {v : V}

theorem mem_keys_del {k' : K} : k' ∈ (c.del k).keys ↔ k' ∈ c.keys ∧ k' ≠ k := by
  simp [Cache.del,Cache.keys]

@[simp] theorem keys_replace : (c.replace k v).keys = c.keys := by
  simp only [Cache.replace,Cache.keys,List.map_map]
  refine List.map_congr_left fun e _ => ?_
  by_cases h : e.1 = k <;> simp [h]

theorem Covered.del (h : Covered c) : Covered (c.del k) :=
  fun k' hk => h k' (mem_keys_del.mp hk).1

end Updates

section Lookup

variable [BEq K]

def Cache.get (c : Cache K V) (k : K) : Option V := c.entries.lookup k

variable [LawfulBEq K] {c : Cache K V} {k : K} {v : V}

theorem isSome_get : (c.get k).isSome ↔ k ∈ c.keys := by
  simp [Cache.get,Cache.keys,Option.isSome_iff_ne_none,List.lookup_eq_none_iff]

theorem mem_of_get (h : c.get k = some v) : (k,v) ∈ c.entries := by
  obtain ⟨before,after,he,_⟩ := List.lookup_eq_some_iff.mp h
  rw [he]
  simp

/-- The queue of a nonempty map has a first key that is still in the map. -/
theorem dropWhile_order (h : Covered c) (hk : k ∈ c.keys) :
    ∃ k' order, (c.order.dropWhile fun k => (c.entries.lookup k).isNone) = k'::order ∧
      k' ∈ c.keys ∧ ∀ k ∈ c.keys, k ∈ k'::order := by
  have hmem : ∀ k ∈ c.keys, k ∈ c.order.dropWhile fun k => (c.entries.lookup k).isNone := by
    intro k hk
    have hin := h k hk
    rw [← List.takeWhile_append_dropWhile (p:=fun k => (c.entries.lookup k).isNone) (l:=c.order),
      List.mem_append] at hin
    rcases hin with hin | hin
    · have hnone := List.mem_takeWhile_imp hin
      have hsome : (c.entries.lookup k).isSome := isSome_get.mpr hk
      simp [Option.isNone_iff_eq_none.mp hnone] at hsome
    · exact hin
  cases hd : c.order.dropWhile fun k => (c.entries.lookup k).isNone with
  | nil =>
    rw [hd] at hmem
    exact absurd (hmem k hk) List.not_mem_nil
  | cons k' order =>
    rw [hd] at hmem
    refine ⟨k',order,rfl,?_,hmem⟩
    have hne : c.order.dropWhile (fun k => (c.entries.lookup k).isNone) ≠ [] := by
      rw [hd]
      exact List.cons_ne_nil _ _
    have hhead := List.head_dropWhile_not _ hne
    simp only [hd,List.head_cons,Option.isNone_eq_false_iff] at hhead
    exact isSome_get.mp hhead

end Lookup

variable [BEq K] [DecidableEq K]

/-- Remove the entry of the oldest key, and with it the keys before it in the queue. -/
def Cache.evict (c : Cache K V) : Cache K V :=
  match c.order.dropWhile fun k => (c.entries.lookup k).isNone with
  | [] => { c with order := [] }
  | k::order => ⟨c.entries.filter (·.1 ≠ k),order⟩

def Cache.put (n : ℕ) (c : Cache K V) (k : K) (v : V) : Cache K V :=
  if (c.get k).isSome then c.replace k v
  else if n ≤ c.entries.length then c.evict.push k v
  else c.push k v

section Entries

variable {c : Cache K V} {k : K} {v : V}

theorem mem_evict {e : K × V} (h : e ∈ c.evict.entries) : e ∈ c.entries := by
  unfold Cache.evict at h
  split at h
  next => exact h
  next => exact (List.mem_filter.mp h).1

theorem mem_put {n : ℕ} {e : K × V} (h : e ∈ (c.put n k v).entries) :
    e ∈ c.entries ∨ e = (k,v) := by
  unfold Cache.put at h
  split_ifs at h
  · obtain ⟨e',he',rfl⟩ := List.mem_map.mp h
    by_cases hk : e'.1 = k
    · exact Or.inr (if_pos hk)
    · rw [if_neg hk]
      exact Or.inl he'
  · exact (mem_push h).imp_left mem_evict
  · exact mem_push h

end Entries

variable [LawfulBEq K]

section Bounded

variable {c : Cache K V} {k : K} {v : V}

theorem Covered.evict (h : Covered c) : Covered c.evict := by
  intro k hk
  have hk' : k ∈ c.keys := by
    obtain ⟨e,he,rfl⟩ := List.mem_map.mp hk
    exact List.mem_map.mpr ⟨e,mem_evict he,rfl⟩
  obtain ⟨k',order,hd,-,hmem⟩ := dropWhile_order h hk'
  simp only [Cache.evict,hd] at hk ⊢
  have hne : k ≠ k' := (mem_keys_del (c:=c).mp hk).2
  exact (List.mem_cons.mp (hmem k hk')).resolve_left hne

theorem Covered.put {n : ℕ} (h : Covered c) : Covered (c.put n k v) := by
  unfold Cache.put
  split_ifs
  · intro k' hk
    rw [keys_replace] at hk
    exact h k' hk
  · exact h.evict.push
  · exact h.push

theorem length_evict (h : Covered c) (hne : c.entries ≠ []) :
    c.evict.entries.length < c.entries.length := by
  obtain ⟨e,he⟩ := List.exists_mem_of_ne_nil _ hne
  obtain ⟨k',order,hd,hk',-⟩ := dropWhile_order h (List.mem_map.mpr ⟨e,he,rfl⟩)
  obtain ⟨e',he',rfl⟩ := List.mem_map.mp hk'
  simp only [Cache.evict,hd]
  exact List.length_filter_lt_length_iff_exists.mpr ⟨e',he',by simp⟩

theorem length_put {n : ℕ} (hn : 0 < n) (h : Covered c) (hc : c.entries.length ≤ n) :
    (c.put n k v).entries.length ≤ n := by
  unfold Cache.put
  split_ifs with hk hfull
  · rw [Cache.replace,List.length_map]
    exact hc
  · have hne : c.entries ≠ [] := List.ne_nil_of_length_pos (by omega)
    have hlt := length_evict h hne
    rw [Cache.push,List.length_append,List.length_singleton]
    omega
  · rw [Cache.push,List.length_append,List.length_singleton]
    omega

end Bounded

section Put

variable {c : Cache K V} {k : K} {v : V}

theorem Listed.evict {e : K × V} {rest : List (K × V)} (h : Listed c)
    (hc : c.entries = e::rest) : c.evict = ⟨rest,rest.map Prod.fst⟩ := by
  have horder : c.order = e.1::rest.map Prod.fst := by rw [h.order,Cache.keys,hc,List.map_cons]
  have hnodup : e.1 ∉ rest.map Prod.fst := (List.nodup_cons.mp (horder ▸ h.nodup)).1
  have hsome : (c.entries.lookup e.1).isNone = false := by simp [hc]
  have hfilter : rest.filter (·.1 ≠ e.1) = rest := by
    refine List.filter_eq_self.mpr fun e' he' => ?_
    have hne : e'.1 ≠ e.1 := fun heq => hnodup (heq ▸ List.mem_map_of_mem he')
    simpa using hne
  have hdrop : (c.order.dropWhile fun k => (c.entries.lookup k).isNone) =
      e.1::rest.map Prod.fst := by
    rw [horder,List.dropWhile_cons_of_neg (by simp [hsome])]
  simp only [Cache.evict,hdrop]
  rw [hc,List.filter_cons_of_neg (by simp),hfilter]

/-- What a put of a new key does to a cache whose queue lists its keys. -/
theorem Listed.put_new {n : ℕ} (hn : 0 < n) (h : Listed c) (hk : k ∉ c.keys) :
    c.entries.length < n ∧ c.put n k v = c.push k v ∨
      ∃ e rest, c.entries = e::rest ∧ n ≤ c.entries.length ∧
        c.put n k v = Cache.push ⟨rest,rest.map Prod.fst⟩ k v := by
  have hnone : ¬ (c.get k).isSome := fun hs => hk (isSome_get.mp hs)
  unfold Cache.put
  rw [if_neg hnone]
  by_cases hfull : n ≤ c.entries.length
  · rw [if_pos hfull]
    cases hc : c.entries with
    | nil =>
      rw [hc,List.length_nil] at hfull
      omega
    | cons e rest => exact Or.inr ⟨e,rest,rfl,hc ▸ hfull,by rw [h.evict hc]⟩
  · rw [if_neg hfull]
    exact Or.inl ⟨Nat.lt_of_not_le hfull,rfl⟩

theorem Listed.put_listed {n : ℕ} (hn : 0 < n) (h : Listed c) (hk : k ∉ c.keys) :
    Listed (c.put n k v) := by
  rcases h.put_new hn hk with ⟨-,hput⟩ | ⟨e,rest,hc,-,hput⟩
  · rw [hput]
    exact h.push hk
  · rw [hput]
    refine (h.tail hc).push fun hmem => hk ?_
    rw [Cache.keys,hc]
    exact List.mem_cons_of_mem _ hmem

end Put

end FifoCache
end Dataspoke
