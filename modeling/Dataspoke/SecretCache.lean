import Dataspoke.FifoCache
import Dataspoke.SecretRefs
import Dataspoke.Transition
import Mathlib.Algebra.Order.Field.Rat
import Mathlib.Tactic.Linarith

/-!
# The secret cache

Every sequence of `resolve_secret_ref` and `set_backend` calls. The read that finds an expired
entry deletes it from the map and leaves its place in the queue.
-/

namespace Dataspoke
namespace Secrets

open FifoCache Python Transition

abbrev Entry := (Str × Str) × Str × ℚ

/-- The cache with the time of the last call, the values stored and returned so far with their
times, and the evicted entries, each with the entries among which it stood. -/
structure Cached where
  cache : Cache (Str × Str) (Str × ℚ)
  clock : ℚ
  stored : List Entry
  returned : List Entry
  evicted : List (Entry × List Entry)

/-- The calls: of a reference, with the times before and after the backend is asked and its
answer, and of `set_backend`. -/
inductive CacheCall
  | resolve (ref : Str) (now : ℚ) (answer : Except SecretError Str) (later : ℚ)
  | set_backend (now : ℚ)

def Cached.put (st : Cached) (k : Str × Str) (value : Str) (now : ℚ) : Cached :=
  let cache := st.cache.put cacheMaxSize k (value,now+ttlSeconds)
  { st with
    cache := cache
    stored := (k,value,now)::st.stored
    returned := (k,value,now)::st.returned
    evicted := (st.cache.entries.filter fun e => e.1 ∉ cache.keys).map (·,st.cache.entries) ++
      st.evicted }

/-- Read a value from the backend into the cache. -/
def Cached.fetch (st : Cached) (k : Str × Str) (answer : Except SecretError Str) (later : ℚ) :
    Cached :=
  match answer with
  | .error _ => st
  | .ok value => st.put k value later

def Cached.lookup (st : Cached) (k : Str × Str) (now : ℚ) (answer : Except SecretError Str)
    (later : ℚ) : Cached :=
  match st.cache.get k with
  | some (value,expiry) =>
    if now < expiry then { st with returned := (k,value,now)::st.returned }
    else Cached.fetch { st with cache := st.cache.del k } k answer later
  | none => st.fetch k answer later

def callCache (st : Cached) : CacheCall → Option Cached
  | .resolve ref now answer later =>
    if st.clock ≤ now ∧ now ≤ later then
      match parse_name_key ref with
      | .error _ => some { st with clock := later }
      | .ok k => some { st.lookup k now answer later with clock := later }
    else none
  | .set_backend now =>
    if st.clock ≤ now then some { st with cache := .empty, clock := now } else none

def cacheSystem : System Cached CacheCall :=
  ofFun (fun st => st = ⟨.empty,st.clock,[],[],[]⟩) callCache

/-- The resolver of a run keeps its cache in the same way. -/
theorem put_eq (st : Resolver) (k : Str × Str) (v : Str × ℕ) :
    (⟨(st.put k v).cache,(st.put k v).order⟩ : Cache (Str × Str) (Str × ℕ)) =
      Cache.put cacheMaxSize ⟨st.cache,st.order⟩ k v := by
  unfold Resolver.put Cache.put Cache.get
  by_cases hk : (st.cache.lookup k).isSome
  · rw [if_pos hk,if_pos hk]
    rfl
  · rw [if_neg hk,if_neg hk]
    by_cases hfull : cacheMaxSize ≤ st.cache.length
    · rw [if_pos hfull,if_pos hfull]
      simp only [Secrets.evict,Cache.evict,Cache.push]
      generalize st.order.dropWhile _ = order
      cases order <;> rfl
    · rw [if_neg hfull,if_neg hfull]
      rfl

/-- A bounded cache, whose queue lists its keys once each; only its oldest entry has been
evicted, and a value that was returned had been stored for less than its time to live. -/
structure Intact (st : Cached) : Prop where
  size : st.cache.entries.length ≤ cacheMaxSize
  nodup : st.cache.order.Nodup
  lists : ∀ k, k ∈ st.cache.order ↔ k ∈ st.cache.keys
  oldest : ∀ p ∈ st.evicted, p.2.head? = some p.1 ∧ ∀ e ∈ p.2, p.1.2.2 ≤ e.2.2
  fresh : ∀ e ∈ st.returned, ∃ s, (e.1,e.2.1,s) ∈ st.stored ∧ s ≤ e.2.2 ∧ e.2.2 < s+ttlSeconds

/-- No call finds an expired entry under its reference. -/
def NoExpiredRead (st : Cached) : CacheCall → Prop
  | .resolve ref now _ _ => ∀ k value expiry, parse_name_key ref = .ok k →
      st.cache.get k = some (value,expiry) → now < expiry
  | .set_backend _ => True

instance (st : Cached) (call : CacheCall) : Decidable (NoExpiredRead st call) :=
  match call with
  | .set_backend _ => isTrue trivial
  | .resolve ref now _ _ =>
    match hk : parse_name_key ref with
    | .error _ => isTrue fun k _ _ hp _ => by cases hk.symm.trans hp
    | .ok k =>
      match hg : st.cache.get k with
      | none => isTrue fun k' _ _ hp he => by
          obtain rfl := Except.ok.inj (hk.symm.trans hp)
          cases hg.symm.trans he
      | some (value,expiry) => decidable_of_iff (now < expiry) ⟨fun h k' _ _ hp he => by
          obtain rfl := Except.ok.inj (hk.symm.trans hp)
          obtain ⟨rfl,rfl⟩ := Prod.mk.inj (Option.some.inj (hg.symm.trans he))
          exact h,fun h => h k value expiry hk hg⟩

section Kept

/-- What every call keeps, at the time it ends. -/
structure Kept (now : ℚ) (st : Cached) : Prop where
  covered : Covered st.cache
  size : st.cache.entries.length ≤ cacheMaxSize
  logged : ∀ e ∈ st.cache.entries, e.2.2 ≤ now+ttlSeconds ∧
    (e.1,e.2.1,e.2.2-ttlSeconds) ∈ st.stored
  fresh : ∀ e ∈ st.returned, ∃ s, (e.1,e.2.1,s) ∈ st.stored ∧ s ≤ e.2.2 ∧ e.2.2 < s+ttlSeconds

variable {st : Cached} {now later : ℚ} {k : Str × Str} {value : Str}

theorem Kept.mono (h : Kept now st) (hle : now ≤ later) : Kept later st := by
  refine ⟨h.covered,h.size,fun e he => ?_,h.fresh⟩
  have hlogged := h.logged e he
  exact ⟨by linarith [hlogged.1],hlogged.2⟩

theorem Kept.del (h : Kept now st) : Kept now { st with cache := st.cache.del k } := by
  refine ⟨h.covered.del,?_,fun e he => h.logged e (List.mem_filter.mp he).1,h.fresh⟩
  exact (List.length_filter_le _ _).trans h.size

theorem Kept.put (h : Kept now st) : Kept now (st.put k value now) := by
  constructor
  · exact h.covered.put
  · exact length_put (by decide) h.covered h.size
  · intro e he
    rcases mem_put he with he | rfl
    · have hlogged := h.logged e he
      exact ⟨hlogged.1,List.mem_cons_of_mem _ hlogged.2⟩
    · have hnow : now+(ttlSeconds : ℚ)-ttlSeconds = now := add_sub_cancel_right _ _
      refine ⟨le_refl _,?_⟩
      rw [hnow]
      exact List.mem_cons_self
  · intro e he
    rcases List.mem_cons.mp he with rfl | he
    · refine ⟨now,List.mem_cons_self,le_refl _,?_⟩
      have httl : (0 : ℚ) < ttlSeconds := by decide +kernel
      linarith
    · obtain ⟨s,hs,hle,hlt⟩ := h.fresh e he
      exact ⟨s,List.mem_cons_of_mem _ hs,hle,hlt⟩

theorem Kept.fetch {answer : Except SecretError Str} (h : Kept later st) :
    Kept later (st.fetch k answer later) := by
  cases answer with
  | error e => exact h
  | ok value => exact h.put

/-- A value that is still in the cache was stored less than the time to live ago. -/
theorem Kept.hit {expiry : ℚ} (h : Kept now st) (hget : st.cache.get k = some (value,expiry))
    (hlt : now < expiry) : Kept now { st with returned := (k,value,now)::st.returned } := by
  refine ⟨h.covered,h.size,h.logged,fun e he => ?_⟩
  rcases List.mem_cons.mp he with rfl | he
  · have hlogged := h.logged _ (mem_of_get hget)
    refine ⟨expiry-ttlSeconds,hlogged.2,?_,?_⟩
    · linarith [hlogged.1]
    · linarith
  · exact h.fresh e he

theorem Kept.lookup {answer : Except SecretError Str} (h : Kept now st) (hle : now ≤ later) :
    Kept later (st.lookup k now answer later) := by
  unfold Cached.lookup
  cases hget : st.cache.get k with
  | none => exact (h.mono hle).fetch
  | some p =>
    by_cases hlt : now < p.2
    · simp only [if_pos hlt]
      exact (h.hit hget hlt).mono hle
    · simp only [if_neg hlt]
      exact (h.del.mono hle).fetch

end Kept

section Queued

/-- While no expired entry is read the queue lists the entries, the oldest first. -/
structure Queued (st : Cached) : Prop where
  listed : Listed st.cache
  sorted : st.cache.entries.Pairwise fun e e' => e.2.2 ≤ e'.2.2
  oldest : ∀ p ∈ st.evicted, p.2.head? = some p.1 ∧ ∀ e ∈ p.2, p.1.2.2 ≤ e.2.2

variable {st : Cached} {now later : ℚ} {k : Str × Str} {value : Str}

theorem intact_of (h : Kept now st) (hq : Queued st) : Intact st :=
  ⟨h.size,hq.listed.nodup,fun k => by rw [hq.listed.order],hq.oldest,h.fresh⟩

theorem pairwise_push {entries : List Entry} {e : Entry}
    (h : entries.Pairwise fun e e' => e.2.2 ≤ e'.2.2) (hle : ∀ e' ∈ entries, e'.2.2 ≤ e.2.2) :
    (entries++[e]).Pairwise fun e e' => e.2.2 ≤ e'.2.2 := by
  refine List.pairwise_append.mpr ⟨h,List.pairwise_singleton _ _,fun a ha b hb => ?_⟩
  rw [List.mem_singleton.mp hb]
  exact hle a ha

/-- A put of a new key evicts the oldest entry or none. -/
theorem Queued.put (h : Kept now st) (hq : Queued st) (hk : k ∉ st.cache.keys) :
    Queued (st.put k value now) := by
  have hlisted := hq.listed.put_listed (v:=(value,now+(ttlSeconds : ℚ))) (n:=cacheMaxSize)
    (by decide) hk
  rcases hq.listed.put_new (v:=(value,now+(ttlSeconds : ℚ))) (n:=cacheMaxSize) (by decide) hk with
    ⟨-,hput⟩ | ⟨e,rest,hc,-,hput⟩
  · refine ⟨hlisted,?_,fun p hp => ?_⟩
    · simp only [Cached.put,hput]
      exact pairwise_push hq.sorted fun e he => (h.logged e he).1
    · simp only [Cached.put,hput,keys_push] at hp
      rcases List.mem_append.mp hp with hp | hp
      · obtain ⟨e,he,-⟩ := List.mem_map.mp hp
        have hlost := List.mem_filter.mp he
        have hkeys : e.1 ∈ st.cache.keys := List.mem_map_of_mem hlost.1
        simp [hkeys] at hlost
      · exact hq.oldest p hp
  · have hsorted := hq.sorted
    rw [hc] at hsorted
    refine ⟨hlisted,?_,fun p hp => ?_⟩
    · simp only [Cached.put,hput]
      refine pairwise_push (List.pairwise_cons.mp hsorted).2 fun e' he' => (h.logged e' ?_).1
      rw [hc]
      exact List.mem_cons_of_mem _ he'
    · simp only [Cached.put,hput,keys_push] at hp
      rcases List.mem_append.mp hp with hp | hp
      · obtain ⟨e',he',rfl⟩ := List.mem_map.mp hp
        have hlost := List.mem_filter.mp he'
        have hhead : e' = e := by
          rw [hc] at hlost
          refine (List.mem_cons.mp hlost.1).resolve_right fun hrest => ?_
          have hkeys : e'.1 ∈ rest.map Prod.fst := List.mem_map_of_mem hrest
          simp [Cache.keys,hkeys] at hlost
        rw [hhead,hc]
        refine ⟨rfl,fun e'' he'' => ?_⟩
        rcases List.mem_cons.mp he'' with rfl | he''
        · exact le_refl _
        · exact (List.pairwise_cons.mp hsorted).1 e'' he''
      · exact hq.oldest p hp

theorem Queued.lookup {answer : Except SecretError Str} (h : Kept now st) (hq : Queued st)
    (hle : now ≤ later)
    (hlive : ∀ value expiry, st.cache.get k = some (value,expiry) → now < expiry) :
    Queued (st.lookup k now answer later) := by
  unfold Cached.lookup
  cases hget : st.cache.get k with
  | none =>
    have hk : k ∉ st.cache.keys := fun hk => by
      rw [← isSome_get,hget] at hk
      exact absurd hk Bool.false_ne_true
    cases answer with
    | error e => exact hq
    | ok value => exact Queued.put (h.mono hle) hq hk
  | some p =>
    simp only [if_pos (hlive p.1 p.2 hget)]
    exact ⟨hq.listed,hq.sorted,hq.oldest⟩

/-- The read of an expired entry leaves a queue that is not the list of the keys. -/
theorem not_intact_of_expired {expiry : ℚ} {answer : Except SecretError Str} (h : Kept now st)
    (hq : Queued st) (hget : st.cache.get k = some (value,expiry)) (hexp : ¬ now < expiry) :
    ¬ Intact (st.lookup k now answer later) := by
  have hkeys : k ∈ st.cache.keys := isSome_get.mp (by rw [hget]; rfl)
  have horder : k ∈ st.cache.order := hq.listed.covered k hkeys
  have hgone : k ∉ (st.cache.del k).keys := fun hk => (mem_keys_del.mp hk).2 rfl
  intro hi
  unfold Cached.lookup at hi
  simp only [hget,if_neg hexp] at hi
  cases answer with
  | error e => exact hgone ((hi.lists k).mp horder)
  | ok value' =>
    have hnone : ¬ ((st.cache.del k).get k).isSome := fun hs => hgone (isSome_get.mp hs)
    have hroom : ¬ cacheMaxSize ≤ (st.cache.del k).entries.length := by
      have hlt : (st.cache.del k).entries.length < st.cache.entries.length :=
        List.length_filter_lt_length_iff_exists.mpr ⟨_,mem_of_get hget,by simp⟩
      have hsize := h.size
      omega
    have hnodup := hi.nodup
    simp only [Cached.fetch,Cached.put,Cache.put,if_neg hnone,if_neg hroom] at hnodup
    have hdisjoint := List.disjoint_of_nodup_append hnodup
    exact hdisjoint horder (List.mem_singleton_self k)

end Queued

section Runs

variable {st st' : Cached} {call : CacheCall} {h : List (Cached × CacheCall)}

/-- A call of `resolve_secret_ref` or of `set_backend`, with the time at which it ends. -/
theorem callCache_cases (hs : callCache st call = some st') :
    (∃ ref now answer later, call = .resolve ref now answer later ∧ st.clock ≤ now ∧
      now ≤ later ∧ ((∃ e, parse_name_key ref = .error e) ∧ st' = { st with clock := later } ∨
        ∃ k, parse_name_key ref = .ok k ∧
          st' = { st.lookup k now answer later with clock := later })) ∨
    ∃ now, call = .set_backend now ∧ st.clock ≤ now ∧
      st' = { st with cache := .empty, clock := now } := by
  cases call with
  | resolve ref now answer later =>
    simp only [callCache] at hs
    by_cases ht : st.clock ≤ now ∧ now ≤ later
    · rw [if_pos ht] at hs
      refine Or.inl ⟨ref,now,answer,later,rfl,ht.1,ht.2,?_⟩
      cases hp : parse_name_key ref with
      | error e =>
        simp only [hp,Option.some.injEq] at hs
        exact Or.inl ⟨⟨e,rfl⟩,hs.symm⟩
      | ok k =>
        simp only [hp,Option.some.injEq] at hs
        exact Or.inr ⟨k,rfl,hs.symm⟩
    · rw [if_neg ht] at hs
      cases hs
  | set_backend now =>
    simp only [callCache] at hs
    by_cases ht : st.clock ≤ now
    · rw [if_pos ht] at hs
      exact Or.inr ⟨now,rfl,ht,(Option.some.inj hs).symm⟩
    · rw [if_neg ht] at hs
      cases hs

theorem kept_step (hk : Kept st.clock st) (hs : callCache st call = some st') :
    Kept st'.clock st' := by
  rcases callCache_cases hs with ⟨ref,now,answer,later,-,hnow,hlater,hst⟩ | ⟨now,-,hnow,rfl⟩
  · rcases hst with ⟨-,rfl⟩ | ⟨k,-,rfl⟩
    · have hkept := hk.mono (hnow.trans hlater)
      exact ⟨hkept.covered,hkept.size,hkept.logged,hkept.fresh⟩
    · have hkept : Kept later (st.lookup k now answer later) := (hk.mono hnow).lookup hlater
      exact ⟨hkept.covered,hkept.size,hkept.logged,hkept.fresh⟩
  · exact ⟨listed_empty.covered,Nat.zero_le _,nofun,hk.fresh⟩

theorem queued_step (hk : Kept st.clock st) (hq : Queued st) (hg : NoExpiredRead st call)
    (hs : callCache st call = some st') : Queued st' := by
  rcases callCache_cases hs with ⟨ref,now,answer,later,rfl,hnow,hlater,hst⟩ | ⟨now,-,-,rfl⟩
  · rcases hst with ⟨-,rfl⟩ | ⟨k,hp,rfl⟩
    · exact ⟨hq.listed,hq.sorted,hq.oldest⟩
    · have hqueued : Queued (st.lookup k now answer later) :=
        hq.lookup (hk.mono hnow) hlater fun value expiry => hg k value expiry hp
      exact ⟨hqueued.listed,hqueued.sorted,hqueued.oldest⟩
  · exact ⟨listed_empty,List.Pairwise.nil,hq.oldest⟩

theorem not_intact_step (hk : Kept st.clock st) (hq : Queued st) (hg : ¬ NoExpiredRead st call)
    (hs : callCache st call = some st') : ¬ Intact st' := by
  rcases callCache_cases hs with ⟨ref,now,answer,later,rfl,hnow,-,hst⟩ | ⟨now,rfl,-,-⟩
  · simp only [NoExpiredRead,not_forall] at hg
    obtain ⟨k,value,expiry,hp,hget,hexp⟩ := hg
    rcases hst with ⟨⟨e,he⟩,-⟩ | ⟨k',hp',rfl⟩
    · rw [hp] at he
      cases he
    · obtain rfl : k = k' := Except.ok.inj (hp.symm.trans hp')
      have hbad : ¬ Intact (st.lookup k now answer later) :=
        not_intact_of_expired (hk.mono hnow) hq hget hexp
      exact fun hi => hbad ⟨hi.size,hi.nodup,hi.lists,hi.oldest,hi.fresh⟩
  · exact absurd trivial hg

theorem kept_init : Kept st.clock ⟨.empty,st.clock,[],[],[]⟩ :=
  ⟨listed_empty.covered,Nat.zero_le _,nofun,nofun⟩

theorem queued_init (clock : ℚ) : Queued ⟨.empty,clock,[],[],[]⟩ :=
  ⟨listed_empty,List.Pairwise.nil,nofun⟩

theorem bounded_and_fresh {s : Cached} (hs : cacheSystem.init s) (hr : Run cacheSystem s h st) :
    st.cache.entries.length ≤ cacheMaxSize ∧
      ∀ e ∈ st.returned, ∃ t, (e.1,e.2.1,t) ∈ st.stored ∧ t ≤ e.2.2 ∧ e.2.2 < t+ttlSeconds := by
  have hkept : Kept st.clock st :=
    hr.invariant (I:=fun st => Kept st.clock st) (by rw [hs]; exact kept_init)
      fun s a t hk hstep => kept_step hk hstep
  exact ⟨hkept.size,hkept.fresh⟩

/-- The cache is intact all through a run exactly when no call reads an expired entry. -/
theorem intact_iff {s : Cached} (hs : cacheSystem.init s) (hr : Run cacheSystem s h st) :
    Visits Intact h st ↔ Meets NoExpiredRead h := by
  refine hr.visits_iff_meets (I:=fun st => Kept st.clock st ∧ Queued st) ?_ ?_ ?_ ?_
  · rw [hs]
    exact ⟨kept_init,queued_init _⟩
  · exact fun s hi => intact_of hi.1 hi.2
  · exact fun s a t hi hg ht => ⟨kept_step hi.1 ht,queued_step hi.1 hi.2 hg ht⟩
  · exact fun s a t hi hg ht => not_intact_step hi.1 hi.2 hg ht

def sampleCall (now : ℚ) (answer : Except SecretError Str) : CacheCall :=
  .resolve ['d','b','_','_','p','w'] now answer now

def emptyCached : Cached := ⟨.empty,0,[],[],[]⟩

/-- The second call gets the value of the first. -/
theorem intact_sample : ∃ h st, Run cacheSystem emptyCached h st ∧ st.returned.length = 2 ∧
    Visits Intact h st := by
  obtain ⟨h,st,hrun,hp⟩ := exists_run_of_replay
    (i:=fun st => st = ⟨.empty,st.clock,[],[],[]⟩) (f:=callCache) (s:=emptyCached)
    (p:=fun r => r.2.returned.length = 2 ∧ ∀ e ∈ r.1, NoExpiredRead e.1 e.2)
    (l:=[sampleCall 0 (.ok ['v']),sampleCall 59 (.error .unavailable)]) (by decide +kernel)
  obtain ⟨hlength,hreads⟩ := of_decide_eq_true hp
  exact ⟨h,st,hrun,hlength,(intact_iff (s:=emptyCached) rfl hrun).mpr hreads⟩

/-- A reference whose expired entry is read and refilled stands in the queue twice. -/
theorem expired_read_listed_twice : ¬ ∀ s h st, cacheSystem.init s → Run cacheSystem s h st →
    Visits Intact h st := by
  intro hall
  obtain ⟨h,st,hrun,hdup⟩ := exists_run_of_replay
    (i:=fun st => st = ⟨.empty,st.clock,[],[],[]⟩) (f:=callCache) (s:=emptyCached)
    (p:=fun r => ¬ r.2.cache.order.Nodup)
    (l:=[sampleCall 0 (.ok ['v']),sampleCall 60 (.ok ['v'])]) (by decide +kernel)
  exact of_decide_eq_true hdup (hall emptyCached h st rfl hrun).1.nodup

end Runs

end Secrets
end Dataspoke
