import Dataspoke.Python
import Dataspoke.Interleave

/-!
# Runs under a Redis lock

The `run` of each service, cut where it awaits Redis or its own work, for calls that share
one lock key. Redis drops the key at some time after its lifetime.
-/

namespace Dataspoke
namespace RunLock

open Python Interleave Transition

/-- What the services do differently: the lifetime of the lock in seconds, whether the
configuration is read before the lock is taken, whether a failure is recorded. -/
structure Service where
  ttl_seconds : ℕ
  reads_conf : Bool
  records_failure : Bool

namespace Service

def ontogen : Service := ⟨3600,false,true⟩

def metagen : Service := ⟨3600,true,true⟩

def ingestion : Service := ⟨3600,false,false⟩

def metrics : Service := ⟨3600,false,false⟩

end Service

/-- The value of the lock key, the run that has set it, and when. -/
structure Key (τ : Type) where
  value : τ
  holder : ℕ
  set_at : ℕ

structure Shared (τ : Type) where
  clock : ℕ
  key : Option (Key τ)
  /-- The runs that have deleted the key, each with the run that had set it. -/
  deleted : List (ℕ × ℕ)

inductive Outcome
  | success
  | conflict
  | exception
  /-- Not an `Exception`: only the `finally` block sees it. -/
  | cancelled

inductive Phase
  | start
  /-- The lock is asked for. -/
  | acquiring
  /-- Inside `_run_inner`, with the time at which the lock was acquired. -/
  | running (acquired_at : ℕ)
  /-- The failed run is being recorded. -/
  | recording
  /-- In the `finally` block. -/
  | releasing
  | done (acquired : Bool)

/-- What a step gets from outside: the clock, whether Redis drops a key that has outlived
its lifetime before the step, whether the step fails (for Redis: its answer is lost, and
maybe the command too), and how the run ends. -/
structure Input where
  now : ℕ
  expire : Bool
  error : Bool
  lost : Bool
  outcome : Outcome

/-- The clock is read in microseconds. -/
def second : ℕ := 1000000

variable {τ : Type} (service : Service) (token : ℕ → τ)

def Service.ttl : ℕ := service.ttl_seconds*second

def Shared.tick (s : Shared τ) (a : Input) : Shared τ :=
  { s with
    clock := a.now
    key := if a.expire then s.key.filter fun k => a.now < k.set_at+service.ttl else s.key }

/-- `SET key value NX EX ttl`. -/
def set_nx (s : Shared τ) (i : ℕ) : Shared τ × Bool :=
  match s.key with
  | none => ({ s with key := some ⟨token i,i,s.clock⟩ },true)
  | some _ => (s,false)

/-- Where the answer of Redis is lost, the key may be set all the same. -/
def acquire (s : Shared τ) (i : ℕ) (a : Input) : Shared τ × Phase :=
  if a.error then (if a.lost then s else (set_nx token s i).1,.done false)
  else if (set_nx token s i).2 then ((set_nx token s i).1,.running s.clock)
  else (s,.done false)

/-- The clauses of the `try` statement. -/
def leave : Outcome → Phase
  | .success | .conflict | .cancelled => .releasing
  | .exception => if service.records_failure then .recording else .releasing

section Program

variable [DecidableEq τ]

/-- The script that deletes the key where its value is the expected one. -/
def delete_if_value (s : Shared τ) (i : ℕ) : Shared τ :=
  match s.key with
  | none => s
  | some k =>
    if k.value = token i then { s with key := none, deleted := (i,k.holder)::s.deleted } else s

/-- One step of `run`; the clock does not go back. -/
def run : Program (Shared τ) Phase Input := fun i a s p =>
  if a.now < s.clock then none
  else
    let s := s.tick service a
    match p with
    | .start => some (s,if service.reads_conf && a.error then .done false else .acquiring)
    | .acquiring => some (acquire token s i a)
    | .running _ => some (s,leave service a.outcome)
    | .recording => some (s,.releasing)
    | .releasing =>
      some (if a.error && a.lost then s else delete_if_value token s i,.done true)
    | .done _ => none

def Fresh (w : World (Shared τ) Phase) : Prop :=
  w.shared.key = none ∧ w.shared.deleted = [] ∧ ∀ i, w.proc i = .start

def system : System (World (Shared τ) Phase) (ℕ × Input) :=
  Interleave.system (run service token) Fresh

end Program

/-- Of two runs that are inside `_run_inner` together, the earlier one has outlived the
lifetime of its lock; and no run has deleted the key of another. -/
def Exclusive (w : World (Shared τ) Phase) : Prop :=
  (∀ i j t u, i ≠ j → w.proc i = .running t → w.proc j = .running u → t ≤ u →
    t+service.ttl ≤ w.shared.clock) ∧ ∀ r ∈ w.shared.deleted, r.1 = r.2

/-- The key carries the token of its holder. -/
structure Owned (s : Shared τ) : Prop where
  value : ∀ k, s.key = some k → k.value = token k.holder
  deleted : ∀ r ∈ s.deleted, r.1 = r.2

/-- A run that has not outlived its lock holds it. -/
def Held (i : ℕ) (s : Shared τ) : Phase → Prop
  | .running t => s.clock < t+service.ttl → s.key = some ⟨token i,i,t⟩
  | _ => True

/-- A step of another run leaves a key alone until it has outlived its lifetime. -/
def Rely (i : ℕ) (s s' : Shared τ) : Prop :=
  s.clock ≤ s'.clock ∧ ∀ k, s.key = some k → k.holder ≠ i →
    s'.clock < k.set_at+service.ttl → s'.key = some k

variable {service token} {i : ℕ} {a : Input} {s s' : Shared τ} {p p' : Phase}

theorem Owned.tick (h : Owned token s) : Owned token (s.tick service a) where
  value k hk := by
    rw [Shared.tick] at hk
    by_cases he : a.expire
    · rw [if_pos he] at hk
      exact h.value k (Option.filter_eq_some_iff.mp hk).1
    · rw [if_neg he] at hk
      exact h.value k hk
  deleted := h.deleted

theorem Rely.tick (hle : s.clock ≤ a.now) : Rely service i s (s.tick service a) := by
  refine ⟨hle,fun k hk _ hlt => ?_⟩
  rw [Shared.tick]
  by_cases he : a.expire
  · rw [if_pos he,hk]
    have hd : a.now < k.set_at+service.ttl := hlt
    simp [Option.filter,hd]
  · rw [if_neg he,hk]

theorem Rely.trans {s'' : Shared τ} (h : Rely service i s s') (h' : Rely service i s' s'')
    (hc : s''.clock = s'.clock) : Rely service i s s'' := by
  refine ⟨h.1.trans h'.1,fun k hk hne hlt => ?_⟩
  exact h'.2 k (h.2 k hk hne (hc ▸ hlt)) hne hlt

theorem Rely.refl : Rely service i s s := ⟨le_refl _,fun _ hk _ _ => hk⟩

theorem Held.stable {j : ℕ} (hij : i ≠ j) (h : Held service token j s p)
    (hr : Rely service i s s') : Held service token j s' p := by
  cases p with
  | running t =>
    intro hlt
    exact hr.2 _ (h (hr.1.trans_lt hlt)) (Ne.symm hij) hlt
  | _ => trivial

theorem set_nx_kept (h : Owned token s) :
    Owned token (set_nx token s i).1 ∧ Rely service i s (set_nx token s i).1 ∧
      (set_nx token s i).1.clock = s.clock ∧
      ((set_nx token s i).2 = true → (set_nx token s i).1.key = some ⟨token i,i,s.clock⟩) := by
  rw [set_nx]
  cases hk : s.key with
  | none =>
    refine ⟨⟨?_,h.deleted⟩,⟨le_refl _,fun k hk' => ?_⟩,rfl,fun _ => rfl⟩
    · rintro k ⟨⟩
      rfl
    · rw [hk] at hk'
      cases hk'
  | some k => exact ⟨h,.refl,rfl,nofun⟩

theorem acquire_kept (h : Owned token s) :
    Owned token (acquire token s i a).1 ∧
      Held service token i (acquire token s i a).1 (acquire token s i a).2 ∧
      Rely service i s (acquire token s i a).1 ∧ (acquire token s i a).1.clock = s.clock := by
  obtain ⟨ho,hr,hc,hk⟩ := @set_nx_kept _ service token i _ h
  rw [acquire]
  by_cases he : a.error
  · rw [if_pos he]
    by_cases hl : a.lost
    · rw [if_pos hl]
      exact ⟨h,trivial,.refl,rfl⟩
    · rw [if_neg hl]
      exact ⟨ho,trivial,hr,hc⟩
  · rw [if_neg he]
    by_cases ha : (set_nx token s i).2 = true
    · rw [if_pos ha]
      exact ⟨ho,fun _ => hk ha,hr,hc⟩
    · rw [if_neg ha]
      exact ⟨h,trivial,.refl,rfl⟩

theorem Holds.exclusive {w : World (Shared τ) Phase}
    (h : Holds (Owned token) (Held service token) w) : Exclusive service w := by
  refine ⟨fun i j t u hij hi hj htu => ?_,h.1.deleted⟩
  by_contra hlt
  have hki := h.2 i
  have hkj := h.2 j
  rw [hi] at hki
  rw [hj] at hkj
  have h₁ := hki (by omega)
  have h₂ := hkj (by omega)
  rw [h₁] at h₂
  exact hij (congrArg Key.holder (Option.some.inj h₂))

section Runs

variable [DecidableEq τ]

/-- The script deletes the run's own key only: tokens are distinct. -/
theorem delete_if_value_kept (ht : token.Injective) (h : Owned token s) :
    Owned token (delete_if_value token s i) ∧ Rely service i s (delete_if_value token s i) ∧
      (delete_if_value token s i).clock = s.clock := by
  rw [delete_if_value]
  cases hk : s.key with
  | none => exact ⟨h,.refl,rfl⟩
  | some k =>
    dsimp only
    by_cases hv : k.value = token i
    · rw [if_pos hv]
      have hi : k.holder = i := ht ((h.value k hk).symm.trans hv)
      refine ⟨⟨nofun,List.forall_mem_cons.mpr ⟨hi.symm,h.deleted⟩⟩,⟨le_refl _,?_⟩,rfl⟩
      intro k' hk' hne
      rw [hk] at hk'
      cases hk'
      exact absurd hi hne
    · rw [if_neg hv]
      exact ⟨h,.refl,rfl⟩

/-- What every step of a run keeps. -/
theorem run_kept (ht : token.Injective) (h : Owned token s) (hp : Held service token i s p)
    (hs : run service token i a s p = some (s',p')) :
    Owned token s' ∧ Held service token i s' p' ∧ Rely service i s s' := by
  rw [run] at hs
  by_cases hc : a.now < s.clock
  · rw [if_pos hc] at hs
    cases hs
  rw [if_neg hc] at hs
  have htick : Rely service i s (s.tick service a) := .tick (not_lt.mp hc)
  have hown : Owned token (s.tick service a) := h.tick
  cases p with
  | start =>
    cases hs
    refine ⟨hown,?_,htick⟩
    by_cases hr : (service.reads_conf && a.error) = true
    · rw [if_pos hr]
      trivial
    · rw [if_neg hr]
      trivial
  | acquiring =>
    obtain ⟨ho,hh,hr,hck⟩ := @acquire_kept _ service token i a _ hown
    dsimp only at hs
    rw [Option.some.inj hs] at ho hh hr hck
    exact ⟨ho,hh,htick.trans hr hck⟩
  | running t =>
    cases hs
    refine ⟨hown,?_,htick⟩
    cases a.outcome with
    | exception =>
      rw [leave]
      by_cases hr : service.records_failure
      · rw [if_pos hr]
        trivial
      · rw [if_neg hr]
        trivial
    | _ => trivial
  | recording =>
    cases hs
    exact ⟨hown,trivial,htick⟩
  | releasing =>
    cases hs
    obtain ⟨ho,hr,hck⟩ := @delete_if_value_kept _ service token i _ _ ht hown
    by_cases he : (a.error && a.lost) = true
    · rw [if_pos he]
      exact ⟨hown,trivial,htick⟩
    · rw [if_neg he]
      exact ⟨ho,trivial,htick.trans hr hck⟩
  | done => cases hs

/-- In every interleaving of runs, with the lock expiring at any time after its lifetime,
two runs overlap only where the earlier one has outlived its lock, and a run that finishes
deletes no key but its own. -/
theorem run_exclusive {w₀ w : World (Shared τ) Phase} {h : List (World (Shared τ) Phase × (ℕ × Input))}
    (ht : token.Injective) (h₀ : Fresh w₀) (hr : Run (system service token) w₀ h w) :
    Visits (Exclusive service) h w := by
  obtain ⟨hkey,hdel,hproc⟩ := h₀
  have hw : Holds (Owned token) (Held service token) w₀ := by
    refine ⟨⟨?_,?_⟩,fun i => ?_⟩
    · rw [hkey]
      nofun
    · rw [hdel]
      nofun
    · rw [hproc i]
      trivial
  have hv := hw.visits (R:=Rely service) (G:=fun _ _ _ _ => True) hr
    (fun i a s p s' p' hS hL _ hs => run_kept ht hS hL hs)
    (fun i j s s' p hij hL hR => hL.stable hij hR) (fun _ _ => trivial)
  exact ⟨Holds.exclusive hv.1,fun q hq => Holds.exclusive (hv.2 q hq)⟩

def sampleSteps : List (ℕ × Input) :=
  let at_ (i n : ℕ) : ℕ × Input := (i,⟨n,true,false,false,.success⟩)
  [at_ 0 1,at_ 0 2,at_ 1 3600000003,at_ 1 3600000004,at_ 0 3600000005,at_ 0 3600000006]

def sampleWorld : World (Shared ℕ) Phase := ⟨⟨0,none,[]⟩,fun _ => .start⟩

theorem sampleWorld_fresh : Fresh sampleWorld := ⟨rfl,rfl,fun _ => rfl⟩

theorem run_exclusive_sample : ∃ h w, Run (system .ontogen id) sampleWorld h w ∧
    Visits (Exclusive .ontogen) h w ∧ w.proc 1 = .running 3600000004 ∧ w.shared.key ≠ none := by
  have hr := run_of_replay (i:=Fresh) (f:=Interleave.step (run .ontogen id))
    (l:=sampleSteps) (.refl (s:=sampleWorld)) rfl
  exact ⟨_,_,hr,run_exclusive Function.injective_id sampleWorld_fresh hr,rfl,by decide⟩

end Runs

end RunLock
end Dataspoke
