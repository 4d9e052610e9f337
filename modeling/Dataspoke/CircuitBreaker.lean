import Dataspoke.Python
import Dataspoke.Transition
import Mathlib.Algebra.Order.Field.Rat
import Mathlib.Tactic.Linarith

/-!
# The circuit breaker of the DataHub client

Every sequence of `_with_retry` calls, one attempt of the wrapped function at a time. The check
of the breaker stands before the loop of the attempts, and a failure is recorded in the loop and
once more after it.
-/

namespace Dataspoke
namespace DataHub

open Python Transition

/-- An exception: whether it is a `ConnectionError`, its attributes that are integers, and its
text. -/
structure Exc where
  connection : Bool
  status_code : Option ℤ
  code : Option ℤ
  response_status_code : Option ℤ
  response : Option ℤ
  text : Str

def extract_status_code (exc : Exc) : Option ℤ :=
  ((exc.status_code.or exc.code).or exc.response_status_code).or exc.response

def RETRYABLE_STATUS_CODES : List ℤ := [429,500,502,503,504]

def FAIL_FAST_STATUS_CODES : List ℤ := [401,403]

def hasStatus (exc : Exc) (codes : List ℤ) : Bool := (extract_status_code exc).any (· ∈ codes)

/-- The attempt is made again after this exception. -/
def Exc.retryable (exc : Exc) : Bool :=
  !hasStatus exc FAIL_FAST_STATUS_CODES &&
    (exc.connection || hasStatus exc RETRYABLE_STATUS_CODES)

def RETRY_MAX_ATTEMPTS : ℕ := 3

def CIRCUIT_BREAKER_THRESHOLD : ℕ := 5

def CIRCUIT_BREAKER_RESET_MS : ℕ := 60000

def resetSeconds : ℚ := CIRCUIT_BREAKER_RESET_MS/1000

structure Breaker where
  consecutive_failures : ℕ
  circuit_open_until : ℚ

def check_circuit (b : Breaker) (now : ℚ) : Bool :=
  if b.consecutive_failures < CIRCUIT_BREAKER_THRESHOLD then true
  else if now < b.circuit_open_until then false
  else true

def record_failure (b : Breaker) (now : ℚ) : Breaker :=
  let b := { b with consecutive_failures := b.consecutive_failures+1 }
  if CIRCUIT_BREAKER_THRESHOLD ≤ b.consecutive_failures then
    { b with circuit_open_until := now+resetSeconds }
  else b

def record_success (_ : Breaker) : Breaker := ⟨0,0⟩

/-- The breaker is open: enough consecutive failures, and the reset time not reached. -/
def Breaker.Open (b : Breaker) (now : ℚ) : Prop :=
  CIRCUIT_BREAKER_THRESHOLD ≤ b.consecutive_failures ∧ now < b.circuit_open_until

theorem check_circuit_iff {b : Breaker} {now : ℚ} : check_circuit b now = true ↔ ¬ b.Open now := by
  unfold check_circuit Breaker.Open
  by_cases hf : b.consecutive_failures < CIRCUIT_BREAKER_THRESHOLD
  · simp [hf]
  · by_cases ht : now < b.circuit_open_until
    · simp [hf,ht,Nat.le_of_not_lt hf]
    · simp [hf,ht]

@[simp] theorem record_failure_count (b : Breaker) (now : ℚ) :
    (record_failure b now).consecutive_failures = b.consecutive_failures+1 := by
  simp only [record_failure]
  split <;> rfl

theorem record_failure_until {b : Breaker} {now : ℚ}
    (h : CIRCUIT_BREAKER_THRESHOLD ≤ b.consecutive_failures+1) :
    (record_failure b now).circuit_open_until = now+resetSeconds := by
  simp only [record_failure,if_pos h]

section Calls

variable {α : Type*}

/-- How an attempt ends: with a value, with an exception, or with the cancellation of the call. -/
inductive Outcome (α : Type*)
  | success (value : α)
  | error (exc : Exc)
  | cancelled

/-- An attempt, with the breaker and the time when it starts. -/
structure Invocation (α : Type*) where
  breaker : Breaker
  start : ℚ
  finish : ℚ
  outcome : Outcome α

inductive Result (α : Type*)
  | value (value : α)
  | raised (exc : Exc)
  | unavailable (message : Str)
  | cancelled

/-- A client. The call that runs, if any, has made some attempts, of which the last has failed
with a text. -/
structure Client (α : Type*) where
  breaker : Breaker
  call : Option (ℕ × Str)
  clock : ℚ
  invocations : List (Invocation α)
  results : List (Result α)

inductive Event (α : Type*)
  | call (now : ℚ)
  | attempt (start finish : ℚ) (outcome : Outcome α)
  | give_up (now : ℚ)
  | cancel (now : ℚ)

variable (sanitize : Str → Str)

/-- The steps of `_with_retry` calls. A call that sleeps before a retry can be cancelled. -/
def withRetry (c : Client α) : Event α → Option (Client α)
  | .call now =>
    if c.call = none ∧ c.clock ≤ now then
      if check_circuit c.breaker now then some { c with call := some (0,[]), clock := now }
      else some { c with
        results := .unavailable "circuit breaker open".toList::c.results
        clock := now }
    else none
  | .attempt start finish outcome =>
    match c.call with
    | some (attempt,_) =>
      if attempt < RETRY_MAX_ATTEMPTS ∧ c.clock ≤ start ∧ start ≤ finish then
        let c := { c with
          clock := finish
          invocations := ⟨c.breaker,start,finish,outcome⟩::c.invocations }
        match outcome with
        | .success value => some { c with
            breaker := record_success c.breaker
            call := none
            results := .value value::c.results }
        | .error exc =>
          if exc.retryable then some { c with
            breaker := record_failure c.breaker finish
            call := some (attempt+1,exc.text) }
          else some { c with
            call := none
            results := .raised exc::c.results }
        | .cancelled => some { c with
            call := none
            results := .cancelled::c.results }
      else none
    | none => none
  | .give_up now =>
    match c.call with
    | some (attempt,text) =>
      if attempt = RETRY_MAX_ATTEMPTS ∧ c.clock ≤ now then some { c with
        breaker := record_failure c.breaker now
        call := none
        clock := now
        results := .unavailable (sanitize text)::c.results }
      else none
    | none => none
  | .cancel now =>
    match c.call with
    | some (attempt,_) =>
      if 0 < attempt ∧ attempt < RETRY_MAX_ATTEMPTS ∧ c.clock ≤ now then some { c with
        call := none
        clock := now
        results := .cancelled::c.results }
      else none
    | none => none

def newClient (clock : ℚ) : Client α := ⟨⟨0,0⟩,none,clock,[],[]⟩

def clientSystem : System (Client α) (Event α) :=
  ofFun (fun c => c = newClient c.clock) (withRetry sanitize)

end Calls

section Properties

variable {α : Type*}

/-- The retryable failures since the last success. -/
def failuresSince : List (Invocation α) → ℕ
  | [] => 0
  | i::log =>
    match i.outcome with
    | .success _ => 0
    | .error exc => failuresSince log+exc.retryable.toNat
    | .cancelled => failuresSince log

/-- The time of the last retryable failure since the last success. -/
def lastFailure : List (Invocation α) → Option ℚ
  | [] => none
  | i::log =>
    match i.outcome with
    | .success _ => none
    | .error exc => if exc.retryable then some i.finish else lastFailure log
    | .cancelled => lastFailure log

/-- The function has never been invoked while the breaker was open, the count is that of the
retryable failures since the last success, and after a success the breaker is closed. -/
structure Correct (c : Client α) : Prop where
  closed : ∀ i ∈ c.invocations, ¬ i.breaker.Open i.start
  counted : c.breaker.consecutive_failures = failuresSince c.invocations
  reset : ∀ i ∈ c.invocations.head?, ∀ value, i.outcome = .success value →
    ∀ now, ¬ c.breaker.Open now

/-- No call fails with its last attempt, and none tries again while the reset time after the
latest of five failures or more is not reached. -/
def Probing (c : Client α) : Event α → Prop
  | .call _ => True
  | .attempt start _ _ => ∀ attempt text, c.call = some (attempt+1,text) →
      CIRCUIT_BREAKER_THRESHOLD ≤ failuresSince c.invocations →
      ∀ t ∈ lastFailure c.invocations, t+resetSeconds ≤ start
  | .give_up _ => False
  | .cancel _ => True

instance (c : Client α) (e : Event α) : Decidable (Probing c e) :=
  match e with
  | .call _ | .cancel _ => isTrue trivial
  | .give_up _ => isFalse id
  | .attempt start _ _ =>
    match hc : c.call with
    | none | some (0,_) => isTrue fun _ _ h => by cases hc.symm.trans h
    | some (attempt+1,text) =>
      decidable_of_iff (CIRCUIT_BREAKER_THRESHOLD ≤ failuresSince c.invocations →
        ∀ t ∈ lastFailure c.invocations, t+resetSeconds ≤ start)
        ⟨fun h _ _ _ => h,fun h => h attempt text hc⟩

end Properties

section Steps

variable {α : Type*} {sanitize : Str → Str} {c c' : Client α} {e : Event α}

def Outcome.recorded (b : Breaker) (finish : ℚ) : Outcome α → Breaker
  | .success _ => record_success b
  | .error exc => if exc.retryable then record_failure b finish else b
  | .cancelled => b

/-- An attempt: what starts it, and the state that its outcome leaves. -/
structure Attempted (c c' : Client α) (start finish : ℚ) (outcome : Outcome α) : Prop where
  running : ∃ attempt text, c.call = some (attempt,text) ∧
    ((∃ exc, outcome = .error exc ∧ exc.retryable ∧ c'.call = some (attempt+1,exc.text)) ∨
      c'.call = none)
  starts : c.clock ≤ start
  finishes : start ≤ finish ∧ c'.clock = finish
  logged : c'.invocations = ⟨c.breaker,start,finish,outcome⟩::c.invocations
  breaker : c'.breaker = outcome.recorded c.breaker finish

theorem withRetry_attempt {start finish : ℚ} {outcome : Outcome α}
    (h : withRetry sanitize c (.attempt start finish outcome) = some c') :
    Attempted c c' start finish outcome := by
  simp only [withRetry] at h
  cases hc : c.call with
  | none =>
    rw [hc] at h
    cases h
  | some p =>
    simp only [hc] at h
    by_cases ht : p.1 < RETRY_MAX_ATTEMPTS ∧ c.clock ≤ start ∧ start ≤ finish
    · rw [if_pos ht] at h
      cases outcome with
      | success value =>
        obtain rfl := Option.some.inj h
        exact ⟨⟨p.1,p.2,hc,Or.inr rfl⟩,ht.2.1,⟨ht.2.2,rfl⟩,rfl,rfl⟩
      | cancelled =>
        obtain rfl := Option.some.inj h
        exact ⟨⟨p.1,p.2,hc,Or.inr rfl⟩,ht.2.1,⟨ht.2.2,rfl⟩,rfl,rfl⟩
      | error exc =>
        by_cases hr : exc.retryable
        · simp only [if_pos hr] at h
          obtain rfl := Option.some.inj h
          exact ⟨⟨p.1,p.2,hc,Or.inl ⟨exc,rfl,hr,rfl⟩⟩,ht.2.1,⟨ht.2.2,rfl⟩,rfl,(if_pos hr).symm⟩
        · simp only [if_neg hr] at h
          obtain rfl := Option.some.inj h
          exact ⟨⟨p.1,p.2,hc,Or.inr rfl⟩,ht.2.1,⟨ht.2.2,rfl⟩,rfl,(if_neg hr).symm⟩
    · rw [if_neg ht] at h
      cases h

theorem withRetry_give_up {now : ℚ} (h : withRetry sanitize c (.give_up now) = some c') :
    c'.breaker = record_failure c.breaker now ∧ c'.invocations = c.invocations ∧
      ∃ text, c.call = some (RETRY_MAX_ATTEMPTS,text) := by
  simp only [withRetry] at h
  cases hc : c.call with
  | none =>
    rw [hc] at h
    cases h
  | some p =>
    simp only [hc] at h
    by_cases ht : p.1 = RETRY_MAX_ATTEMPTS ∧ c.clock ≤ now
    · rw [if_pos ht] at h
      obtain rfl := Option.some.inj h
      exact ⟨rfl,rfl,p.2,by rw [← ht.1]⟩
    · rw [if_neg ht] at h
      cases h

/-- A call that starts has found the breaker closed; one that ends makes no attempt. -/
theorem withRetry_quiet (h : withRetry sanitize c e = some c')
    (he : (∃ now, e = .call now) ∨ ∃ now, e = .cancel now) :
    c'.breaker = c.breaker ∧ c'.invocations = c.invocations ∧
      (c'.call = none ∨ c'.call = some (0,[]) ∧ ¬ c'.breaker.Open c'.clock) := by
  rcases he with ⟨now,rfl⟩ | ⟨now,rfl⟩
  · simp only [withRetry] at h
    by_cases hn : c.call = none ∧ c.clock ≤ now
    · rw [if_pos hn] at h
      by_cases hcheck : check_circuit c.breaker now = true
      · rw [if_pos hcheck] at h
        obtain rfl := Option.some.inj h
        exact ⟨rfl,rfl,Or.inr ⟨rfl,check_circuit_iff.mp hcheck⟩⟩
      · rw [if_neg hcheck] at h
        obtain rfl := Option.some.inj h
        exact ⟨rfl,rfl,Or.inl hn.1⟩
    · rw [if_neg hn] at h
      cases h
  · simp only [withRetry] at h
    cases hc : c.call with
    | none =>
      rw [hc] at h
      cases h
    | some p =>
      simp only [hc] at h
      by_cases ht : 0 < p.1 ∧ p.1 < RETRY_MAX_ATTEMPTS ∧ c.clock ≤ now
      · rw [if_pos ht] at h
        obtain rfl := Option.some.inj h
        exact ⟨rfl,rfl,Or.inl rfl⟩
      · rw [if_neg ht] at h
        cases h

end Steps

section Invariant

variable {α : Type*} {sanitize : Str → Str} {c c' : Client α} {e : Event α}

/-- The breaker follows the attempts. The first attempt of a call finds it closed. -/
structure Tracked (c : Client α) : Prop where
  closed : ∀ i ∈ c.invocations, ¬ i.breaker.Open i.start
  counted : c.breaker.consecutive_failures = failuresSince c.invocations
  opens : CIRCUIT_BREAKER_THRESHOLD ≤ failuresSince c.invocations →
    ∃ t ∈ lastFailure c.invocations, c.breaker.circuit_open_until = t+resetSeconds
  checked : ∀ text, c.call = some (0,text) → ¬ c.breaker.Open c.clock

theorem tracked_new (clock : ℚ) : Tracked (newClient (α:=α) clock) := by
  refine ⟨fun _ hi => absurd hi List.not_mem_nil,rfl,?_,fun _ h => by cases h⟩
  exact fun h => absurd h (Nat.not_succ_le_zero 4)

theorem Tracked.open_iff (h : Tracked c) {now : ℚ} : c.breaker.Open now ↔
    CIRCUIT_BREAKER_THRESHOLD ≤ failuresSince c.invocations ∧
      ∃ t ∈ lastFailure c.invocations, now < t+resetSeconds := by
  unfold Breaker.Open
  rw [h.counted]
  constructor
  · intro ho
    obtain ⟨t,ht,huntil⟩ := h.opens ho.1
    exact ⟨ho.1,t,ht,huntil ▸ ho.2⟩
  · rintro ⟨hf,t,ht,hlt⟩
    obtain ⟨t',ht',huntil⟩ := h.opens hf
    obtain rfl : t = t' := Option.some.inj (ht.symm.trans ht')
    exact ⟨hf,huntil ▸ hlt⟩

theorem Breaker.Open.earlier {b : Breaker} {now later : ℚ} (h : b.Open later) (hle : now ≤ later) :
    b.Open now := ⟨h.1,hle.trans_lt h.2⟩

theorem Tracked.probe (h : Tracked c) {start finish : ℚ} {outcome : Outcome α}
    (hg : Probing c (.attempt start finish outcome))
    (ha : Attempted c c' start finish outcome) : ¬ c.breaker.Open start := by
  obtain ⟨attempt,text,hcall,-⟩ := ha.running
  intro ho
  cases attempt with
  | zero => exact h.checked text hcall (ho.earlier ha.starts)
  | succ attempt =>
    obtain ⟨hf,t,ht,hlt⟩ := h.open_iff.mp ho
    have hle := hg attempt text hcall hf t ht
    linarith

theorem Tracked.attempt (h : Tracked c) {start finish : ℚ} {outcome : Outcome α}
    (hg : Probing c (.attempt start finish outcome))
    (ha : Attempted c c' start finish outcome) : Tracked c' := by
  have hprobe := h.probe hg ha
  have hcalls : ∀ text, c'.call ≠ some (0,text) := by
    obtain ⟨attempt,text,-,⟨exc,-,-,hcall⟩ | hcall⟩ := ha.running
    · intro text'
      rw [hcall]
      simp
    · intro text'
      rw [hcall]
      simp
  refine ⟨?_,?_,?_,fun text ht => absurd ht (hcalls text)⟩
  · rw [ha.logged]
    exact List.forall_mem_cons.mpr ⟨hprobe,h.closed⟩
  · rw [ha.breaker,ha.logged,failuresSince]
    cases outcome with
    | success value => rfl
    | cancelled => exact h.counted
    | error exc =>
      by_cases hr : exc.retryable
      · simp [Outcome.recorded,hr,h.counted]
      · simp [Outcome.recorded,hr,h.counted]
  · rw [ha.breaker,ha.logged,failuresSince,lastFailure]
    cases outcome with
    | success value => exact fun hf => absurd hf (Nat.not_succ_le_zero 4)
    | cancelled => exact h.opens
    | error exc =>
      by_cases hr : exc.retryable
      · intro hf
        simp only [hr,Bool.toNat_true] at hf
        rw [← h.counted] at hf
        refine ⟨finish,by simp [hr],?_⟩
        simp only [Outcome.recorded,hr,if_true]
        exact record_failure_until hf
      · simpa [Outcome.recorded,hr] using h.opens

theorem Tracked.step (h : Tracked c) (hg : Probing c e) (hs : withRetry sanitize c e = some c') :
    Tracked c' := by
  have quiet : ((∃ now, e = .call now) ∨ ∃ now, e = .cancel now) → Tracked c' := by
    intro he
    obtain ⟨hbreaker,hlog,hcall⟩ := withRetry_quiet hs he
    refine ⟨?_,?_,?_,fun text ht => ?_⟩
    · rw [hlog]
      exact h.closed
    · rw [hlog,hbreaker]
      exact h.counted
    · rw [hlog,hbreaker]
      exact h.opens
    · rcases hcall with hcall | ⟨-,hclosed⟩
      · rw [hcall] at ht
        cases ht
      · exact hclosed
  cases e with
  | call now => exact quiet (Or.inl ⟨now,rfl⟩)
  | attempt start finish outcome => exact h.attempt hg (withRetry_attempt hs)
  | give_up now => exact absurd hg id
  | cancel now => exact quiet (Or.inr ⟨now,rfl⟩)

theorem correct_of (h : Tracked c) : Correct c := by
  refine ⟨h.closed,h.counted,fun i hi value hv now ho => ?_⟩
  have hnone : failuresSince c.invocations = 0 := by
    cases hlog : c.invocations with
    | nil => rfl
    | cons j log =>
      rw [hlog] at hi
      obtain rfl : j = i := Option.some.inj hi
      rw [failuresSince,hv]
  have hf := (h.open_iff.mp ho).1
  rw [hnone] at hf
  exact absurd hf (by decide)

/-- The step that misses the guard breaks the count or invokes the function too early. -/
theorem not_correct_step (h : Tracked c) (hg : ¬ Probing c e)
    (hs : withRetry sanitize c e = some c') : ¬ Correct c' := by
  intro hc
  cases e with
  | call now => exact hg trivial
  | attempt start finish outcome =>
    have ha := withRetry_attempt hs
    simp only [Probing,not_forall,not_le] at hg
    obtain ⟨attempt,text,-,hf,t,ht,hlt⟩ := hg
    have hclosed := hc.closed
    rw [ha.logged] at hclosed
    exact (List.forall_mem_cons.mp hclosed).1 (h.open_iff.mpr ⟨hf,t,ht,hlt⟩)
  | give_up now =>
    obtain ⟨hbreaker,hlog,-⟩ := withRetry_give_up hs
    have hcounted := hc.counted
    rw [hbreaker,hlog,record_failure_count,h.counted] at hcounted
    exact Nat.succ_ne_self _ hcounted
  | cancel now => exact hg trivial

end Invariant

section Runs

variable {α : Type*} {sanitize : Str → Str} {s c : Client α} {h : List (Client α × Event α)}

/-- A run is correct exactly when no call fails with its last attempt and no retry comes while
the breaker should be open. -/
theorem breaker_correct_iff (hs : (clientSystem sanitize).init s)
    (hr : Run (clientSystem sanitize) s h c) : Visits Correct h c ↔ Meets Probing h := by
  refine hr.visits_iff_meets (I:=Tracked) ?_ ?_ ?_ ?_
  · rw [hs]
    exact tracked_new _
  · exact fun c ht => correct_of ht
  · exact fun c e c' ht hg hstep => ht.step hg hstep
  · exact fun c e c' ht hg hstep => not_correct_step ht hg hstep

/-- After a success no failure is counted, and no call is between two attempts. -/
def Rested (c : Client α) : Prop := ∀ i ∈ c.invocations.head?, ∀ value, i.outcome = .success value →
  c.breaker.consecutive_failures = 0 ∧ ∀ p ∈ c.call, p.1 = 0

/-- In every run a success closes the breaker. -/
theorem rested (hs : (clientSystem sanitize).init s) (hr : Run (clientSystem sanitize) s h c) :
    Rested c := by
  refine hr.invariant (I:=Rested) ?_ ?_
  · rw [hs]
    exact fun _ hi => absurd hi (Option.not_mem_none _)
  · intro c e c' hi hstep
    have quiet : ((∃ now, e = .call now) ∨ ∃ now, e = .cancel now) → Rested c' := by
      intro he
      obtain ⟨hbreaker,hlog,hcall⟩ := withRetry_quiet hstep he
      intro i hhead value hv
      rw [hlog] at hhead
      rw [hbreaker]
      refine ⟨(hi i hhead value hv).1,fun p hp => ?_⟩
      rcases hcall with hcall | ⟨hcall,-⟩
      · rw [hcall] at hp
        cases hp
      · rw [hcall] at hp
        rw [← Option.some.inj hp]
    cases e with
    | call now => exact quiet (Or.inl ⟨now,rfl⟩)
    | cancel now => exact quiet (Or.inr ⟨now,rfl⟩)
    | attempt start finish outcome =>
      have ha := withRetry_attempt hstep
      intro i hhead value hv
      rw [ha.logged] at hhead
      obtain rfl := Option.some.inj hhead
      obtain rfl : outcome = .success value := hv
      rw [ha.breaker]
      refine ⟨rfl,fun p hp => ?_⟩
      obtain ⟨attempt,text,-,⟨exc,hexc,-⟩ | hcall⟩ := ha.running
      · cases hexc
      · rw [hcall] at hp
        cases hp
    | give_up now =>
      obtain ⟨-,hlog,text,hcall⟩ := withRetry_give_up hstep
      intro i hhead value hv
      rw [hlog] at hhead
      have hzero := (hi i hhead value hv).2 _ hcall
      exact absurd hzero (Nat.succ_ne_zero 2)

def refused : Exc := ⟨true,none,none,none,none,"refused".toList⟩

/-- A call that fails once and succeeds at its second attempt. -/
theorem correct_sample : ∃ h c, Run (clientSystem (α:=Unit) id) (newClient 0) h c ∧
    h.length = 3 ∧ Visits Correct h c := by
  obtain ⟨h,c,hrun,hp⟩ := exists_run_of_replay (i:=fun c => c = newClient c.clock)
    (f:=withRetry (α:=Unit) id) (s:=newClient 0)
    (p:=fun r => r.1.length = 3 ∧ ∀ e ∈ r.1, Probing e.1 e.2)
    (l:=[.call 0,.attempt 0 1 (.error refused),.attempt 2 3 (.success ())]) (by decide +kernel)
  obtain ⟨hlength,hprobing⟩ := of_decide_eq_true hp
  exact ⟨h,c,hrun,hlength,(breaker_correct_iff (s:=newClient 0) rfl hrun).mpr hprobing⟩

/-- A call whose three attempts fail counts four failures. -/
theorem three_attempts_count_four : ¬ ∀ s h c, (clientSystem (α:=Unit) id).init s →
    Run (clientSystem (α:=Unit) id) s h c → Visits Correct h c := by
  intro hall
  obtain ⟨h,c,hrun,hcount⟩ := exists_run_of_replay (i:=fun c => c = newClient c.clock)
    (f:=withRetry (α:=Unit) id) (s:=newClient 0)
    (p:=fun r => r.2.breaker.consecutive_failures ≠ failuresSince r.2.invocations)
    (l:=[.call 0,.attempt 0 1 (.error refused),.attempt 2 3 (.error refused),
      .attempt 5 6 (.error refused),.give_up 6]) (by decide +kernel)
  exact of_decide_eq_true hcount (hall (newClient 0) h c rfl hrun).1.counted

end Runs

end DataHub
end Dataspoke
