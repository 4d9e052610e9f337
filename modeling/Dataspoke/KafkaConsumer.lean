import Dataspoke.Python
import Dataspoke.Transition

/-!
# The MetadataChangeLog consumer

`deserialize_mcl`, `EventRouter` and `_run_inner_loop` over one partition, together with
the restarts and rebalances that make a consumer resume from the committed offset.
-/

namespace Dataspoke
namespace KafkaConsumer

open Python Transition

/-- The exceptions that `deserialize_mcl` and `dispatch` tell apart. -/
inductive Exc
  | eventProcessing | dataHubUnavailable | storageUnavailable | peripheralNotConfigured
  | timeout | other
  deriving DecidableEq

structure MetadataChangeLogEvent where
  entity_type : Str
  entity_urn : Str
  aspect_name : Str
  change_type : Str
  aspect : Option (List (Str × Json))
  created : Option (List (Str × Json))

/-- A `str` field read with `data.get(key, "")`. -/
def strField (data : List (Str × Json)) (key : Str) : Option Str :=
  match get? key data with
  | none => some []
  | some (.str s) => some s
  | some _ => none

/-- A `dict | None` field read with `data.get(key)`. -/
def dictField (data : List (Str × Json)) (key : Str) : Option (Option (List (Str × Json))) :=
  match get? key data with
  | none | some .null => some none
  | some (.obj d) => some (some d)
  | some _ => none

/-- `raw` is what `json.loads` makes of the message value, `none` where it raises. -/
def deserialize_mcl (raw : Option Json) : Except Exc MetadataChangeLogEvent :=
  match raw with
  | some (.obj data) =>
    match strField data "entityType".toList, strField data "entityUrn".toList,
      strField data "aspectName".toList, strField data "changeType".toList,
      dictField data "aspect".toList, dictField data "created".toList with
    | some t, some u, some n, some c, some a, some r =>
      .ok ⟨t,u,n,c,a,r⟩
    | _, _, _, _, _, _ => .error .eventProcessing
  -- `data.get` on anything but a dict raises inside the second `try`
  | _ => .error .eventProcessing

/-- The routing table: handlers by aspect name, in registration order. -/
structure EventRouter (H : Type) where
  handlers : List (Str × List H) := []

namespace EventRouter

variable {H : Type}

/-- `self._handlers.setdefault(aspect_name, []).append(handler)` on the item list. -/
def append (aspect_name : Str) (handler : H) : List (Str × List H) → List (Str × List H)
  | [] => [(aspect_name,[handler])]
  | (k,hs)::items =>
    if k = aspect_name then (k,hs ++ [handler])::items
    else (k,hs)::append aspect_name handler items

def register (router : EventRouter H) (aspect_name : Str) (handler : H) : EventRouter H :=
  ⟨append aspect_name handler router.handlers⟩

/-- Run the handlers in order; `call` is how each of them ends on this delivery. -/
def dispatchAll (call : H → Except Exc Unit) : List H → Except Exc Unit
  | [] => .ok ()
  | handler::handlers =>
    match call handler with
    | .error .dataHubUnavailable => .error .dataHubUnavailable
    | .error .storageUnavailable => .error .storageUnavailable
    | .error .peripheralNotConfigured => .error .peripheralNotConfigured
    | _ => dispatchAll call handlers

def dispatch (router : EventRouter H) (call : H → Except Exc Unit)
    (event : MetadataChangeLogEvent) : Except Exc Unit :=
  dispatchAll call ((get? event.aspect_name router.handlers).getD [])

theorem dispatchAll_ne_eventProcessing (call : H → Except Exc Unit) (hs : List H) :
    dispatchAll call hs ≠ .error .eventProcessing := by
  induction hs with
  | nil => simp [dispatchAll]
  | cons handler hs ih =>
    unfold dispatchAll
    split <;> simp_all

theorem dispatch_ne_eventProcessing (router : EventRouter H) (call : H → Except Exc Unit)
    (event : MetadataChangeLogEvent) :
    router.dispatch call event ≠ .error .eventProcessing :=
  dispatchAll_ne_eventProcessing call _

end EventRouter

/-- The latch for faults that librdkafka reports out of band. -/
structure KafkaFaultState where
  error : Option Str := none
  connected : Bool := false
  deriving DecidableEq

namespace KafkaFaultState

def record (f : KafkaFaultState) (message : Str) : KafkaFaultState := { f with error := some message }

def record_healthy (_ : KafkaFaultState) : KafkaFaultState := ⟨none,true⟩

end KafkaFaultState

structure KafkaConnection where
  brokers : Str
  security_protocol : Str := "PLAINTEXT".toList
  sasl_mechanism : Str := []
  sasl_username : Str := []
  aws_region : Str := []
  sasl_password_version : ℕ := 0
  deriving DecidableEq

def RECONFIG_CHECK_INTERVAL : ℕ := 5

/-- What happened to the partition: a message was handled, or the consumer resumed from
the committed offset. -/
inductive Mark
  | handled (offset : ℕ) (result : Except Exc Unit)
  | resumed

/-- The inner loop on one partition, with the broker's committed offset and, as a ghost,
the history of the partition, the latest mark first. -/
structure State where
  position : ℕ
  committed : Option ℕ
  poll_count : ℕ := 0
  faults : KafkaFaultState := {}
  current_conn : KafkaConnection
  running : Bool := true
  reports : List (Str × Option Str) := []
  history : List Mark := []

/-- What one `consumer.poll` returns. A message is the one at the position of the loop;
`call` is how the handlers end on this delivery. -/
inductive Polled (H : Type)
  | nothing
  | eof
  | error
  | message (call : H → Except Exc Unit)

inductive Event (H : Type)
  /-- One iteration; `new_conn` is what `read_kafka_connection` answers if it is asked. -/
  | iterate (polled : Polled H) (new_conn : Option KafkaConnection)
  /-- `error_cb` with one of `_FAULT_CODES`. -/
  | fault (message : Str)
  /-- `_on_assign`. -/
  | assigned
  /-- A rebuild, a process restart or a rebalance. Without a committed offset
  `auto.offset.reset` is `latest`: the consumer resumes at the end of the log. -/
  | resume (log_end : ℕ) (conn : KafkaConnection)

section Loop

variable {H : Type} (router : EventRouter H) (log : ℕ → Option Json)

/-- The `try` block of the loop up to the commit, on the message at `offset`. -/
def handle (offset : ℕ) (call : H → Except Exc Unit) : Except Exc Unit :=
  match deserialize_mcl (log offset) with
  | .error e => .error e
  | .ok event => router.dispatch call event

/-- Whether the loop commits after this result: on success, and for a payload that
`deserialize_mcl` cannot parse. -/
def commits : Except Exc Unit → Bool
  | .ok _ => true
  | .error .eventProcessing => true
  | .error _ => false

def onPolled (s : State) : Polled H → State
  | .nothing => s
  | .eof => s
  | .error => s
  | .message call =>
    let result := handle router log s.position call
    let s' := { s with
      position := s.position + 1
      history := .handled s.position result::s.history }
    match result with
    | .ok _ => { s' with
        committed := some (s.position + 1), faults := s.faults.record_healthy }
    | .error .eventProcessing => { s' with committed := some (s.position + 1) }
    | .error _ => s'

/-- The health report and the connection check at every fifth poll. -/
def onCheck (s : State) (new_conn : Option KafkaConnection) : State :=
  if s.poll_count % RECONFIG_CHECK_INTERVAL = 0 then
    let s' := match s.faults.error with
      | some e => { s with reports := ("error".toList,some e)::s.reports }
      | none =>
        if s.faults.connected then { s with reports := ("ok".toList,none)::s.reports } else s
    if new_conn ≠ some s.current_conn then { s' with running := false } else s'
  else s

def step (s : State) : Event H → Option State
  | .iterate polled new_conn =>
    if s.running then
      let s' := onPolled router log s polled
      some (onCheck { s' with poll_count := s'.poll_count + 1 } new_conn)
    else none
  | .fault message => some { s with faults := s.faults.record message }
  | .assigned => some { s with faults := s.faults.record_healthy }
  | .resume log_end conn =>
    if s.position ≤ log_end then
      some { s with
        position := s.committed.getD log_end, poll_count := 0, faults := {}
        current_conn := conn, running := true, history := .resumed::s.history }
    else none

/-- A consumer that has just been assigned the partition. -/
def Starts (s : State) : Prop :=
  s.history = [] ∧ ∀ c, s.committed = some c → s.position = c

def system : System State (Event H) := ofFun Starts (step router log)

end Loop

/-- A dispatch of the message at `offset` raised a retryable exception and none has
succeeded since. -/
def Outstanding (offset : ℕ) : List Mark → Prop
  | [] => False
  | .resumed::marks => Outstanding offset marks
  | .handled o result::marks =>
    if o = offset then
      match result with
      | .ok _ => False
      | .error .eventProcessing => Outstanding offset marks
      | .error _ => True
    else Outstanding offset marks

/-- Some dispatch raised a retryable exception since the consumer last resumed. -/
def failedSinceResume : List Mark → Bool
  | [] => false
  | .resumed::_ => false
  | .handled _ result::marks => !commits result || failedSinceResume marks

/-- No outstanding message is behind the offset a consumer resumes from, wherever the
log ends by then. -/
def AtLeastOnce (s : State) : Prop :=
  ∀ o, Outstanding o s.history → (∀ c, s.committed = some c → c ≤ o) ∧
    ∀ log_end, s.position ≤ log_end → s.committed.getD log_end ≤ o

/-- The exact condition on a delivery: after a retryable failure every later message of
the same session fails too, and the first failure finds a committed offset. -/
def Orderly {H : Type} (router : EventRouter H) (log : ℕ → Option Json) (s : State) :
    Event H → Prop
  | .iterate (.message call) _ =>
    if commits (handle router log s.position call) then failedSinceResume s.history = false
    else s.committed.isSome
  | _ => True

section Proofs

variable {H : Type} {router : EventRouter H} {log : ℕ → Option Json}

@[simp] theorem onCheck_position (s : State) (c : Option KafkaConnection) :
    (onCheck s c).position = s.position := by
  unfold onCheck; split_ifs <;> (try split) <;> rfl

@[simp] theorem onCheck_committed (s : State) (c : Option KafkaConnection) :
    (onCheck s c).committed = s.committed := by
  unfold onCheck; split_ifs <;> (try split) <;> rfl

@[simp] theorem onCheck_history (s : State) (c : Option KafkaConnection) :
    (onCheck s c).history = s.history := by
  unfold onCheck; split_ifs <;> (try split) <;> rfl

/-- The message at an offset is unparseable on every delivery or on none. -/
theorem handle_eventProcessing_iff {o : ℕ} {call : H → Except Exc Unit} :
    handle router log o call = .error .eventProcessing ↔
      deserialize_mcl (log o) = .error .eventProcessing := by
  unfold handle
  split
  · rename_i e he
    simp [he]
  · rename_i event he
    simp [he,router.dispatch_ne_eventProcessing]

/-- What an iteration that gets a message does to the offsets and the history. -/
theorem message_effect {s t : State} {call : H → Except Exc Unit} {c : Option KafkaConnection}
    (h : step router log s (.iterate (.message call) c) = some t) :
    t.position = s.position + 1 ∧
      t.history = .handled s.position (handle router log s.position call)::s.history ∧
      t.committed = if commits (handle router log s.position call) then some (s.position + 1)
        else s.committed := by
  simp only [step] at h
  split at h
  · cases h
    simp only [onCheck_position,onCheck_history,onCheck_committed,onPolled]
    split <;> rename_i heq <;> simp [heq,commits]
  · simp at h

/-- Iterations without a message and the callbacks move neither offset nor history. -/
theorem quiet_effect {s t : State} {e : Event H} (h : step router log s e = some t)
    (hm : ∀ call c, e ≠ .iterate (.message call) c) (hr : ∀ n c, e ≠ .resume n c) :
    t.position = s.position ∧ t.history = s.history ∧ t.committed = s.committed := by
  cases e with
  | iterate polled c =>
    simp only [step] at h
    split at h
    · cases h
      cases polled with
      | nothing => simp [onPolled]
      | eof => simp [onPolled]
      | error => simp [onPolled]
      | message call => exact absurd rfl (hm call c)
    · simp at h
  | fault message => simp only [step,Option.some.injEq] at h; subst h; simp
  | assigned => simp only [step,Option.some.injEq] at h; subst h; simp
  | resume n c => exact absurd rfl (hr n c)

theorem resume_effect {s t : State} {n : ℕ} {conn : KafkaConnection}
    (h : step router log s (.resume n conn) = some t) :
    t.position = s.committed.getD n ∧ t.history = .resumed::s.history ∧
      t.committed = s.committed := by
  simp only [step] at h
  split at h
  · cases h; simp
  · simp at h

/-- What orderly deliveries keep: outstanding messages are at or after the committed
offset, and until a dispatch fails the loop sits on the committed offset. -/
structure Kept (log : ℕ → Option Json) (s : State) : Prop where
  retained : ∀ o, Outstanding o s.history → ∃ c, s.committed = some c ∧ c ≤ o
  parseable : ∀ o, Outstanding o s.history → deserialize_mcl (log o) ≠ .error .eventProcessing
  in_step : failedSinceResume s.history = false → ∀ c, s.committed = some c → s.position = c
  failed : failedSinceResume s.history = true → ∃ o < s.position, Outstanding o s.history

theorem Kept.atLeastOnce {s : State} (h : Kept log s) : AtLeastOnce s := by
  intro o ho
  obtain ⟨c,hc,hle⟩ := h.retained o ho
  refine ⟨fun c' hc' => ?_,fun _ _ => ?_⟩
  · rw [hc] at hc'
    cases hc'
    exact hle
  · simpa [hc] using hle

theorem Starts.kept {s : State} (h : Starts s) : Kept log s where
  retained o ho := by simp [h.1,Outstanding] at ho
  parseable o ho := by simp [h.1,Outstanding] at ho
  in_step _ := h.2
  failed hf := by simp [h.1,failedSinceResume] at hf

/-- Outstanding after a delivery: the message just failed, or it was outstanding before
and this delivery was another message or could not be parsed. -/
theorem outstanding_handled {o p : ℕ} {result : Except Exc Unit} {marks : List Mark}
    (h : Outstanding o (.handled p result::marks)) :
    (o = p ∧ commits result = false) ∨
      (Outstanding o marks ∧ (o = p → result = .error .eventProcessing)) := by
  simp only [Outstanding] at h
  split at h
  · rename_i hp
    subst hp
    split at h
    · exact absurd h id
    · exact .inr ⟨h,fun _ => rfl⟩
    · rename_i e he
      left
      cases e <;> simp_all [commits]
  · rename_i hp
    exact .inr ⟨h,fun he => absurd he.symm hp⟩

theorem outstanding_other {o p : ℕ} {result : Except Exc Unit} {marks : List Mark}
    (hne : p ≠ o) : Outstanding o (.handled p result::marks) ↔ Outstanding o marks := by
  simp [Outstanding,hne]

theorem outstanding_failed {p : ℕ} {result : Except Exc Unit} {marks : List Mark}
    (h : commits result = false) : Outstanding p (.handled p result::marks) := by
  cases result with
  | ok u => simp [commits] at h
  | error e => cases e <;> simp_all [commits,Outstanding]

/-- A step that leaves the offsets and the history alone keeps the invariant. -/
theorem Kept.quiet {s t : State} (hk : Kept log s)
    (h : t.position = s.position ∧ t.history = s.history ∧ t.committed = s.committed) :
    Kept log t := by
  obtain ⟨hp,hh,hc⟩ := h
  exact ⟨by rw [hh,hc]; exact hk.retained,by rw [hh]; exact hk.parseable,
    by rw [hh,hc,hp]; exact hk.in_step,by rw [hh,hp]; exact hk.failed⟩

/-- A commit moves the offset by one past the position; before the first failure of the
session no outstanding message is that early, except the one just handled. -/
theorem Kept.commit {s t : State} {call : H → Except Exc Unit} (hk : Kept log s)
    (hcom : commits (handle router log s.position call) = true)
    (hf : failedSinceResume s.history = false)
    (hp : t.position = s.position + 1)
    (hh : t.history = .handled s.position (handle router log s.position call)::s.history)
    (hc : t.committed = some (s.position + 1)) : Kept log t := by
  have hout : ∀ o, Outstanding o t.history → Outstanding o s.history ∧ s.position < o := by
    intro o ho
    rw [hh] at ho
    obtain ⟨_,hnc⟩ | ⟨ho,hpar⟩ := outstanding_handled ho
    · simp [hcom] at hnc
    · refine ⟨ho,?_⟩
      obtain ⟨c,hcs,hle⟩ := hk.retained o ho
      have hpos := hk.in_step hf c hcs
      have hne : o ≠ s.position := fun he =>
        hk.parseable o ho (he ▸ handle_eventProcessing_iff.mp (hpar he))
      omega
  refine ⟨fun o ho => ⟨_,hc,(hout o ho).2⟩,fun o ho => hk.parseable o (hout o ho).1,?_,?_⟩
  · intro _ c hcc
    rw [hc] at hcc
    cases hcc
    exact hp
  · simp [hh,failedSinceResume,hcom,hf]

/-- A retryable failure on top of a committed offset adds the message at the position,
which is at or after every committed offset. -/
theorem Kept.fail {s t : State} {call : H → Except Exc Unit} (hk : Kept log s)
    (hnc : commits (handle router log s.position call) = false)
    (hsome : s.committed.isSome)
    (hp : t.position = s.position + 1)
    (hh : t.history = .handled s.position (handle router log s.position call)::s.history)
    (hc : t.committed = s.committed) : Kept log t := by
  obtain ⟨c,hcs⟩ := Option.isSome_iff_exists.mp hsome
  have hcp : c ≤ s.position := by
    cases hf : failedSinceResume s.history with
    | false => exact (hk.in_step hf c hcs).ge
    | true =>
      obtain ⟨o,hlt,ho⟩ := hk.failed hf
      obtain ⟨c',hc',hle⟩ := hk.retained o ho
      rw [hcs] at hc'
      cases hc'
      omega
  refine ⟨fun o ho => ?_,fun o ho => ?_,?_,fun _ => ⟨s.position,by omega,?_⟩⟩
  · rw [hh] at ho
    obtain ⟨rfl,_⟩ | ⟨ho,_⟩ := outstanding_handled ho
    · exact ⟨c,hc.trans hcs,hcp⟩
    · rw [hc]
      exact hk.retained o ho
  · rw [hh] at ho
    obtain ⟨rfl,_⟩ | ⟨ho,_⟩ := outstanding_handled ho
    · intro he
      have hev : handle router log s.position call = .error .eventProcessing :=
        handle_eventProcessing_iff.mpr he
      simp [hev,commits] at hnc
    · exact hk.parseable o ho
  · simp [hh,failedSinceResume,hnc]
  · rw [hh]
    exact outstanding_failed hnc

/-- Orderly deliveries keep the invariant. -/
theorem Kept.step {s t : State} {e : Event H} (hk : Kept log s) (hg : Orderly router log s e)
    (h : step router log s e = some t) : Kept log t := by
  cases e with
  | resume n conn =>
    obtain ⟨hp,hh,hc⟩ := resume_effect h
    refine ⟨?_,?_,?_,?_⟩
    · simpa [hh,hc,Outstanding] using hk.retained
    · simpa [hh,Outstanding] using hk.parseable
    · intro _ c hcc
      rw [hc] at hcc
      simp [hp,hcc]
    · simp [hh,failedSinceResume]
  | fault message => exact hk.quiet (quiet_effect h (by simp) (by simp))
  | assigned => exact hk.quiet (quiet_effect h (by simp) (by simp))
  | iterate polled c =>
    cases polled with
    | nothing => exact hk.quiet (quiet_effect h (by simp) (by simp))
    | eof => exact hk.quiet (quiet_effect h (by simp) (by simp))
    | error => exact hk.quiet (quiet_effect h (by simp) (by simp))
    | message call =>
      obtain ⟨hp,hh,hc⟩ := message_effect h
      simp only [Orderly] at hg
      cases hcom : commits (handle router log s.position call) with
      | true => exact hk.commit hcom (by simpa [hcom] using hg) hp hh (by simpa [hcom] using hc)
      | false => exact hk.fail hcom (by simpa [hcom] using hg) hp hh (by simpa [hcom] using hc)

/-- A delivery that is not orderly loses a message at once. -/
theorem Kept.disorder {s t : State} {e : Event H} (hk : Kept log s)
    (hg : ¬ Orderly router log s e) (h : KafkaConsumer.step router log s e = some t) :
    ¬ AtLeastOnce t := by
  cases e with
  | resume n conn => exact absurd trivial hg
  | fault message => exact absurd trivial hg
  | assigned => exact absurd trivial hg
  | iterate polled c =>
    cases polled with
    | nothing => exact absurd trivial hg
    | eof => exact absurd trivial hg
    | error => exact absurd trivial hg
    | message call =>
      obtain ⟨hp,hh,hc⟩ := message_effect h
      simp only [Orderly] at hg
      intro hal
      cases hcom : commits (handle router log s.position call) with
      | true =>
        -- the failed message of this session is behind the new committed offset
        obtain ⟨o,hlt,ho⟩ := hk.failed (by simpa [hcom] using hg)
        have hot : Outstanding o t.history := by
          rw [hh,outstanding_other (by omega)]
          exact ho
        have := (hal o hot).1 _ (by simpa [hcom] using hc)
        omega
      | false =>
        -- nothing is committed, so the consumer would resume past the failed message
        have hot : Outstanding s.position t.history := by
          rw [hh]
          exact outstanding_failed hcom
        have hnone : t.committed = none := by simpa [hc,hcom] using hg
        have := (hal _ hot).2 t.position le_rfl
        simp only [hnone,Option.getD_none] at this
        omega

/-- Along every run, at-least-once delivery holds in every state visited exactly when
every delivery of the run is orderly. -/
theorem atLeastOnce_iff_orderly {s t : State} {h : List (State × Event H)}
    (hs : Starts s) (hr : Run (system router log) s h t) :
    Visits AtLeastOnce h t ↔ Meets (Orderly router log) h :=
  hr.visits_iff_meets (I:=Kept log) hs.kept (fun _ hk => hk.atLeastOnce)
    (fun _ _ _ hk hg ht => hk.step hg ht) (fun _ _ _ hk hg ht => hk.disorder hg ht)

end Proofs

/-! A consumer at offset 0 of a partition whose messages all carry one routed aspect. -/

def sampleRouter : EventRouter Unit := ({} : EventRouter Unit).register "schemaMetadata".toList ()

def sampleLog (_ : ℕ) : Option Json :=
  some (.obj [("aspectName".toList,.str "schemaMetadata".toList)])

def sampleConn : KafkaConnection := { brokers := "kafka:9092".toList }

def sampleStart : State := { position := 0, committed := some 0, current_conn := sampleConn }

def failThenSucceed : List (Event Unit) :=
  [.iterate (.message fun _ => .error .dataHubUnavailable) (some sampleConn),
    .iterate (.message fun _ => .ok ()) (some sampleConn)]

theorem sampleStart_starts : Starts sampleStart :=
  ⟨rfl,fun c hc => by simpa [sampleStart] using hc⟩

/-- The commit of the second message moves the offset past the failed first one. -/
theorem atLeastOnce_fails :
    ¬ ∀ (router : EventRouter Unit) (log : ℕ → Option Json) (s t : State)
      (h : List (State × Event Unit)), Starts s → Run (system router log) s h t →
        Visits AtLeastOnce h t := by
  intro hall
  obtain ⟨⟨h,t⟩,he⟩ : ∃ r, replay (step sampleRouter sampleLog) [] sampleStart failThenSucceed =
      some r := ⟨_,rfl⟩
  have hv := hall sampleRouter sampleLog sampleStart t h sampleStart_starts
    (run_of_replay .refl he)
  cases he
  have hout : Outstanding 0 [Mark.handled 1 (.ok ()),.handled 0 (.error .dataHubUnavailable)] := by
    simp [Outstanding]
  exact absurd ((hv.1 0 hout).1 2 rfl) (by omega)

/-- The exact condition on the run of the counterexample. -/
theorem atLeastOnce_iff_orderly_sample :
    ∃ h t, replay (step sampleRouter sampleLog) [] sampleStart failThenSucceed = some (h,t) ∧
      (Visits AtLeastOnce h t ↔ Meets (Orderly sampleRouter sampleLog) h) := by
  obtain ⟨⟨h,t⟩,he⟩ : ∃ r, replay (step sampleRouter sampleLog) [] sampleStart failThenSucceed =
      some r := ⟨_,rfl⟩
  exact ⟨h,t,he,atLeastOnce_iff_orderly sampleStart_starts (run_of_replay .refl he)⟩

end KafkaConsumer
end Dataspoke
