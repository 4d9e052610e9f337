import Dataspoke.OntogenIntegrity
import Dataspoke.MetagenRun

/-!
# What a debate records

The outcome and the transcript of a debate against the answers of its producer and its
reviewer, over every run of the loop.
-/

namespace Dataspoke
namespace Debate

open Python Pydantic ToolLoop

section Answers

variable {α : Type} (D : Setup α)

def payloadAt (i : ℕ) : Option Json := (producerTurn D (i * 2)).map (·.payload)

def hashAt (i : ℕ) : Option Str := (payloadAt D i).map D.canonical_hash

def reviewAt (i : ℕ) : Option Json := (reviewerTurn D (i * 2 + 1)).map (·.payload)

def verdictAt (i : ℕ) : Option Str :=
  (reviewAt D i).map fun payload => (reviewOutput D payload).overall_verdict

/-- The first `n` proposals are distinct. -/
def Fresh (n : ℕ) : Prop := ∀ a b, a < b → b < n → hashAt D a ≠ hashAt D b

/-- Proposal `n` is an earlier one again. -/
def Repeats (n : ℕ) : Prop := ∃ a < n, hashAt D a = hashAt D n

end Answers

section Records

def actorOf (turn : ℕ) : Actor := if turn % 2 = 0 then .producer else .reviewer

/-- The turns are 0, 1, 2, … and the actors take them in turns. -/
def Numbered (history : List DebateHistoryEntry) : Prop :=
  ∀ k e, history[k]? = some e → e.turn = k ∧ e.actor = actorOf k

def producers (history : List DebateHistoryEntry) : ℕ := history.countP (·.actor = .producer)

/-- The verdict of the last reviewer entry, empty if there is none. -/
def lastVerdict (history : List DebateHistoryEntry) : Str :=
  ((history.filter (·.actor = .reviewer)).getLast?.bind (·.verdict)).getD []

def EndsInAccept (history : List DebateHistoryEntry) : Prop :=
  ∃ e, history.getLast? = some e ∧ e.actor = .reviewer ∧ e.verdict = some "accept".toList

variable {history : List DebateHistoryEntry} {e : DebateHistoryEntry}

theorem Numbered.append (h : Numbered history) (hturn : e.turn = history.length)
    (hactor : e.actor = actorOf history.length) : Numbered (history ++ [e]) := by
  intro k e' he
  rcases lt_trichotomy k history.length with hk | hk | hk
  · rw [List.getElem?_append_left hk] at he
    exact h k e' he
  · subst hk
    rw [List.getElem?_concat_length] at he
    obtain rfl := Option.some.inj he
    exact ⟨hturn,hactor⟩
  · rw [List.getElem?_eq_none (by rw [List.length_append,List.length_singleton]; omega)] at he
    cases he

variable (history)

theorem producers_append (he : e.actor = .producer) :
    producers (history ++ [e]) = producers history + 1 := by
  simp [producers,List.countP_append,he]

theorem producers_append_reviewer (he : e.actor = .reviewer) :
    producers (history ++ [e]) = producers history := by
  simp [producers,List.countP_append,he]

theorem lastVerdict_append (he : e.actor = .producer) :
    lastVerdict (history ++ [e]) = lastVerdict history := by
  simp [lastVerdict,he]

theorem lastVerdict_append_reviewer (he : e.actor = .reviewer) {v : Str}
    (hv : e.verdict = some v) : lastVerdict (history ++ [e]) = v := by
  simp [lastVerdict,he,hv]

end Records

section Protocol

variable {α : Type} (D : Setup α)

/-- What the result of a debate is to say of it. -/
structure Protocol (r : DebateResult) : Prop where
  turns : r.transcript.turns_completed = r.transcript.history.length
  bound : r.transcript.turns_completed ≤ D.max_turns
  numbered : Numbered r.transcript.history
  outcome : r.transcript.outcome = r.outcome
  accept : r.outcome = .accept ↔ EndsInAccept r.transcript.history
  cycle : r.outcome = .cycle_detected ↔
    ∃ n, Debate.producers r.transcript.history = n + 1 ∧ Fresh D n ∧ Repeats D n
  exhausted : r.outcome = .turns_exhausted ↔ r.transcript.turns_completed = D.max_turns ∧
    ¬ EndsInAccept r.transcript.history ∧
    ¬ ∃ n, Debate.producers r.transcript.history = n + 1 ∧ Fresh D n ∧ Repeats D n
  payload : ∃ n, producers r.transcript.history = n + 1 ∧ payloadAt D n = some r.payload
  verdict : r.transcript.final_reviewer_verdict = .str (lastVerdict r.transcript.history)

/-- After the review in turn pair `i` the debate ends with one more proposal: a repetition, or
the last turn there is. -/
structure EndsUnreviewed (i : ℕ) : Prop where
  turn : i * 2 + 2 < D.max_turns
  undecided : ∀ k ≤ i, verdictAt D k ≠ some "accept".toList
  fresh : Fresh D (i + 1)
  ends : Repeats D (i + 1) ∨ D.max_turns ≤ i * 2 + 3

/-- The review in turn pair `i` is not valid, and names a verdict other than a revision. -/
def Misread (i : ℕ) : Prop := ∃ items, reviewAt D i = some (.obj items) ∧
  D.review.decode (.obj items) = none ∧
  reviewerVerdict (.obj items) ≠ some (.str "revise".toList)

/-- The answer before turn pair `i`, and the verdict read from it. -/
def reviewBefore : ℕ → Option (Json × Str)
  | 0 => some (.obj [],[])
  | i+1 => (reviewAt D i).map fun payload => (payload,(reviewOutput D payload).overall_verdict)

/-- What holds of the variables when turn pair `i` begins. -/
structure Inv (i : ℕ) (s : State) : Prop where
  turn : i * 2 < D.max_turns
  length : s.history.length = i * 2
  numbered : Numbered s.history
  producers : producers s.history = i
  hashes : s.producer_hashes.map some = (List.range i).map (hashAt D)
  nodup : s.producer_hashes.Nodup
  undecided : ∀ k < i, verdictAt D k ≠ some "accept".toList
  review : reviewBefore D i = some (s.last_reviewer_payload,lastVerdict s.history)

/-- A debate that ends with proposal `i`. -/
structure EndsProposed (i : ℕ) (r : DebateResult) : Prop where
  turn : i * 2 < D.max_turns
  turns : r.transcript.turns_completed = i * 2 + 1
  length : r.transcript.history.length = i * 2 + 1
  numbered : Numbered r.transcript.history
  producers : producers r.transcript.history = i + 1
  same : r.transcript.outcome = r.outcome
  last : ∃ e, r.transcript.history.getLast? = some e ∧ e.actor = .producer
  undecided : ∀ k < i, verdictAt D k ≠ some "accept".toList
  fresh : Fresh D i
  outcome : Repeats D i ∧ r.outcome = .cycle_detected ∨
    ¬ Repeats D i ∧ D.max_turns ≤ i * 2 + 1 ∧ r.outcome = .turns_exhausted
  payload : payloadAt D i = some r.payload
  review : ∃ answer, reviewBefore D i = some (answer,lastVerdict r.transcript.history) ∧
    reviewerVerdict answer = some r.transcript.final_reviewer_verdict

/-- A debate that ends with the review in turn pair `i`. -/
structure EndsReviewed (i : ℕ) (r : DebateResult) : Prop where
  turn : i * 2 + 1 < D.max_turns
  turns : r.transcript.turns_completed = i * 2 + 2
  length : r.transcript.history.length = i * 2 + 2
  numbered : Numbered r.transcript.history
  producers : producers r.transcript.history = i + 1
  same : r.transcript.outcome = r.outcome
  last : ∃ e v, r.transcript.history.getLast? = some e ∧ e.actor = .reviewer ∧
    e.verdict = some v ∧ verdictAt D i = some v ∧
    (v = "accept".toList ∧ r.outcome = .accept ∨
      v ≠ "accept".toList ∧ D.max_turns ≤ i * 2 + 2 ∧ r.outcome = .turns_exhausted)
  undecided : ∀ k < i, verdictAt D k ≠ some "accept".toList
  fresh : Fresh D (i + 1)
  payload : payloadAt D i = some r.payload
  verdict : r.transcript.final_reviewer_verdict = .str (lastVerdict r.transcript.history)

variable {D}

theorem Inv.fresh {i : ℕ} {s : State} (h : Inv D i s) : Fresh D i := by
  intro a b hab hb
  have hnodup : ((List.range i).map (hashAt D)).Nodup :=
    h.hashes ▸ h.nodup.map (Option.some_injective _)
  have hne := List.inj_on_of_nodup_map hnodup (List.mem_range.mpr (hab.trans hb))
    (List.mem_range.mpr hb)
  exact fun he => absurd (hne he) (Nat.ne_of_lt hab)

theorem Inv.mem_hashes {i : ℕ} {s : State} (h : Inv D i s) {hash : Str} :
    hash ∈ s.producer_hashes ↔ ∃ a < i, hashAt D a = some hash := by
  have hmem : hash ∈ s.producer_hashes ↔ some hash ∈ s.producer_hashes.map some := by simp
  rw [hmem,h.hashes]
  simp

/-- What holds of the variables between the halves of turn pair `i`. -/
structure Mid (D : Setup α) (i : ℕ) (s : State) : Prop where
  turn : i * 2 + 1 < D.max_turns
  length : s.history.length = i * 2 + 1
  numbered : Numbered s.history
  producers : producers s.history = i + 1
  hashes : s.producer_hashes.map some = (List.range (i + 1)).map (hashAt D)
  nodup : s.producer_hashes.Nodup
  fresh : Fresh D (i + 1)
  undecided : ∀ k < i, verdictAt D k ≠ some "accept".toList
  payload : payloadAt D i = some s.last_producer_payload

/-- A result carries the variables it is made from. -/
structure Finished (s : State) (o : Outcome) (v : Json) (r : DebateResult) : Prop where
  payload : r.payload = s.last_producer_payload
  outcome : r.outcome = o
  same : r.transcript.outcome = o
  history : r.transcript.history = s.history
  turns : r.transcript.turns_completed = s.turns_completed
  verdict : r.transcript.final_reviewer_verdict = v

theorem finish_ok {s : State} {outcome : Outcome} {verdict : Json} {r : DebateResult}
    (h : finish s outcome verdict = some r) : Finished s outcome verdict r := by
  rw [finish] at h
  split at h
  · cases h
    exact ⟨rfl,rfl,rfl,rfl,rfl,rfl⟩
  · cases h

theorem finish_answer {β : Type} {s : State} {outcome : Outcome} {answer : Json}
    {res : DebateResult ⊕ β}
    (h : (do
      let verdict ← reviewerVerdict answer
      let result ← finish s outcome verdict
      pure (.inl result)) = some res) :
    ∃ verdict r, reviewerVerdict answer = some verdict ∧ Finished s outcome verdict r ∧
      res = .inl r := by
  obtain ⟨verdict,hv,h⟩ := Option.bind_eq_some_iff.mp h
  obtain ⟨r,hr,h⟩ := Option.bind_eq_some_iff.mp h
  exact ⟨verdict,r,hv,finish_ok hr,(Option.some.inj h).symm⟩

theorem fresh_succ {i : ℕ} (h : Fresh D i) (hr : ¬ Repeats D i) : Fresh D (i + 1) := by
  intro a b hab hb he
  rcases Nat.lt_succ_iff_lt_or_eq.mp hb with hb | rfl
  · exact h a b hab hb he
  · exact hr ⟨a,hab,he⟩

/-- The producer's half ends the debate with its proposal, or hands it to the reviewer. -/
theorem producerHalf_ok {i : ℕ} {s : State} (hs : Inv D i s)
    {res : DebateResult ⊕ (State × Str)} (h : producerHalf D (i * 2) s = some res) :
    (∀ r, res = .inl r → EndsProposed D i r) ∧
      ∀ s' hash, res = .inr (s',hash) → Mid D i s' := by
  rw [producerHalf] at h
  obtain ⟨loop_result,hloop,h⟩ := Option.bind_eq_some_iff.mp h
  obtain ⟨rebuttals,-,h⟩ := Option.bind_eq_some_iff.mp h
  have hpayload : payloadAt D i = some loop_result.payload := by rw [payloadAt,hloop]; rfl
  have hhash : hashAt D i = some (D.canonical_hash loop_result.payload) := by
    rw [hashAt,hpayload]
    rfl
  have heven : actorOf (i * 2) = .producer := by rw [actorOf,if_pos (by omega)]
  have hrepeats : D.canonical_hash loop_result.payload ∈ s.producer_hashes ↔ Repeats D i := by
    rw [hs.mem_hashes,Repeats,hhash]
  generalize hentry : ({ turn := i * 2, actor := .producer, candidate_hash := _, rebuttals := _ } :
    DebateHistoryEntry) = entry at h
  have hactor : entry.actor = .producer := by rw [← hentry]
  have hturn : entry.turn = s.history.length := by rw [← hentry,hs.length]
  have hnumbered := hs.numbered.append hturn (by rw [hactor,hs.length,heven])
  have hproducers := producers_append s.history hactor
  have hlast := lastVerdict_append s.history hactor
  have hlength : (s.history ++ [entry]).length = i * 2 + 1 := by
    rw [List.length_append,hs.length,List.length_singleton]
  rw [hs.producers] at hproducers
  have ended : ∀ {hashes iterations errors outcome} {verdict : Json} {r : DebateResult},
      reviewerVerdict s.last_reviewer_payload = some verdict →
      Finished ⟨hashes,s.history ++ [entry],loop_result.payload,s.last_reviewer_payload,
        iterations,errors,i * 2 + 1⟩ outcome verdict r →
      (Repeats D i ∧ outcome = .cycle_detected ∨
        ¬ Repeats D i ∧ D.max_turns ≤ i * 2 + 1 ∧ outcome = .turns_exhausted) →
      EndsProposed D i r := by
    intro hashes iterations errors outcome verdict r hv hr hout
    constructor
    case turn => exact hs.turn
    case turns => exact hr.turns
    case length => rw [hr.history,hlength]
    case numbered => rw [hr.history]; exact hnumbered
    case producers => rw [hr.history,hproducers]
    case same => rw [hr.same,hr.outcome]
    case last => exact ⟨entry,by rw [hr.history,List.getLast?_concat],hactor⟩
    case undecided => exact hs.undecided
    case fresh => exact hs.fresh
    case outcome => rw [hr.outcome]; exact hout
    case payload => rw [hr.payload,hpayload]
    case review =>
      refine ⟨s.last_reviewer_payload,?_,by rw [hr.verdict,hv]⟩
      rw [hr.history,hlast,hs.review]
  dsimp only at h
  by_cases hr : Repeats D i
  · rw [if_pos (hrepeats.mpr hr)] at h
    obtain ⟨verdict,r,hv,hfin,rfl⟩ := finish_answer h
    refine ⟨fun r' he => ?_,nofun⟩
    cases he
    exact ended hv hfin (.inl ⟨hr,rfl⟩)
  rw [if_neg (hrepeats.not.mpr hr)] at h
  by_cases hmax : i * 2 + 1 ≥ D.max_turns
  · rw [if_pos hmax] at h
    obtain ⟨verdict,r,hv,hfin,rfl⟩ := finish_answer h
    refine ⟨fun r' he => ?_,nofun⟩
    cases he
    exact ended hv hfin (.inr ⟨hr,hmax,rfl⟩)
  · rw [if_neg hmax] at h
    obtain rfl := Option.some.inj h
    refine ⟨nofun,fun s' hash he => ?_⟩
    cases he
    constructor
    case turn => exact not_le.mp hmax
    case length => exact hlength
    case numbered => exact hnumbered
    case producers => exact hproducers
    case hashes =>
      rw [List.map_append,hs.hashes,List.range_succ,List.map_append]
      simp [hhash]
    case nodup =>
      have hnew := hrepeats.not.mpr hr
      exact List.nodup_append.mpr ⟨hs.nodup,List.nodup_singleton _,by
        intro a ha b hb hab
        rw [List.mem_singleton.mp hb] at hab
        exact hnew (hab ▸ ha)⟩
    case fresh => exact fresh_succ hs.fresh hr
    case undecided => exact hs.undecided
    case payload => exact hpayload

/-- The reviewer's half ends the debate with its verdict, or goes on to the next pair. -/
theorem reviewerHalf_ok {i : ℕ} {s : State} (hs : Mid D i s) {res : DebateResult ⊕ State}
    (h : reviewerHalf D (i * 2 + 1) s = some res) :
    (∀ r, res = .inl r → EndsReviewed D i r) ∧ ∀ s', res = .inr s' → Inv D (i + 1) s' := by
  rw [reviewerHalf] at h
  obtain ⟨-,-,h⟩ := Option.bind_eq_some_iff.mp h
  obtain ⟨-,-,h⟩ := Option.bind_eq_some_iff.mp h
  obtain ⟨result,hresult,h⟩ := Option.bind_eq_some_iff.mp h
  have hreview : reviewAt D i = some result.payload := by rw [reviewAt,hresult]; rfl
  have hodd : actorOf (i * 2 + 1) = .reviewer := by rw [actorOf,if_neg (by omega)]
  dsimp only at h
  generalize hout : reviewOutput D result.payload = review at h
  have hverdict : verdictAt D i = some review.overall_verdict := by
    rw [verdictAt,hreview,Option.map_some,hout]
  generalize hentry : (⟨i * 2 + 1,.reviewer,none,some review.overall_verdict,none,_,_⟩ :
    DebateHistoryEntry) = entry at h
  have hactor : entry.actor = .reviewer := by rw [← hentry]
  have hturn : entry.turn = s.history.length := by rw [← hentry,hs.length]
  have hev : entry.verdict = some review.overall_verdict := by rw [← hentry]
  have hnumbered := hs.numbered.append hturn (by rw [hactor,hs.length,hodd])
  have hproducers := producers_append_reviewer s.history hactor
  have hlast := lastVerdict_append_reviewer s.history hactor hev
  have hlength : (s.history ++ [entry]).length = i * 2 + 2 := by
    rw [List.length_append,hs.length,List.length_singleton]
  rw [hs.producers] at hproducers
  have ended : ∀ {outcome} {r : DebateResult},
      Finished ⟨s.producer_hashes,s.history ++ [entry],s.last_producer_payload,result.payload,
        s.producer_trace_iterations,s.producer_trace_errors,i * 2 + 2⟩ outcome
        (.str review.overall_verdict) r →
      (review.overall_verdict = "accept".toList ∧ outcome = .accept ∨
        review.overall_verdict ≠ "accept".toList ∧ D.max_turns ≤ i * 2 + 2 ∧
          outcome = .turns_exhausted) →
      EndsReviewed D i r := by
    intro outcome r hr hout
    constructor
    case turn => exact hs.turn
    case turns => exact hr.turns
    case length => rw [hr.history,hlength]
    case numbered => rw [hr.history]; exact hnumbered
    case producers => rw [hr.history,hproducers]
    case same => rw [hr.same,hr.outcome]
    case last =>
      refine ⟨entry,review.overall_verdict,by rw [hr.history,List.getLast?_concat],hactor,hev,
        hverdict,?_⟩
      rw [hr.outcome]
      exact hout
    case undecided => exact hs.undecided
    case fresh => exact hs.fresh
    case payload => rw [hr.payload,hs.payload]
    case verdict => rw [hr.verdict,hr.history,hlast]
  by_cases hacc : review.overall_verdict = "accept".toList
  · rw [if_pos hacc] at h
    obtain ⟨r,hr,h⟩ := Option.bind_eq_some_iff.mp h
    obtain rfl := Option.some.inj h
    refine ⟨fun r' he => ?_,nofun⟩
    cases he
    exact ended (hacc ▸ finish_ok hr) (.inl ⟨hacc,rfl⟩)
  rw [if_neg hacc] at h
  by_cases hmax : i * 2 + 1 + 1 ≥ D.max_turns
  · rw [if_pos hmax] at h
    obtain ⟨r,hr,h⟩ := Option.bind_eq_some_iff.mp h
    obtain rfl := Option.some.inj h
    refine ⟨fun r' he => ?_,nofun⟩
    cases he
    exact ended (finish_ok hr) (.inr ⟨hacc,hmax,rfl⟩)
  · rw [if_neg hmax] at h
    obtain ⟨-,-,h⟩ := Option.bind_eq_some_iff.mp h
    obtain rfl := Option.some.inj h
    refine ⟨nofun,fun s' he => ?_⟩
    cases he
    constructor
    case turn => omega
    case length => rw [hlength]; omega
    case numbered => exact hnumbered
    case producers => exact hproducers
    case hashes => exact hs.hashes
    case nodup => exact hs.nodup
    case undecided =>
      intro k hk
      rcases Nat.lt_succ_iff_lt_or_eq.mp hk with hk | rfl
      · exact hs.undecided k hk
      · rw [hverdict]
        exact fun he => hacc (Option.some.inj he)
    case review => rw [reviewBefore,hreview,hlast,Option.map_some,hout]

theorem inv_start (hmax : 1 ≤ D.max_turns) : Inv D 0 {} where
  turn := by omega
  length := rfl
  numbered := nofun
  producers := rfl
  hashes := rfl
  nodup := List.nodup_nil
  undecided := nofun
  review := rfl

/-- The loop ends with a proposal or with a review. -/
theorem turnPairs_ended {remaining i : ℕ} {s : State} {r : DebateResult} (hs : Inv D i s)
    (hpairs : remaining + i = D.max_turns / 2 + D.max_turns % 2)
    (h : turnPairs D remaining i s = some r) :
    (∃ j, EndsProposed D j r) ∨ ∃ j, EndsReviewed D j r := by
  induction remaining generalizing i s with
  | zero =>
    have hturn := hs.turn
    omega
  | succ remaining ih =>
    rw [turnPairs] at h
    obtain ⟨res,hres,h⟩ := Option.bind_eq_some_iff.mp h
    obtain ⟨hended,hmid⟩ := producerHalf_ok hs hres
    rcases res with r' | ⟨s',hash⟩
    · obtain rfl := Option.some.inj h
      exact .inl ⟨i,hended _ rfl⟩
    · obtain ⟨res',hres',h⟩ := Option.bind_eq_some_iff.mp h
      obtain ⟨hended',hnext⟩ := reviewerHalf_ok (hmid s' hash rfl) hres'
      rcases res' with r' | s''
      · obtain rfl := Option.some.inj h
        exact .inr ⟨i,hended' _ rfl⟩
      · exact ih (hnext s'' rfl) (by omega) h

/-- All but the verdict holds of a debate that ends with a proposal. -/
theorem EndsProposed.protocol_iff {i : ℕ} {r : DebateResult} (h : EndsProposed D i r) :
    Protocol D r ↔
      r.transcript.final_reviewer_verdict = .str (lastVerdict r.transcript.history) := by
  refine ⟨fun hp => hp.verdict,fun hv => ?_⟩
  have hturn := h.turn
  have hnot : ¬ EndsInAccept r.transcript.history := by
    rintro ⟨e,he,hactor,-⟩
    obtain ⟨e',he',hactor'⟩ := h.last
    rw [Option.some.inj (he.symm.trans he'),hactor'] at hactor
    cases hactor
  have hcycle : (∃ n, Debate.producers r.transcript.history = n + 1 ∧ Fresh D n ∧ Repeats D n) ↔
      Repeats D i := by
    rw [h.producers]
    constructor
    · rintro ⟨n,hn,-,hr⟩
      rwa [Nat.succ_injective hn]
    · exact fun hr => ⟨i,rfl,h.fresh,hr⟩
  constructor
  case turns => rw [h.turns,h.length]
  case bound => rw [h.turns]; omega
  case numbered => exact h.numbered
  case outcome => exact h.same
  case accept =>
    refine iff_of_false ?_ hnot
    rcases h.outcome with ⟨-,ho⟩ | ⟨-,-,ho⟩ <;> simp [ho]
  case cycle =>
    rw [hcycle]
    rcases h.outcome with ⟨hr,ho⟩ | ⟨hr,-,ho⟩
    · exact iff_of_true ho hr
    · exact iff_of_false (by simp [ho]) hr
  case exhausted =>
    rw [hcycle,h.turns]
    rcases h.outcome with ⟨hr,ho⟩ | ⟨hr,hmax,ho⟩
    · exact iff_of_false (by simp [ho]) fun hx => hx.2.2 hr
    · exact iff_of_true ho ⟨by omega,hnot,hr⟩
  case payload => exact ⟨i,h.producers,h.payload⟩
  case verdict => exact hv

theorem EndsReviewed.protocol {i : ℕ} {r : DebateResult} (h : EndsReviewed D i r) :
    Protocol D r := by
  have hturn := h.turn
  obtain ⟨e,v,he,hactor,hev,-,hout⟩ := h.last
  have haccept : EndsInAccept r.transcript.history ↔ v = "accept".toList := by
    constructor
    · rintro ⟨e',he',-,hv⟩
      rw [← Option.some.inj (he.symm.trans he'),hev] at hv
      exact Option.some.inj hv
    · exact fun hv => ⟨e,he,hactor,by rw [hev,hv]⟩
  have hcycle : ¬ ∃ n, Debate.producers r.transcript.history = n + 1 ∧ Fresh D n ∧ Repeats D n := by
    rintro ⟨n,hn,-,a,ha,hr⟩
    rw [h.producers] at hn
    obtain rfl := Nat.succ_injective hn
    exact h.fresh a i ha (Nat.lt_succ_self i) hr
  constructor
  case turns => rw [h.turns,h.length]
  case bound => rw [h.turns]; omega
  case numbered => exact h.numbered
  case outcome => exact h.same
  case accept =>
    rw [haccept]
    rcases hout with ⟨hv,ho⟩ | ⟨hv,-,ho⟩
    · exact iff_of_true ho hv
    · exact iff_of_false (by simp [ho]) hv
  case cycle =>
    refine iff_of_false ?_ hcycle
    rcases hout with ⟨-,ho⟩ | ⟨-,-,ho⟩ <;> simp [ho]
  case exhausted =>
    rw [haccept,h.turns]
    rcases hout with ⟨hv,ho⟩ | ⟨hv,hmax,ho⟩
    · exact iff_of_false (by simp [ho]) fun hx => hx.2.1 hv
    · exact iff_of_true ho ⟨by omega,hv,hcycle⟩
  case payload => exact ⟨i,h.producers,h.payload⟩
  case verdict => exact h.verdict

/-- The pair after which a debate ends without a review is the one before its last proposal. -/
theorem EndsProposed.unreviewed_iff {i k : ℕ} {r : DebateResult} (h : EndsProposed D i r) :
    EndsUnreviewed D k ↔ i = k + 1 := by
  have hturn := h.turn
  constructor
  · intro hu
    have huturn := hu.turn
    rcases lt_trichotomy i (k + 1) with hik | hik | hik
    · rcases h.outcome with ⟨⟨a,ha,he⟩,-⟩ | ⟨-,hmax,-⟩
      · exact absurd he (hu.fresh a i ha hik)
      · omega
    · exact hik
    · rcases hu.ends with ⟨a,ha,he⟩ | hmax
      · exact absurd he (h.fresh a (k + 1) ha hik)
      · omega
  · rintro rfl
    refine ⟨by omega,fun j hj => h.undecided j (by omega),h.fresh,?_⟩
    rcases h.outcome with ⟨hr,-⟩ | ⟨-,hmax,-⟩
    · exact .inl hr
    · exact .inr (by omega)

theorem EndsReviewed.not_unreviewed {i k : ℕ} {r : DebateResult} (h : EndsReviewed D i r) :
    ¬ EndsUnreviewed D k := by
  intro hu
  have hturn := h.turn
  have huturn := hu.turn
  obtain ⟨e,v,-,-,-,hv,hout⟩ := h.last
  by_cases hik : k < i
  · rcases hu.ends with ⟨a,ha,he⟩ | hmax
    · exact h.fresh a (k + 1) ha (by omega) he
    · omega
  · rcases hout with ⟨rfl,-⟩ | ⟨-,hmax,-⟩
    · exact hu.undecided i (by omega) hv
    · omega

end Protocol

section Verdict

variable {α : Type} {D : Setup α} {item : Json → Option ReviewItemVerdict}

/-- A valid review names the verdict that is read from it. -/
theorem decodeReview_verdict {items : List (Str × Json)} {review : ReviewOutput}
    (h : decodeReview item (.obj items) = some review) :
    reviewerVerdict (.obj items) = some (.str review.overall_verdict) := by
  obtain ⟨verdict,hv,h⟩ := Option.bind_eq_some_iff.mp h
  obtain ⟨_,-,h⟩ := Option.bind_eq_some_iff.mp h
  obtain ⟨_,-,h⟩ := Option.bind_eq_some_iff.mp h
  obtain rfl := Option.some.inj h
  obtain ⟨v,hget,hlit⟩ := Option.bind_eq_some_iff.mp hv
  rw [reviewerVerdict,hget]
  cases v with
  | str s =>
    rw [decodeLiteral] at hlit
    split at hlit
    · rw [← Option.some.inj hlit]
      rfl
    · cases hlit
  | _ => cases hlit

/-- The raw verdict is the recorded one unless the review is misread. -/
theorem verdict_eq_iff (hD : D.review = { decode := decodeReview item })
    {items : List (Str × Json)} {raw : Json} (hraw : reviewerVerdict (.obj items) = some raw) :
    raw = .str (reviewOutput D (.obj items)).overall_verdict ↔
      ¬ (D.review.decode (.obj items) = none ∧
        reviewerVerdict (.obj items) ≠ some (.str "revise".toList)) := by
  have hout : reviewOutput D (.obj items) = (D.review.decode (.obj items)).getD
      ⟨"revise".toList,[],"reviewer output could not be parsed".toList⟩ := by
    rw [reviewOutput,Schema.model_validate,hD]
    cases hd : decodeReview item (.obj items) <;> simp [hd]
  rw [hout,hraw]
  cases hd : D.review.decode (.obj items) with
  | none => simp
  | some review =>
    have hv := decodeReview_verdict (hD ▸ hd)
    rw [hraw] at hv
    simpa using Option.some.inj hv

theorem protocol_iff (hD : D.review = { decode := decodeReview item }) (hmax : 1 ≤ D.max_turns)
    {r : DebateResult} (h : run_debate D = some r) :
    Protocol D r ↔ ∀ i, EndsUnreviewed D i → ¬ Misread D i := by
  rcases turnPairs_ended (inv_start hmax) (Nat.add_zero _) h with ⟨i,hi⟩ | ⟨i,hi⟩
  · rw [hi.protocol_iff]
    obtain ⟨answer,hanswer,hraw⟩ := hi.review
    cases i with
    | zero =>
      obtain ⟨rfl,hlast⟩ := Prod.mk.inj (Option.some.inj hanswer)
      refine iff_of_true ?_ fun k hk => absurd (hi.unreviewed_iff.mp hk) (by omega)
      rw [← hlast]
      exact (Option.some.inj hraw).symm
    | succ i =>
      obtain ⟨payload,hreview,hp⟩ := Option.map_eq_some_iff.mp hanswer
      obtain ⟨rfl,hlast⟩ := Prod.mk.inj hp
      rw [← hlast]
      have honly : (∀ k, EndsUnreviewed D k → ¬ Misread D k) ↔ ¬ Misread D i := by
        constructor
        · exact fun hall => hall i (hi.unreviewed_iff.mpr rfl)
        · intro hm k hk
          rwa [← Nat.succ_injective (hi.unreviewed_iff.mp hk)]
      rw [honly]
      cases payload with
      | obj items =>
        rw [verdict_eq_iff hD hraw]
        refine not_congr ⟨fun hm => ⟨items,hreview,hm⟩,?_⟩
        rintro ⟨items',hreview',hm⟩
        rwa [Json.obj.inj (Option.some.inj (hreview.symm.trans hreview'))]
      | _ => cases hraw
  · exact iff_of_true hi.protocol fun k hk => absurd hk hi.not_unreviewed

end Verdict

/-- Both debates record what happened exactly if none ends with a proposal after a review that
is misread. -/
theorem debate_protocol {L : Ontogen.Lib} {i : Ontogen.RunInput} {r : DebateResult}
    (hmax : 1 ≤ i.max_turns) (h : run_debate (i.setup L) = some r) {L' : Metagen.Lib}
    {i' : Metagen.RunInput} {urn : Str} {R : Metagen.Rules} {r' : DebateResult}
    (hmax' : 1 ≤ i'.max_turns) (h' : run_debate (i'.setup L' urn R) = some r') :
    (Protocol (i.setup L) r ↔ ∀ k, EndsUnreviewed (i.setup L) k → ¬ Misread (i.setup L) k) ∧
    (Protocol (i'.setup L' urn R) r' ↔
      ∀ k, EndsUnreviewed (i'.setup L' urn R) k → ¬ Misread (i'.setup L' urn R) k) :=
  ⟨protocol_iff rfl hmax h,protocol_iff rfl hmax' h'⟩

def sampleRules : Metagen.Rules :=
  (Metagen.sampleRun "urn").rules "urn".toList Metagen.sampleDb
    ⟨"urn".toList,true,[Metagen.datasetDescription]⟩

theorem debate_protocol_sample :
    (∃ r, run_debate (Ontogen.sampleRun.setup Ontogen.sampleLib) = some r ∧
      Protocol (Ontogen.sampleRun.setup Ontogen.sampleLib) r) ∧
    ∃ r, run_debate ((Metagen.sampleRun "urn").setup Metagen.sampleLib "urn".toList sampleRules) =
      some r ∧
        Protocol ((Metagen.sampleRun "urn").setup Metagen.sampleLib "urn".toList sampleRules) r := by
  have hturns : ∀ {α : Type} {D : Setup α} {k : ℕ}, D.max_turns ≤ 2 → ¬ EndsUnreviewed D k := by
    intro α D k hmax hk
    have := hk.turn
    omega
  have hboth := @debate_protocol Ontogen.sampleLib Ontogen.sampleRun _ (by decide) rfl
    Metagen.sampleLib (Metagen.sampleRun "urn") "urn".toList sampleRules _ (by decide) rfl
  constructor
  · exact ⟨_,rfl,hboth.1.mpr fun k hk => absurd hk (hturns (by decide))⟩
  · exact ⟨_,rfl,hboth.2.mpr fun k hk => absurd hk (hturns (by decide))⟩

def misreadRun : Metagen.RunInput :=
  { Metagen.sampleRun "urn" with
    max_turns := 4
    reviewer := fun _ _ _ => .message
      [⟨"metagen_review".toList,[("overall_verdict".toList,Metagen.str "accept")]⟩] }

theorem misread_verdict_reported :
    ∃ r, run_debate (misreadRun.setup Metagen.sampleLib "urn".toList sampleRules) = some r ∧
      r.outcome = .cycle_detected ∧
      r.transcript.final_reviewer_verdict = .str "accept".toList ∧
      lastVerdict r.transcript.history = "revise".toList ∧
      ¬ Protocol (misreadRun.setup Metagen.sampleLib "urn".toList sampleRules) r := by
  refine ⟨_,rfl,rfl,rfl,rfl,fun h => ?_⟩
  have hverdict := Json.str.inj h.verdict
  exact absurd hverdict (by decide)

end Debate
end Dataspoke
