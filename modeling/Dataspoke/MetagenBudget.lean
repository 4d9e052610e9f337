import Dataspoke.MetagenReview

/-!
# The budget of an item

The runs of one configuration, one after the other and cut where they await the database,
interleaved with reviews of any dataset. A run deletes and inserts at its commit; the row that
it deletes stays locked from the flush on.
-/

namespace Dataspoke
namespace Metagen

open Python Debate Interleave Transition

section Run

/-- A candidate that a debate accepted, and what its row takes from the run. -/
structure Proposal where
  cand : MetagenLLMCandidate
  evidence : Transcript
  run_id : Str

/-- What a run awaits next. -/
inductive RunPhase
  | idle
  | debating
  | count (new : Proposal)
  | select_oldest (new : Proposal)
  | evict (new : Proposal) (old : MetagenCandidate)
  | commit (new : Proposal) (old : Option MetagenCandidate)

/-- What a run gets at a step: the datasets in scope of a new run, the next candidate, the reply
it awaits, its end, or an exception. -/
inductive RunStep
  | start (in_scope_urns : List Str)
  | propose (new : Proposal)
  | reply
  | finish
  | raise

/-- The state of the reviews, an id above all that were ever used, and the row that an open
transaction has deleted. -/
structure BudgetState where
  shared : Shared
  next_id : ℕ
  locked : Option ℕ

def BudgetState.candidates (s : BudgetState) : Table MetagenCandidate.candidate_id :=
  s.shared.db.candidates

variable (conf : MetagenConf)

def counted (new : Proposal) (s : BudgetState) : RunPhase :=
  if nonRejectedCount conf new.cand.dataset_urn new.cand.item_id s.candidates <
      conf.result_limit then .commit new none
  else if conf.overwrite_pending then .select_oldest new
  else .debating

def selected (new : Proposal) (s : BudgetState) : RunPhase :=
  match oldest conf new.cand.dataset_urn new.cand.item_id s.candidates with
  | none => .debating
  | some old => .evict new old

def kept (old : Option MetagenCandidate) (candidates : Table MetagenCandidate.candidate_id) :
    Table MetagenCandidate.candidate_id :=
  old.elim candidates fun old => candidates.remove fun c => c.candidate_id = old.candidate_id

def insertedRow (new : Proposal) (s : BudgetState) : MetagenCandidate :=
  { newRow conf new.cand new.evidence new.run_id s.candidates with candidate_id := s.next_id }

def committed (new : Proposal) (old : Option MetagenCandidate) (s : BudgetState) :
    BudgetState where
  shared :=
    { s.shared with
      db :=
        { s.shared.db.materialise new.cand.dataset_urn new.cand.item_id with
          candidates := (kept old s.candidates).put (insertedRow conf new s) } }
  next_id := s.next_id + 1
  locked := none

def cleared (in_scope_urns : List Str) (s : BudgetState) : BudgetState :=
  { s with
    shared :=
      { s.shared with db := clear_rejected_candidates in_scope_urns conf.id s.shared.db } }

/-- A step of `_run_inner`; an exception rolls the open transaction back. -/
def runStep (input : RunStep) (s : BudgetState) (phase : RunPhase) :
    Option (BudgetState × RunPhase) :=
  match phase, input with
  | .idle, .start in_scope_urns => some (cleared conf in_scope_urns s,.debating)
  | .idle, _ => none
  | _, .raise => some ({ s with locked := none },.idle)
  | .debating, .propose new => some (s,.count new)
  | .debating, .finish => some (s,.idle)
  | .count new, .reply => some (s,counted conf new s)
  | .select_oldest new, .reply => some (s,selected conf new s)
  | .evict new old, .reply => some ({ s with locked := some old.candidate_id },.commit new (some old))
  | .commit new old, .reply => some (committed conf new old s,.debating)
  | _, _ => none

end Run

section Uninterrupted

variable (conf : MetagenConf)

/-- The replies to a run that no other request comes between. -/
def replies : ℕ → BudgetState × RunPhase → Option (BudgetState × RunPhase)
  | 0, x => some x
  | n+1, x => (runStep conf .reply x.1 x.2).bind (replies n)

variable {conf}

/-- Without other requests in between, the steps on a candidate are `_apply_per_item_budget`. -/
theorem replies_eq (s : BudgetState) (new : Proposal) (hid : s.next_id = uuid4 s.candidates) :
    ∃ n s', replies conf n (s,.count new) = some (s',.debating) ∧ s'.candidates =
      (apply_per_item_budget conf new.cand new.evidence new.run_id s.shared.db).1.candidates := by
  have hrow : insertedRow conf new s =
      newRow conf new.cand new.evidence new.run_id s.shared.db.candidates := by
    rw [insertedRow,hid]
    rfl
  have hmat := materialise_candidates s.shared.db new.cand.dataset_urn new.cand.item_id
  rw [apply_per_item_budget]
  dsimp only
  rw [hmat]
  by_cases hroom : nonRejectedCount conf new.cand.dataset_urn new.cand.item_id
      s.shared.db.candidates < conf.result_limit
  · refine ⟨2,committed conf new none s,?_,?_⟩
    · have hcount : counted conf new s = .commit new none := if_pos hroom
      simp only [replies,runStep,Option.bind_some,hcount]
    · rw [if_pos hroom,← hrow]
      rfl
  rw [if_neg hroom]
  by_cases hpending : conf.overwrite_pending = true
  swap
  · refine ⟨1,s,?_,?_⟩
    · have hcount : counted conf new s = .debating := (if_neg hroom).trans (if_neg hpending)
      simp only [replies,runStep,Option.bind_some,hcount]
    · rw [if_pos (by simpa using hpending),hmat]
      rfl
  have hcount : counted conf new s = .select_oldest new :=
    (if_neg hroom).trans (if_pos hpending)
  rw [if_neg (by simpa using hpending)]
  cases hold : oldest conf new.cand.dataset_urn new.cand.item_id s.shared.db.candidates with
  | none =>
    refine ⟨2,s,?_,hmat.symm⟩
    have hselect : selected conf new s = .debating := by
      rw [selected,BudgetState.candidates,hold]
    simp only [replies,runStep,Option.bind_some,hcount,hselect]
  | some old =>
    refine ⟨4,committed conf new (some old) { s with locked := some old.candidate_id },?_,?_⟩
    · have hselect : selected conf new s = .evict new old := by
        rw [selected,BudgetState.candidates,hold]
      simp only [replies,runStep,Option.bind_some,hcount,hselect]
    · rw [← hrow]
      rfl

end Uninterrupted

section Program

/-- The runs, or a review of a dataset; `stale` where the row it updates is gone. -/
inductive Proc
  | run (phase : RunPhase)
  | review (urn : Str) (phase : Phase)
  | stale

inductive BudgetInput
  | run (step : RunStep)
  | review (req : Option ReviewRequest)

def written (cand : MetagenCandidate) (sibling : Option MetagenCandidate) : List ℕ :=
  cand.candidate_id :: (sibling.map (·.candidate_id)).toList

/-- A step of `review_candidate`; its UPDATE waits for a row that is locked. -/
def reviewStep (urn : Str) (i : ℕ) (req : Option ReviewRequest) (s : BudgetState)
    (phase : Phase) : Option (BudgetState × Proc) :=
  let step := (review_candidate urn i req s.shared phase).map fun r =>
    ({ s with shared := r.1 },Proc.review urn r.2)
  match phase with
  | .commit _ cand sibling =>
    if (written cand sibling).any fun id => s.locked = some id then none
    else if (written cand sibling).any fun id => (s.candidates.get? id).isNone then
      some (s,.stale)
    else step
  | _ => step

def budgetProgram (conf : MetagenConf) : Program BudgetState Proc BudgetInput :=
  fun i input s p =>
    match p, input with
    | .run phase, .run step => (runStep conf step s phase).map fun r => (r.1,.run r.2)
    | .review urn phase, .review req => reviewStep urn i req s phase
    | _, _ => none

variable (conf : MetagenConf)

/-- No item has more non-rejected candidates of the configuration than the limit. -/
def Within (s : BudgetState) : Prop :=
  ∀ urn item_id, nonRejectedCount conf urn item_id s.candidates ≤ conf.result_limit

/-- Before the first run, on an item store that keeps the limit; request 0 is the runs. -/
structure Initial (w : World BudgetState Proc) : Prop where
  within : Within conf w.shared
  fresh : ∀ r ∈ w.shared.candidates.rows, r.candidate_id < w.shared.next_id
  runs : w.proc 0 = .run .idle
  reviews : ∀ i ≠ 0, ∃ urn, w.proc i = .review urn .idle

def budgetSystem : System (World BudgetState Proc) (ℕ × BudgetInput) :=
  Interleave.system (budgetProgram conf) (Initial conf)

/-- Whether the row of an id is a rejected one of the configuration. -/
def rejectedNow (candidates : Table MetagenCandidate.candidate_id) (id : ℕ) : ℕ :=
  candidates.rows.countP fun c =>
    c.candidate_id = id && c.conf_id = some conf.id && c.status = .rejected

/-- The rejected candidates of the configuration that an approval takes back. -/
def revived (cand : MetagenCandidate) (sibling : Option MetagenCandidate)
    (candidates : Table MetagenCandidate.candidate_id) : ℕ :=
  (if cand.status = .approved then 0 else rejectedNow conf candidates cand.candidate_id) +
    sibling.elim 0 fun sib => rejectedNow conf candidates sib.candidate_id

/-- The approval takes effect: its rows are there, and the index of approved candidates has no
other entry. -/
def Effective (cand : MetagenCandidate) (sibling : Option MetagenCandidate) (s : BudgetState) :
    Prop :=
  (∀ id ∈ written cand sibling, s.candidates.get? id ≠ none) ∧
    ¬ (cand.status ≠ .approved ∧
      conflicts (assign (demote s.candidates sibling) cand .approved) cand = true)

/-- An approval finds a free place for each rejected candidate that it takes back, and an insert
still has the place that the run counted. -/
def Guard (_ : ℕ) (input : BudgetInput) (s : BudgetState) (p : Proc) : Prop :=
  match p, input with
  | .review _ (.commit .approve cand sibling), _ => Effective cand sibling s →
    nonRejectedCount conf cand.dataset_urn cand.item_id s.candidates +
      revived conf cand sibling s.candidates ≤ conf.result_limit
  | .run (.commit new old), .run .reply =>
    nonRejectedCount conf new.cand.dataset_urn new.cand.item_id (kept old s.candidates) <
      conf.result_limit
  | _, _ => True

/-- No approval takes a rejected candidate back. -/
def NoRevival (_ : ℕ) (_ : BudgetInput) (s : BudgetState) (p : Proc) : Prop :=
  match p with
  | .review _ (.commit .approve cand sibling) => Effective cand sibling s →
    revived conf cand sibling s.candidates = 0
  | _ => True

end Program

section Counting

variable {conf : MetagenConf} {urn item_id : Str} {t : Table MetagenCandidate.candidate_id}
  {cand : MetagenCandidate} {id : ℕ} {status : Status}

/-- A row that the budget of an item counts. -/
def counts (conf : MetagenConf) (urn item_id : Str) (c : MetagenCandidate) : Bool :=
  (c.conf_id = some conf.id && c.dataset_urn = urn && c.item_id = item_id) &&
    c.status ≠ .rejected

theorem nonRejectedCount_eq :
    nonRejectedCount conf urn item_id t = t.rows.countP (counts conf urn item_id) := by
  rw [nonRejectedCount,ownRows,List.filter_filter,← List.countP_eq_length_filter]
  refine List.countP_congr fun c _ => ?_
  simp [counts,and_comm]

/-- The rows of an id, if any, belong to one item. -/
def OnItem (t : Table MetagenCandidate.candidate_id) (id : ℕ) (urn item_id : Str) : Prop :=
  ∀ c ∈ t.rows, c.candidate_id = id → c.dataset_urn = urn ∧ c.item_id = item_id

theorem setStatus_absent (h : ∀ c ∈ t.rows, c.candidate_id ≠ id) :
    (setStatus t id status).rows = t.rows := by
  refine (List.map_congr_left fun c hc => ?_).trans (List.map_id t.rows)
  simp [h c hc]

theorem rejectedNow_of_mem {c : MetagenCandidate} (hc : c ∈ t.rows) :
    rejectedNow conf t c.candidate_id =
      if c.conf_id = some conf.id ∧ c.status = .rejected then 1 else 0 := by
  have hcount : rejectedNow conf t c.candidate_id =
      (t.rows.filter fun r => r.candidate_id = c.candidate_id).countP
        fun r => r.conf_id = some conf.id && r.status = .rejected := by
    rw [List.countP_filter,rejectedNow]
    refine List.countP_congr fun r _ => ?_
    simp only [Bool.and_eq_true,decide_eq_true_eq]
    tauto
  rw [hcount,Table.filter_key hc,List.countP_singleton]
  simp

theorem rejectedNow_absent (h : ∀ c ∈ t.rows, c.candidate_id ≠ id) :
    rejectedNow conf t id = 0 := by
  rw [rejectedNow,List.countP_eq_zero]
  intro c hc
  simp [h c hc]

/-- A row that is set to a status other than rejected is counted from then on. -/
theorem count_setStatus (hs : status ≠ .rejected) (h : OnItem t id urn item_id) :
    nonRejectedCount conf urn item_id (setStatus t id status) =
      nonRejectedCount conf urn item_id t + rejectedNow conf t id := by
  rw [nonRejectedCount_eq,nonRejectedCount_eq]
  by_cases hex : ∃ c ∈ t.rows, c.candidate_id = id
  · obtain ⟨c,hc,rfl⟩ := hex
    have hcount := @Table.countP_modify _ _ _ _ _ _ hc (fun c => { c with status := status })
      (fun _ => rfl) (counts conf urn item_id)
    have hitem := h c hc rfl
    rw [rejectedNow_of_mem hc]
    rw [show setStatus t c.candidate_id status = t.modify
      (fun r => decide (r.candidate_id = c.candidate_id)) (fun c => { c with status := status })
      (fun _ => rfl) from rfl]
    by_cases hown : c.conf_id = some conf.id <;> by_cases hr : c.status = .rejected <;>
      simp [counts,hown,hitem,hs,hr] at hcount ⊢ <;> exact hcount
  · push Not at hex
    rw [setStatus_absent hex,rejectedNow_absent hex,Nat.add_zero]

theorem count_setStatus_other (h : OnItem t id urn item_id) {urn' item_id' : Str}
    (hne : (urn',item_id') ≠ (urn,item_id)) :
    nonRejectedCount conf urn' item_id' (setStatus t id status) =
      nonRejectedCount conf urn' item_id' t := by
  rw [nonRejectedCount_eq,nonRejectedCount_eq]
  show (t.rows.map fun c => if decide (c.candidate_id = id) then { c with status := status }
    else c).countP _ = _
  rw [List.countP_map]
  refine List.countP_congr fun c hc => ?_
  by_cases hid : c.candidate_id = id
  · have hitem := h c hc hid
    have hno : ∀ c' : MetagenCandidate, c'.dataset_urn = urn → c'.item_id = item_id →
        counts conf urn' item_id' c' = false := by
      intro c' hu hi
      have : ¬ (urn = urn' ∧ item_id = item_id') := fun he => hne (by rw [he.1,he.2])
      simp only [counts,hu,hi]
      by_cases hu' : urn = urn' <;> by_cases hi' : item_id = item_id' <;> simp_all
    have hold := hno c hitem.1 hitem.2
    have hnew := hno { c with status := status } hitem.1 hitem.2
    subst hid
    simp [hold,hnew]
  · simp [hid]

/-- The rows that an eviction leaves. -/
def stays (old : Option MetagenCandidate) (c : MetagenCandidate) : Bool :=
  old.all fun old => c.candidate_id ≠ old.candidate_id

theorem count_kept (old : Option MetagenCandidate) :
    nonRejectedCount conf urn item_id (kept old t) =
      t.rows.countP fun c => counts conf urn item_id c && stays old c := by
  rw [nonRejectedCount_eq]
  cases old with
  | none =>
    refine List.countP_congr fun c _ => ?_
    simp [stays]
  | some old =>
    show (t.rows.filter fun c => !decide (c.candidate_id = old.candidate_id)).countP _ = _
    rw [List.countP_filter]
    refine List.countP_congr fun c _ => ?_
    simp [stays]

theorem count_kept_le (old : Option MetagenCandidate) :
    nonRejectedCount conf urn item_id (kept old t) ≤ nonRejectedCount conf urn item_id t := by
  rw [count_kept,nonRejectedCount_eq]
  refine List.countP_mono_left fun c _ hc => ?_
  exact (Bool.and_eq_true_iff.mp hc).1

/-- A rejection counts nothing new. -/
theorem count_reject_le (old : Option MetagenCandidate) :
    nonRejectedCount conf urn item_id (kept old (setStatus t id .rejected)) ≤
      nonRejectedCount conf urn item_id (kept old t) := by
  rw [count_kept,count_kept]
  refine Table.countP_modify_le fun c hc => ?_
  simp [counts] at hc

/-- Taking an own counted row away makes room. -/
theorem count_evict {old : MetagenCandidate} (hold : old ∈ t.rows)
    (hc : counts conf urn item_id old = true) :
    nonRejectedCount conf urn item_id (kept (some old) t) + 1 =
      nonRejectedCount conf urn item_id t := by
  rw [count_kept,nonRejectedCount_eq]
  have hsplit := List.countP_eq_countP_filter_add t.rows (counts conf urn item_id)
    fun c => decide (c.candidate_id = old.candidate_id)
  rw [Table.filter_key hold,List.countP_singleton,if_pos hc,List.countP_filter] at hsplit
  rw [hsplit,Nat.add_comm]
  congr 1
  refine List.countP_congr fun c _ => ?_
  simp [stays]

theorem count_put {row : MetagenCandidate} (h : t.get? row.candidate_id = none) :
    nonRejectedCount conf urn item_id (t.put row) = nonRejectedCount conf urn item_id t +
      if counts conf urn item_id row then 1 else 0 := by
  rw [nonRejectedCount_eq,nonRejectedCount_eq,Table.put_rows h,List.countP_append,
    List.countP_singleton]

theorem OnItem.setStatus {id' : ℕ} (h : OnItem t id urn item_id) :
    OnItem (setStatus t id' status) id urn item_id := by
  intro c hc hid
  obtain ⟨c',hc',rfl⟩ := Table.mem_modify.mp hc
  by_cases hid' : c'.candidate_id = id'
  · simp only [hid',decide_true,if_true] at hid ⊢
    exact h c' hc' (hid'.trans hid)
  · simp only [hid',decide_false,Bool.false_eq_true,if_false] at hid ⊢
    exact h c' hc' hid

theorem OnItem.demote {sibling : Option MetagenCandidate} (h : OnItem t id urn item_id) :
    OnItem (demote t sibling) id urn item_id := by
  cases sibling with
  | none => exact h
  | some sib => exact h.setStatus

theorem rejectedNow_setStatus {id' : ℕ} (hne : id ≠ id') :
    rejectedNow conf (setStatus t id' status) id = rejectedNow conf t id := by
  show (t.rows.map fun c => if decide (c.candidate_id = id') then { c with status := status }
    else c).countP _ = _
  rw [List.countP_map]
  refine List.countP_congr fun c _ => ?_
  by_cases hid : c.candidate_id = id'
  · simp [hid,hne.symm]
  · simp [hid]

/-- An approval adds the rejected candidates that it takes back. -/
theorem count_approve {sibling : Option MetagenCandidate}
    (hcand : OnItem t cand.candidate_id urn item_id)
    (hsib : ∀ sib ∈ sibling, cand.candidate_id ≠ sib.candidate_id ∧
      OnItem t sib.candidate_id urn item_id) :
    nonRejectedCount conf urn item_id (assign (demote t sibling) cand .approved) =
      nonRejectedCount conf urn item_id t + revived conf cand sibling t := by
  have hdemote : nonRejectedCount conf urn item_id (demote t sibling) =
      nonRejectedCount conf urn item_id t +
        sibling.elim 0 (fun sib => rejectedNow conf t sib.candidate_id) ∧
      rejectedNow conf (demote t sibling) cand.candidate_id =
        rejectedNow conf t cand.candidate_id := by
    cases sibling with
    | none => exact ⟨rfl,rfl⟩
    | some sib =>
      have hs := hsib sib rfl
      exact ⟨count_setStatus (by decide) hs.2,rejectedNow_setStatus hs.1⟩
  rw [assign,revived]
  by_cases ha : cand.status = .approved
  · rw [if_pos ha,if_pos ha,hdemote.1,Nat.zero_add]
  · rw [if_neg ha,if_neg ha,count_setStatus (by decide) hcand.demote,hdemote.1,hdemote.2]
    omega

theorem count_approve_other {sibling : Option MetagenCandidate} {urn' item_id' : Str}
    (hcand : OnItem t cand.candidate_id urn item_id)
    (hsib : ∀ sib ∈ sibling, OnItem t sib.candidate_id urn item_id)
    (hne : (urn',item_id') ≠ (urn,item_id)) :
    nonRejectedCount conf urn' item_id' (assign (demote t sibling) cand .approved) =
      nonRejectedCount conf urn' item_id' t := by
  have hdemote : nonRejectedCount conf urn' item_id' (demote t sibling) =
      nonRejectedCount conf urn' item_id' t := by
    cases sibling with
    | none => rfl
    | some sib => exact count_setStatus_other (hsib sib rfl) hne
  rw [assign]
  by_cases ha : cand.status = .approved
  · rw [if_pos ha,hdemote]
  · rw [if_neg ha,count_setStatus_other hcand.demote hne,hdemote]

theorem count_clear {in_scope_urns : List Str} (old : Option MetagenCandidate) :
    nonRejectedCount conf urn item_id (kept old (t.remove fun c =>
      c.conf_id = some conf.id && c.dataset_urn ∈ in_scope_urns && c.status = .rejected)) =
      nonRejectedCount conf urn item_id (kept old t) := by
  rw [count_kept,count_kept]
  show (t.rows.filter _).countP _ = _
  rw [List.countP_filter]
  refine List.countP_congr fun c _ => ?_
  by_cases hr : c.status = .rejected
  · simp [counts,hr]
  · simp [hr]

end Counting

section Reviews

variable {urn : Str} {i : ℕ} {req : Option ReviewRequest} {s s' : BudgetState} {phase : Phase}
  {p' : Proc}

theorem approve_candidates (cand : MetagenCandidate) (sibling : Option MetagenCandidate)
    (s : Shared) : (approve i cand sibling s).1.db.candidates =
      if cand.status ≠ .approved &&
          conflicts (assign (demote s.db.candidates sibling) cand .approved) cand
      then s.db.candidates else assign (demote s.db.candidates sibling) cand .approved := by
  rw [approve]
  split
  · rfl
  · cases targetOf cand.item_id <;> rfl

theorem reject_candidates (cand : MetagenCandidate) (s : Shared) :
    (reject i cand s).1.db.candidates = assign s.db.candidates cand .rejected := by
  rw [reject]
  split
  · cases targetOf cand.item_id <;> rfl
  · split <;> rfl

theorem get_aspect_db (job : Job) (s : Shared) : (get_aspect i job s).1.db = s.db := by
  rw [get_aspect]
  cases job.target with
  | dataset =>
    dsimp only
    cases nextProperties job.value s.datahub.properties <;> rfl
  | field field_path =>
    dsimp only
    cases nextSchema field_path job.value s.datahub.schema <;> rfl

/-- What a step of a review does to the candidates. -/
def ReviewEffect (s s' : BudgetState) : Phase → Prop
  | .commit .approve cand sibling =>
    (Effective cand sibling s →
      s'.candidates = assign (demote s.candidates sibling) cand .approved) ∧
    (¬ Effective cand sibling s → s'.candidates = s.candidates)
  | .commit .reject cand _ =>
    s'.candidates = s.candidates ∨ s'.candidates = assign s.candidates cand .rejected
  | _ => s'.candidates = s.candidates

theorem review_candidate_db {r : Shared × Phase} {sh : Shared}
    (hphase : ∀ verdict cand sibling, phase ≠ .commit verdict cand sibling)
    (h : review_candidate urn i req sh phase = some r) : r.1.db = sh.db := by
  cases phase with
  | idle =>
    obtain ⟨_,_,rfl⟩ := Option.map_eq_some_iff.mp h
    rfl
  | commit verdict cand sibling => exact absurd rfl (hphase verdict cand sibling)
  | get_aspect job =>
    cases h
    exact get_aspect_db job sh
  | done => cases h
  | load_candidate | load_sibling | emit_properties | emit_schema =>
    cases h
    rfl

/-- A step of a review, where it is not kept waiting and no row that it updates is gone. -/
theorem reviewStep_cases (h : reviewStep urn i req s phase = some (s',p')) :
    (∃ verdict cand sibling, phase = .commit verdict cand sibling ∧
      (∃ id ∈ written cand sibling, s.candidates.get? id = none) ∧ s' = s ∧ p' = .stale) ∨
    (∀ verdict cand sibling, phase = .commit verdict cand sibling →
      ∀ id ∈ written cand sibling, s.candidates.get? id ≠ none) ∧
    ∃ r, review_candidate urn i req s.shared phase = some r ∧
      s' = { s with shared := r.1 } ∧ p' = .review urn r.2 := by
  have hmap : ∀ {o : Option (Shared × Phase)}, (o.map fun r =>
      (({ s with shared := r.1 } : BudgetState),Proc.review urn r.2)) = some (s',p') →
      ∃ r, o = some r ∧ s' = { s with shared := r.1 } ∧ p' = .review urn r.2 := by
    intro o ho
    obtain ⟨r,hr,he⟩ := Option.map_eq_some_iff.mp ho
    cases he
    exact ⟨r,hr,rfl,rfl⟩
  cases phase with
  | commit verdict cand sibling =>
    simp only [reviewStep] at h
    by_cases hl : ((written cand sibling).any fun id => s.locked = some id) = true
    · rw [if_pos hl] at h
      cases h
    rw [if_neg hl] at h
    by_cases hg : ((written cand sibling).any fun id => (s.candidates.get? id).isNone) = true
    · rw [if_pos hg] at h
      cases h
      obtain ⟨id,hid,hnone⟩ := List.any_eq_true.mp hg
      exact .inl ⟨verdict,cand,sibling,rfl,⟨id,hid,by simpa using hnone⟩,rfl,rfl⟩
    · rw [if_neg hg] at h
      refine .inr ⟨?_,hmap h⟩
      intro verdict' cand' sibling' he id hid hnone
      cases he
      exact hg (List.any_eq_true.mpr ⟨id,hid,by rw [hnone]; rfl⟩)
  | _ => exact .inr ⟨(fun _ _ _ he => by cases he),hmap h⟩

theorem reviewStep_effect (h : reviewStep urn i req s phase = some (s',p')) :
    s'.next_id = s.next_id ∧ s'.locked = s.locked ∧ ReviewEffect s s' phase := by
  rcases reviewStep_cases h with ⟨verdict,cand,sibling,rfl,⟨id,hid,hnone⟩,rfl,rfl⟩ |
    ⟨hthere,r,hr,rfl,rfl⟩
  · refine ⟨rfl,rfl,?_⟩
    cases verdict with
    | approve => exact ⟨fun heff => absurd hnone (heff.1 id hid),fun _ => rfl⟩
    | reject => exact .inl rfl
  refine ⟨rfl,rfl,?_⟩
  by_cases hphase : ∀ verdict cand sibling, phase ≠ .commit verdict cand sibling
  · have hsame : r.1.db.candidates = s.shared.db.candidates := by
      rw [review_candidate_db hphase hr]
    cases phase with
    | commit verdict cand sibling => exact absurd rfl (hphase verdict cand sibling)
    | _ => exact hsame
  · push Not at hphase
    obtain ⟨verdict,cand,sibling,rfl⟩ := hphase
    cases verdict with
    | approve =>
      cases hr
      have hrows := approve_candidates (i:=i) cand sibling s.shared
      refine ⟨fun heff => ?_,fun heff => ?_⟩
      · exact hrows.trans (if_neg (by simpa [BudgetState.candidates] using heff.2))
      · refine hrows.trans (if_pos ?_)
        by_contra hno
        exact heff ⟨hthere _ _ _ rfl,by simpa [BudgetState.candidates] using hno⟩
    | reject =>
      cases hr
      exact .inr (reject_candidates cand s.shared)

end Reviews

section Frames

variable {conf : MetagenConf} {urn : Str} {i : ℕ} {s s' : BudgetState} {p p' : Proc}

/-- Every id in use is below the next one. -/
def IdsFresh (s : BudgetState) : Prop := ∀ c ∈ s.candidates.rows, c.candidate_id < s.next_id

/-- An id in use, whose row belongs to the item as long as it is there. -/
def Tracks (s : BudgetState) (id : ℕ) (urn item_id : Str) : Prop :=
  id < s.next_id ∧ OnItem s.candidates id urn item_id

/-- What a request has read of the candidates. -/
def BudgetLocal (i : ℕ) (s : BudgetState) : Proc → Prop
  | .run _ => i = 0
  | .review urn (.load_sibling cand) =>
    cand.dataset_urn = urn ∧ Tracks s cand.candidate_id urn cand.item_id
  | .review urn (.commit _ cand sibling) => cand.dataset_urn = urn ∧
    Tracks s cand.candidate_id urn cand.item_id ∧
      ∀ sib ∈ sibling, cand.candidate_id ≠ sib.candidate_id ∧
        Tracks s sib.candidate_id urn cand.item_id
  | _ => True

/-- A step keeps the rows but for their status, drops some, or adds some under new ids. -/
def Frame (s s' : BudgetState) : Prop :=
  s.next_id ≤ s'.next_id ∧ ∀ c' ∈ s'.candidates.rows,
    (∃ c ∈ s.candidates.rows, frozen c = frozen c') ∨ s.next_id ≤ c'.candidate_id

theorem Tracks.frame {id : ℕ} {item_id : Str} (h : Tracks s id urn item_id) (hf : Frame s s') :
    Tracks s' id urn item_id := by
  refine ⟨h.1.trans_le hf.1,fun c' hc' hid => ?_⟩
  rcases hf.2 c' hc' with ⟨c,hc,he⟩ | hnew
  · have hcid : c.candidate_id = c'.candidate_id := congrArg (·.candidate_id) he
    have hitem := h.2 c hc (hcid.trans hid)
    have hurn : c.dataset_urn = c'.dataset_urn := congrArg (·.dataset_urn) he
    have hitem' : c.item_id = c'.item_id := congrArg (·.item_id) he
    exact ⟨hurn ▸ hitem.1,hitem' ▸ hitem.2⟩
  · have := h.1
    omega

theorem BudgetLocal.frame (h : BudgetLocal i s p) (hf : Frame s s') : BudgetLocal i s' p := by
  cases p with
  | run phase => exact h
  | stale => trivial
  | review urn phase =>
    cases phase with
    | load_sibling cand => exact ⟨h.1,h.2.frame hf⟩
    | commit verdict cand sibling =>
      exact ⟨h.1,h.2.1.frame hf,fun sib hsib => ⟨(h.2.2 sib hsib).1,(h.2.2 sib hsib).2.frame hf⟩⟩
    | _ => trivial

/-- A step that changes statuses only. -/
theorem frame_of_frozen (hn : s'.next_id = s.next_id)
    (hrows : s'.candidates.rows.map frozen = s.candidates.rows.map frozen) (hf : IdsFresh s) :
    IdsFresh s' ∧ Frame s s' := by
  have hmem : ∀ c' ∈ s'.candidates.rows, ∃ c ∈ s.candidates.rows, frozen c = frozen c' := by
    intro c' hc'
    have hc : frozen c' ∈ s.candidates.rows.map frozen := by
      rw [← hrows]
      exact List.mem_map_of_mem hc'
    exact List.mem_map.mp hc
  refine ⟨fun c' hc' => ?_,hn.ge,fun c' hc' => .inl (hmem c' hc')⟩
  obtain ⟨c,hc,he⟩ := hmem c' hc'
  have hid : c.candidate_id = c'.candidate_id := congrArg (·.candidate_id) he
  rw [hn,← hid]
  exact hf c hc

theorem reviewEffect_frozen {phase : Phase} (h : ReviewEffect s s' phase) :
    s'.candidates.rows.map frozen = s.candidates.rows.map frozen := by
  cases phase with
  | commit verdict cand sibling =>
    cases verdict with
    | approve =>
      by_cases he : Effective cand sibling s
      · rw [h.1 he,assign_frozen,demote_frozen]
      · rw [h.2 he]
    | reject =>
      rcases h with h | h
      · rw [h]
      · rw [h,assign_frozen]
  | _ => exact congrArg (fun t => t.rows.map frozen) h

theorem tracks_of_mem (hf : IdsFresh s) {c : MetagenCandidate} (hc : c ∈ s.candidates.rows) :
    Tracks s c.candidate_id c.dataset_urn c.item_id := by
  refine ⟨hf c hc,fun c' hc' hid => ?_⟩
  rw [Table.eq_of_key_eq hc' hc hid]
  exact ⟨rfl,rfl⟩

theorem review_local {req : Option ReviewRequest} {phase : Phase} {r : Shared × Phase}
    (hf : IdsFresh s) (hl : BudgetLocal i s (.review urn phase))
    (hr : review_candidate urn i req s.shared phase = some r) :
    BudgetLocal i { s with shared := r.1 } (.review urn r.2) := by
  cases phase with
  | idle =>
    obtain ⟨req',_,rfl⟩ := Option.map_eq_some_iff.mp hr
    rw [start]
    cases s.shared.db.boundaries.get? urn with
    | none => trivial
    | some boundary =>
      dsimp only
      split <;> trivial
  | load_candidate req =>
    cases hr
    rw [load_candidate]
    cases hfind : s.shared.db.candidates.rows.find? fun c =>
        req.candidate_id = some c.candidate_id && c.dataset_urn = urn &&
          c.item_id = req.item_id with
    | none => trivial
    | some cand =>
      have hmem := List.mem_of_find?_eq_some hfind
      have hurn : cand.dataset_urn = urn := by
        have hp := List.find?_some hfind
        simp only [Bool.and_eq_true,decide_eq_true_eq] at hp
        exact hp.1.2
      have ht : Tracks s cand.candidate_id urn cand.item_id := hurn ▸ tracks_of_mem hf hmem
      cases req.verdict with
      | approve => exact ⟨hurn,ht⟩
      | reject => exact ⟨hurn,ht,nofun⟩
  | load_sibling cand =>
    cases hr
    rw [load_sibling]
    cases hfind : s.shared.db.candidates.rows.filter fun c =>
        c.dataset_urn = urn && c.item_id = cand.item_id && c.status = .approved &&
          c.candidate_id ≠ cand.candidate_id with
    | nil => exact ⟨hl.1,hl.2,nofun⟩
    | cons sib rest =>
      cases rest with
      | cons => trivial
      | nil =>
        refine ⟨hl.1,hl.2,fun sib' hsib => ?_⟩
        cases hsib
        have hmem := List.mem_filter.mp (hfind ▸ List.mem_singleton_self sib)
        simp only [Bool.and_eq_true,decide_eq_true_eq] at hmem
        obtain ⟨hmem,⟨⟨hurn,hitem⟩,_⟩,hne⟩ := hmem
        exact ⟨Ne.symm hne,hurn ▸ hitem ▸ tracks_of_mem hf hmem⟩
  | commit verdict cand sibling =>
    cases verdict with
    | approve =>
      cases hr
      rw [approve]
      split
      · trivial
      · cases targetOf cand.item_id <;> trivial
    | reject =>
      cases hr
      rw [reject]
      split
      · cases targetOf cand.item_id <;> trivial
      · split <;> trivial
  | get_aspect job =>
    cases hr
    rw [get_aspect]
    cases job.target with
    | dataset =>
      dsimp only
      cases nextProperties job.value s.shared.datahub.properties <;> trivial
    | field field_path =>
      dsimp only
      cases nextSchema field_path job.value s.shared.datahub.schema <;> trivial
  | emit_properties | emit_schema =>
    cases hr
    trivial
  | done => cases hr

variable (conf) in
/-- The rows that a commit of a run leaves. -/
theorem mem_committed {new : Proposal} {old : Option MetagenCandidate} {c : MetagenCandidate}
    (h : c ∈ (committed conf new old s).candidates.rows) :
    c = insertedRow conf new s ∨ c ∈ s.candidates.rows := by
  rcases Table.mem_put.mp h with h | ⟨h,_⟩
  · exact .inl h
  · cases old with
    | none => exact .inr h
    | some old => exact .inr (Table.mem_remove.mp h).1

/-- A step of a run leaves the candidates, clears the rejected ones, or commits an insert. -/
theorem runStep_cases {input : RunStep} {phase phase' : RunPhase}
    (h : runStep conf input s phase = some (s',phase')) :
    (s'.candidates = s.candidates ∧ s'.next_id = s.next_id) ∨
    (∃ in_scope_urns, s' = cleared conf in_scope_urns s ∧ phase' = .debating) ∨
    ∃ new old, phase = .commit new old ∧ input = .reply ∧ s' = committed conf new old s ∧
      phase' = .debating := by
  cases phase with
  | idle =>
    cases input with
    | start in_scope_urns =>
      cases h
      exact .inr (.inl ⟨in_scope_urns,rfl,rfl⟩)
    | _ => cases h
  | commit new old =>
    cases input with
    | reply =>
      cases h
      exact .inr (.inr ⟨new,old,rfl,rfl,rfl,rfl⟩)
    | raise =>
      cases h
      exact .inl ⟨rfl,rfl⟩
    | _ => cases h
  | _ =>
    cases input <;> cases h <;> exact .inl ⟨rfl,rfl⟩

theorem frame_committed (hf : IdsFresh s) (new : Proposal) (old : Option MetagenCandidate) :
    IdsFresh (committed conf new old s) ∧ Frame s (committed conf new old s) := by
  refine ⟨fun c hc => ?_,Nat.le_succ _,fun c hc => ?_⟩
  · rcases mem_committed conf hc with rfl | hc
    · exact Nat.lt_succ_self _
    · exact (hf c hc).trans (Nat.lt_succ_self _)
  · rcases mem_committed conf hc with rfl | hc
    · exact .inr le_rfl
    · exact .inl ⟨c,hc,rfl⟩

theorem frame_cleared (hf : IdsFresh s) (in_scope_urns : List Str) :
    IdsFresh (cleared conf in_scope_urns s) ∧ Frame s (cleared conf in_scope_urns s) := by
  have hmem : ∀ c ∈ (cleared conf in_scope_urns s).candidates.rows, c ∈ s.candidates.rows :=
    fun c hc => (Table.mem_remove.mp hc).1
  exact ⟨fun c hc => hf c (hmem c hc),le_rfl,fun c hc => .inl ⟨c,hmem c hc,rfl⟩⟩

theorem own_frame {input : BudgetInput} (hf : IdsFresh s) (hl : BudgetLocal i s p)
    (h : budgetProgram conf i input s p = some (s',p')) :
    IdsFresh s' ∧ BudgetLocal i s' p' ∧ Frame s s' := by
  cases p with
  | stale => cases input <;> cases h
  | review urn phase =>
    cases input with
    | run => cases h
    | review req =>
      have heff := reviewStep_effect h
      have hframe := frame_of_frozen heff.1 (reviewEffect_frozen heff.2.2) hf
      refine ⟨hframe.1,?_,hframe.2⟩
      rcases reviewStep_cases h with ⟨_,_,_,_,_,rfl,rfl⟩ | ⟨_,r,hr,rfl,rfl⟩
      · trivial
      · exact review_local hf hl hr
  | run phase =>
    cases input with
    | review => cases h
    | run input =>
      obtain ⟨⟨u,phase'⟩,hu,he⟩ := Option.map_eq_some_iff.mp h
      cases he
      rcases runStep_cases hu with ⟨hc,hn⟩ | ⟨urns,rfl,_⟩ | ⟨new,old,_,_,rfl,_⟩
      · have hframe := frame_of_frozen hn (by rw [hc]) hf
        exact ⟨hframe.1,hl,hframe.2⟩
      · exact ⟨(frame_cleared hf urns).1,hl,(frame_cleared hf urns).2⟩
      · exact ⟨(frame_committed hf new old).1,hl,(frame_committed hf new old).2⟩

end Frames

section Steps

variable {conf : MetagenConf} {i : ℕ} {input : BudgetInput} {s s' : BudgetState} {p p' : Proc}

theorem count_committed (hf : IdsFresh s) (new : Proposal) (old : Option MetagenCandidate)
    (urn item_id : Str) :
    nonRejectedCount conf urn item_id (committed conf new old s).candidates =
      nonRejectedCount conf urn item_id (kept old s.candidates) +
        if new.cand.dataset_urn = urn ∧ new.cand.item_id = item_id then 1 else 0 := by
  have hnone : (kept old s.candidates).get? (insertedRow conf new s).candidate_id = none := by
    rw [Table.get?_eq_none]
    intro c hc
    have hmem : c ∈ s.candidates.rows := by
      cases old with
      | none => exact hc
      | some old => exact (Table.mem_remove.mp hc).1
    exact (hf c hmem).ne
  refine (count_put hnone).trans ?_
  by_cases hu : new.cand.dataset_urn = urn <;> by_cases hi : new.cand.item_id = item_id <;>
    simp [counts,insertedRow,newRow,hu,hi]

/-- The step that the guard lets through keeps the limit. -/
theorem within_step (hf : IdsFresh s) (hl : BudgetLocal i s p) (hw : Within conf s)
    (hg : Guard conf i input s p) (h : budgetProgram conf i input s p = some (s',p')) :
    Within conf s' := by
  cases p with
  | stale => cases input <;> cases h
  | review urn phase =>
    cases input with
    | run => cases h
    | review req =>
      have heff := (reviewStep_effect h).2.2
      intro urn' item_id'
      cases phase with
      | commit verdict cand sibling =>
        obtain ⟨hurn,hcand,hsib⟩ := hl
        subst hurn
        cases verdict with
        | approve =>
          by_cases he : Effective cand sibling s
          · rw [heff.1 he]
            by_cases hitem : (urn',item_id') = (cand.dataset_urn,cand.item_id)
            · cases hitem
              rw [count_approve hcand.2 fun sib hs => ⟨(hsib sib hs).1,(hsib sib hs).2.2⟩]
              exact hg he
            · rw [count_approve_other hcand.2 (fun sib hs => (hsib sib hs).2.2) hitem]
              exact hw _ _
          · rw [heff.2 he]
            exact hw _ _
        | reject =>
          rcases heff with heff | heff
          · rw [heff]
            exact hw _ _
          · rw [heff,assign]
            split
            · exact hw _ _
            · exact (count_reject_le none).trans (hw _ _)
      | _ =>
        rw [show s'.candidates = s.candidates from heff]
        exact hw _ _
  | run phase =>
    cases input with
    | review => cases h
    | run input =>
      obtain ⟨⟨u,phase'⟩,hu,he⟩ := Option.map_eq_some_iff.mp h
      cases he
      intro urn item_id
      rcases runStep_cases hu with ⟨hc,_⟩ | ⟨urns,rfl,_⟩ | ⟨new,old,rfl,rfl,rfl,_⟩
      · rw [hc]
        exact hw _ _
      · exact (count_clear none).trans_le (hw urn item_id)
      · rw [count_committed hf]
        by_cases hitem : new.cand.dataset_urn = urn ∧ new.cand.item_id = item_id
        · obtain ⟨rfl,rfl⟩ := hitem
          rw [if_pos ⟨rfl,rfl⟩]
          exact hg
        · rw [if_neg hitem,Nat.add_zero]
          exact (count_kept_le old).trans (hw _ _)

/-- A step that the guard does not let through breaks the limit. -/
theorem not_within_step (hf : IdsFresh s) (hl : BudgetLocal i s p) (hg : ¬ Guard conf i input s p)
    (h : budgetProgram conf i input s p = some (s',p')) : ¬ Within conf s' := by
  intro hw
  cases p with
  | stale => exact hg trivial
  | review urn phase =>
    cases input with
    | run => cases h
    | review req =>
      have heff := (reviewStep_effect h).2.2
      cases phase with
      | commit verdict cand sibling =>
        obtain ⟨hurn,hcand,hsib⟩ := hl
        subst hurn
        cases verdict with
        | approve =>
          refine hg fun he => ?_
          have hcount := hw cand.dataset_urn cand.item_id
          rwa [heff.1 he,
            count_approve hcand.2 fun sib hs => ⟨(hsib sib hs).1,(hsib sib hs).2.2⟩] at hcount
        | reject => exact hg trivial
      | _ => exact hg trivial
  | run phase =>
    cases input with
    | review => cases h
    | run input =>
      cases phase with
      | commit new old =>
        cases input with
        | reply =>
          cases h
          have hcount := hw new.cand.dataset_urn new.cand.item_id
          rw [count_committed hf,if_pos ⟨rfl,rfl⟩] at hcount
          exact hg hcount
        | _ => exact hg trivial
      | _ => exact hg trivial

end Steps

section Room

variable {conf : MetagenConf} {urn item_id : Str} {t : Table MetagenCandidate.candidate_id}
  {i : ℕ} {input : BudgetInput} {s s' : BudgetState} {p p' : Proc}

/-- A status that takes no rejected candidate back. -/
theorem count_kept_setStatus_le {id : ℕ} {status : Status} (h : rejectedNow conf t id = 0)
    (old : Option MetagenCandidate) :
    nonRejectedCount conf urn item_id (kept old (setStatus t id status)) ≤
      nonRejectedCount conf urn item_id (kept old t) := by
  rw [count_kept,count_kept]
  show (t.rows.map fun c => if decide (c.candidate_id = id) then { c with status := status }
    else c).countP _ ≤ _
  rw [List.countP_map]
  refine List.countP_mono_left fun c hc hcount => ?_
  by_cases hid : c.candidate_id = id
  · subst hid
    rw [rejectedNow_of_mem hc] at h
    have hown : c.conf_id = some conf.id → c.status ≠ .rejected := by
      intro hconf hr
      rw [if_pos ⟨hconf,hr⟩] at h
      cases h
    simp only [Function.comp,decide_true,if_true,counts,stays,Bool.and_eq_true,
      decide_eq_true_eq] at hcount ⊢
    exact ⟨⟨hcount.1.1,hown hcount.1.1.1.1⟩,hcount.2⟩
  · simpa [hid] using hcount

theorem rejectedNow_demote {cand : MetagenCandidate} {sibling : Option MetagenCandidate}
    (h : ∀ sib ∈ sibling, cand.candidate_id ≠ sib.candidate_id) :
    rejectedNow conf (demote t sibling) cand.candidate_id =
      rejectedNow conf t cand.candidate_id := by
  cases sibling with
  | none => rfl
  | some sib => exact rejectedNow_setStatus (h sib rfl)

theorem count_kept_approve_le {cand : MetagenCandidate} {sibling : Option MetagenCandidate}
    (hne : ∀ sib ∈ sibling, cand.candidate_id ≠ sib.candidate_id)
    (h : revived conf cand sibling t = 0) (old : Option MetagenCandidate) :
    nonRejectedCount conf urn item_id (kept old (assign (demote t sibling) cand .approved)) ≤
      nonRejectedCount conf urn item_id (kept old t) := by
  rw [revived,Nat.add_eq_zero_iff] at h
  have hdemote : nonRejectedCount conf urn item_id (kept old (demote t sibling)) ≤
      nonRejectedCount conf urn item_id (kept old t) := by
    cases sibling with
    | none => exact le_rfl
    | some sib => exact count_kept_setStatus_le h.2 old
  rw [assign]
  by_cases ha : cand.status = .approved
  · rw [if_pos ha]
    exact hdemote
  · rw [if_neg ha]
    rw [if_neg ha] at h
    refine (count_kept_setStatus_le ?_ old).trans hdemote
    rw [rejectedNow_demote hne]
    exact h.1

/-- The place that a run has counted or made is still there. -/
def Room (conf : MetagenConf) (s : BudgetState) : Proc → Prop
  | .run (.evict new old) => nonRejectedCount conf new.cand.dataset_urn new.cand.item_id
      (kept (some old) s.candidates) < conf.result_limit
  | .run (.commit new old) => nonRejectedCount conf new.cand.dataset_urn new.cand.item_id
      (kept old s.candidates) < conf.result_limit
  | _ => True

theorem guard_of_room (hw : Within conf s) (hroom : Room conf s p)
    (hn : NoRevival conf i input s p) : Guard conf i input s p := by
  cases p with
  | stale => trivial
  | review urn phase =>
    cases phase with
    | commit verdict cand sibling =>
      cases verdict with
      | approve =>
        intro he
        rw [hn he,Nat.add_zero]
        exact hw _ _
      | reject => trivial
    | _ => trivial
  | run phase =>
    cases input with
    | review => cases phase <;> trivial
    | run input =>
      cases phase with
      | commit new old =>
        cases input with
        | reply => exact hroom
        | _ => trivial
      | _ => trivial

/-- A review that takes nothing back leaves a run its room. -/
theorem review_room {urn : Str} {phase : Phase} {q : Proc}
    (hl : BudgetLocal i s (.review urn phase)) (hn : NoRevival conf i input s (.review urn phase))
    (h : budgetProgram conf i input s (.review urn phase) = some (s',p')) (hq : Room conf s q) :
    Room conf s' q := by
  have hle : ∀ urn item_id old, nonRejectedCount conf urn item_id (kept old s'.candidates) ≤
      nonRejectedCount conf urn item_id (kept old s.candidates) := by
    intro urn' item_id' old
    cases input with
    | run => cases h
    | review req =>
      have heff := (reviewStep_effect h).2.2
      cases phase with
      | commit verdict cand sibling =>
        cases verdict with
        | approve =>
          by_cases he : Effective cand sibling s
          · rw [heff.1 he]
            exact count_kept_approve_le (fun sib hs => (hl.2.2 sib hs).1) (hn he) old
          · rw [heff.2 he]
        | reject =>
          rcases heff with heff | heff
          · rw [heff]
          · rw [heff,assign]
            split
            · exact le_rfl
            · exact count_reject_le old
      | _ => rw [show s'.candidates = s.candidates from heff]
  cases q with
  | run phase =>
    cases phase with
    | evict new old => exact (hle _ _ _).trans_lt hq
    | commit new old => exact (hle _ _ _).trans_lt hq
    | _ => trivial
  | _ => trivial

/-- A run inserts where it has counted or made room. -/
theorem run_room {step : RunStep} {phase phase' : RunPhase} (hw : Within conf s)
    (hroom : Room conf s (.run phase)) (h : runStep conf step s phase = some (s',phase')) :
    Room conf s' (.run phase') := by
  cases phase with
  | count new =>
    cases step with
    | reply =>
      cases h
      rw [counted]
      split
      · assumption
      · split <;> trivial
    | raise =>
      cases h
      trivial
    | _ => cases h
  | select_oldest new =>
    cases step with
    | reply =>
      cases h
      rw [selected]
      cases hold : oldest conf new.cand.dataset_urn new.cand.item_id s.candidates with
      | none => trivial
      | some old =>
        have hmem := List.mem_filter.mp (List.mem_of_find?_eq_some hold)
        have hstatus : old.status = .llm_approved := by simpa using List.find?_some hold
        have hcounts : counts conf new.cand.dataset_urn new.cand.item_id old = true := by
          rw [counts,hmem.2,hstatus]
          rfl
        have hevict := count_evict hmem.1 hcounts
        have hlimit := hw new.cand.dataset_urn new.cand.item_id
        show _ < _
        omega
    | raise =>
      cases h
      trivial
    | _ => cases h
  | evict new old =>
    cases step with
    | reply =>
      cases h
      exact hroom
    | raise =>
      cases h
      trivial
    | _ => cases h
  | idle | debating | commit => cases step <;> cases h <;> trivial

end Room

section Runs

variable {conf : MetagenConf} {w w' : World BudgetState Proc}
  {h : List (World BudgetState Proc × (ℕ × BudgetInput))}

theorem initial_holds (hw : Initial conf w) : Holds IdsFresh BudgetLocal w := by
  refine ⟨hw.fresh,fun i => ?_⟩
  by_cases hi : i = 0
  · subst hi
    rw [hw.runs]
    rfl
  · obtain ⟨urn,hurn⟩ := hw.reviews i hi
    rw [hurn]
    trivial

theorem holds_step {l : ℕ × BudgetInput} (hw : Holds IdsFresh BudgetLocal w)
    (h : Interleave.step (budgetProgram conf) w l = some w') : Holds IdsFresh BudgetLocal w' :=
  hw.step (G:=fun _ _ _ _ => True) (R:=fun _ => Frame) trivial
    (fun _ _ _ _ _ _ hf hl _ h => own_frame hf hl h) (fun _ _ _ _ _ _ hl hr => hl.frame hr) h

/-- The limit holds in all states of a run exactly if each step finds the place that it takes. -/
theorem within_iff (hr : Run (budgetSystem conf) w h w') (hw : Initial conf w) :
    Visits (fun w => Within conf w.shared) h w' ↔ Meets (lift (Guard conf)) h := by
  refine hr.visits_iff_meets (I:=fun w => Holds IdsFresh BudgetLocal w ∧ Within conf w.shared)
    ⟨initial_holds hw,hw.within⟩ (fun _ hi => hi.2) ?_ ?_
  · intro u l v hi hg hs
    refine ⟨holds_step hi.1 hs,?_⟩
    obtain ⟨s,p,hp,rfl⟩ := step_eq_some.mp hs
    exact within_step hi.1.1 (hi.1.2 l.1) hi.2 hg hp
  · intro u l v hi hg hs
    obtain ⟨s,p,hp,rfl⟩ := step_eq_some.mp hs
    exact not_within_step hi.1.1 (hi.1.2 l.1) hg hp

/-- The step of one request leaves every request its room. -/
theorem room_step {u : World BudgetState Proc} {l : ℕ × BudgetInput} {s : BudgetState} {p : Proc}
    (hholds : Holds IdsFresh BudgetLocal u) (hwithin : Within conf u.shared)
    (hroom : ∀ i, Room conf u.shared (u.proc i)) (hg : lift (NoRevival conf) u l)
    (hp : budgetProgram conf l.1 l.2 u.shared (u.proc l.1) = some (s,p)) (j : ℕ) :
    Room conf s (Function.update u.proc l.1 p j) := by
  have hlocal := hholds.2 l.1
  have hown := hroom l.1
  cases hproc : u.proc l.1 with
  | stale =>
    rw [hproc] at hp
    cases hinput : l.2 <;> rw [hinput] at hp <;> cases hp
  | review urn phase =>
    have hg' : NoRevival conf l.1 l.2 u.shared (.review urn phase) := hproc ▸ hg
    rw [hproc] at hp hlocal
    by_cases hj : j = l.1
    · subst hj
      rw [Function.update_self]
      cases hinput : l.2 with
      | run => rw [hinput] at hp; cases hp
      | review req =>
        rw [hinput] at hp
        rcases reviewStep_cases hp with ⟨_,_,_,_,_,_,rfl⟩ | ⟨_,r,_,_,rfl⟩ <;> trivial
    · rw [Function.update_of_ne hj]
      exact review_room hlocal hg' hp (hroom j)
  | run phase =>
    rw [hproc] at hp hlocal hown
    by_cases hj : j = l.1
    · subst hj
      rw [Function.update_self]
      cases hinput : l.2 with
      | review => rw [hinput] at hp; cases hp
      | run step =>
        rw [hinput] at hp
        obtain ⟨⟨v,phase'⟩,hv,he⟩ := Option.map_eq_some_iff.mp hp
        cases he
        exact run_room hwithin hown hv
    · rw [Function.update_of_ne hj]
      cases hother : u.proc j with
      | run phase' =>
        have hzero := hholds.2 j
        rw [hother] at hzero
        exact absurd (hzero.trans hlocal.symm) hj
      | _ => trivial

/-- A run in which no approval takes a rejected candidate back meets the guard. -/
theorem meets_of_noRevival (hr : Run (budgetSystem conf) w h w') (hw : Initial conf w)
    (hn : Meets (lift (NoRevival conf)) h) : Meets (lift (Guard conf)) h := by
  have hv := hr.visits (G:=lift (NoRevival conf)) (I:=fun w => Holds IdsFresh BudgetLocal w ∧
    Within conf w.shared ∧ ∀ i, Room conf w.shared (w.proc i)) ?_ ?_ hn
  · intro q hq
    obtain ⟨hholds,hwithin,hroom⟩ := hv.2 q hq
    exact guard_of_room hwithin (hroom _) (hn q hq)
  · refine ⟨initial_holds hw,hw.within,fun i => ?_⟩
    by_cases hi : i = 0
    · subst hi
      rw [hw.runs]
      trivial
    · obtain ⟨urn,hurn⟩ := hw.reviews i hi
      rw [hurn]
      trivial
  · intro u l v ⟨hholds,hwithin,hroom⟩ hg hs
    have hnext := holds_step hholds hs
    obtain ⟨s,p,hp,rfl⟩ := step_eq_some.mp hs
    have hguard := guard_of_room hwithin (hroom l.1) hg
    refine ⟨hnext,within_step hholds.1 (hholds.2 l.1) hwithin hguard hp,fun j => ?_⟩
    exact room_step hholds hwithin hroom hg hp j

/-- In every run the limit holds in all states exactly if each approval and each insert finds the
place that it takes, and it holds if no approval takes a rejected candidate back. -/
theorem budget_within_iff (hr : Run (budgetSystem conf) w h w') (hw : Initial conf w) :
    (Visits (fun w => Within conf w.shared) h w' ↔ Meets (lift (Guard conf)) h) ∧
      (Meets (lift (NoRevival conf)) h → Visits (fun w => Within conf w.shared) h w') :=
  ⟨within_iff hr hw,fun hn => (within_iff hr hw).mpr (meets_of_noRevival hr hw hn)⟩

end Runs

def oneConf : MetagenConf := ⟨['c'],true,1,false⟩

def storedCandidate : MetagenCandidate where
  candidate_id := 0
  conf_id := some ['c']
  dataset_urn := ['u']
  item_id := ['i']
  run_id := ['r']
  value := []
  confidence_score := .fin 1
  status := .llm_approved
  evidence := ⟨1,.accept,.null,[],1,0⟩

def oneWorld : World BudgetState Proc where
  shared :=
    { shared :=
        { db := ⟨(Table.empty _).put ⟨['u'],true,[]⟩,.empty _,(Table.empty _).put storedCandidate⟩
          datahub := ⟨none,none⟩
          owes := fun _ => none
          withdrawn := fun _ => false }
      next_id := 1
      locked := none }
  proc
    | 0 => .run .idle
    | _ => .review ['u'] .idle

theorem oneWorld_initial : Initial oneConf oneWorld where
  within urn item_id := by
    refine (List.length_filter_le _ _).trans ((List.length_filter_le _ _).trans ?_)
    exact le_refl 1
  fresh c hc := by
    rcases List.mem_singleton.mp hc with rfl
    exact Nat.one_pos
  runs := rfl
  reviews i hi := by
    cases i with
    | zero => exact absurd rfl hi
    | succ i => exact ⟨_,rfl⟩

def newProposal : Proposal where
  cand := ⟨['u'],['i'],[],.fin 1⟩
  evidence := ⟨1,.accept,.null,[],1,0⟩
  run_id := ['s']

def fullSteps : List (ℕ × BudgetInput) :=
  [(0,.run (.start [['u']])),(0,.run (.propose newProposal)),(0,.run .reply),(0,.run .finish)]

theorem budget_within_sample : ∃ h w', Run (budgetSystem oneConf) oneWorld h w' ∧
    Visits (fun w => Within oneConf w.shared) h w' := by
  have hr := run_of_replay (i:=Initial oneConf) (f:=Interleave.step (budgetProgram oneConf))
    (l:=fullSteps) (.refl (s:=oneWorld)) rfl
  refine ⟨_,_,hr,(budget_within_iff hr oneWorld_initial).2 ?_⟩
  simp only [meets_cons,meets_nil,and_true]
  exact ⟨trivial,trivial,trivial,trivial⟩

/-- The candidate is rejected during a run, and approved again when the run has put another one
in its place. -/
def revivalSteps : List (ℕ × BudgetInput) :=
  [(0,.run (.start [['u']])),
    (1,.review (some ⟨['i'],some 0,.reject⟩)),(1,.review none),(1,.review none),
    (0,.run (.propose newProposal)),(0,.run .reply),(0,.run .reply),
    (2,.review (some ⟨['i'],some 0,.approve⟩)),(2,.review none),(2,.review none),(2,.review none)]

theorem revival_exceeds_limit : ¬ ∀ (conf : MetagenConf) (w w' : World BudgetState Proc)
    (h : List (World BudgetState Proc × (ℕ × BudgetInput))), 1 ≤ conf.result_limit →
      Initial conf w → Run (budgetSystem conf) w h w' → Within conf w'.shared := by
  intro hall
  have hr := run_of_replay (i:=Initial oneConf) (f:=Interleave.step (budgetProgram oneConf))
    (l:=revivalSteps) (.refl (s:=oneWorld)) rfl
  have hcount := hall _ _ _ _ le_rfl oneWorld_initial hr ['u'] ['i']
  exact absurd hcount (by decide)

end Metagen
end Dataspoke
