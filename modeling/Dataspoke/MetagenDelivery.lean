import Dataspoke.MetagenReview

/-!
# Delivery of reviews to DataHub

A run of interleaved reviews leaves every description as the last committed review of its
item wants it, as long as each commit acts on the approval it read, each write to DataHub
comes before that of a later commit, and no write takes back a field written meanwhile.
-/

namespace Dataspoke
namespace Metagen

open Python Interleave Transition

section Outline

variable (urn : Str)

structure Approved (candidates : Table MetagenCandidate.candidate_id) (item_id : Str)
    (c : MetagenCandidate) : Prop where
  row : c ∈ candidates.rows
  dataset_urn : c.dataset_urn = urn
  item_id : c.item_id = item_id
  status : c.status = .approved

def HasCandidate (candidates : Table MetagenCandidate.candidate_id) (item_id : Str) : Prop :=
  ∃ c ∈ candidates.rows.map frozen, c.dataset_urn = urn ∧ c.item_id = item_id

/-- The description in DataHub is the one of the approved candidate, and none where the
approved candidate was rejected last. -/
structure Consistent (s : Shared) (item_id : Str) (target : Target) : Prop where
  approved : ∀ c, Approved urn s.db.candidates item_id c → s.datahub.describe target = some c.value
  withdrawn : s.withdrawn item_id = true → s.datahub.describe target = none

def InDataHub (s : Shared) : Prop :=
  ∀ item_id target, targetOf item_id = some target → Consistent urn s item_id target

/-- No two items with candidates are about one description. -/
def DistinctTargets (s : Shared) : Prop :=
  ∀ a b target, HasCandidate urn s.db.candidates a → HasCandidate urn s.db.candidates b →
    targetOf a = some target → targetOf b = some target → a = b

structure Inv (s : Shared) : Prop where
  one_approved : ∀ item_id c c', Approved urn s.db.candidates item_id c →
    Approved urn s.db.candidates item_id c' → c = c'
  distinct : DistinctTargets urn s
  withdrawn : ∀ item_id, s.withdrawn item_id = true → (targetOf item_id).isSome ∧
    HasCandidate urn s.db.candidates item_id ∧ ∀ c, ¬ Approved urn s.db.candidates item_id c
  settled : ∀ item_id target, targetOf item_id = some target → s.owes item_id = none →
    Consistent urn s item_id target

/-- A row read earlier is there but for its status. -/
def Loaded (s : Shared) (cand : MetagenCandidate) : Prop :=
  frozen cand ∈ s.db.candidates.rows.map frozen ∧ cand.dataset_urn = urn

/-- A commit of request `i` is on its way to DataHub; as long as it is the last one on its
item, its value is what the item's approval asks for. -/
structure Due (i : ℕ) (s : Shared) (job : Job) : Prop where
  target : targetOf job.item_id = some job.target
  candidate : HasCandidate urn s.db.candidates job.item_id
  owes : ∀ item_id, s.owes item_id = some i → item_id = job.item_id
  approved : s.owes job.item_id = some i →
    ∀ c, Approved urn s.db.candidates job.item_id c → job.value = some c.value
  withdrawn : s.owes job.item_id = some i → s.withdrawn job.item_id = true → job.value = none

def OwesNothing (i : ℕ) (s : Shared) : Prop := ∀ item_id, s.owes item_id ≠ some i

def Assert (i : ℕ) (s : Shared) : Phase → Prop
  | .idle | .load_candidate _ | .done _ => OwesNothing i s
  | .load_sibling cand | .commit _ cand _ => OwesNothing i s ∧ Loaded urn s cand
  | .get_aspect job => Due urn i s job
  | .emit_properties job existing => Due urn i s job ∧ job.target = .dataset ∧
      (nextProperties job.value existing).isSome
  | .emit_schema job field_path existing => Due urn i s job ∧ job.target = .field field_path ∧
      (nextSchema field_path job.value existing).isSome

/-- What the other requests see of a step of request `i`. -/
structure Rely (i : ℕ) (s s' : Shared) : Prop where
  rows : s'.db.candidates.rows.map frozen = s.db.candidates.rows.map frozen
  owes : ∀ item_id j, j ≠ i → s'.owes item_id = some j → s.owes item_id = some j
  approval : ∀ item_id j, j ≠ i → s'.owes item_id = some j → (targetOf item_id).isSome →
    (∀ c, Approved urn s'.db.candidates item_id c → Approved urn s.db.candidates item_id c) ∧
      (s'.withdrawn item_id = true → s.withdrawn item_id = true)

variable {urn} {i j : ℕ} {s s' : Shared}

theorem Rely.refl : Rely urn i s s := ⟨rfl,fun _ _ _ h => h,fun _ _ _ _ _ => ⟨fun _ h => h,fun h => h⟩⟩

theorem HasCandidate.of_rows {t t' : Table MetagenCandidate.candidate_id} {item_id : Str}
    (h : t'.rows.map frozen = t.rows.map frozen) :
    HasCandidate urn t' item_id ↔ HasCandidate urn t item_id := by
  unfold HasCandidate
  rw [h]

theorem Loaded.of_rows {cand : MetagenCandidate} (hl : Loaded urn s cand)
    (h : s'.db.candidates.rows.map frozen = s.db.candidates.rows.map frozen) :
    Loaded urn s' cand := by
  unfold Loaded
  rw [h]
  exact hl

theorem Loaded.hasCandidate {cand : MetagenCandidate} (hl : Loaded urn s cand) :
    HasCandidate urn s.db.candidates cand.item_id :=
  ⟨frozen cand,hl.1,hl.2,rfl⟩

theorem Loaded.of_mem {cand : MetagenCandidate} (h : cand ∈ s.db.candidates.rows)
    (hu : cand.dataset_urn = urn) : Loaded urn s cand :=
  ⟨List.mem_map_of_mem h,hu⟩

theorem Rely.owesNothing (hr : Rely urn i s s') (hij : i ≠ j) (h : OwesNothing j s) :
    OwesNothing j s' :=
  fun item_id ho => h item_id (hr.owes item_id j (Ne.symm hij) ho)

theorem Rely.due {job : Job} (hr : Rely urn i s s') (hij : i ≠ j) (h : Due urn j s job) :
    Due urn j s' job := by
  have howes := fun item_id => hr.owes item_id j (Ne.symm hij)
  have happ := fun ho => hr.approval job.item_id j (Ne.symm hij) ho (by rw [h.target]; rfl)
  exact ⟨h.target,(HasCandidate.of_rows hr.rows).mpr h.candidate,
    fun item_id ho => h.owes item_id (howes item_id ho),
    fun ho c hc => h.approved (howes _ ho) c ((happ ho).1 c hc),
    fun ho hw => h.withdrawn (howes _ ho) ((happ ho).2 hw)⟩

/-- The assertion of a request survives the steps of the others. -/
theorem assert_stable {p : Phase} (hij : i ≠ j) (h : Assert urn j s p)
    (hr : Rely urn i s s') : Assert urn j s' p := by
  cases p with
  | idle => exact hr.owesNothing hij h
  | load_candidate req => exact hr.owesNothing hij h
  | done result => exact hr.owesNothing hij h
  | load_sibling cand => exact ⟨hr.owesNothing hij h.1,h.2.of_rows hr.rows⟩
  | commit verdict cand sibling => exact ⟨hr.owesNothing hij h.1,h.2.of_rows hr.rows⟩
  | get_aspect job => exact hr.due hij h
  | emit_properties job existing => exact ⟨hr.due hij h.1,h.2⟩
  | emit_schema job field_path existing => exact ⟨hr.due hij h.1,h.2⟩

end Outline

section Commits

variable {urn : Str} {i : ℕ} {s : Shared} {cand : MetagenCandidate}
  {candidates : Table MetagenCandidate.candidate_id}

/-- The approvals after a commit of `cand` are those of other items as before, and no row
of its item but perhaps its own. -/
structure CommitOf (s : Shared) (cand : MetagenCandidate)
    (candidates : Table MetagenCandidate.candidate_id) : Prop where
  rows : candidates.rows.map frozen = s.db.candidates.rows.map frozen
  others : ∀ c ∈ candidates.rows, c.status = .approved →
    c.dataset_urn = cand.dataset_urn → c.item_id ≠ cand.item_id → c ∈ s.db.candidates.rows
  own : ∀ c ∈ candidates.rows, c.status = .approved →
    c.dataset_urn = cand.dataset_urn → c.item_id = cand.item_id →
    c.candidate_id = cand.candidate_id

/-- Whether a request acts on the approval it read: an approved row is still approved, and
for a reject a row that was not yet reviewed has not been approved since. -/
def Fresh (s : Shared) (cand : MetagenCandidate) : Verdict → Prop
  | .approve => cand.status = .approved →
      approvedNow s.db.candidates cand.candidate_id = true
  | .reject => cand.status ≠ .rejected →
      (cand.status = .approved ↔ approvedNow s.db.candidates cand.candidate_id = true)

section Owing

variable {withdrawn : Bool} (hl : Loaded urn s cand) (hc : CommitOf s cand candidates)
include hl hc

theorem CommitOf.other {item_id : Str} {c : MetagenCandidate} (hne : item_id ≠ cand.item_id)
    (h : Approved urn candidates item_id c) : Approved urn s.db.candidates item_id c := by
  have hi : c.item_id ≠ cand.item_id := by
    rw [h.item_id]
    exact hne
  exact ⟨hc.others c h.row h.status (h.dataset_urn.trans hl.2.symm) hi,h.dataset_urn,h.item_id,
    h.status⟩

theorem CommitOf.one_approved (hi : Inv urn s) {item_id : Str} {c c' : MetagenCandidate}
    (h : Approved urn candidates item_id c) (h' : Approved urn candidates item_id c') :
    c = c' := by
  by_cases hne : item_id = cand.item_id
  · subst hne
    have hid := hc.own c h.row h.status (h.dataset_urn.trans hl.2.symm) h.item_id
    have hid' := hc.own c' h'.row h'.status (h'.dataset_urn.trans hl.2.symm) h'.item_id
    exact Table.eq_of_key_eq h.row h'.row (hid.trans hid'.symm)
  · exact hi.one_approved item_id c c' (hc.other hl hne h) (hc.other hl hne h')

/-- A commit keeps the invariant if it owes what its item's approval has become. -/
theorem Inv.owe (hi : Inv urn s) (ht : (targetOf cand.item_id).isSome)
    (hw : withdrawn = true → ∀ c, ¬ Approved urn candidates cand.item_id c) :
    Inv urn ((s.setCandidates candidates).owe i cand.item_id withdrawn) := by
  have hcand := fun item_id => @HasCandidate.of_rows urn _ _ item_id hc.rows
  refine ⟨fun item_id c c' h h' => hc.one_approved hl hi h h',fun a b target ha hb => ?_,
    fun item_id h => ?_,fun item_id target ht ho => ?_⟩
  · exact hi.distinct a b target ((hcand a).mp ha) ((hcand b).mp hb)
  · by_cases hne : item_id = cand.item_id
    · subst hne
      have hw' : withdrawn = true := by simpa [Shared.owe] using h
      exact ⟨ht,(hcand _).mpr hl.hasCandidate,hw hw'⟩
    · have hs : s.withdrawn item_id = true := by
        simpa [Shared.owe,Shared.setCandidates,hne] using h
      obtain ⟨ht,hh,hA⟩ := hi.withdrawn item_id hs
      exact ⟨ht,(hcand _).mpr hh,fun c h => hA c (hc.other hl hne h)⟩
  · by_cases hne : item_id = cand.item_id
    · subst hne
      simp [Shared.owe] at ho
    · have hs : s.owes item_id = none := by
        simpa [Shared.owe,Shared.setCandidates,hne] using ho
      have hcons := hi.settled item_id target ht hs
      refine ⟨fun c hA => hcons.approved c (hc.other hl hne hA),fun hA => hcons.withdrawn ?_⟩
      simpa [Shared.owe,Shared.setCandidates,hne] using hA

/-- To the other requests a commit shows on its own item only, which it then owes. -/
theorem Rely.owe : Rely urn i s ((s.setCandidates candidates).owe i cand.item_id withdrawn) := by
  refine ⟨hc.rows,fun item_id j hj ho => ?_,fun item_id j hj ho _ => ?_⟩
  · by_cases hne : item_id = cand.item_id
    · subst hne
      simp [Shared.owe,Ne.symm hj] at ho
    · simpa [Shared.owe,Shared.setCandidates,hne] using ho
  · by_cases hne : item_id = cand.item_id
    · subst hne
      simp [Shared.owe,Ne.symm hj] at ho
    · refine ⟨fun c h => hc.other hl hne h,fun h => ?_⟩
      simpa [Shared.owe,Shared.setCandidates,hne] using h

theorem Due.owe {target : Target} {value : Option Str} (hn : OwesNothing i s)
    (ht : targetOf cand.item_id = some target)
    (ha : ∀ c, Approved urn candidates cand.item_id c → value = some c.value)
    (hw : withdrawn = true → value = none) :
    Due urn i ((s.setCandidates candidates).owe i cand.item_id withdrawn)
      ⟨cand.item_id,target,value⟩ := by
  refine ⟨ht,(HasCandidate.of_rows hc.rows).mpr hl.hasCandidate,fun item_id ho => ?_,
    fun _ c h => ha c h,fun _ h => hw ?_⟩
  · by_contra hne
    exact hn item_id (by simpa [Shared.owe,Shared.setCandidates,hne] using ho)
  · simpa [Shared.owe] using h

end Owing

section Silent

-- A commit that owes nothing: of the items with a description, it approves none.
variable (hr : candidates.rows.map frozen = s.db.candidates.rows.map frozen)
  (hsub : ∀ item_id c, Approved urn candidates item_id c → (targetOf item_id).isSome →
    Approved urn s.db.candidates item_id c)
include hr hsub

theorem Inv.setCandidates (hi : Inv urn s)
    (hone : ∀ item_id c c', Approved urn candidates item_id c →
      Approved urn candidates item_id c' → c = c') :
    Inv urn (s.setCandidates candidates) := by
  have hcand := fun item_id => @HasCandidate.of_rows urn _ _ item_id hr
  refine ⟨hone,fun a b target ha hb => ?_,fun item_id h => ?_,fun item_id target ht ho => ?_⟩
  · exact hi.distinct a b target ((hcand a).mp ha) ((hcand b).mp hb)
  · obtain ⟨ht,hh,hA⟩ := hi.withdrawn item_id h
    exact ⟨ht,(hcand _).mpr hh,fun c h => hA c (hsub item_id c h ht)⟩
  · have hcons := hi.settled item_id target ht ho
    exact ⟨fun c h => hcons.approved c (hsub item_id c h (by rw [ht]; rfl)),hcons.withdrawn⟩

theorem Rely.setCandidates : Rely urn i s (s.setCandidates candidates) :=
  ⟨hr,fun _ _ _ h => h,fun item_id _ _ _ ht => ⟨fun c h => hsub item_id c h ht,fun h => h⟩⟩

end Silent

end Commits

section Steps

variable {urn : Str} {i : ℕ} {s : Shared} {cand : MetagenCandidate}

theorem Loaded.eq_of_id {t : Table MetagenCandidate.candidate_id} {c : MetagenCandidate}
    (hl : Loaded urn s cand) (hr : t.rows.map frozen = s.db.candidates.rows.map frozen)
    (hc : c ∈ t.rows) (hid : c.candidate_id = cand.candidate_id) : frozen c = frozen cand :=
  frozen_eq hc (by rw [hr]; exact hl.1) hid

/-- The row that a request read as approved and that still is. -/
theorem Loaded.approved (hl : Loaded urn s cand)
    (hn : approvedNow s.db.candidates cand.candidate_id = true) :
    ∃ c, Approved urn s.db.candidates cand.item_id c ∧ c.candidate_id = cand.candidate_id := by
  obtain ⟨c,hc,hid,hstatus⟩ := approvedNow_eq.mp hn
  have he : frozen c = frozen cand := hl.eq_of_id rfl hc hid
  have hurn : (frozen c).dataset_urn = (frozen cand).dataset_urn := by rw [he]
  have hitem : (frozen c).item_id = (frozen cand).item_id := by rw [he]
  exact ⟨c,⟨hc,hurn.trans hl.2,hitem,hstatus⟩,hid⟩

theorem commitOf_approve (hi : Inv urn s) (hl : Loaded urn s cand)
    (hf : Fresh s cand .approve) {sibling : Option MetagenCandidate}
    (hno : cand.status ≠ .approved →
      conflicts (assign (demote s.db.candidates sibling) cand .approved) cand = false) :
    CommitOf s cand (assign (demote s.db.candidates sibling) cand .approved) := by
  have hr := (@assign_frozen (demote s.db.candidates sibling) cand .approved).trans demote_frozen
  refine ⟨hr,fun c hc hstatus _ hitem => ?_,fun c hc hstatus hurn hitem => ?_⟩
  · rcases mem_assign hc with h | h
    · exact mem_demote h hstatus
    · have he : (frozen c).item_id = (frozen cand).item_id := by rw [hl.eq_of_id hr hc h.1]
      exact absurd he hitem
  · by_cases hread : cand.status = .approved
    · have hc' : c ∈ s.db.candidates.rows := by
        rw [assign,if_pos hread] at hc
        exact mem_demote hc hstatus
      obtain ⟨c₀,hA,hid⟩ := hl.approved (hf hread)
      have := hi.one_approved _ c c₀ ⟨hc',hurn.trans hl.2,hitem,hstatus⟩ hA
      rw [this]
      exact hid
    · have := hno hread
      simp only [conflicts,List.any_eq_false] at this
      simpa [hurn,hitem,hstatus] using this c hc

theorem approve_outline (hi : Inv urn s) (hn : OwesNothing i s) (hl : Loaded urn s cand)
    (hf : Fresh s cand .approve) (sibling : Option MetagenCandidate) :
    Inv urn (approve i cand sibling s).1 ∧
      Assert urn i (approve i cand sibling s).1 (approve i cand sibling s).2 ∧
      Rely urn i s (approve i cand sibling s).1 := by
  unfold approve
  dsimp only
  split
  · exact ⟨hi,hn,.refl⟩
  rename_i hno
  have hc := commitOf_approve hi hl hf (by simpa using hno)
  split
  · rename_i ht
    have hsub : ∀ item_id c, Approved urn
        (assign (demote s.db.candidates sibling) cand .approved) item_id c →
        (targetOf item_id).isSome → Approved urn s.db.candidates item_id c := by
      intro item_id c h hsome
      refine hc.other hl (fun he => ?_) h
      rw [he,ht] at hsome
      cases hsome
    exact ⟨hi.setCandidates hc.rows hsub fun _ _ _ h h' => hc.one_approved hl hi h h',hn,
      .setCandidates hc.rows hsub⟩
  · rename_i target ht
    refine ⟨hi.owe hl hc (by rw [ht]; rfl) (fun h => by cases h),
      Due.owe hl hc hn ht (fun c h => ?_) (fun h => by cases h),.owe hl hc⟩
    have hid := hc.own c h.row h.status (h.dataset_urn.trans hl.2.symm) h.item_id
    have he : (frozen c).value = (frozen cand).value := by
      rw [hl.eq_of_id hc.rows h.row hid]
    exact congrArg some he.symm

/-- A reject approves nothing. -/
theorem approved_of_reject {item_id : Str} {c : MetagenCandidate}
    (h : Approved urn (assign s.db.candidates cand .rejected) item_id c) :
    Approved urn s.db.candidates item_id c := by
  rcases mem_assign h.row with hc | hc
  · exact ⟨hc,h.dataset_urn,h.item_id,h.status⟩
  · rw [h.status] at hc
    cases hc.2

/-- It leaves its item without approved candidate, if it rejects the approved one. -/
theorem not_approved_of_reject (hi : Inv urn s) (hl : Loaded urn s cand)
    (hread : cand.status = .approved)
    (hnow : approvedNow s.db.candidates cand.candidate_id = true) (c : MetagenCandidate) :
    ¬ Approved urn (assign s.db.candidates cand .rejected) cand.item_id c := by
  intro h
  obtain ⟨c₀,hA,hid⟩ := hl.approved hnow
  have hc := h.row
  rw [assign,if_neg (by rw [hread]; decide)] at hc
  rcases mem_setStatus hc with hne | hrej
  · have := hi.one_approved _ c c₀ (approved_of_reject h) hA
    rw [this] at hne
    exact hne.2 hid
  · rw [h.status] at hrej
    cases hrej.2

theorem reject_outline (hi : Inv urn s) (hn : OwesNothing i s) (hl : Loaded urn s cand)
    (hf : Fresh s cand .reject) :
    Inv urn (reject i cand s).1 ∧ Assert urn i (reject i cand s).1 (reject i cand s).2 ∧
      Rely urn i s (reject i cand s).1 := by
  have hr := @assign_frozen s.db.candidates cand .rejected
  have hsub : ∀ item_id c, Approved urn (assign s.db.candidates cand .rejected) item_id c →
      (targetOf item_id).isSome → Approved urn s.db.candidates item_id c :=
    fun _ _ h _ => approved_of_reject h
  have hone : ∀ item_id c c', Approved urn (assign s.db.candidates cand .rejected) item_id c →
      Approved urn (assign s.db.candidates cand .rejected) item_id c' → c = c' :=
    fun _ _ _ h h' => hi.one_approved _ _ _ (approved_of_reject h) (approved_of_reject h')
  unfold reject
  dsimp only
  by_cases hread : cand.status = .approved
  · have hnow := (hf (by rw [hread]; decide)).mp hread
    have hnone := not_approved_of_reject hi hl hread hnow
    rw [if_pos hread]
    split
    · exact ⟨hi.setCandidates hr hsub hone,hn,.setCandidates hr hsub⟩
    · rename_i target ht
      have hc : CommitOf s cand (assign s.db.candidates cand .rejected) :=
        ⟨hr,fun c hc hstatus hurn _ => (approved_of_reject
            ⟨hc,hurn.trans hl.2,rfl,hstatus⟩).row,
          fun c hc hstatus hurn hitem => absurd ⟨hc,hurn.trans hl.2,hitem,hstatus⟩ (hnone c)⟩
      exact ⟨hi.owe hl hc (by rw [ht]; rfl) fun _ => hnone,
        Due.owe hl hc hn ht (fun c h => absurd h (hnone c)) fun _ => rfl,.owe hl hc⟩
  · have hw : (decide (cand.status ≠ .rejected) &&
        approvedNow s.db.candidates cand.candidate_id) = false := by
      by_cases hrej : cand.status = .rejected
      · simp [hrej]
      · have := mt (hf hrej).mpr hread
        simpa using fun _ => this
    rw [if_neg hread,hw]
    exact ⟨hi.setCandidates hr hsub hone,hn,.setCandidates hr hsub⟩

theorem settle_owes_of_ne {s : Shared} {i : ℕ} {item_id other : Str} {datahub : DataHub}
    (h : other ≠ item_id) : (s.settle i item_id datahub).owes other = s.owes other := by
  unfold Shared.settle
  dsimp only
  split
  · rw [Function.update_of_ne h]
  · rfl

/-- A write that sets its own description and no other, while the last commit on the item
has yet to be written. -/
theorem settle_outline {job : Job} {datahub : DataHub} (hi : Inv urn s) (hd : Due urn i s job)
    (ho : s.owes job.item_id ≠ none) (hset : datahub.describe job.target = job.value)
    (hkeep : ∀ target, target ≠ job.target →
      datahub.describe target = s.datahub.describe target) :
    Inv urn (s.settle i job.item_id datahub) ∧
      OwesNothing i (s.settle i job.item_id datahub) ∧
      Rely urn i s (s.settle i job.item_id datahub) := by
  have hself : (s.settle i job.item_id datahub).owes job.item_id ≠ some i ∧
      (s.owes job.item_id ≠ some i →
        (s.settle i job.item_id datahub).owes job.item_id ≠ none) := by
    by_cases h : s.owes job.item_id = some i
    · simp [Shared.settle,h]
    · simp [Shared.settle,h,ho]
  refine ⟨⟨hi.one_approved,hi.distinct,hi.withdrawn,fun item_id target ht hnone => ?_⟩,
    fun item_id h => ?_,rfl,fun item_id j hj h => ?_,fun _ _ _ _ _ => ⟨fun _ h => h,fun h => h⟩⟩
  · by_cases hne : item_id = job.item_id
    · subst hne
      have hlast : s.owes job.item_id = some i := by
        by_contra hlast
        exact hself.2 hlast hnone
      have htarget : target = job.target := Option.some.inj (ht.symm.trans hd.target)
      subst htarget
      exact ⟨fun c h => hset.trans (hd.approved hlast c h),
        fun h => hset.trans (hd.withdrawn hlast h)⟩
    · rw [settle_owes_of_ne hne] at hnone
      have hcons := hi.settled item_id target ht hnone
      have hdesc : HasCandidate urn s.db.candidates item_id →
          datahub.describe target = s.datahub.describe target := by
        intro hcand
        apply hkeep
        rintro rfl
        exact hne (hi.distinct _ _ _ hcand hd.candidate ht hd.target)
      refine ⟨fun c h => ?_,fun h => ?_⟩
      · have hcand : HasCandidate urn s.db.candidates item_id :=
          ⟨frozen c,List.mem_map_of_mem h.row,h.dataset_urn,h.item_id⟩
        exact (hdesc hcand).trans (hcons.approved c h)
      · exact (hdesc (hi.withdrawn item_id h).2.1).trans (hcons.withdrawn h)
  · by_cases hne : item_id = job.item_id
    · subst hne
      exact hself.1 h
    · rw [settle_owes_of_ne hne] at h
      exact hne (hd.owes item_id h)
  · by_cases hne : item_id = job.item_id
    · subst hne
      by_cases hlast : s.owes job.item_id = some i
      · simp [Shared.settle,hlast] at h
      · simpa [Shared.settle,hlast] using h
    · rwa [settle_owes_of_ne hne] at h

end Steps

section Runs

variable (urn : Str)

/-- The request finds no description to clear. -/
def NothingToWrite (datahub : DataHub) (job : Job) : Prop :=
  match job.target with
  | .dataset => nextProperties job.value datahub.properties = none
  | .field field_path => nextSchema field_path job.value datahub.schema = none

/-- The steps that deliver a review: a commit acts on the approval that was read, a write
is not behind that of a later commit on its item, and a schema is written back only where
no other field has changed since it was read. -/
def Delivers (_ : ℕ) (_ : Option ReviewRequest) (s : Shared) : Phase → Prop
  | .commit verdict cand _ => Fresh s cand verdict
  | .get_aspect job => NothingToWrite s.datahub job → s.owes job.item_id ≠ none
  | .emit_properties job _ => s.owes job.item_id ≠ none
  | .emit_schema job field_path existing => s.owes job.item_id ≠ none ∧
      ∀ path, path ≠ field_path →
        schemaDescription existing path = schemaDescription s.datahub.schema path
  | _ => True

/-- The item a request is about, once it has read its candidate. -/
def Phase.item_id : Phase → Option Str
  | .load_sibling cand | .commit _ cand _ => some cand.item_id
  | .get_aspect job | .emit_properties job _ | .emit_schema job _ _ => some job.item_id
  | .idle | .load_candidate _ | .done _ => none

/-- A request leaves the descriptions of the other items alone. -/
def KeepsOthers (w : World Shared Phase) (l : ℕ × Option ReviewRequest) : Prop :=
  ∀ w', step (review_candidate urn) w l = some w' → ∀ item_id target,
    HasCandidate urn w.shared.db.candidates item_id → targetOf item_id = some target →
    (w.proc l.1).item_id ≠ some item_id →
    w'.shared.datahub.describe target = w.shared.datahub.describe target

/-- No request has been made yet, DataHub agrees with the approvals, and the index on them
holds. -/
structure Init (w : World Shared Phase) : Prop where
  idle : ∀ i, w.proc i = .idle
  owes : ∀ item_id, w.shared.owes item_id = none
  withdrawn : ∀ item_id, w.shared.withdrawn item_id = false
  one_approved : ∀ item_id c c', Approved urn w.shared.db.candidates item_id c →
    Approved urn w.shared.db.candidates item_id c' → c = c'
  distinct : DistinctTargets urn w.shared
  in_datahub : InDataHub urn w.shared

/-- Every request made has finished. -/
def Quiescent (w : World Shared Phase) : Prop :=
  ∀ i, match w.proc i with | .idle | .done _ => True | _ => False

variable {urn} {i : ℕ} {a : Option ReviewRequest} {s s' : Shared} {p p' : Phase}

theorem Init.holds {w : World Shared Phase} (h : Init urn w) :
    Holds (Inv urn) (Assert urn) w := by
  refine ⟨⟨h.one_approved,h.distinct,fun item_id hw => ?_,
    fun item_id target ht _ => h.in_datahub item_id target ht⟩,fun i => ?_⟩
  · rw [h.withdrawn] at hw
    cases hw
  · rw [h.idle]
    intro item_id ho
    rw [h.owes] at ho
    cases ho

theorem start_outline (req : ReviewRequest) (h : OwesNothing i s) :
    Assert urn i s (start urn req s) := by
  unfold start
  dsimp only
  split
  · exact h
  · split
    · exact h
    · exact h

theorem load_candidate_outline (req : ReviewRequest) (h : OwesNothing i s) :
    Assert urn i s (load_candidate urn req s) := by
  unfold load_candidate
  split
  · exact h
  rename_i cand hcand
  have hurn : cand.dataset_urn = urn := by
    have := List.find?_some hcand
    simp only [Bool.and_eq_true,decide_eq_true_eq] at this
    exact this.1.2
  have hl : Loaded urn s cand := .of_mem (List.mem_of_find?_eq_some hcand) hurn
  split
  · exact ⟨h,hl⟩
  · exact ⟨h,hl⟩

theorem load_sibling_outline {cand : MetagenCandidate} (h : OwesNothing i s)
    (hl : Loaded urn s cand) : Assert urn i s (load_sibling urn cand s) := by
  unfold load_sibling
  split
  · exact ⟨h,hl⟩
  · exact ⟨h,hl⟩
  · exact h

/-- Reading the aspect: the request goes on to write it back, or has nothing to clear. -/
theorem get_aspect_outline {job : Job} (hi : Inv urn s) (hd : Due urn i s job)
    (hg : NothingToWrite s.datahub job → s.owes job.item_id ≠ none) :
    Inv urn (get_aspect i job s).1 ∧
      Assert urn i (get_aspect i job s).1 (get_aspect i job s).2 ∧
      Rely urn i s (get_aspect i job s).1 := by
  unfold NothingToWrite at hg
  unfold get_aspect
  dsimp only
  cases hj : job.target with
  | dataset =>
    rw [hj] at hg
    dsimp only at hg ⊢
    cases hnext : nextProperties job.value s.datahub.properties with
    | none =>
      refine settle_outline hi hd (hg hnext) ?_ fun _ _ => rfl
      rw [hj,DataHub.describe,(nextProperties_eq_none hnext).1,(nextProperties_eq_none hnext).2]
      rfl
    | some p => exact ⟨hi,⟨hd,hj,by rw [hnext]; rfl⟩,.refl⟩
  | field field_path =>
    rw [hj] at hg
    dsimp only at hg ⊢
    cases hnext : nextSchema field_path job.value s.datahub.schema with
    | none =>
      refine settle_outline hi hd (hg hnext) ?_ fun _ _ => rfl
      rw [hj,DataHub.describe,(nextSchema_eq_none hnext).1,(nextSchema_eq_none hnext).2]
    | some infos => exact ⟨hi,⟨hd,hj,by rw [hnext]; rfl⟩,.refl⟩

/-- Writing the properties back sets the description of the dataset. -/
theorem properties_describe {job : Job} {existing : Option EditableDatasetProperties}
    (datahub : DataHub) (hj : job.target = .dataset)
    (hsome : (nextProperties job.value existing).isSome) (target : Target) :
    ({ datahub with properties := nextProperties job.value existing } : DataHub).describe target =
      if target = job.target then job.value else datahub.describe target := by
  obtain ⟨p,hnext⟩ := Option.isSome_iff_exists.mp hsome
  rw [hj]
  cases target with
  | dataset => simp [DataHub.describe,hnext,nextProperties_description hnext]
  | field path => rfl

/-- Writing the schema back sets the description of the field, and those of the others to
what they were when it was read. -/
theorem schema_describe {job : Job} {field_path : Str}
    {existing : Option (List EditableSchemaFieldInfo)} (datahub : DataHub)
    (hj : job.target = .field field_path)
    (hsome : (nextSchema field_path job.value existing).isSome)
    (hread : ∀ path, path ≠ field_path →
      schemaDescription existing path = schemaDescription datahub.schema path)
    (target : Target) :
    ({ datahub with schema := nextSchema field_path job.value existing } : DataHub).describe
        target = if target = job.target then job.value else datahub.describe target := by
  obtain ⟨infos,hnext⟩ := Option.isSome_iff_exists.mp hsome
  rw [hj]
  cases target with
  | dataset => rfl
  | field path =>
    by_cases hp : path = field_path
    · simp [DataHub.describe,schemaDescription,hnext,nextSchema_describe hnext,hp]
    · have hdesc : schemaDescription (some infos) path = schemaDescription existing path := by
        simp [schemaDescription,nextSchema_describe hnext,hp]
      simp [DataHub.describe,hnext,hdesc,hp,hread path hp]

theorem emit_outline {job : Job} {datahub : DataHub} (hi : Inv urn s) (hd : Due urn i s job)
    (ho : s.owes job.item_id ≠ none)
    (hdesc : ∀ target, datahub.describe target =
      if target = job.target then job.value else s.datahub.describe target) :
    Inv urn (emit_aspect i job datahub s).1 ∧
      Assert urn i (emit_aspect i job datahub s).1 (emit_aspect i job datahub s).2 ∧
      Rely urn i s (emit_aspect i job datahub s).1 :=
  settle_outline hi hd ho (by simp [hdesc]) fun target ht => by simp [hdesc,ht]

theorem review_candidate_outline (hi : Inv urn s) (h : Assert urn i s p)
    (hg : Delivers i a s p) (hs : review_candidate urn i a s p = some (s',p')) :
    Inv urn s' ∧ Assert urn i s' p' ∧ Rely urn i s s' := by
  cases p with
  | idle =>
    obtain ⟨req,_,he⟩ := Option.map_eq_some_iff.mp hs
    cases he
    exact ⟨hi,start_outline req h,.refl⟩
  | load_candidate req =>
    cases hs
    exact ⟨hi,load_candidate_outline req h,.refl⟩
  | load_sibling cand =>
    cases hs
    exact ⟨hi,load_sibling_outline h.1 h.2,.refl⟩
  | commit verdict cand sibling =>
    cases verdict with
    | approve =>
      have he : approve i cand sibling s = (s',p') := Option.some.inj hs
      simpa only [he] using approve_outline hi h.1 h.2 hg sibling
    | reject =>
      have he : reject i cand s = (s',p') := Option.some.inj hs
      simpa only [he] using reject_outline hi h.1 h.2 hg
  | get_aspect job =>
    have he : get_aspect i job s = (s',p') := Option.some.inj hs
    simpa only [he] using get_aspect_outline hi h hg
  | emit_properties job existing =>
    cases hs
    exact emit_outline hi h.1 hg (properties_describe _ h.2.1 h.2.2)
  | emit_schema job field_path existing =>
    cases hs
    exact emit_outline hi h.1 hg.1 (schema_describe _ h.2.1 h.2.2 hg.2)
  | done result => cases hs

theorem approve_datahub (cand : MetagenCandidate) (sibling : Option MetagenCandidate) :
    (approve i cand sibling s).1.datahub = s.datahub := by
  unfold approve
  dsimp only
  split
  · rfl
  · split <;> rfl

theorem reject_datahub (cand : MetagenCandidate) :
    (reject i cand s).1.datahub = s.datahub := by
  unfold reject
  dsimp only
  split
  · split <;> rfl
  · split <;> rfl

theorem get_aspect_datahub (job : Job) : (get_aspect i job s).1.datahub = s.datahub := by
  unfold get_aspect
  dsimp only
  split
  · split <;> rfl
  · split <;> rfl

/-- Only the writes change DataHub, and each of them changes the description of its item. -/
theorem describe_of_step (h : Assert urn i s p) (hg : Delivers i a s p)
    (hs : review_candidate urn i a s p = some (s',p')) :
    (∀ target, s'.datahub.describe target = s.datahub.describe target) ∨
      ∃ job, p.item_id = some job.item_id ∧ Due urn i s job ∧
        ∀ target, target ≠ job.target →
          s'.datahub.describe target = s.datahub.describe target := by
  cases p with
  | idle =>
    obtain ⟨req,_,he⟩ := Option.map_eq_some_iff.mp hs
    cases he
    exact .inl fun _ => rfl
  | load_candidate req =>
    cases hs
    exact .inl fun _ => rfl
  | load_sibling cand =>
    cases hs
    exact .inl fun _ => rfl
  | commit verdict cand sibling =>
    refine .inl fun target => ?_
    cases verdict with
    | approve =>
      have he : approve i cand sibling s = (s',p') := Option.some.inj hs
      rw [← approve_datahub (i:=i) (s:=s) cand sibling,he]
    | reject =>
      have he : reject i cand s = (s',p') := Option.some.inj hs
      rw [← reject_datahub (i:=i) (s:=s) cand,he]
  | get_aspect job =>
    have he : get_aspect i job s = (s',p') := Option.some.inj hs
    exact .inl fun target => by rw [← get_aspect_datahub (i:=i) (s:=s) job,he]
  | emit_properties job existing =>
    cases hs
    refine .inr ⟨job,rfl,h.1,fun target ht => ?_⟩
    exact (properties_describe s.datahub h.2.1 h.2.2 target).trans (if_neg ht)
  | emit_schema job field_path existing =>
    cases hs
    refine .inr ⟨job,rfl,h.1,fun target ht => ?_⟩
    exact (schema_describe s.datahub h.2.1 h.2.2 hg.2 target).trans (if_neg ht)
  | done result => cases hs

theorem keepsOthers {w : World Shared Phase} {l : ℕ × Option ReviewRequest}
    (hw : Holds (Inv urn) (Assert urn) w) (hg : lift Delivers w l) : KeepsOthers urn w l := by
  intro w' hs item_id target hcand ht hne
  obtain ⟨s',p',hstep,rfl⟩ := step_eq_some.mp hs
  rcases describe_of_step (hw.2 l.1) hg hstep with h | ⟨job,hitem,hd,hkeep⟩
  · exact h target
  · refine hkeep target ?_
    rintro rfl
    have he := hw.1.distinct _ _ _ hcand hd.candidate ht hd.target
    rw [hitem,he] at hne
    exact hne rfl

/-- Where every request has finished, no commit is still to be written. -/
theorem inDataHub_of_quiescent {w : World Shared Phase} (hw : Holds (Inv urn) (Assert urn) w)
    (hq : Quiescent w) : InDataHub urn w.shared := by
  intro item_id target ht
  refine hw.1.settled item_id target ht ?_
  cases ho : w.shared.owes item_id with
  | none => rfl
  | some i =>
    have hi := hw.2 i
    have hidle := hq i
    revert hi hidle
    cases w.proc i with
    | idle => exact fun h _ => absurd ho (h item_id)
    | done result => exact fun h _ => absurd ho (h item_id)
    | _ => exact fun _ h => h.elim

/-- In a run whose steps all deliver, DataHub has the approved description of every item
whenever all requests have finished, and no request changes that of another item. -/
theorem reviews_reach_datahub {w w' : World Shared Phase}
    {h : List (World Shared Phase × (ℕ × Option ReviewRequest))}
    (hr : Run (system (review_candidate urn) (Init urn)) w h w') (hw : Init urn w)
    (hg : Meets (lift Delivers) h) :
    Visits (fun w => Quiescent w → InDataHub urn w.shared) h w' ∧
      Meets (KeepsOthers urn) h := by
  have hv := Holds.visits hr hw.holds
    (fun _ _ _ _ _ _ hi ha hg hs => review_candidate_outline hi ha hg hs)
    (fun _ _ _ _ _ hij ha hR => assert_stable hij ha hR) hg
  exact ⟨⟨inDataHub_of_quiescent hv.1,fun p hp => inDataHub_of_quiescent (hv.2 p hp)⟩,
    fun p hp => keepsOthers (hv.2 p hp) (hg p hp)⟩

end Runs

def sampleCandidate (candidate_id : ℕ) (item_id value : String) : MetagenCandidate where
  candidate_id := candidate_id
  conf_id := none
  dataset_urn := "urn".toList
  item_id := item_id.toList
  run_id := "run".toList
  value := value.toList
  confidence_score := .fin 1
  status := .llm_approved
  evidence := ⟨1,.accept,.null,[],1,0⟩

def sampleWorld : World Shared Phase where
  shared := {
    db := {
      boundaries := (Table.empty _).put ⟨"urn".toList,true,[]⟩
      items := .empty _
      candidates := ((Table.empty _).put (sampleCandidate 1 "column.a.description" "A")).put
        (sampleCandidate 2 "column.b.description" "B") }
    datahub := ⟨none,none⟩
    owes := fun _ => none
    withdrawn := fun _ => false }
  proc := fun _ => .idle

def approval (i candidate_id : ℕ) (item_id : String) : List (ℕ × Option ReviewRequest) :=
  [(i,some ⟨item_id.toList,some candidate_id,.approve⟩),(i,none),(i,none),(i,none),(i,none)]

theorem targetOf_a : targetOf "column.a.description".toList = some (.field ['a']) := rfl

theorem targetOf_b : targetOf "column.b.description".toList = some (.field ['b']) := rfl

theorem sampleWorld_init : Init "urn".toList sampleWorld := by
  have hrows : sampleWorld.shared.db.candidates.rows =
    [sampleCandidate 1 "column.a.description" "A",sampleCandidate 2 "column.b.description" "B"] :=
    rfl
  have hnone : ∀ item_id c,
      ¬ Approved "urn".toList sampleWorld.shared.db.candidates item_id c := by
    intro item_id c h
    have hc := h.row
    rw [hrows,List.mem_pair] at hc
    rcases hc with rfl | rfl
    · exact absurd h.status (by decide)
    · exact absurd h.status (by decide)
  have hitem : ∀ item_id, HasCandidate "urn".toList sampleWorld.shared.db.candidates item_id →
      item_id = "column.a.description".toList ∨ item_id = "column.b.description".toList := by
    rintro item_id ⟨c,hc,-,rfl⟩
    rw [hrows,List.map_cons,List.map_cons,List.map_nil,List.mem_pair] at hc
    rcases hc with rfl | rfl
    · exact .inl rfl
    · exact .inr rfl
  refine ⟨fun _ => rfl,fun _ => rfl,fun _ => rfl,fun item_id c _ h => absurd h (hnone item_id c),
    fun a b target ha hb hta htb => ?_,
    fun item_id _ _ => ⟨fun c h => absurd h (hnone item_id c),fun h => by cases h⟩⟩
  rcases hitem a ha with rfl | rfl
  · rcases hitem b hb with rfl | rfl
    · rfl
    · rw [targetOf_a] at hta
      rw [targetOf_b] at htb
      cases hta.trans htb.symm
  · rcases hitem b hb with rfl | rfl
    · rw [targetOf_b] at hta
      rw [targetOf_a] at htb
      cases hta.trans htb.symm
    · rfl

/-- One approval, alone: its description arrives. -/
theorem approval_reaches_datahub : ∃ h w',
    Run (system (review_candidate "urn".toList) (Init "urn".toList)) sampleWorld h w' ∧
      Quiescent w' ∧ InDataHub "urn".toList w'.shared ∧
      w'.shared.datahub.describe (.field "a".toList) = some "A".toList := by
  refine ⟨_,_,run_of_replay (l:=approval 0 1 "column.a.description" ++ [(0,none)]) .refl rfl,
    fun i => ?_,?_,rfl⟩
  · cases i <;> trivial
  · refine ((reviews_reach_datahub (run_of_replay
      (l:=approval 0 1 "column.a.description" ++ [(0,none)]) .refl rfl) sampleWorld_init
      ?_).1.1 fun i => ?_)
    · simp only [meets_cons,meets_nil,and_true]
      exact ⟨⟨by decide,fun _ _ => rfl⟩,fun _ => by decide,
        fun h => absurd h (by decide),trivial,trivial,trivial⟩
    · cases i <;> trivial

/-- Both requests read the schema before either writes it back, and the second write takes
the first back. -/
theorem review_overwritten : ¬ ∀ urn w w' h,
    Run (system (review_candidate urn) (Init urn)) w h w' → Init urn w →
    Visits (fun w => Quiescent w → InDataHub urn w.shared) h w' ∧
      Meets (KeepsOthers urn) h := by
  intro hall
  have hr := run_of_replay (i:=Init "urn".toList)
    (f:=step (review_candidate "urn".toList)) (l:=approval 0 1 "column.a.description" ++ approval 1 2 "column.b.description" ++
      [(0,none),(1,none)]) (.refl (s:=sampleWorld)) rfl
  have hd := (hall _ _ _ _ hr sampleWorld_init).1.1 (fun i => by
    rcases i with - | - | i <;> trivial)
  have hA := (hd "column.a.description".toList (.field "a".toList) (by decide)).approved
    { sampleCandidate 1 "column.a.description" "A" with status := .approved }
    ⟨.head _,rfl,rfl,rfl⟩
  exact absurd hA (by decide)

end Metagen
end Dataspoke
