import Dataspoke.Interleave

/-!
# One job for all who ask

Callers that find a job under way wait for it instead of starting their own. The caller
that has started a job waits for it too, and empties the slot when it gets the result.
-/

namespace Dataspoke
namespace SingleFlight

open Interleave Transition

variable {ρ : Type*}

inductive Job (ρ : Type*)
  | idle
  | running
  | settled (r : ρ)

/-- The job under way, by the caller that has started it, and the jobs of all callers. -/
structure Slot (ρ : Type*) where
  inFlight : Option ℕ
  jobs : ℕ → Job ρ

inductive Standing
  | out
  | waiting (job : ℕ)
  | through

/-- What a step of caller `i` may do to the slot. -/
inductive Move (i : ℕ) : Slot ρ → Standing → Slot ρ → Standing → Prop
  | stay {s : Slot ρ} {p : Standing} : Move i s p s p
  | pass {s : Slot ρ} : Move i s .out s .through
  | join {s : Slot ρ} {j : ℕ} : s.inFlight = some j → Move i s .out s (.waiting j)
  | own {s : Slot ρ} : s.inFlight = none →
      Move i s .out ⟨some i,Function.update s.jobs i .running⟩ (.waiting i)
  | settle {s : Slot ρ} {p : Standing} {r : ρ} : s.jobs i = .running →
      Move i s p ⟨s.inFlight,Function.update s.jobs i (.settled r)⟩ p
  | leave {s : Slot ρ} {j : ℕ} {r : ρ} : s.jobs j = .settled r →
      Move i s (.waiting j) ⟨if j = i then none else s.inFlight,s.jobs⟩ .through

/-- Only the job under way runs. -/
structure Sound (s : Slot ρ) : Prop where
  running : ∀ i, s.jobs i = .running → s.inFlight = some i
  started : ∀ i, s.inFlight = some i → s.jobs i ≠ .idle

/-- What caller `i` relies on: the slot is its own while it waits for its own job, and at no
other time. -/
def Stands (i : ℕ) (s : Slot ρ) : Standing → Prop
  | .out => s.jobs i = .idle ∧ s.inFlight ≠ some i
  | .waiting j => s.jobs j ≠ .idle ∧
      if j = i then s.inFlight = some i else s.jobs i = .idle ∧ s.inFlight ≠ some i
  | .through => s.jobs i ≠ .running ∧ s.inFlight ≠ some i

structure Rely (i : ℕ) (s s' : Slot ρ) : Prop where
  jobs : ∀ j, j ≠ i → s'.jobs j = s.jobs j
  inFlight : ∀ j, j ≠ i → (s'.inFlight = some j ↔ s.inFlight = some j)
  started : s.jobs i ≠ .idle → s'.jobs i ≠ .idle

variable {i j : ℕ} {s s' : Slot ρ} {p p' : Standing}

theorem Rely.refl : Rely i s s := ⟨fun _ _ => rfl,fun _ _ => Iff.rfl,id⟩

theorem Stands.stable (hne : i ≠ j) (h : Stands j s p) (hr : Rely i s s') : Stands j s' p := by
  have hjobs := hr.jobs j hne.symm
  have hflight := hr.inFlight j hne.symm
  cases p with
  | out => exact ⟨hjobs.trans h.1,fun he => h.2 (hflight.mp he)⟩
  | through => exact ⟨fun he => h.1 (hjobs ▸ he),fun he => h.2 (hflight.mp he)⟩
  | waiting k =>
    refine ⟨?_,?_⟩
    · by_cases hk : k = i
      · subst hk
        exact hr.started h.1
      · rw [hr.jobs k hk]
        exact h.1
    · have hrest := h.2
      by_cases hk : k = j
      · rw [if_pos hk] at hrest ⊢
        exact hflight.mpr hrest
      · rw [if_neg hk] at hrest ⊢
        exact ⟨hjobs.trans hrest.1,fun he => hrest.2 (hflight.mp he)⟩

theorem Sound.one_running (h : Sound s) (hi : s.jobs i = .running) (hj : s.jobs j = .running) :
    i = j :=
  Option.some.inj ((h.running i hi).symm.trans (h.running j hj))

/-- The job that a caller waits for is the one under way, or it has ended. -/
theorem Sound.awaited (h : Sound s) (hs : Stands i s (.waiting j)) :
    s.jobs j = .running ∧ s.inFlight = some j ∨ ∃ r, s.jobs j = .settled r := by
  cases hj : s.jobs j with
  | idle => exact absurd hj hs.1
  | running => exact .inl ⟨rfl,h.running j hj⟩
  | settled r => exact .inr ⟨r,rfl⟩

theorem Move.spec (hs : Sound s) (hp : Stands i s p) (h : Move i s p s' p') :
    Sound s' ∧ Stands i s' p' ∧ Rely i s s' := by
  cases h with
  | stay => exact ⟨hs,hp,.refl⟩
  | pass => exact ⟨hs,⟨by simp [hp.1],hp.2⟩,.refl⟩
  | @join j hj =>
    have hne : j ≠ i := fun he => hp.2 (he ▸ hj)
    refine ⟨hs,⟨hs.started j hj,?_⟩,.refl⟩
    rw [if_neg hne]
    exact hp
  | own hnone =>
    have hidle : ∀ k, s.jobs k ≠ .running := fun k hk => by
      have := hs.running k hk
      simp [hnone] at this
    refine ⟨⟨?_,?_⟩,⟨by simp,by simp⟩,⟨?_,?_,by simp⟩⟩
    · intro k hk
      by_cases he : k = i
      · rw [he]
      · exact absurd ((Function.update_of_ne he ..).symm.trans hk) (hidle k)
    · intro k hk
      obtain rfl := Option.some.inj hk
      simp
    · intro k hk
      exact Function.update_of_ne hk ..
    · intro k hk
      simp [hnone,Ne.symm hk]
  | settle hrun =>
    have hflight := hs.running i hrun
    refine ⟨⟨?_,?_⟩,?_,⟨?_,fun _ _ => Iff.rfl,by simp⟩⟩
    · intro k hk
      by_cases he : k = i
      · rw [he]
        exact hflight
      · exact hs.running k ((Function.update_of_ne he ..).symm.trans hk)
    · intro k hk
      obtain rfl := Option.some.inj (hk.symm.trans hflight)
      simp
    · cases p with
      | out => exact absurd hflight hp.2
      | through => exact absurd hflight hp.2
      | waiting k =>
        have hk : k = i := by
          by_contra hne
          have hrest := hp.2
          rw [if_neg hne] at hrest
          exact hrest.2 hflight
        subst hk
        exact ⟨by simp,by simpa using hflight⟩
    · intro k hk
      exact Function.update_of_ne hk ..
  | @leave j r hj =>
    by_cases he : j = i
    · subst he
      have hflight : s.inFlight = some j := by simpa using hp.2
      refine ⟨⟨?_,by simp⟩,⟨by simp [hj],by simp⟩,⟨fun _ _ => rfl,?_,id⟩⟩
      · intro k hk
        obtain rfl := Option.some.inj ((hs.running k hk).symm.trans hflight)
        rw [hj] at hk
        cases hk
      · intro k hk
        simp [hflight,Ne.symm hk]
    · have hrest := hp.2
      rw [if_neg he] at hrest ⊢
      exact ⟨hs,⟨by simp [hrest.1],hrest.2⟩,.refl⟩

theorem Move.settled (hp : Stands i s p) (h : Move i s p s' p') {r : ρ}
    (hj : s.jobs j = .settled r) : s'.jobs j = .settled r := by
  cases h with
  | own hnone =>
    have hne : j ≠ i := by
      rintro rfl
      rw [hp.1] at hj
      cases hj
    exact (Function.update_of_ne hne ..).trans hj
  | settle hrun =>
    have hne : j ≠ i := by
      rintro rfl
      rw [hrun] at hj
      cases hj
    exact (Function.update_of_ne hne ..).trans hj
  | _ => exact hj

variable {σ π α : Type*} {P : Program σ π α} {slot : σ → Slot ρ} {standing : π → Standing}

/-- The slot is sound, and every caller stands by it. -/
def Single (slot : σ → Slot ρ) (standing : π → Standing) : World σ π → Prop :=
  Holds (fun s => Sound (slot s)) fun i s p => Stands i (slot s) (standing p)

theorem Single.step {w w' : World σ π} {l : ℕ × α}
    (moves : ∀ i a s p s' p', P i a s p = some (s',p') →
      Move i (slot s) (standing p) (slot s') (standing p'))
    (hw : Single slot standing w) (h : Interleave.step P w l = some w') :
    Single slot standing w' :=
  Holds.step (R:=fun i s s' => Rely i (slot s) (slot s')) (G:=fun _ _ _ _ => True) hw trivial
    (fun i a s p s' p' hs hp _ hstep => (moves i a s p s' p' hstep).spec hs hp)
    (fun _ _ _ _ _ hne hp hr => hp.stable hne hr) h

theorem Single.init {w : World σ π} (hslot : slot w.shared = ⟨none,fun _ => .idle⟩)
    (hproc : ∀ i, standing (w.proc i) = .out) : Single slot standing w := by
  refine ⟨?_,fun i => ?_⟩
  · show Sound (slot w.shared)
    rw [hslot]
    exact ⟨by simp,by simp⟩
  · show Stands i (slot w.shared) (standing (w.proc i))
    rw [hslot,hproc]
    exact ⟨rfl,by simp⟩

end SingleFlight
end Dataspoke
