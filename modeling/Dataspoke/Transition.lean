import Mathlib.Logic.Relation
import Mathlib.Tactic.Common

/-!
# Labelled transition systems

Runs that remember the state before each step, the invariant rule for them, and the
rule for an exact run condition: a guard that every step of a run has to meet for a
safety property to hold in every state the run visits.
-/

namespace Dataspoke
namespace Transition

variable {σ α : Type*}

/-- A labelled transition system with its initial states. -/
structure System (σ α : Type*) where
  init : σ → Prop
  step : σ → α → σ → Prop

/-- A run from `s`, with every step taken as its label and the state before it, the
latest first. -/
inductive Run (T : System σ α) (s : σ) : List (σ × α) → σ → Prop
  | refl : Run T s [] s
  | step {h : List (σ × α)} {t u : σ} {a : α} :
      Run T s h t → T.step t a u → Run T s ((t,a)::h) u

/-- Every state a run visits, its last one included, satisfies `P`. -/
def Visits (P : σ → Prop) (h : List (σ × α)) (t : σ) : Prop :=
  P t ∧ ∀ p ∈ h, P p.1

/-- Every step of a run meets the guard `G` on its label and the state before it. -/
def Meets (G : σ → α → Prop) (h : List (σ × α)) : Prop := ∀ p ∈ h, G p.1 p.2

def Reachable (T : System σ α) (t : σ) : Prop := ∃ s h, T.init s ∧ Run T s h t

@[simp] theorem visits_nil (P : σ → Prop) (t : σ) : Visits (α:=α) P [] t ↔ P t := by
  simp [Visits]

@[simp] theorem visits_cons (P : σ → Prop) (s t : σ) (a : α) (h : List (σ × α)) :
    Visits P ((s,a)::h) t ↔ P t ∧ Visits P h s := by
  simp [Visits]

@[simp] theorem meets_nil (G : σ → α → Prop) : Meets G [] := by simp [Meets]

@[simp] theorem meets_cons (G : σ → α → Prop) (s : σ) (a : α) (h : List (σ × α)) :
    Meets G ((s,a)::h) ↔ G s a ∧ Meets G h := by
  simp [Meets]

variable {T : System σ α} {G : σ → α → Prop} {I P : σ → Prop}

/-- What every guarded step preserves, a run of guarded steps preserves. -/
theorem Run.visits {s t : σ} {h : List (σ × α)} (hr : Run T s h t)
    (hs : I s) (hstep : ∀ s a t, I s → G s a → T.step s a t → I t) (hg : Meets G h) :
    Visits I h t := by
  induction hr with
  | refl => simpa using hs
  | step _ ht ih =>
    rw [meets_cons] at hg
    have hv := ih hg.2
    exact (visits_cons _ _ _ _ _).mpr ⟨hstep _ _ _ hv.1 hg.1 ht,hv⟩

theorem Run.invariant {s t : σ} {h : List (σ × α)} (hr : Run T s h t)
    (hs : I s) (hstep : ∀ s a t, I s → T.step s a t → I t) : I t :=
  (hr.visits (G:=fun _ _ => True) hs (fun s a t hi _ => hstep s a t hi)
    (fun _ _ => trivial)).1

theorem Reachable.invariant {t : σ} (ht : Reachable T t) (hs : ∀ s, T.init s → I s)
    (hstep : ∀ s a t, I s → T.step s a t → I t) : I t := by
  obtain ⟨s,h,hi,hr⟩ := ht
  exact hr.invariant (hs s hi) hstep

/-- The guard is the exact run condition for `P`: guarded steps keep an invariant that
implies `P`, and the first step that misses the guard leaves `P`. -/
theorem Run.visits_iff_meets {s t : σ} {h : List (σ × α)} (hr : Run T s h t)
    (hs : I s) (hIP : ∀ s, I s → P s)
    (hstep : ∀ s a t, I s → G s a → T.step s a t → I t)
    (hbad : ∀ s a t, I s → ¬ G s a → T.step s a t → ¬ P t) :
    Visits P h t ↔ Meets G h := by
  refine ⟨?_,fun hg => ?_⟩
  · intro hv
    induction hr with
    | refl => simp
    | step hr ht ih =>
      rw [visits_cons] at hv
      have hg := ih hv.2
      refine (meets_cons _ _ _ _).mpr ⟨?_,hg⟩
      by_contra hn
      exact hbad _ _ _ (hr.visits hs hstep hg).1 hn ht hv.1
  · have hv := hr.visits hs hstep hg
    exact ⟨hIP _ hv.1,fun p hp => hIP _ (hv.2 p hp)⟩

/-- A system whose step is a partial function of the state and the label. -/
def ofFun (init : σ → Prop) (f : σ → α → Option σ) : System σ α where
  init := init
  step s a t := f s a = some t

/-- Replay labels, the first one first, keeping the history of a `Run`. -/
def replay (f : σ → α → Option σ) : List (σ × α) → σ → List α → Option (List (σ × α) × σ)
  | h, s, [] => some (h,s)
  | h, s, a::as => (f s a).bind fun t => replay f ((s,a)::h) t as

theorem run_of_replay {i : σ → Prop} {f : σ → α → Option σ} {s₀ s t : σ}
    {h h' : List (σ × α)} {l : List α} (hr : Run (ofFun i f) s₀ h s)
    (he : replay f h s l = some (h',t)) : Run (ofFun i f) s₀ h' t := by
  induction l generalizing h s with
  | nil =>
    simp only [replay,Option.some.injEq,Prod.mk.injEq] at he
    obtain ⟨rfl,rfl⟩ := he
    exact hr
  | cons a l ih =>
    simp only [replay,Option.bind_eq_some_iff] at he
    obtain ⟨u,hu,he⟩ := he
    exact ih (hr.step hu) he

/-- A replay that ends in a state with a property, as a run. -/
theorem exists_run_of_replay {i : σ → Prop} {f : σ → α → Option σ} {s : σ} {l : List α}
    {p : List (σ × α) × σ → Bool} (h : (replay f [] s l).any p = true) :
    ∃ h t, Run (ofFun i f) s h t ∧ p (h,t) = true := by
  obtain ⟨⟨h,t⟩,he,hp⟩ := (Option.any_eq_true _ _).mp h
  exact ⟨h,t,run_of_replay .refl he,hp⟩

end Transition
end Dataspoke
