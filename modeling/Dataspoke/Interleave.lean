import Dataspoke.Transition
import Mathlib.Logic.Function.Basic

/-!
# Interleaved requests

Requests with a state of their own over one shared state, where a step takes one request
from a suspension point to its next, and the rely-guarantee rule for what holds in every
interleaving.
-/

namespace Dataspoke
namespace Interleave

open Transition

variable {σ π α : Type*}

/-- The shared state, and where each request stands. -/
structure World (σ π : Type*) where
  shared : σ
  proc : ℕ → π

/-- The next step of a request, on what it gets there from outside; `none` where it cannot
take one. -/
abbrev Program (σ π α : Type*) := ℕ → α → σ → π → Option (σ × π)

variable (P : Program σ π α)

def step (w : World σ π) (l : ℕ × α) : Option (World σ π) :=
  (P l.1 l.2 w.shared (w.proc l.1)).map fun r => ⟨r.1,Function.update w.proc l.1 r.2⟩

def system (init : World σ π → Prop) : System (World σ π) (ℕ × α) := ofFun init (step P)

/-- A condition on a request's step, as a condition on the world it is taken in. -/
def lift (G : ℕ → α → σ → π → Prop) (w : World σ π) (l : ℕ × α) : Prop :=
  G l.1 l.2 w.shared (w.proc l.1)

/-- The shared state satisfies `S`, and each request its own assertion. -/
def Holds (S : σ → Prop) (L : ℕ → σ → π → Prop) (w : World σ π) : Prop :=
  S w.shared ∧ ∀ i, L i w.shared (w.proc i)

variable {P} {S : σ → Prop} {L : ℕ → σ → π → Prop} {R : ℕ → σ → σ → Prop}
  {G : ℕ → α → σ → π → Prop}

theorem step_eq_some {w w' : World σ π} {l : ℕ × α} :
    step P w l = some w' ↔ ∃ s p, P l.1 l.2 w.shared (w.proc l.1) = some (s,p) ∧
      w' = ⟨s,Function.update w.proc l.1 p⟩ := by
  rw [step,Option.map_eq_some_iff]
  constructor
  · rintro ⟨⟨s,p⟩,h,rfl⟩
    exact ⟨s,p,h,rfl⟩
  · rintro ⟨s,p,h,rfl⟩
    exact ⟨(s,p),h,rfl⟩

/-- What a step does to the shared state is all that the other requests see of it: a step
keeps `S` and the assertion of its own request, does what `R` allows it, and the assertions
of the others are stable under `R`. -/
theorem Holds.step {w w' : World σ π} {l : ℕ × α} (hw : Holds S L w) (hg : lift G w l)
    (own : ∀ i a s p s' p', S s → L i s p → G i a s p → P i a s p = some (s',p') →
      S s' ∧ L i s' p' ∧ R i s s')
    (stable : ∀ i j s s' p, i ≠ j → L j s p → R i s s' → L j s' p)
    (h : step P w l = some w') : Holds S L w' := by
  obtain ⟨s,p,hp,rfl⟩ := step_eq_some.mp h
  obtain ⟨hS,hL,hR⟩ := own _ _ _ _ _ _ hw.1 (hw.2 l.1) hg hp
  refine ⟨hS,fun j => ?_⟩
  by_cases hj : j = l.1
  · subst hj
    simpa using hL
  · simpa [hj] using stable _ _ _ _ _ (Ne.symm hj) (hw.2 j) hR

/-- The rely-guarantee rule: it holds of every world that a run of guarded steps visits. -/
theorem Holds.visits {init : World σ π → Prop} {w w' : World σ π}
    {h : List (World σ π × (ℕ × α))} (hr : Run (system P init) w h w') (hw : Holds S L w)
    (own : ∀ i a s p s' p', S s → L i s p → G i a s p → P i a s p = some (s',p') →
      S s' ∧ L i s' p' ∧ R i s s')
    (stable : ∀ i j s s' p, i ≠ j → L j s p → R i s s' → L j s' p)
    (hg : Meets (lift G) h) : Visits (Holds S L) h w' :=
  hr.visits hw (fun _ _ _ hw hg hs => hw.step hg own stable hs) hg

end Interleave
end Dataspoke
