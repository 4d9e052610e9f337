import Mathlib.Tactic.Common

/-!
# Remote writes

Writes to a remote store, of which any can fail, and fail to answer where it has been carried
out.
-/

namespace Dataspoke
namespace RemoteCall

variable {σ υ : Type*}

/-- What becomes of a write: it is carried out, or is and the answer is lost, or is not. -/
inductive Fate
  | done
  | lost
  | refused
  deriving DecidableEq

def Fate.apply (fate : Fate) (write : σ → σ) (s : σ) : σ :=
  if fate = .refused then s else write s

/-- Two writes, the second where the first one answers; whether both answer. -/
def inTurn (first second : Fate) (write write' : σ → σ) (s : σ) : σ × Bool :=
  let s := first.apply write s
  if first = .done then (second.apply write' s,decide (second = .done)) else (s,false)

theorem apply_view (view : σ → υ) {write : σ → σ} (hw : ∀ s, view (write s) = view s)
    (fate : Fate) (s : σ) : view (fate.apply write s) = view s := by
  unfold Fate.apply
  split
  · rfl
  · exact hw s

variable {first second : Fate} {write write' : σ → σ} {s : σ}

theorem inTurn_answers :
    (inTurn first second write write' s).2 = true ↔ first = .done ∧ second = .done := by
  unfold inTurn
  dsimp only
  by_cases h : first = .done
  · rw [if_pos h]
    exact ⟨fun h' => ⟨h,of_decide_eq_true h'⟩,fun h' => decide_eq_true h'.2⟩
  · rw [if_neg h]
    exact ⟨fun h' => Bool.noConfusion h',fun h' => absurd h'.1 h⟩

theorem inTurn_view (view : σ → υ) (hw : ∀ s, view (write s) = view s)
    (hw' : ∀ s, view (write' s) = view s) :
    view (inTurn first second write write' s).1 = view s := by
  unfold inTurn
  dsimp only
  split
  · exact (apply_view view hw' second _).trans (apply_view view hw first s)
  · exact apply_view view hw first s

end RemoteCall
end Dataspoke
