import Mathlib.Data.List.Nodup
import Mathlib.Tactic.Common

/-!
# Loops over the parts of a state

A loop whose rounds each see and change one part of a state, and no two the same part. Every
round meets its part as it was before the loop, and what it leaves there stays.
-/

namespace Dataspoke
namespace LocalFold

variable {σ α κ υ β τ : Type*} (view : σ → κ → υ) (f : σ → α → σ) (key : α → κ)

theorem view_foldl_of_not_mem (hf : ∀ s a k, k ≠ key a → view (f s a) k = view s k)
    {as : List α} {s : σ} {k : κ} (hk : k ∉ as.map key) : view (as.foldl f s) k = view s k := by
  induction as generalizing s with
  | nil => rfl
  | cons a as ih =>
    rw [List.map_cons,List.mem_cons,not_or] at hk
    rw [List.foldl_cons,ih hk.2,hf s a k hk.1]

/-- The part of an element at the end is the one that its own round left, from the part as it
was at the beginning. -/
theorem view_foldl (hf : ∀ s a k, k ≠ key a → view (f s a) k = view s k) {as : List α}
    (hn : (as.map key).Nodup) {a : α} (ha : a ∈ as) (s : σ) :
    ∃ t, view t (key a) = view s (key a) ∧ view (as.foldl f s) (key a) = view (f t a) (key a) := by
  induction as generalizing s with
  | nil => cases ha
  | cons b as ih =>
    obtain ⟨hb,hn⟩ := List.nodup_cons.mp hn
    rw [List.foldl_cons]
    rcases List.mem_cons.mp ha with rfl | ha
    · exact ⟨s,rfl,view_foldl_of_not_mem view f key hf hb⟩
    · obtain ⟨t,ht,hend⟩ := ih hn ha (f s b)
      have hne : key a ≠ key b := fun h => hb (List.mem_map.mpr ⟨a,ha,h⟩)
      exact ⟨t,ht.trans (hf s b (key a) hne),hend⟩

/-- What the rounds report, gathered, is what they report of the parts as they were at the
beginning. -/
theorem foldl_report (f : σ → α → σ × β) (g : α → υ → β) (gather : τ → α → β → τ)
    (hf : ∀ s a k, k ≠ key a → view (f s a).1 k = view s k)
    (hg : ∀ s a, (f s a).2 = g a (view s (key a))) {as : List α} (hn : (as.map key).Nodup)
    (s : σ) (t : τ) :
    (as.foldl (fun st a => ((f st.1 a).1,gather st.2 a (f st.1 a).2)) (s,t)).2 =
      as.foldl (fun t a => gather t a (g a (view s (key a)))) t := by
  induction as generalizing s t with
  | nil => rfl
  | cons a as ih =>
    obtain ⟨ha,hn⟩ := List.nodup_cons.mp hn
    rw [List.foldl_cons,List.foldl_cons,ih hn,hg]
    refine List.foldl_ext _ _ _ fun t b hb => ?_
    have hne : key b ≠ key a := fun h => ha (List.mem_map.mpr ⟨b,hb,h⟩)
    rw [hf s a (key b) hne]

theorem foldl_fst (f : σ → α → σ × β) (gather : τ → α → β → τ) (as : List α) (s : σ) (t : τ) :
    (as.foldl (fun st a => ((f st.1 a).1,gather st.2 a (f st.1 a).2)) (s,t)).1 =
      as.foldl (fun s a => (f s a).1) s := by
  induction as generalizing s t with
  | nil => rfl
  | cons a as ih => exact ih _ _

end LocalFold
end Dataspoke
