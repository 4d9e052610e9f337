import Dataspoke.Python

/-!
# Loops that can raise

A loop over a list whose body changes a state or raises. `Along` states a condition on every
element and those before it; the rule says when such a condition decides whether the whole
loop goes through.
-/

namespace Dataspoke
namespace Fold

open Python

variable {α σ ε : Type}

/-- What every round preserves, a loop that cannot raise preserves. -/
theorem foldl_invariant {g : σ → α → σ} {I : σ → Prop} {as : List α}
    (hstep : ∀ s, ∀ a ∈ as, I s → I (g s a)) {s : σ} (hs : I s) : I (as.foldl g s) := by
  induction as generalizing s with
  | nil => exact hs
  | cons a as ih =>
    exact ih (fun s b hb => hstep s b (List.mem_cons_of_mem _ hb)) (hstep s a List.mem_cons_self hs)

/-- What the round of one element establishes and every round preserves holds at the end. -/
theorem foldl_establishes {g : σ → α → σ} {J : σ → Prop} {as : List α} {a : α} (ha : a ∈ as)
    (hstep : ∀ s b, J s → J (g s b)) (hest : ∀ s, J (g s a)) (s : σ) : J (as.foldl g s) := by
  induction as generalizing s with
  | nil => cases ha
  | cons b as ih =>
    rw [List.foldl_cons]
    rcases List.mem_cons.mp ha with rfl | ha
    · exact foldl_invariant (fun s b _ => hstep s b) (hest s)
    · exact ih ha _

/-- Every element of the list satisfies `P` together with the elements before it. -/
def Along (P : List α → α → Prop) (xs : List α) : Prop :=
  ∀ before x after, xs = before ++ x::after → P before x

variable {P Q : List α → α → Prop}

theorem along_nil : Along P [] := by
  intro before x after h
  simp at h

theorem along_cons {x : α} {xs : List α} :
    Along P (x::xs) ↔ P [] x ∧ Along (fun before y => P (x::before) y) xs := by
  constructor
  · intro h
    exact ⟨h [] x xs rfl,fun before y after he => h (x::before) y after (by rw [he]; rfl)⟩
  · rintro ⟨hx,hxs⟩ before y after he
    cases before with
    | nil =>
      obtain ⟨rfl,-⟩ := List.cons.inj he
      exact hx
    | cons z before =>
      obtain ⟨rfl,hrest⟩ := List.cons.inj he
      exact hxs before y after hrest

theorem along_const {p : α → Prop} {xs : List α} :
    Along (fun _ x => p x) xs ↔ ∀ x ∈ xs, p x := by
  constructor
  · intro h x hx
    obtain ⟨before,after,he⟩ := List.append_of_mem hx
    exact h before x after he
  · rintro h before x after rfl
    exact h x (by simp)

theorem Along.congr {xs : List α}
    (h : ∀ before y, (∀ z ∈ before ++ [y], z ∈ xs) → (P before y ↔ Q before y)) :
    Along P xs ↔ Along Q xs := by
  have hmem : ∀ {before y after}, xs = before ++ y::after → ∀ z ∈ before ++ [y], z ∈ xs := by
    rintro before y after rfl z hz
    rw [List.append_cons]
    exact List.mem_append_left _ hz
  constructor
  · exact fun hp before y after he => (h before y (hmem he)).mp (hp before y after he)
  · exact fun hq before y after he => (h before y (hmem he)).mpr (hq before y after he)

variable {f : σ → α → Except ε σ}

/-- What every round preserves, the loop preserves. -/
theorem foldlM_invariant {I : σ → Prop} {xs : List α}
    (hstep : ∀ s, ∀ x ∈ xs, ∀ t, I s → f s x = .ok t → I t) {s t : σ} (hs : I s)
    (h : xs.foldlM f s = .ok t) : I t := by
  induction xs generalizing s with
  | nil =>
    cases h
    exact hs
  | cons x xs ih =>
    rw [List.foldlM_cons] at h
    obtain ⟨u,hu,h⟩ := bind_eq_ok.mp h
    exact ih (fun s y hy => hstep s y (by simp [hy])) (hstep s x (by simp) u hs hu) h

/-- What the round of one element establishes and every round preserves holds at the end. -/
theorem foldlM_establishes {I J : σ → Prop} {xs : List α} {x : α} (hx : x ∈ xs)
    (hI : ∀ s, ∀ x ∈ xs, ∀ t, I s → f s x = .ok t → I t)
    (hJ : ∀ s, ∀ x ∈ xs, ∀ t, I s → J s → f s x = .ok t → J t)
    (hest : ∀ s t, I s → f s x = .ok t → J t) {s t : σ} (hs : I s)
    (h : xs.foldlM f s = .ok t) : J t := by
  induction xs generalizing s with
  | nil => cases hx
  | cons y ys ih =>
    rw [List.foldlM_cons] at h
    obtain ⟨u,hu,hrest⟩ := bind_eq_ok.mp h
    have hI' : ∀ s, ∀ x ∈ ys, ∀ t, I s → f s x = .ok t → I t :=
      fun s z hz => hI s z (by simp [hz])
    have hJ' : ∀ s, ∀ x ∈ ys, ∀ t, I s → J s → f s x = .ok t → J t :=
      fun s z hz => hJ s z (by simp [hz])
    have hiu := hI s y (by simp) u hs hu
    rcases List.mem_cons.mp hx with rfl | hx
    · have hkeep : ∀ s, ∀ z ∈ ys, ∀ t, I s ∧ J s → f s z = .ok t → I t ∧ J t :=
        fun s z hz t hs ht => ⟨hI' s z hz t hs.1 ht,hJ' s z hz t hs.1 hs.2 ht⟩
      exact (foldlM_invariant hkeep ⟨hiu,hest s u hs hu⟩ hrest).2
    · exact ih hx hI' hJ' hiu hrest

/-- A round goes through exactly when its element satisfies `P` at the state, and moves the
conditions on the later elements along. -/
theorem foldlM_ok_iff {I : σ → Prop} {D : α → Prop} {R : α → α → Prop}
    {P : σ → List α → α → Prop}
    (hok : ∀ s x, I s → D x → ((∃ t, f s x = .ok t) ↔ P s [] x))
    (hnext : ∀ s x t, I s → D x → f s x = .ok t → I t ∧ ∀ before y,
      (∀ z ∈ before ++ [y], D z ∧ R x z) → (P t before y ↔ P s (x::before) y))
    {xs : List α} (hd : ∀ x ∈ xs, D x) (hr : xs.Pairwise R) {s : σ} (hs : I s) :
    (∃ t, xs.foldlM f s = .ok t) ↔ Along (P s) xs := by
  induction xs generalizing s with
  | nil => exact ⟨fun _ => along_nil,fun _ => ⟨s,rfl⟩⟩
  | cons x xs ih =>
    obtain ⟨hx,hr⟩ := List.pairwise_cons.mp hr
    have hdx := hd x (by simp)
    have hd' : ∀ y ∈ xs, D y := fun y hy => hd y (by simp [hy])
    rw [along_cons,← hok s x hs hdx]
    have hrest : ∀ {t}, f s x = .ok t →
        ((∃ u, xs.foldlM f t = .ok u) ↔ Along (fun before y => P s (x::before) y) xs) := by
      intro t ht
      obtain ⟨hit,hmove⟩ := hnext s x t hs hdx ht
      rw [ih hd' hr hit]
      refine Along.congr fun before y hmem => hmove before y fun z hz => ?_
      exact ⟨hd' z (hmem z hz),hx z (hmem z hz)⟩
    constructor
    · rintro ⟨u,hu⟩
      rw [List.foldlM_cons] at hu
      obtain ⟨t,ht,hu⟩ := bind_eq_ok.mp hu
      exact ⟨⟨t,ht⟩,(hrest ht).mp ⟨u,hu⟩⟩
    · rintro ⟨⟨t,ht⟩,hall⟩
      obtain ⟨u,hu⟩ := (hrest ht).mpr hall
      exact ⟨u,by rw [List.foldlM_cons,ht]; exact hu⟩

end Fold
end Dataspoke
