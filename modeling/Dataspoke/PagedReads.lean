import Mathlib.Data.List.Basic
import Mathlib.Data.List.Infix
import Mathlib.Tactic.Common

/-!
# Paged reads

Reading a collection from a server that answers page by page: with an offset, until the announced
total is reached, and with a cursor, for a bounded number of pages. The server can answer anything,
and what it holds can change with every request.
-/

namespace Dataspoke
namespace PagedReads

section Offset

variable {α β σ : Type*}

inductive Reading (β : Type*)
  | running
  | raised
  | read (kept : List β)

/-- One request after the other from `start` on, until the total is reached or a page is empty,
keeping of each page what `keep` does. -/
def readAll (serve : ℕ → σ → σ × Option (List α × ℕ)) (keep : α → Option β) :
    (fuel start : ℕ) → σ → List β → σ × Reading β
  | 0, _, s, _ => (s,.running)
  | fuel+1, start, s, kept =>
    match serve start s with
    | (s,none) => (s,.raised)
    | (s,some (page,total)) =>
      let kept := kept ++ page.filterMap keep
      let start := start+page.length
      if total ≤ start ∨ page = [] then (s,.read kept) else readAll serve keep fuel start s kept

variable {serve : ℕ → σ → σ × Option (List α × ℕ)} {keep : α → Option β} {items : σ → List α}

theorem readAll_ends {T : ℕ}
    (hT : ∀ start s page total, (serve start s).2 = some (page,total) → total ≤ T)
    {fuel start : ℕ} (hpos : 0 < fuel) (hfuel : T ≤ fuel+start) (s : σ) (kept : List β) :
    (readAll serve keep fuel start s kept).2 ≠ .running := by
  induction fuel generalizing start s kept with
  | zero => exact absurd hpos (Nat.lt_irrefl 0)
  | succ fuel ih =>
    rw [readAll]
    split
    · intro h
      cases h
    · rename_i s' page total hserve
      have hle := hT start s page total (by rw [hserve])
      dsimp only
      split
      · intro h
        cases h
      · rename_i hgo
        rw [not_or] at hgo
        have hpage := List.length_pos_iff.mpr hgo.2
        exact ih (by omega) (by omega) s' _

/-- The server holds a list that is only appended to; a page is a piece of what it holds at the
offset, and not empty where there is one, and the total is the length. -/
structure Honest (serve : ℕ → σ → σ × Option (List α × ℕ)) (items : σ → List α) : Prop where
  grows : ∀ start s, items s <+: items (serve start s).1
  page : ∀ start s page total, (serve start s).2 = some (page,total) →
    page <+: (items s).drop start ∧ total = (items s).length ∧
      (start < (items s).length → page ≠ [])

/-- A read of such a list keeps from all that was there at its beginning, in order and once, and
from nothing that is not there at its end. -/
theorem readAll_honest (hs : Honest serve items) {fuel start : ℕ} {s s' : σ} {kept L : List β}
    (hstart : start ≤ (items s).length) (hkept : kept = ((items s).take start).filterMap keep)
    (h : readAll serve keep fuel start s kept = (s',.read L)) :
    ∃ all, items s <+: all ∧ all <+: items s' ∧ L = all.filterMap keep := by
  induction fuel generalizing start s kept with
  | zero => cases h
  | succ fuel ih =>
    rw [readAll] at h
    split at h
    · cases h
    · rename_i t page total hserve
      have hgrows : items s <+: items t := by
        have hgrows := hs.grows start s
        rwa [hserve] at hgrows
      obtain ⟨hpage,rfl,hne⟩ := hs.page start s page total (by rw [hserve])
      have hlen : start+page.length ≤ (items s).length := by
        have hle := hpage.length_le
        rw [List.length_drop] at hle
        omega
      have htake : (items s).take start ++ page = (items s).take (start+page.length) := by
        rw [List.take_add,← List.prefix_iff_eq_take.mp hpage]
      have hmore : kept ++ page.filterMap keep =
          ((items s).take (start+page.length)).filterMap keep := by
        rw [hkept,← List.filterMap_append,htake]
      dsimp only at h
      split at h
      · rename_i hstop
        obtain ⟨rfl,hL⟩ := Prod.mk.inj h
        obtain rfl := Reading.read.inj hL
        have hall : start+page.length = (items s).length := by
          rcases hstop with hstop | hstop
          · omega
          · by_contra hless
            exact hne (by omega) hstop
        refine ⟨items s,List.prefix_refl _,hgrows,?_⟩
        rw [hmore,hall,List.take_length]
      · have htail : kept ++ page.filterMap keep =
            ((items t).take (start+page.length)).filterMap keep := by
          rw [hmore]
          obtain ⟨more,hmore⟩ := hgrows
          rw [← hmore,List.take_append_of_le_length hlen]
        obtain ⟨all,hfirst,hlast,hL⟩ := ih (hlen.trans hgrows.length_le) htail h
        exact ⟨all,hgrows.trans hfirst,hlast,hL⟩

end Offset

section Cursor

variable {ι κ σ τ : Type*} [DecidableEq κ]

inductive Reply (ι κ : Type*)
  | raised
  | unreadable
  | page (items : List ι) (next : Option κ)

def scroll (serve : Option κ → σ → σ × Reply ι κ) (add : τ → List ι → τ) :
    (n : ℕ) → Option κ → σ → τ → σ × Option τ
  | 0, _, s, t => (s,some t)
  | n+1, c, s, t =>
    match serve c s with
    | (s,.raised) => (s,none)
    | (s,.unreadable) => (s,some t)
    | (s,.page items none) => (s,some (add t items))
    | (s,.page items (some next)) =>
      if some next = c then (s,some (add t items))
      else scroll serve add n (some next) s (add t items)

/-- The pages that the server answers with, the last one naming no cursor. -/
def Serves (serve : Option κ → σ → σ × Reply ι κ) : List (List ι) → Option κ → σ → Prop
  | [], _, _ => False
  | [items], c, s => ∃ s', serve c s = (s',.page items none)
  | items::pages, c, s => ∃ s' next, serve c s = (s',.page items (some next)) ∧ some next ≠ c ∧
      Serves serve pages (some next) s'

/-- All the pages of at most `n` requests, until one names no cursor or the one it was asked for, or
an answer is unreadable. -/
def Answers (serve : Option κ → σ → σ × Reply ι κ) : ℕ → List (List ι) → Option κ → σ → Prop
  | 0, pages, _, _ => pages = []
  | _+1, [], c, s => ∃ s', serve c s = (s',.unreadable)
  | n+1, items::pages, c, s => ∃ s' next, serve c s = (s',.page items next) ∧
      if next = none ∨ next = c then pages = [] else Answers serve n pages next s'

variable {serve : Option κ → σ → σ × Reply ι κ} {add : τ → List ι → τ}

/-- A scroll reads as many of the pages as it may ask for. -/
theorem scroll_serves {pages : List (List ι)} {c : Option κ} {s : σ} (h : Serves serve pages c s)
    (n : ℕ) (t : τ) : (scroll serve add n c s t).2 = some ((pages.take n).foldl add t) := by
  induction pages generalizing n c s t with
  | nil => exact h.elim
  | cons items pages ih =>
    cases n with
    | zero => rfl
    | succ n =>
      cases pages with
      | nil =>
        obtain ⟨s',hserve⟩ := h
        rw [scroll,hserve]
        cases n <;> rfl
      | cons items' pages =>
        obtain ⟨s',next,hserve,hne,hrest⟩ := h
        rw [scroll,hserve]
        dsimp only
        rw [if_neg hne]
        exact ih hrest n _

theorem Answers.length_le {n : ℕ} {pages : List (List ι)} {c : Option κ} {s : σ}
    (h : Answers serve n pages c s) : pages.length ≤ n := by
  induction n generalizing pages c s with
  | zero =>
    have hnil : pages = [] := h
    exact hnil ▸ Nat.le_refl 0
  | succ n ih =>
    cases pages with
    | nil => exact Nat.zero_le _
    | cons items pages =>
      obtain ⟨s',next,-,hrest⟩ := h
      split at hrest
      · exact hrest ▸ Nat.succ_le_succ (Nat.zero_le n)
      · exact Nat.succ_le_succ (ih hrest)

/-- Whatever the server answers, a scroll that does not raise is the pages of its answers. -/
theorem scroll_answers (n : ℕ) (c : Option κ) (s : σ) (t : τ) {t' : τ}
    (h : (scroll serve add n c s t).2 = some t') : ∃ pages, Answers serve n pages c s ∧
      t' = pages.foldl add t := by
  induction n generalizing c s t with
  | zero => exact ⟨[],rfl,(Option.some.inj h).symm⟩
  | succ n ih =>
    rw [scroll] at h
    split at h
    · cases h
    · rename_i s' hserve
      exact ⟨[],⟨s',hserve⟩,(Option.some.inj h).symm⟩
    · rename_i s' items hserve
      refine ⟨[items],⟨s',none,hserve,?_⟩,(Option.some.inj h).symm⟩
      rw [if_pos (.inl rfl)]
    · rename_i s' items next hserve
      split at h
      · rename_i hstalled
        refine ⟨[items],⟨s',some next,hserve,?_⟩,(Option.some.inj h).symm⟩
        rw [if_pos (.inr hstalled)]
      · rename_i hne
        obtain ⟨pages,hanswers,heq⟩ := ih (some next) s' (add t items) h
        refine ⟨items::pages,⟨s',some next,hserve,?_⟩,heq⟩
        rw [if_neg (not_or.mpr ⟨Option.some_ne_none _,hne⟩)]
        exact hanswers

theorem scroll_returns (hserve : ∀ c s, (serve c s).2 ≠ .raised) (n : ℕ) (c : Option κ) (s : σ)
    (t : τ) : ∃ t', (scroll serve add n c s t).2 = some t' := by
  induction n generalizing c s t with
  | zero => exact ⟨t,rfl⟩
  | succ n ih =>
    rw [scroll]
    split
    · rename_i s' hraised
      exact absurd (congrArg Prod.snd hraised) (hserve c s)
    · exact ⟨_,rfl⟩
    · exact ⟨_,rfl⟩
    · split
      · exact ⟨_,rfl⟩
      · exact ih _ _ _

end Cursor

end PagedReads
end Dataspoke
