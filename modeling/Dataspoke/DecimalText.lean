import Dataspoke.Python
import Mathlib.Data.List.Lex
import Mathlib.Data.Char

/-! # Decimal numerals in lexicographic order -/

namespace Dataspoke
namespace DecimalText

open Python

/-- Texts of one length are ordered by their first difference, whatever follows them. -/
theorem append_lt {a b : Str} (hlen : a.length = b.length) (h : a < b) (s t : Str) :
    a ++ s < b ++ t := by
  induction a generalizing b with
  | nil =>
    obtain rfl := List.length_eq_zero_iff.mp hlen.symm
    exact absurd h (lt_irrefl _)
  | cons c a ih =>
    cases b with
    | nil => cases hlen
    | cons d b =>
      rw [List.cons_append,List.cons_append]
      rcases List.cons_lt_cons_iff.mp h with hlt | ⟨rfl,hlt⟩
      · exact List.cons_lt_cons_iff.mpr (Or.inl hlt)
      · exact List.cons_lt_cons_iff.mpr (Or.inr ⟨rfl,ih (Nat.succ.inj hlen) hlt⟩)

theorem digitChar_lt {m n : ℕ} (h : m < n) (hn : n < 10) : m.digitChar < n.digitChar := by
  have hall : ∀ n < 10, ∀ m < n, m.digitChar < n.digitChar := by decide
  exact hall n hn m h

theorem toDigits_lt {m n : ℕ} (hlen : (Nat.toDigits 10 m).length = (Nat.toDigits 10 n).length)
    (h : m < n) : Nat.toDigits 10 m < Nat.toDigits 10 n := by
  induction m using Nat.strong_induction_on generalizing n with
  | _ m ih =>
    by_cases hn : n < 10
    · rw [Nat.toDigits_of_lt_base (h.trans hn),Nat.toDigits_of_lt_base hn]
      exact List.cons_lt_cons_iff.mpr (Or.inl (digitChar_lt h hn))
    have hn' : Nat.toDigits 10 n = Nat.toDigits 10 (n/10) ++ [(n%10).digitChar] :=
      Nat.toDigits_of_base_le (by decide) (by omega)
    by_cases hm : m < 10
    · rw [Nat.toDigits_of_lt_base hm,hn',List.length_append] at hlen
      have hpos : 0 < (Nat.toDigits 10 (n/10)).length := Nat.length_toDigits_pos
      simp only [List.length_singleton] at hlen
      omega
    have hm' : Nat.toDigits 10 m = Nat.toDigits 10 (m/10) ++ [(m%10).digitChar] :=
      Nat.toDigits_of_base_le (by decide) (by omega)
    rw [hm',hn',List.length_append,List.length_append] at hlen
    rw [hm',hn']
    by_cases hq : m/10 = n/10
    · rw [hq]
      refine List.append_left_lt (List.cons_lt_cons_iff.mpr (Or.inl (digitChar_lt ?_ ?_)))
      · omega
      · omega
    · exact append_lt (by simpa using hlen) (ih (m/10) (by omega) (by simpa using hlen)
        (by omega)) _ _

/-- `String(n).padStart(2, "0")`. -/
def pad (n : ℕ) : Str := (Nat.toDigits 10 n).leftpad 2 '0'

theorem pad_eq {n : ℕ} (h : n < 100) : pad n = [(n/10).digitChar,(n%10).digitChar] := by
  by_cases hn : n < 10
  · have h0 : n/10 = 0 := by omega
    have h1 : n%10 = n := by omega
    rw [pad,Nat.toDigits_of_lt_base hn,h0,h1]
    rfl
  · rw [pad,Nat.toDigits_of_base_le (by decide) (by omega),Nat.toDigits_of_lt_base (by omega)]
    rfl

theorem length_pad {n : ℕ} (h : n < 100) : (pad n).length = 2 := by rw [pad_eq h]; rfl

theorem pad_lt {m n : ℕ} (h : m < n) (hn : n < 100) : pad m < pad n := by
  rw [pad_eq (h.trans hn),pad_eq hn]
  by_cases hq : m/10 = n/10
  · rw [hq]
    refine List.cons_lt_cons_iff.mpr (Or.inr ⟨rfl,List.cons_lt_cons_iff.mpr (Or.inl ?_)⟩)
    exact digitChar_lt (by omega) (by omega)
  · exact List.cons_lt_cons_iff.mpr (Or.inl (digitChar_lt (by omega) (by omega)))

end DecimalText
end Dataspoke
