import Mathlib.Data.List.Basic

/-!
# UTF-16

The code units of a text. A character in the basic plane is one unit of the same number, any
other a pair of surrogates.
-/

namespace Dataspoke
namespace Utf16

def units (c : Char) : List UInt16 :=
  if c.toNat < 0x10000 then [UInt16.ofNat c.toNat]
  else [UInt16.ofNat (0xd800 + (c.toNat-0x10000)/0x400),
    UInt16.ofNat (0xdc00 + (c.toNat-0x10000)%0x400)]

def encode (s : List Char) : List UInt16 := s.flatMap units

@[simp] theorem encode_nil : encode [] = [] := rfl

@[simp] theorem encode_cons (c : Char) (s : List Char) : encode (c::s) = units c ++ encode s :=
  rfl

@[simp] theorem encode_append (s t : List Char) : encode (s ++ t) = encode s ++ encode t :=
  List.flatMap_append

/-- A character is no surrogate. -/
theorem toNat_cases (c : Char) : c.toNat < 0xd800 ∨ 0xdfff < c.toNat ∧ c.toNat < 0x110000 :=
  c.valid

theorem units_eq {c : Char} (h : c.toNat < 0x10000) : units c = [UInt16.ofNat c.toNat] :=
  if_pos h

/-- The first unit tells a character of the basic plane from a pair. -/
theorem head_units (c : Char) : ∃ u us, units c = u::us ∧
    (c.toNat < 0x10000 → u.toNat = c.toNat ∧ us = []) ∧
    (0x10000 ≤ c.toNat → 0xd800 ≤ u.toNat ∧ u.toNat ≤ 0xdbff ∧
      ∃ v, us = [v] ∧ c.toNat = 0x10000 + (u.toNat-0xd800)*0x400 + (v.toNat-0xdc00)) := by
  have hc := toNat_cases c
  unfold units
  split
  · refine ⟨_,_,rfl,fun _ => ⟨?_,rfl⟩,fun h => by omega⟩
    rw [UInt16.toNat_ofNat_of_lt' (by simp only [UInt16.size]; omega)]
  · have hu : (UInt16.ofNat (0xd800 + (c.toNat-0x10000)/0x400)).toNat =
        0xd800 + (c.toNat-0x10000)/0x400 := UInt16.toNat_ofNat_of_lt' (by simp only [UInt16.size]; omega)
    have hv : (UInt16.ofNat (0xdc00 + (c.toNat-0x10000)%0x400)).toNat =
        0xdc00 + (c.toNat-0x10000)%0x400 := UInt16.toNat_ofNat_of_lt' (by simp only [UInt16.size]; omega)
    refine ⟨_,_,rfl,fun h => by omega,fun _ => ?_⟩
    rw [hu]
    refine ⟨by omega,by omega,_,rfl,?_⟩
    rw [hv]
    omega

theorem mem_units {c : Char} {u : UInt16} (h : u ∈ units c) :
    u.toNat = c.toNat ∨ 0x10000 ≤ c.toNat ∧ 0xd800 ≤ u.toNat := by
  have hc := toNat_cases c
  unfold units at h
  split at h
  · rw [List.mem_singleton.mp h]
    exact .inl (UInt16.toNat_ofNat_of_lt' (by simp only [UInt16.size]; omega))
  · refine .inr ⟨by omega,?_⟩
    rcases List.mem_pair.mp h with rfl | rfl
    all_goals rw [UInt16.toNat_ofNat_of_lt' (by simp only [UInt16.size]; omega)]; omega

theorem toNat_inj {c d : Char} (h : c.toNat = d.toNat) : c = d :=
  Char.ext (UInt32.toNat_inj.mp h)

/-- A text starts with one character only. -/
theorem units_append_inj {c d : Char} {s t : List UInt16} (h : units c ++ s = units d ++ t) :
    c = d ∧ s = t := by
  obtain ⟨u,us,hu,hsmall,hbig⟩ := head_units c
  obtain ⟨v,vs,hv,hsmall',hbig'⟩ := head_units d
  rw [hu,hv,List.cons_append,List.cons_append] at h
  obtain ⟨rfl,htail⟩ := List.cons.inj h
  have hc := toNat_cases c
  have hd := toNat_cases d
  by_cases hcs : c.toNat < 0x10000
  · obtain ⟨hcu,rfl⟩ := hsmall hcs
    by_cases hds : d.toNat < 0x10000
    · obtain ⟨hdu,rfl⟩ := hsmall' hds
      exact ⟨toNat_inj (hcu.symm.trans hdu),htail⟩
    · obtain ⟨hlo,hhi,-⟩ := hbig' (by omega)
      omega
  · obtain ⟨hlo,hhi,w,rfl,hcw⟩ := hbig (by omega)
    by_cases hds : d.toNat < 0x10000
    · obtain ⟨hdu,-⟩ := hsmall' hds
      omega
    · obtain ⟨-,-,w',rfl,hdw⟩ := hbig' (by omega)
      obtain ⟨hw,hst⟩ := List.cons.inj htail
      rw [← hw] at hdw
      exact ⟨toNat_inj (hcw.trans hdw.symm),hst⟩

theorem units_ne_nil (c : Char) : units c ≠ [] := by
  obtain ⟨u,us,hu,-⟩ := head_units c
  simp [hu]

theorem encode_injective {s t : List Char} (h : encode s = encode t) : s = t := by
  induction s generalizing t with
  | nil =>
    cases t with
    | nil => rfl
    | cons d t => simp [units_ne_nil] at h
  | cons c s ih =>
    cases t with
    | nil => simp [units_ne_nil] at h
    | cons d t =>
      obtain ⟨rfl,htail⟩ := units_append_inj h
      rw [ih htail]

end Utf16
end Dataspoke
