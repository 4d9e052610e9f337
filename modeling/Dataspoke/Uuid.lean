import Dataspoke.Pydantic

/-!
# The text of UUIDs

A UUID is a number below `2^128`, written as 32 lower-case hexadecimal digits in five groups.
-/

namespace Dataspoke
namespace Uuid

open Python

/-- The last `w` hexadecimal digits of a number. -/
def hex : ℕ → ℕ → Str
  | 0, _ => []
  | w+1, n => hex w (n/16) ++ [(n%16).digitChar]

/-- The digits in groups of 8, 4, 4, 4 and 12. -/
def grouped (s : Str) : Str :=
  s.take 8 ++ '-'::((s.drop 8).take 4 ++ '-'::((s.drop 12).take 4 ++
    '-'::((s.drop 16).take 4 ++ '-'::s.drop 20)))

/-- `str(uid)`. -/
def str (uid : ℕ) : Str := grouped (hex 32 uid)

def hexValue (c : Char) : Option ℕ :=
  if '0' ≤ c ∧ c ≤ '9' then some (c.toNat-48)
  else if 'a' ≤ c ∧ c ≤ 'f' then some (c.toNat-87)
  else if 'A' ≤ c ∧ c ≤ 'F' then some (c.toNat-55)
  else none

def value (s : Str) : Option ℕ :=
  s.foldlM (fun n c => (hexValue c).map (16*n+·)) 0

/-- `s.replace(pattern, "")`, for a pattern that is not empty; `skip` characters are still to be
left out. -/
def without (pattern : Str) : (skip : ℕ) → Str → Str
  | _, [] => []
  | skip+1, _::s => without pattern skip s
  | 0, c::s =>
    if pattern <+: c::s then without pattern (pattern.length-1) s
    else c::without pattern 0 s

def isBrace (c : Char) : Bool := c.toNat = 0x7b || c.toNat = 0x7d

def isHyphen (c : Char) : Bool := c = '-'

/-- `uuid.UUID(text)`: 32 hexadecimal digits, once a URN prefix, braces and hyphens are left
out. -/
def UUID (text : Str) : Option ℕ :=
  let bare := without "uuid:".toList 0 (without "urn:".toList 0 text)
  let digits := (Pydantic.strip isBrace bare).filter fun c => !isHyphen c
  if digits.length = 32 then value digits else none

theorem length_hex (w n : ℕ) : (hex w n).length = w := by
  induction w generalizing n with
  | zero => rfl
  | succ w ih => rw [hex,List.length_append,ih]; rfl

theorem mem_hex {w n : ℕ} {c : Char} (h : c ∈ hex w n) : ∃ d < 16, c = d.digitChar := by
  induction w generalizing n with
  | zero => cases h
  | succ w ih =>
    rcases List.mem_append.mp h with h | h
    · exact ih h
    · exact ⟨n%16,Nat.mod_lt _ (by decide),List.mem_singleton.mp h⟩

theorem hexValue_digitChar {d : ℕ} (h : d < 16) : hexValue d.digitChar = some d := by
  have hall : ∀ d < 16, hexValue d.digitChar = some d := by decide
  exact hall d h

theorem value_hex {w n : ℕ} (h : n < 16^w) : value (hex w n) = some n := by
  induction w generalizing n with
  | zero =>
    have hn : n = 0 := by simpa using h
    rw [hn]
    rfl
  | succ w ih =>
    have hdiv : n/16 < 16^w := by
      rw [pow_succ] at h
      exact Nat.div_lt_of_lt_mul (by rwa [mul_comm])
    have hmod : n%16 < 16 := Nat.mod_lt _ (by decide)
    have hlast : (hexValue (n%16).digitChar).map (16*(n/16)+·) = some n := by
      rw [hexValue_digitChar hmod,Option.map_some,Nat.div_add_mod]
    have hrest : (hex w (n/16)).foldlM (fun n c => (hexValue c).map (16*n+·)) 0 = some (n/16) :=
      ih hdiv
    rw [value,hex,List.foldlM_append,hrest]
    simp [hlast]

theorem mem_grouped {s : Str} {c : Char} (h : c ∈ grouped s) : c = '-' ∨ c ∈ s := by
  have htake : ∀ m k, c ∈ (s.drop m).take k → c ∈ s := fun m k h =>
    List.mem_of_mem_drop (List.mem_of_mem_take h)
  simp only [grouped,List.mem_append,List.mem_cons] at h
  rcases h with h | h | h | h | h | h | h | h | h
  · exact .inr (List.mem_of_mem_take h)
  · exact .inl h
  · exact .inr (htake _ _ h)
  · exact .inl h
  · exact .inr (htake _ _ h)
  · exact .inl h
  · exact .inr (htake _ _ h)
  · exact .inl h
  · exact .inr (List.mem_of_mem_drop h)

/-- Without the hyphens the groups are the digits again. -/
theorem filter_grouped {s : Str} (h : ∀ c ∈ s, isHyphen c = false) :
    (grouped s).filter (fun c => !isHyphen c) = s := by
  have hkeep : ∀ t : Str, t ⊆ s → t.filter (fun c => !isHyphen c) = t := by
    intro t ht
    refine List.filter_eq_self.mpr fun c hc => ?_
    rw [h c (ht hc)]
    rfl
  have hjoin : ∀ m k, (s.drop m).take k ++ s.drop (m+k) = s.drop m := by
    intro m k
    rw [← List.drop_drop]
    exact List.take_append_drop k (s.drop m)
  have htake : ∀ m k, (s.drop m).take k ⊆ s := fun m k _ h =>
    List.mem_of_mem_drop (List.mem_of_mem_take h)
  have hhyphen : ∀ t : Str, ('-'::t).filter (fun c => !isHyphen c) =
      t.filter fun c => !isHyphen c := fun t => rfl
  rw [grouped,List.filter_append,hhyphen,List.filter_append,hhyphen,List.filter_append,hhyphen,
    List.filter_append,hhyphen,hkeep _ (List.take_subset 8 s),hkeep _ (htake 8 4),
    hkeep _ (htake 12 4),hkeep _ (htake 16 4),hkeep _ (List.drop_subset 20 s),hjoin 16 4,
    hjoin 12 4,hjoin 8 4,List.take_append_drop]

/-- A pattern whose first character does not occur is not found. -/
theorem without_eq_self {a : Char} {pattern s : Str} (h : a ∉ s) :
    without (a::pattern) 0 s = s := by
  induction s with
  | nil => rfl
  | cons c s ih =>
    have hc : ¬ a::pattern <+: c::s := by
      intro hp
      exact h (List.mem_cons.mpr (.inl (List.cons_prefix_cons.mp hp).1))
    rw [without,if_neg hc,ih fun hs => h (List.mem_cons_of_mem _ hs)]

theorem strip_eq_self {p : Char → Bool} {s : Str} (h : ∀ c ∈ s, p c = false) :
    Pydantic.strip p s = s := by
  have hdrop : s.dropWhile p = s := by
    rw [List.dropWhile_eq_self_iff]
    intro hl
    simp [h _ (List.getElem_mem hl)]
  rw [Pydantic.strip,hdrop,List.rdropWhile_eq_self_iff]
  intro hne
  simp [h _ (List.getLast_mem hne)]

theorem mem_str {uid : ℕ} {c : Char} (h : c ∈ str uid) : c = '-' ∨ ∃ d < 16, c = d.digitChar :=
  (mem_grouped h).imp_right mem_hex

theorem UUID_str {uid : ℕ} (h : uid < 2^128) : UUID (str uid) = some uid := by
  have hdigit : ∀ d < 16, isHyphen d.digitChar = false ∧ isBrace d.digitChar = false ∧
      d.digitChar ≠ 'u' := by decide
  have hu : 'u' ∉ str uid := by
    intro hmem
    rcases mem_str hmem with he | ⟨d,hd,he⟩
    · exact absurd he (by decide)
    · exact (hdigit d hd).2.2 he.symm
  have hbrace : ∀ c ∈ str uid, isBrace c = false := by
    intro c hc
    rcases mem_str hc with rfl | ⟨d,hd,rfl⟩
    · decide
    · exact (hdigit d hd).2.1
  have hstrip : Pydantic.strip isBrace (str uid) = str uid := strip_eq_self hbrace
  have hhyphen : ∀ c ∈ hex 32 uid, isHyphen c = false := by
    intro c hc
    obtain ⟨d,hd,rfl⟩ := mem_hex hc
    exact (hdigit d hd).1
  have hbare : without "uuid:".toList 0 (without "urn:".toList 0 (str uid)) = str uid := by
    have hurn : without "urn:".toList 0 (str uid) = str uid := without_eq_self hu
    rw [hurn]
    exact without_eq_self hu
  have hdigits : (str uid).filter (fun c => !isHyphen c) = hex 32 uid := filter_grouped hhyphen
  rw [UUID,hbare,hstrip,hdigits,if_pos (length_hex 32 uid)]
  exact value_hex (h.trans_eq (by decide))

theorem str_injective {a b : ℕ} (ha : a < 2^128) (hb : b < 2^128) (h : str a = str b) : a = b := by
  have hab : some a = some b := by rw [← UUID_str ha,← UUID_str hb,h]
  exact Option.some.inj hab

end Uuid
end Dataspoke
