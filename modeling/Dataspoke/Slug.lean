import Dataspoke.Python
import Mathlib.Data.List.DropRight
import Mathlib.Data.List.Nodup
import Mathlib.Data.List.Perm.Subperm
import Mathlib.Data.List.Range

/-!
# Slugs

`to_snake`, `make_snake_id` and the two id assertions of the ontology. The NFKD tables of
`unicodedata` are a parameter.
-/

namespace Dataspoke
namespace Slug

open Python

def MAX_SLUG : ℕ := 64

/-- A character of `[a-z0-9]`. -/
def alnum (c : Char) : Bool := ('a' ≤ c && c ≤ 'z') || ('0' ≤ c && c ≤ '9')

/-- A character of `[a-z0-9_]`. -/
def slugChar (c : Char) : Bool := alnum c || c = '_'

/-- `re.sub(r"[^a-z0-9]+", "_", s)`; `skip` holds inside a run that is already replaced. -/
def collapse : (skip : Bool) → Str → Str
  | _, [] => []
  | skip, c::cs =>
    if alnum c then c::collapse false cs
    else if skip then collapse true cs else '_'::collapse true cs

def isUnderscore (c : Char) : Bool := c = '_'

/-- `s.strip("_")`. -/
def stripUnderscores (s : Str) : Str :=
  (s.dropWhile isUnderscore).rdropWhile isUnderscore

def to_snake (nfkd : Str → Str) (text : Str) : Str :=
  let normalized := (nfkd text).filter fun c => c.toNat < 128
  let slug := stripUnderscores (collapse false (lower normalized))
  if slug = [] then ['x'] else slug

/-- `"__" in s`. -/
def hasDouble : Str → Bool
  | '_' :: '_' :: _ => true
  | _::cs => hasDouble cs
  | [] => false

/-- `s.replace("__", "_")`. -/
def replaceDouble : Str → Str
  | '_' :: '_' :: cs => '_' :: replaceDouble cs
  | c::cs => c::replaceDouble cs
  | [] => []

/-- `f"{base}_{counter}"`. -/
def suffixed (base : Str) (counter : ℕ) : Str := base ++ '_'::Nat.toDigits 10 counter

/-- The loop of `make_snake_id`. -/
def freshFrom (existing : List Str) (base : Str) : (fuel counter : ℕ) → Str → Str
  | 0, _, candidate => candidate
  | fuel+1, counter, candidate =>
    if candidate ∈ existing ∨ hasDouble candidate then
      freshFrom existing base fuel (counter+1) (suffixed base counter)
    else candidate

/-- One candidate more than there are ids to avoid is enough. -/
def make_snake_id (nfkd : Str → Str) (name : Str) (existing : List Str) : Str :=
  let base := replaceDouble (to_snake nfkd name)
  freshFrom existing base (existing.length+1) 1 base

/-- `SLUG_ID_RE.match(s)`; `$` also matches before a closing newline. -/
def isSlug (s : Str) : Bool :=
  let word := s.takeWhile slugChar
  let rest := s.dropWhile slugChar
  0 < word.length && word.length ≤ MAX_SLUG && (rest = [] || rest = ['\n'])

/-- `assert_node_id` and `assert_edge_id` raise unless their argument is a slug. -/
def assert_node_id (node_id : Str) : Bool := isSlug node_id

def assert_edge_id (edge_id : Str) : Bool := isSlug edge_id

theorem hasDouble_cons (c : Char) (s : Str) :
    hasDouble (c::s) = (hasDouble s || (c = '_' && s.head? = some '_')) := by
  cases s with
  | nil => cases h : decide (c = '_') <;> simp_all [hasDouble]
  | cons d s =>
    by_cases hc : c = '_' <;> by_cases hd : d = '_' <;> simp [hasDouble,hc,hd]

theorem hasDouble_append (s t : Str) :
    hasDouble (s ++ t) =
      (hasDouble s || hasDouble t || (s.getLast? = some '_' && t.head? = some '_')) := by
  induction s with
  | nil => simp [hasDouble]
  | cons c s ih =>
    rw [List.cons_append,hasDouble_cons,hasDouble_cons,ih]
    cases s with
    | nil => simp [hasDouble,Bool.or_comm]
    | cons d s =>
      simp only [List.cons_append,List.head?_cons,List.getLast?_cons_cons]
      cases hasDouble (d::s) <;> cases hasDouble t <;> simp [Bool.or_comm]

theorem hasDouble_of_substring {s t : Str} (h : s <:+: t) (ht : hasDouble t = false) :
    hasDouble s = false := by
  obtain ⟨a,b,rfl⟩ := h
  simp only [hasDouble_append,Bool.or_eq_false_iff] at ht
  exact ht.1.1.1.2

theorem replaceDouble_of_not {s : Str} (h : hasDouble s = false) : replaceDouble s = s := by
  fun_induction replaceDouble s with
  | case1 => simp [hasDouble] at h
  | case2 c s _ ih =>
    rw [hasDouble_cons,Bool.or_eq_false_iff] at h
    rw [ih h.1]
  | case3 => rfl

/-- What `to_snake` returns: slug characters, no double underscore, no underscore at the
end, and never the empty text. -/
structure IsSnake (s : Str) : Prop where
  chars : ∀ c ∈ s, slugChar c = true
  single : hasDouble s = false
  last : s.getLast? ≠ some '_'
  ne_nil : s ≠ []

theorem collapse_chars (skip : Bool) (s : Str) :
    ∀ c ∈ collapse skip s, slugChar c = true := by
  fun_induction collapse skip s with
  | case1 => simp
  | case2 _ c cs hc ih =>
    refine List.forall_mem_cons.mpr ⟨?_,ih⟩
    simp [slugChar,hc]
  | case3 _ _ _ ih => exact ih
  | case4 _ _ _ _ _ ih => exact List.forall_mem_cons.mpr ⟨by decide,ih⟩

theorem alnum_ne_underscore {c : Char} (h : alnum c = true) : c ≠ '_' := by
  rintro rfl
  revert h
  decide

theorem collapse_single (skip : Bool) (s : Str) :
    hasDouble (collapse skip s) = false ∧
      (skip = true → (collapse skip s).head? ≠ some '_') := by
  fun_induction collapse skip s with
  | case1 => simp [hasDouble]
  | case2 _ c cs hc ih =>
    rw [hasDouble_cons,ih.1]
    simp [alnum_ne_underscore hc]
  | case3 _ _ _ ih => exact ⟨ih.1,fun _ => ih.2 rfl⟩
  | case4 _ _ _ _ hskip ih =>
    rw [hasDouble_cons,ih.1]
    exact ⟨by simp [ih.2 rfl],fun h => absurd h hskip⟩

theorem stripUnderscores_substring (s : Str) : stripUnderscores s <:+: s :=
  ( List.rdropWhile_prefix _ _).isInfix.trans (List.dropWhile_suffix _).isInfix

theorem strip_last (s : Str) : (stripUnderscores s).getLast? ≠ some '_' := by
  unfold stripUnderscores
  generalize s.dropWhile isUnderscore = t
  by_cases h : t.rdropWhile isUnderscore = []
  · simp [h]
  · rw [List.getLast?_eq_some_getLast h]
    intro he
    have := List.rdropWhile_last_not isUnderscore t h
    rw [Option.some.inj he] at this
    exact this rfl

theorem isSnake_to_snake (nfkd : Str → Str) (text : Str) : IsSnake (to_snake nfkd text) := by
  unfold to_snake
  dsimp only
  split
  · exact ⟨List.all_eq_true.mp rfl,by decide,by decide,by decide⟩
  · rename_i hne
    refine ⟨fun c hc => ?_,?_,strip_last _,hne⟩
    · exact collapse_chars _ _ c ((stripUnderscores_substring _).subset hc)
    · exact hasDouble_of_substring (stripUnderscores_substring _) (collapse_single _ _).1

theorem suffixed_injective (base : Str) : Function.Injective (suffixed base) := by
  intro m n h
  have hd : Nat.toDigits 10 m = Nat.toDigits 10 n := by simpa [suffixed] using h
  rw [← Nat.ofDigitChars_ten_toDigits (n:=m),hd,Nat.ofDigitChars_ten_toDigits]

theorem slugChar_of_isDigit {c : Char} (h : c.isDigit = true) : slugChar c = true := by
  simp only [Char.isDigit,Bool.and_eq_true,decide_eq_true_eq] at h
  simp only [slugChar,alnum,Bool.or_eq_true,Bool.and_eq_true,decide_eq_true_eq]
  exact .inl (.inr h)

theorem hasDouble_of_not_mem {s : Str} (h : '_' ∉ s) : hasDouble s = false := by
  induction s with
  | nil => rfl
  | cons c s ih =>
    rw [List.mem_cons,not_or] at h
    rw [hasDouble_cons,ih h.2]
    simp [Ne.symm h.1]

theorem isSnake_suffixed {base : Str} (h : IsSnake base) (n : ℕ) :
    IsSnake (suffixed base n) := by
  have hdigits : '_' ∉ Nat.toDigits 10 n := Nat.underscore_not_in_toDigits
  have hsingle := hasDouble_of_not_mem hdigits
  refine ⟨fun c hc => ?_,?_,?_,by simp [suffixed]⟩
  · rcases List.mem_append.mp hc with hc | hc
    · exact h.chars c hc
    · rcases List.mem_cons.mp hc with rfl | hc
      · decide
      · exact slugChar_of_isDigit (Nat.isDigit_of_mem_toDigits (by decide) (by decide) hc)
  · have hhead : (Nat.toDigits 10 n).head? ≠ some '_' := fun he =>
      hdigits (List.mem_of_mem_head? he)
    rw [suffixed,hasDouble_append,hasDouble_cons,h.single,hsingle]
    simp [h.last,hhead]
  · rw [suffixed,List.append_cons,List.getLast?_append_of_ne_nil _ Nat.toDigits_ne_nil]
    exact fun he => hdigits (List.mem_of_getLast? he)

def candidate (base : Str) : ℕ → Str
  | 0 => base
  | n+1 => suffixed base (n+1)

theorem candidate_injective (base : Str) : Function.Injective (candidate base) := by
  have hne : ∀ n, base ≠ suffixed base n := by
    intro n h
    simpa [suffixed] using congrArg List.length h
  intro m n h
  cases m with
  | zero =>
    cases n with
    | zero => rfl
    | succ n => exact absurd h (hne _)
  | succ m =>
    cases n with
    | zero => exact absurd h.symm (hne _)
    | succ n => exact suffixed_injective base h

theorem isSnake_candidate {base : Str} (h : IsSnake base) (n : ℕ) :
    IsSnake (candidate base n) := by
  cases n with
  | zero => exact h
  | succ n => exact isSnake_suffixed h _

theorem exists_free (base : Str) (existing : List Str) :
    ∃ n ≤ existing.length, candidate base n ∉ existing := by
  by_contra hall
  push Not at hall
  have hsub : (List.range (existing.length+1)).map (candidate base) ⊆ existing := by
    intro s hs
    obtain ⟨n,hn,rfl⟩ := List.mem_map.mp hs
    exact hall n (Nat.lt_succ_iff.mp (List.mem_range.mp hn))
  have hnd : ((List.range (existing.length+1)).map (candidate base)).Nodup :=
    List.nodup_range.map (candidate_injective base)
  have := (hnd.subperm hsub).length_le
  simp at this

/-- The loop stops at the first free candidate when one is within its fuel. -/
theorem freshFrom_spec {base : Str} (hb : IsSnake base) (existing : List Str) (fuel n : ℕ)
    (hfree : ∃ k, n ≤ k ∧ k ≤ n + fuel ∧ candidate base k ∉ existing) :
    ∃ k, freshFrom existing base fuel (n+1) (candidate base n) = candidate base k ∧
      candidate base k ∉ existing ∧ ∀ j, n ≤ j → j < k → candidate base j ∈ existing := by
  induction fuel generalizing n with
  | zero =>
    obtain ⟨k,hnk,hkn,hk⟩ := hfree
    obtain rfl : k = n := by omega
    exact ⟨k,rfl,hk,fun j hj hlt => absurd hj (by omega)⟩
  | succ fuel ih =>
    by_cases hn : candidate base n ∈ existing
    · obtain ⟨k,hnk,hkn,hk⟩ := hfree
      have hne : k ≠ n := by
        rintro rfl
        exact hk hn
      obtain ⟨k',hk',hnew,hearlier⟩ := ih (n+1) ⟨k,by omega,by omega,hk⟩
      rw [freshFrom,if_pos (.inl hn)]
      refine ⟨k',hk',hnew,fun j hj hlt => ?_⟩
      by_cases hjn : j = n
      · rw [hjn]
        exact hn
      · exact hearlier j (by omega) hlt
    · rw [freshFrom,if_neg (by simp [hn,(isSnake_candidate hb n).single])]
      exact ⟨n,rfl,hn,fun j hj hlt => absurd hj (by omega)⟩

theorem make_snake_id_eq (nfkd : Str → Str) (name : Str) (existing : List Str) :
    ∃ k, make_snake_id nfkd name existing = candidate (to_snake nfkd name) k ∧
      candidate (to_snake nfkd name) k ∉ existing ∧
        ∀ j < k, candidate (to_snake nfkd name) j ∈ existing := by
  have hb := isSnake_to_snake nfkd name
  obtain ⟨n,hn,hfree⟩ := exists_free (to_snake nfkd name) existing
  obtain ⟨k,hk,hnew,hearlier⟩ := freshFrom_spec hb existing (existing.length+1) 0
    ⟨n,Nat.zero_le n,by omega,hfree⟩
  refine ⟨k,?_,hnew,fun j hj => hearlier j (Nat.zero_le j) hj⟩
  rw [← hk]
  simp only [make_snake_id,replaceDouble_of_not hb.single]
  rfl

/-- `make_snake_id` always returns a new id, and a slug but for its length. -/
theorem make_snake_id_spec (nfkd : Str → Str) (name : Str) (existing : List Str) :
    make_snake_id nfkd name existing ∉ existing ∧
      IsSnake (make_snake_id nfkd name existing) := by
  obtain ⟨k,heq,hnew,-⟩ := make_snake_id_eq nfkd name existing
  rw [heq]
  exact ⟨hnew,isSnake_candidate (isSnake_to_snake nfkd name) k⟩

theorem strip_head (s : Str) : (stripUnderscores s).head? ≠ some '_' := by
  unfold stripUnderscores
  intro hhead
  have hprefix := List.rdropWhile_prefix isUnderscore (s.dropWhile isUnderscore)
  have hdrop : (s.dropWhile isUnderscore).head? = some '_' := by
    obtain ⟨rest,hrest⟩ := hprefix
    rw [← hrest,List.head?_append,hhead]
    rfl
  have hnot := List.head?_dropWhile_not isUnderscore s
  rw [hdrop] at hnot
  exact Bool.noConfusion hnot

theorem to_snake_head (nfkd : Str → Str) (text : Str) : (to_snake nfkd text).head? ≠ some '_' := by
  unfold to_snake
  dsimp only
  split
  · decide
  · exact strip_head _

/-- Text without a run of replaced characters is left. -/
theorem collapse_eq_self {skip : Bool} {s : Str} (hchars : ∀ c ∈ s, slugChar c = true)
    (hsingle : hasDouble s = false) (hhead : skip = true → s.head? ≠ some '_') :
    collapse skip s = s := by
  have hunder : ∀ {c : Char}, slugChar c = true → ¬ alnum c = true → c = '_' := by
    intro c hc hnot
    simpa [slugChar,hnot] using hc
  fun_induction collapse skip s with
  | case1 => rfl
  | case2 skip c s hc ih =>
    rw [hasDouble_cons,Bool.or_eq_false_iff] at hsingle
    rw [ih (fun d hd => hchars d (List.mem_cons_of_mem _ hd)) hsingle.1 nofun]
  | case3 c s hc ih =>
    have hc' := hunder (hchars c List.mem_cons_self) hc
    exact absurd (congrArg some hc') (hhead rfl)
  | case4 skip c s hc hskip ih =>
    obtain rfl := hunder (hchars c List.mem_cons_self) hc
    rw [hasDouble_cons,Bool.or_eq_false_iff] at hsingle
    rw [ih (fun d hd => hchars d (List.mem_cons_of_mem _ hd)) hsingle.1
      fun _ => by simpa using hsingle.2]

theorem stripUnderscores_eq_self {s : Str} (hhead : s.head? ≠ some '_')
    (hlast : s.getLast? ≠ some '_') : stripUnderscores s = s := by
  have hdrop : s.dropWhile isUnderscore = s := by
    cases s with
    | nil => rfl
    | cons c s =>
      refine List.dropWhile_cons_of_neg fun hc => hhead ?_
      rw [of_decide_eq_true hc]
      rfl
  rw [stripUnderscores,hdrop,List.rdropWhile_eq_self_iff]
  intro hne hc
  rw [List.getLast?_eq_some_getLast hne] at hlast
  exact hlast (congrArg some (of_decide_eq_true hc))

theorem slugChar_ascii {c : Char} (h : slugChar c = true) : c.toNat < 128 ∧ c.toLower = c := by
  have hrange : 97 ≤ c.toNat ∧ c.toNat ≤ 122 ∨ 48 ≤ c.toNat ∧ c.toNat ≤ 57 ∨ c.toNat = 95 := by
    simp only [slugChar,alnum,Bool.or_eq_true,Bool.and_eq_true,decide_eq_true_eq,or_assoc] at h
    rcases h with h | h | rfl
    · exact Or.inl h
    · exact Or.inr (Or.inl h)
    · exact Or.inr (Or.inr rfl)
  refine ⟨by omega,?_⟩
  have hupper : ¬ (65 ≤ c.toNat ∧ c.toNat ≤ 90) := by omega
  exact dif_neg hupper

/-- What `to_snake` returns it leaves as it is, where the NFKD tables leave ASCII text. -/
theorem to_snake_to_snake {nfkd : Str → Str}
    (hascii : ∀ s : Str, (∀ c ∈ s, c.toNat < 128) → nfkd s = s) (text : Str) :
    to_snake nfkd (to_snake nfkd text) = to_snake nfkd text := by
  have hsnake := isSnake_to_snake nfkd text
  have hhead := to_snake_head nfkd text
  generalize to_snake nfkd text = s at hsnake hhead
  have hchars := fun c hc => slugChar_ascii (hsnake.chars c hc)
  have hfilter : s.filter (fun c => c.toNat < 128) = s :=
    List.filter_eq_self.mpr fun c hc => decide_eq_true (hchars c hc).1
  have hlower : lower s = s := by
    rw [lower]
    exact (List.map_congr_left fun c hc => (hchars c hc).2).trans (List.map_id s)
  rw [to_snake,hascii s fun c hc => (hchars c hc).1,hfilter,hlower,
    collapse_eq_self hsnake.chars hsnake.single fun h => Bool.noConfusion h,
    stripUnderscores_eq_self hhead hsnake.last]
  exact if_neg hsnake.ne_nil

theorem candidate_head {base : Str} (hne : base ≠ []) (hhead : base.head? ≠ some '_') (n : ℕ) :
    (candidate base n).head? ≠ some '_' := by
  cases n with
  | zero => exact hhead
  | succ n =>
    rw [candidate,suffixed,List.head?_append_of_ne_nil base hne]
    exact hhead

theorem make_snake_id_head (nfkd : Str → Str) (name : Str) (existing : List Str) :
    (make_snake_id nfkd name existing).head? ≠ some '_' := by
  obtain ⟨k,heq,-⟩ := make_snake_id_eq nfkd name existing
  rw [heq]
  exact candidate_head (isSnake_to_snake nfkd name).ne_nil (to_snake_head nfkd name) k

/-- A later candidate is not shorter. -/
theorem length_candidate_le (base : Str) {m n : ℕ} (h : m ≤ n) :
    (candidate base m).length ≤ (candidate base n).length := by
  cases m with
  | zero =>
    cases n with
    | zero => exact le_rfl
    | succ n =>
      rw [candidate,candidate,suffixed,List.length_append]
      exact Nat.le_add_right _ _
  | succ m =>
    cases n with
    | zero => exact absurd h (Nat.not_succ_le_zero m)
    | succ n =>
      have hdigits : (Nat.toDigits 10 (m+1)).length ≤ (Nat.toDigits 10 (n+1)).length := by
        have hten : 1 < 10 := by decide
        have hbound := (Nat.length_toDigits_le_iff hten Nat.length_toDigits_pos).mp
          (le_refl (Nat.toDigits 10 (n+1)).length)
        exact (Nat.length_toDigits_le_iff hten Nat.length_toDigits_pos).mpr (h.trans_lt hbound)
      simp only [candidate,suffixed,List.length_append,List.length_cons]
      omega

/-- The loop of `make_snake_id` ends with `id`. -/
inductive Ends (existing : List Str) (base : Str) : (counter : ℕ) → Str → (id : Str) → Prop
  | stop {counter : ℕ} {candidate : Str}
      (hfree : ¬ (candidate ∈ existing ∨ hasDouble candidate)) :
      Ends existing base counter candidate candidate
  | again {counter : ℕ} {candidate id : Str} (htaken : candidate ∈ existing ∨ hasDouble candidate)
      (hrest : Ends existing base (counter+1) (suffixed base counter) id) :
      Ends existing base counter candidate id

theorem ends_candidate {base : Str} (hb : IsSnake base) {existing : List Str} {k : ℕ}
    (hnew : candidate base k ∉ existing) {n : ℕ} (hle : n ≤ k)
    (hearlier : ∀ j, n ≤ j → j < k → candidate base j ∈ existing) :
    Ends existing base (n+1) (candidate base n) (candidate base k) := by
  induction hd : k - n generalizing n with
  | zero =>
    obtain rfl : n = k := by omega
    apply Ends.stop
    rw [not_or]
    exact ⟨hnew,by rw [(isSnake_candidate hb n).single]; decide⟩
  | succ d ih =>
    apply Ends.again (.inl (hearlier n le_rfl (by omega)))
    exact ih (by omega) (fun j hj hlt => hearlier j (by omega) hlt) (by omega)

/-- What an id of the ontology is to be: new, `[a-z0-9_]{1,64}` in full, and without an underscore
that could be taken for a part of a separator. -/
structure FreshSlug (existing : List Str) (id : Str) : Prop where
  new : id ∉ existing
  chars : ∀ c ∈ id, slugChar c = true
  ne_nil : 0 < id.length
  short : id.length ≤ MAX_SLUG
  single : hasDouble id = false
  head : id.head? ≠ some '_'
  last : id.getLast? ≠ some '_'

/-- The loop ends for every name, and with an id of the right shape unless no free candidate is
short enough. -/
theorem make_snake_id_fits_iff (nfkd : Str → Str) (name : Str) (existing : List Str) :
    Ends existing (replaceDouble (to_snake nfkd name)) 1 (replaceDouble (to_snake nfkd name))
      (make_snake_id nfkd name existing) ∧
    (FreshSlug existing (make_snake_id nfkd name existing) ↔ ∃ n,
      candidate (to_snake nfkd name) n ∉ existing ∧
        (candidate (to_snake nfkd name) n).length ≤ MAX_SLUG) := by
  have hb := isSnake_to_snake nfkd name
  have hhead := make_snake_id_head nfkd name existing
  obtain ⟨k,heq,hnew,hearlier⟩ := make_snake_id_eq nfkd name existing
  rw [heq] at hhead ⊢
  have hk := isSnake_candidate hb k
  constructor
  · rw [replaceDouble_of_not hb.single]
    exact ends_candidate hb hnew (Nat.zero_le k) fun j _ hlt => hearlier j hlt
  · constructor
    · exact fun h => ⟨k,hnew,h.short⟩
    · rintro ⟨n,hfree,hshort⟩
      have hkn : k ≤ n := by
        by_contra hlt
        exact hfree (hearlier n (by omega))
      exact ⟨hnew,hk.chars,List.length_pos_iff.mpr hk.ne_nil,
        (length_candidate_le _ hkn).trans hshort,hk.single,hhead,hk.last⟩

/-- Nothing cuts a long name. -/
theorem long_name_long_id : ¬ ∀ nfkd name existing,
    FreshSlug existing (make_snake_id nfkd name existing) := by
  intro h
  have hlong := (h id (List.replicate 65 'a') []).short
  exact absurd hlong (by decide +kernel)

end Slug
end Dataspoke
