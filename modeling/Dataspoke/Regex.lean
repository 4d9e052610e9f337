import Mathlib.Data.List.Basic
import Mathlib.Tactic.Common

/-!
# Regular expressions

A backtracking matcher: the matches of an expression at a position, in the order in which they
are tried, what they are, and the substitution of the first one at each position. A repetition
is greedy, and of a class of characters.
-/

namespace Dataspoke
namespace Regex

/-- A matched text and the texts of its groups. -/
structure Match where
  text : List Char
  groups : List (ℕ × List Char)

inductive Re
  | cls (p : Char → Bool)
  | rep (p : Char → Bool) (min : ℕ) (max : Option ℕ)
  | seq (r s : Re)
  | alt (r s : Re)
  | group (i : ℕ) (r : Re)
  /-- A condition on the text before, its last character first, and the text after. -/
  | look (p : List Char → List Char → Bool)

namespace Re

/-- `r?`. -/
def opt (r : Re) : Re := alt r (look fun _ _ => true)

/-- A word, character by character. -/
def word (p : Char → Char → Bool) : List Char → Re
  | [] => look fun _ _ => true
  | c::cs => seq (cls (p c)) (word p cs)

/-- `r|s|…`; a class without characters where there is none. -/
def anyOf : List Re → Re
  | [] => cls fun _ => false
  | [r] => r
  | r::rs => alt r (anyOf rs)

end Re

/-- The lengths a repetition tries, the longest first. -/
def repLengths (p : Char → Bool) (min : ℕ) (max : Option ℕ) (text : List Char) : List ℕ :=
  let longest := (text.takeWhile p).length
  (List.range (max.elim longest (fun k => if k < longest then k else longest) + 1)).reverse.filter
    fun n => min ≤ n

/-- The matches at a position, in the order in which they are tried. -/
def run : Re → (before text : List Char) → List Match
  | .cls p, _, text =>
    match text with
    | [] => []
    | c::_ => if p c then [⟨[c],[]⟩] else []
  | .rep p min max, _, text => (repLengths p min max text).map fun n => ⟨text.take n,[]⟩
  | .seq r s, before, text =>
    (run r before text).flatMap fun m =>
      (run s (m.text.reverse ++ before) (text.drop m.text.length)).map fun m' =>
        ⟨m.text ++ m'.text,m.groups ++ m'.groups⟩
  | .alt r s, before, text => run r before text ++ run s before text
  | .group i r, before, text =>
    (run r before text).map fun m => ⟨m.text,(i,m.text)::m.groups⟩
  | .look p, before, text => if p before text then [⟨[],[]⟩] else []

/-- The expression matches `text` between `before` and `rest`, with these groups. -/
def Matches : Re → (before text rest : List Char) → List (ℕ × List Char) → Prop
  | .cls p, _, text, _, groups => ∃ c, p c = true ∧ text = [c] ∧ groups = []
  | .rep p min max, _, text, _, groups =>
    (∀ c ∈ text, p c = true) ∧ min ≤ text.length ∧ (∀ n ∈ max, text.length ≤ n) ∧ groups = []
  | .seq r s, before, text, rest, groups => ∃ t u g g', text = t ++ u ∧ groups = g ++ g' ∧
    Matches r before t (u ++ rest) g ∧ Matches s (t.reverse ++ before) u rest g'
  | .alt r s, before, text, rest, groups =>
    Matches r before text rest groups ∨ Matches s before text rest groups
  | .group i r, before, text, rest, groups =>
    ∃ g, groups = (i,text)::g ∧ Matches r before text rest g
  | .look p, before, text, rest, groups => text = [] ∧ groups = [] ∧ p before rest = true

theorem mem_repLengths {p : Char → Bool} {min : ℕ} {max : Option ℕ} {text : List Char} {n : ℕ} :
    n ∈ repLengths p min max text ↔
      n ≤ (text.takeWhile p).length ∧ min ≤ n ∧ ∀ k ∈ max, n ≤ k := by
  cases max with
  | none =>
    simp only [repLengths,Option.elim_none,List.mem_filter,List.mem_reverse,List.mem_range,
      decide_eq_true_eq,Nat.lt_succ_iff]
    simp
  | some k =>
    simp only [repLengths,Option.elim_some,List.mem_filter,List.mem_reverse,List.mem_range,
      decide_eq_true_eq]
    split
    · simp
      omega
    · simp
      omega

theorem le_takeWhile {p : Char → Bool} {t rest : List Char} :
    t.length ≤ ((t ++ rest).takeWhile p).length ↔ ∀ c ∈ t, p c = true := by
  induction t with
  | nil => simp
  | cons c t ih =>
    rw [List.cons_append,List.takeWhile_cons,List.forall_mem_cons]
    by_cases hc : p c = true
    · simp [hc,ih]
    · simp [hc]

/-- The matcher finds what the expression matches. -/
theorem mem_run {r : Re} {before text : List Char} {m : Match} : m ∈ run r before text ↔
    ∃ rest, text = m.text ++ rest ∧ Matches r before m.text rest m.groups := by
  induction r generalizing before text m with
  | cls p =>
    cases text with
    | nil =>
      simp only [run,Matches,List.not_mem_nil,false_iff]
      rintro ⟨rest,htext,c,-,hm,-⟩
      rw [hm] at htext
      cases htext
    | cons c text =>
      unfold run Matches
      dsimp only
      constructor
      · intro h
        split at h
        · rename_i hc
          rw [List.mem_singleton.mp h]
          exact ⟨text,rfl,c,hc,rfl,rfl⟩
        · cases h
      · rintro ⟨rest,htext,c',hc,hm,hg⟩
        rw [hm] at htext
        obtain ⟨rfl,rfl⟩ := List.cons.inj htext
        rw [if_pos hc,List.mem_singleton]
        cases m
        cases hm
        cases hg
        rfl
  | rep p min max =>
    simp only [run,Matches,List.mem_map,mem_repLengths]
    constructor
    · rintro ⟨n,⟨hn,hmin,hmax⟩,rfl⟩
      have hlen : (text.take n).length = n := by
        have := (List.takeWhile_prefix p (l:=text)).length_le
        rw [List.length_take]
        omega
      refine ⟨text.drop n,(List.take_append_drop n text).symm,?_,?_,?_,rfl⟩
      · have hiff := @le_takeWhile p (text.take n) (text.drop n)
        rw [List.take_append_drop,hlen] at hiff
        exact hiff.mp hn
      · rw [hlen]
        exact hmin
      · rw [hlen]
        exact hmax
    · rintro ⟨rest,rfl,hall,hmin,hmax,hg⟩
      refine ⟨m.text.length,⟨le_takeWhile.mpr hall,hmin,hmax⟩,?_⟩
      rw [List.take_left]
      cases m
      cases hg
      rfl
  | seq r s ihr ihs =>
    simp only [run,Matches,List.mem_flatMap,List.mem_map,ihr,ihs]
    constructor
    · rintro ⟨m₁,⟨rest₁,rfl,h₁⟩,m₂,⟨rest,hrest,h₂⟩,rfl⟩
      rw [List.drop_left] at hrest
      subst hrest
      exact ⟨rest,by simp,_,_,_,_,rfl,rfl,h₁,h₂⟩
    · rintro ⟨rest,rfl,t,u,g,g',htext,hgroups,h₁,h₂⟩
      refine ⟨⟨t,g⟩,⟨u ++ rest,by simp [htext],h₁⟩,⟨u,g'⟩,⟨rest,?_,h₂⟩,?_⟩
      · rw [htext,List.append_assoc,List.drop_left]
      · cases m
        cases htext
        cases hgroups
        rfl
  | alt r s ihr ihs =>
    simp only [run,Matches,List.mem_append,ihr,ihs]
    constructor
    · rintro (⟨rest,htext,h⟩ | ⟨rest,htext,h⟩)
      · exact ⟨rest,htext,.inl h⟩
      · exact ⟨rest,htext,.inr h⟩
    · rintro ⟨rest,htext,h | h⟩
      · exact .inl ⟨rest,htext,h⟩
      · exact .inr ⟨rest,htext,h⟩
  | group i r ih =>
    simp only [run,Matches,List.mem_map,ih]
    constructor
    · rintro ⟨m',⟨rest,rfl,h⟩,rfl⟩
      exact ⟨rest,rfl,_,rfl,h⟩
    · rintro ⟨rest,rfl,g,hg,h⟩
      refine ⟨⟨m.text,g⟩,⟨rest,rfl,h⟩,?_⟩
      dsimp only
      rw [← hg]
  | look p =>
    unfold run Matches
    constructor
    · intro h
      split at h
      · rename_i hp
        rw [List.mem_singleton.mp h]
        exact ⟨text,rfl,rfl,rfl,hp⟩
      · cases h
    · rintro ⟨rest,rfl,hm,hg,hp⟩
      cases m
      cases hm
      cases hg
      rw [List.nil_append,if_pos hp,List.mem_singleton]

theorem run_eq_nil {r : Re} {before text : List Char}
    (h : ∀ t rest g, text = t ++ rest → ¬ Matches r before t rest g) : run r before text = [] := by
  rw [List.eq_nil_iff_forall_not_mem]
  intro m hm
  obtain ⟨rest,htext,hmatch⟩ := mem_run.mp hm
  exact h _ _ _ htext hmatch

section Rules

variable {r s : Re} {before t u rest : List Char} {g g' : List (ℕ × List Char)}

theorem Matches.seq (hr : Matches r before t (u ++ rest) g)
    (hs : Matches s (t.reverse ++ before) u rest g') :
    Matches (.seq r s) before (t ++ u) rest (g ++ g') := ⟨t,u,g,g',rfl,rfl,hr,hs⟩

theorem Matches.look {p : List Char → List Char → Bool} (h : p before rest = true) :
    Matches (.look p) before [] rest [] := ⟨rfl,rfl,h⟩

theorem Matches.opt_none : Matches (.opt r) before [] rest [] := .inr (.look rfl)

theorem Matches.opt_some (h : Matches r before t rest g) : Matches (.opt r) before t rest g := .inl h

theorem Matches.cls {p : Char → Bool} {c : Char} (h : p c = true) :
    Matches (.cls p) before [c] rest [] := ⟨c,h,rfl,rfl⟩

theorem Matches.rep {p : Char → Bool} {min : ℕ} (h : ∀ c ∈ t, p c = true)
    (hmin : min ≤ t.length) : Matches (.rep p min none) before t rest [] := ⟨h,hmin,nofun,rfl⟩

theorem Matches.group {i : ℕ} (h : Matches r before t rest g) :
    Matches (.group i r) before t rest ((i,t)::g) := ⟨g,rfl,h⟩

end Rules

section Shape

/-- Every match is made of characters of `P`. -/
def Within (P : Char → Prop) : Re → Prop
  | .cls p => ∀ c, p c = true → P c
  | .rep p _ _ => ∀ c, p c = true → P c
  | .seq r s => Within P r ∧ Within P s
  | .alt r s => Within P r ∧ Within P s
  | .group _ r => Within P r
  | .look _ => True

/-- Every match has a character of `P`. -/
def Needs (P : Char → Prop) : Re → Prop
  | .cls p => ∀ c, p c = true → P c
  | .rep p min _ => 0 < min ∧ ∀ c, p c = true → P c
  | .seq r s => Needs P r ∨ Needs P s
  | .alt r s => Needs P r ∧ Needs P s
  | .group _ r => Needs P r
  | .look _ => False

/-- No match is shorter. -/
def minLength : Re → ℕ
  | .cls _ => 1
  | .rep _ min _ => min
  | .seq r s => minLength r + minLength s
  | .alt r s => min (minLength r) (minLength s)
  | .group _ r => minLength r
  | .look _ => 0

/-- The length of the longest match, where there is one. -/
def maxLength : Re → Option ℕ
  | .cls _ => some 1
  | .rep _ _ max => max
  | .seq r s => (maxLength r).bind fun n => (maxLength s).map fun m => n + m
  | .alt r s => (maxLength r).bind fun n => (maxLength s).map fun m => max n m
  | .group _ r => maxLength r
  | .look _ => some 0

/-- The matches do not depend on what is around them. -/
def Free : Re → Prop
  | .cls _ => True
  | .rep _ _ _ => True
  | .seq r s => Free r ∧ Free s
  | .alt r s => Free r ∧ Free s
  | .group _ r => Free r
  | .look p => ∀ before rest, p before rest = true

def Groupless : Re → Prop
  | .cls _ => True
  | .rep _ _ _ => True
  | .seq r s => Groupless r ∧ Groupless s
  | .alt r s => Groupless r ∧ Groupless s
  | .group _ _ => False
  | .look _ => True

variable {r : Re} {before text rest : List Char} {groups : List (ℕ × List Char)}

theorem Matches.groups_eq_nil (h : Matches r before text rest groups) (hr : Groupless r) :
    groups = [] := by
  induction r generalizing before text rest groups with
  | cls p =>
    obtain ⟨c,-,-,hg⟩ := h
    exact hg
  | rep p min max => exact h.2.2.2
  | seq r s ihr ihs =>
    obtain ⟨t,u,g,g',-,rfl,ht,hu⟩ := h
    rw [ihr ht hr.1,ihs hu hr.2,List.append_nil]
  | alt r s ihr ihs =>
    rcases h with h | h
    · exact ihr h hr.1
    · exact ihs h hr.2
  | group i r ih => exact hr.elim
  | look p => exact h.2.1

theorem Matches.within {P : Char → Prop} (h : Matches r before text rest groups)
    (hr : Within P r) : ∀ c ∈ text, P c := by
  induction r generalizing before text rest groups with
  | cls p =>
    obtain ⟨c,hc,rfl,-⟩ := h
    simpa using hr c hc
  | rep p min max => exact fun c hc => hr c (h.1 c hc)
  | seq r s ihr ihs =>
    obtain ⟨t,u,g,g',rfl,-,ht,hu⟩ := h
    exact List.forall_mem_append.mpr ⟨ihr ht hr.1,ihs hu hr.2⟩
  | alt r s ihr ihs =>
    rcases h with h | h
    · exact ihr h hr.1
    · exact ihs h hr.2
  | group i r ih =>
    obtain ⟨g,-,h⟩ := h
    exact ih h hr
  | look p =>
    obtain ⟨rfl,-,-⟩ := h
    simp

theorem Matches.needs {P : Char → Prop} (h : Matches r before text rest groups)
    (hr : Needs P r) : ∃ c ∈ text, P c := by
  induction r generalizing before text rest groups with
  | cls p =>
    obtain ⟨c,hc,rfl,-⟩ := h
    exact ⟨c,.head _,hr c hc⟩
  | rep p min max =>
    cases text with
    | nil => exact absurd hr.1 (Nat.not_lt.mpr h.2.1)
    | cons c text => exact ⟨c,.head _,hr.2 c (h.1 c (.head _))⟩
  | seq r s ihr ihs =>
    obtain ⟨t,u,g,g',rfl,-,ht,hu⟩ := h
    rcases hr with hr | hs
    · obtain ⟨c,hc,hP⟩ := ihr ht hr
      exact ⟨c,List.mem_append_left _ hc,hP⟩
    · obtain ⟨c,hc,hP⟩ := ihs hu hs
      exact ⟨c,List.mem_append_right _ hc,hP⟩
  | alt r s ihr ihs =>
    rcases h with h | h
    · exact ihr h hr.1
    · exact ihs h hr.2
  | group i r ih =>
    obtain ⟨g,-,h⟩ := h
    exact ih h hr
  | look p => exact hr.elim

theorem Matches.minLength_le (h : Matches r before text rest groups) :
    minLength r ≤ text.length := by
  induction r generalizing before text rest groups with
  | cls p =>
    obtain ⟨c,-,rfl,-⟩ := h
    exact Nat.le_refl _
  | rep p min max => exact h.2.1
  | seq r s ihr ihs =>
    obtain ⟨t,u,g,g',rfl,-,ht,hu⟩ := h
    have hr := ihr ht
    have hs := ihs hu
    rw [minLength,List.length_append]
    omega
  | alt r s ihr ihs =>
    rw [minLength]
    rcases h with h | h
    · have := ihr h
      omega
    · have := ihs h
      omega
  | group i r ih =>
    obtain ⟨g,-,h⟩ := h
    exact ih h
  | look p => exact Nat.zero_le _

theorem Matches.length_le_maxLength (h : Matches r before text rest groups) {n : ℕ}
    (hn : maxLength r = some n) : text.length ≤ n := by
  induction r generalizing before text rest groups n with
  | cls p =>
    obtain ⟨c,-,rfl,-⟩ := h
    exact Nat.le_of_eq (Option.some.inj hn)
  | rep p min max => exact h.2.2.1 n hn
  | seq r s ihr ihs =>
    obtain ⟨t,u,g,g',rfl,-,ht,hu⟩ := h
    obtain ⟨k,hk,hn⟩ := Option.bind_eq_some_iff.mp hn
    obtain ⟨m,hm,rfl⟩ := Option.map_eq_some_iff.mp hn
    have hr := ihr ht hk
    have hs := ihs hu hm
    rw [List.length_append]
    omega
  | alt r s ihr ihs =>
    obtain ⟨k,hk,hn⟩ := Option.bind_eq_some_iff.mp hn
    obtain ⟨m,hm,rfl⟩ := Option.map_eq_some_iff.mp hn
    rcases h with h | h
    · have := ihr h hk
      omega
    · have := ihs h hm
      omega
  | group i r ih =>
    obtain ⟨g,-,h⟩ := h
    exact ih h hn
  | look p =>
    obtain ⟨rfl,-,-⟩ := h
    exact Nat.zero_le _

theorem Matches.free (h : Matches r before text rest groups) (hr : Free r)
    (before' rest' : List Char) : Matches r before' text rest' groups := by
  induction r generalizing before text rest groups before' rest' with
  | cls p => exact h
  | rep p min max => exact h
  | seq r s ihr ihs =>
    obtain ⟨t,u,g,g',rfl,rfl,ht,hu⟩ := h
    exact ⟨t,u,g,g',rfl,rfl,ihr ht hr.1 _ _,ihs hu hr.2 _ _⟩
  | alt r s ihr ihs =>
    rcases h with h | h
    · exact .inl (ihr h hr.1 _ _)
    · exact .inr (ihs h hr.2 _ _)
  | group i r ih =>
    obtain ⟨g,hg,h⟩ := h
    exact ⟨g,hg,ih h hr _ _⟩
  | look p =>
    obtain ⟨ht,hg,-⟩ := h
    exact ⟨ht,hg,hr _ _⟩

/-- An expression that starts with characters of `P` matches nowhere else. -/
theorem run_eq_nil_of_head {P : Char → Prop} {p : List Char → List Char → Bool} {s : Re}
    (hr : Within P r) {c : Char} {k : ℕ} (hk : k < minLength r) (hc : text[k]? = some c)
    (hP : ¬ P c) : run (.seq (.look p) (.seq r s)) before text = [] := by
  refine run_eq_nil fun t rest g htext h => ?_
  obtain ⟨_,v,_,_,rfl,-,⟨rfl,-,-⟩,t',u,_,_,rfl,-,ht',-⟩ := h
  have hlen := ht'.minLength_le
  refine hP (ht'.within hr c ?_)
  rw [htext] at hc
  simp only [List.nil_append,List.append_assoc] at hc
  rw [List.getElem?_append_left (by omega)] at hc
  exact List.mem_of_getElem? hc

theorem run_eq_nil_of_needs {P : Char → Prop} (hr : Needs P r) (h : ∀ c ∈ text, ¬ P c) :
    run r before text = [] := by
  refine run_eq_nil fun t rest g htext hmatch => ?_
  obtain ⟨c,hc,hP⟩ := hmatch.needs hr
  exact h c (by rw [htext]; exact List.mem_append_left _ hc) hP

/-- Where the text is too short. -/
theorem run_eq_nil_of_length {p : List Char → List Char → Bool} {s : Re}
    (h : text.length < minLength r) : run (.seq (.look p) (.seq r s)) before text = [] := by
  refine run_eq_nil fun t rest g htext hmatch => ?_
  obtain ⟨_,v,_,_,rfl,-,⟨rfl,-,-⟩,t',u,_,_,rfl,-,ht',-⟩ := hmatch
  have hlen := ht'.minLength_le
  rw [htext] at h
  simp only [List.nil_append,List.length_append] at h
  omega

end Shape

section Sub

/-- The expression matches no empty text. -/
def Proper (r : Re) : Prop := ∀ before text rest g, Matches r before text rest g → text ≠ []

theorem proper_of_minLength {r : Re} (h : 0 < minLength r) : Proper r := by
  rintro before text rest g hmatch rfl
  have hlen := hmatch.minLength_le
  rw [List.length_nil] at hlen
  omega

/-- `re.sub` for a proper expression; `skip` characters of a match are still to be passed over. -/
def sub (r : Re) (repl : Match → List Char) : (skip : ℕ) → (before text : List Char) → List Char
  | _, _, [] => []
  | skip+1, before, c::text => sub r repl skip (c::before) text
  | 0, before, c::text =>
    match (run r before (c::text)).head? with
    | none => c::sub r repl 0 (c::before) text
    | some m => repl m ++ sub r repl (m.text.length - 1) (c::before) text

variable {r : Re} {repl : Match → List Char}

theorem sub_skip (r : Re) (repl : Match → List Char) (n : ℕ) (before text : List Char) :
    sub r repl n before text = sub r repl 0 ((text.take n).reverse ++ before) (text.drop n) := by
  induction text generalizing n before with
  | nil => cases n <;> simp [sub]
  | cons c text ih =>
    cases n with
    | zero => simp
    | succ n =>
      rw [sub,ih]
      simp

theorem sub_copy {before text : List Char} {c : Char} (h : run r before (c::text) = []) :
    sub r repl 0 before (c::text) = c::sub r repl 0 (c::before) text := by
  rw [sub,h]
  rfl

theorem sub_replace {before text rest : List Char} {m : Match} (hm : m.text ≠ [])
    (h : (run r before text).head? = some m) (htext : text = m.text ++ rest) :
    sub r repl 0 before text = repl m ++ sub r repl 0 (m.text.reverse ++ before) rest := by
  subst htext
  obtain ⟨c,t,ht⟩ := List.exists_cons_of_ne_nil hm
  rw [ht] at h ⊢
  rw [List.cons_append] at h ⊢
  rw [sub,h]
  dsimp only
  rw [sub_skip,ht]
  simp

/-- Where the matches cover the text and agree in what replaces them. -/
theorem sub_whole {before text out : List Char} {g : List (ℕ × List Char)} (hne : text ≠ [])
    (hm : Matches r before text [] g)
    (hall : ∀ (m : Match) rest, text = m.text ++ rest → Matches r before m.text rest m.groups →
      m.text = text ∧ repl m = out) : sub r repl 0 before text = out := by
  have hmem : (⟨text,g⟩ : Match) ∈ run r before text :=
    mem_run.mpr ⟨[],(List.append_nil text).symm,hm⟩
  cases hrun : run r before text with
  | nil => simp [hrun] at hmem
  | cons m ms =>
    obtain ⟨rest,htext,hmatch⟩ := mem_run.mp (show m ∈ run r before text by simp [hrun])
    obtain ⟨hwhole,hrepl⟩ := hall m rest htext hmatch
    have hsub : sub r repl 0 before text = repl m ++ sub r repl 0 (m.text.reverse ++ before) [] :=
      sub_replace (by rw [hwhole]; exact hne) (by rw [hrun]; rfl) (by rw [hwhole,List.append_nil])
    rw [hsub,hrepl,sub,List.append_nil]

/-- What a substitution does: it copies a character at which nothing matches, and replaces a
match. -/
inductive Rewrites (r : Re) (repl : Match → List Char) :
    (before text out : List Char) → Prop
  | nil {before} : Rewrites r repl before [] []
  | copy {before text out c} : run r before (c::text) = [] →
      Rewrites r repl (c::before) text out → Rewrites r repl before (c::text) (c::out)
  | replace {before rest out m} : Matches r before m.text rest m.groups →
      Rewrites r repl (m.text.reverse ++ before) rest out →
      Rewrites r repl before (m.text ++ rest) (repl m ++ out)

theorem rewrites_sub (hr : Proper r) (before text : List Char) :
    Rewrites r repl before text (sub r repl 0 before text) := by
  induction hn : text.length using Nat.strongRecOn generalizing before text with
  | _ n ih =>
    subst hn
    cases text with
    | nil => exact .nil
    | cons c text =>
      cases hrun : run r before (c::text) with
      | nil =>
        rw [sub_copy hrun]
        exact .copy hrun (ih _ (by simp) _ _ rfl)
      | cons m ms =>
        obtain ⟨rest,htext,hmatch⟩ := mem_run.mp (show m ∈ run r before (c::text) by simp [hrun])
        have hne := hr _ _ _ _ hmatch
        rw [sub_replace hne (by rw [hrun]; rfl) htext]
        rw [htext]
        refine .replace hmatch (ih _ ?_ _ _ rfl)
        have hpos := List.length_pos_iff.mpr hne
        rw [htext,List.length_append]
        omega

/-- What holds of the characters of the text and of the replacements holds of the output. -/
theorem Rewrites.forall {p : Char → Prop}
    (hrepl : ∀ before rest m, Matches r before m.text rest m.groups → (∀ c ∈ m.text, p c) →
      ∀ c ∈ repl m, p c)
    {before text out : List Char} (h : Rewrites r repl before text out) (ht : ∀ c ∈ text, p c) :
    ∀ c ∈ out, p c := by
  induction h with
  | nil => exact ht
  | copy _ _ ih =>
    rw [List.forall_mem_cons] at ht ⊢
    exact ⟨ht.1,ih ht.2⟩
  | replace hmatch _ ih =>
    rw [List.forall_mem_append] at ht ⊢
    exact ⟨hrepl _ _ _ hmatch ht.1,ih ht.2⟩

end Sub

end Regex
end Dataspoke
