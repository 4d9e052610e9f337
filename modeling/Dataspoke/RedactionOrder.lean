import Dataspoke.RedactionSafety
import Dataspoke.RegexCommute

/-!
# The order of the secrets

The scrubs of two secrets commute where their occurrences share no character, with one another
or with a marker.
-/

namespace Dataspoke
namespace Redaction

open Python Regex

section Spelling

variable {s before text rest : Str} {g : List (ℕ × Str)}

theorem free_space_tolerant (s : Str) : Free (space_tolerant s) := by
  induction s with
  | nil => exact fun _ _ => rfl
  | cons c s ih =>
    by_cases hs : s = []
    · rw [hs]
      trivial
    · rw [space_tolerant_cons hs]
      exact ⟨trivial,trivial,ih⟩

/-- The first character of a match, the spaces after it, and the match of what follows. -/
theorem matches_space_tolerant_cons {c : Char} (hs : s ≠ [])
    (h : Matches (space_tolerant (c::s)) before text rest g) : ∃ spaces u b g', text =
      c::(spaces ++ u) ∧ (∀ d ∈ spaces, d = ' ') ∧ Matches (space_tolerant s) b u rest g' := by
  rw [space_tolerant_cons hs] at h
  obtain ⟨_,_,_,_,rfl,-,⟨d,hd,rfl,-⟩,spaces,u,_,g',rfl,-,⟨hspaces,-⟩,hu⟩ := h
  obtain rfl : d = c := by simpa using hd
  exact ⟨spaces,u,_,g',rfl,fun d hd => by simpa using hspaces d hd,hu⟩

theorem squeeze_spaces {spaces : Str} (h : ∀ d ∈ spaces, d = ' ') : squeeze spaces = [] :=
  List.filter_eq_nil_iff.mpr fun d hd => by simpa using h d hd

/-- The text of a match is the secret, but for spaces. -/
theorem squeeze_eq_of_matches (h : Matches (space_tolerant s) before text rest g) :
    squeeze text = squeeze s := by
  induction s generalizing before text rest g with
  | nil =>
    obtain ⟨rfl,-,-⟩ := h
    rfl
  | cons c s ih =>
    by_cases hs : s = []
    · subst hs
      obtain ⟨d,hd,rfl,-⟩ := h
      obtain rfl : d = c := by simpa using hd
      rfl
    · obtain ⟨spaces,u,b,g',rfl,hspaces,hu⟩ := matches_space_tolerant_cons hs h
      rw [squeeze_cons,squeeze_append,squeeze_spaces hspaces,ih hu,List.nil_append,← squeeze_cons]

theorem getLast?_of_matches (h : Matches (space_tolerant s) before text rest g) :
    text.getLast? = s.getLast? := by
  induction s generalizing before text rest g with
  | nil =>
    obtain ⟨rfl,-,-⟩ := h
    rfl
  | cons c s ih =>
    by_cases hs : s = []
    · subst hs
      obtain ⟨d,hd,rfl,-⟩ := h
      obtain rfl : d = c := by simpa using hd
      rfl
    · obtain ⟨spaces,u,b,g',rfl,-,hu⟩ := matches_space_tolerant_cons hs h
      have hne : u ≠ [] := proper_space_tolerant (List.length_pos_iff.mpr hs) _ _ _ _ hu
      rw [← List.cons_append,List.getLast?_append_of_ne_nil _ hne,ih hu,
        List.getLast?_cons_of_ne_nil hs]

/-- Two matches that begin at the same place differ in spaces at the end of the secret. -/
theorem spells_longer {u v b b' : Str} (hu : Spells (space_tolerant s) u)
    (hv : Spells (space_tolerant s) v) (heq : u ++ b = v ++ b') (hle : u.length ≤ v.length) :
    ∃ d, v = u ++ d ∧ b = d ++ b' ∧ (d ≠ [] → d.head? = some ' ' ∧ s.getLast? = some ' ') := by
  obtain ⟨g,hu⟩ := hu
  obtain ⟨g',hv⟩ := hv
  obtain ⟨d,rfl⟩ := List.prefix_of_prefix_length_le (List.prefix_append u b)
    (heq ▸ List.prefix_append v b') hle
  rw [List.append_assoc] at heq
  refine ⟨d,rfl,List.append_cancel_left heq,fun hd => ?_⟩
  have hsqueeze := (squeeze_eq_of_matches hv).trans (squeeze_eq_of_matches hu).symm
  rw [squeeze_append,List.append_right_eq_self] at hsqueeze
  have hspaces : ∀ c ∈ d, c = ' ' := fun c hc => by
    simpa using List.filter_eq_nil_iff.mp hsqueeze c hc
  have hlast := getLast?_of_matches hv
  rw [List.getLast?_append_of_ne_nil _ hd] at hlast
  rw [← hlast,List.getLast?_eq_some_getLast hd,List.head?_eq_some_head hd]
  have hhead := hspaces _ (List.head_mem hd)
  have hend := hspaces _ (List.getLast_mem hd)
  exact ⟨congrArg some hhead,congrArg some hend⟩

theorem drop_takeWhile {p : Char → Bool} {y : Str} :
    y.drop (y.takeWhile p).length = y.dropWhile p := by
  have hsplit := List.takeWhile_append_dropWhile (p:=p) (l:=y)
  calc y.drop (y.takeWhile p).length
      = (y.takeWhile p ++ y.dropWhile p).drop (y.takeWhile p).length := by rw [hsplit]
    _ = y.dropWhile p := List.drop_left

theorem first_space_tolerant_cons {c d : Char} {y u : Str} (hs : s ≠ [])
    (h : first (space_tolerant (c::s)) (d::y) = some u) : ∃ n v, u = d::(y.take n ++ v) ∧
      n ≤ (y.takeWhile fun e => e = ' ').length ∧ first (space_tolerant s) (y.drop n) = some v ∧
        ∀ n', n < n' → n' ≤ (y.takeWhile fun e => e = ' ').length →
          first (space_tolerant s) (y.drop n') = none := by
  have hfree := free_space_tolerant s
  have hspaces : Free (.seq (.rep (fun d => d = ' ') 0 none) (space_tolerant s)) := ⟨trivial,hfree⟩
  rw [space_tolerant_cons hs,first_seq_cls hspaces,Option.ite_none_right_eq_some] at h
  obtain ⟨v,hv,rfl⟩ := Option.map_eq_some_iff.mp h.2
  obtain ⟨n,v,rfl,hn,hfirst,hnone⟩ := first_rep_greedy hfree hv
  exact ⟨n,v,rfl,hn,hfirst,hnone⟩

/-- A secret that ends with a space takes all the spaces there are. -/
theorem head?_ne_space_of_first {u rest : Str} (hlen : 2 ≤ s.length) (hlast : s.getLast? = some ' ')
    (h : first (space_tolerant s) (u ++ rest) = some u) : rest.head? ≠ some ' ' := by
  induction s generalizing u with
  | nil => exact absurd hlen (by decide)
  | cons c s ih =>
    have hs : s ≠ [] := by
      rintro rfl
      exact absurd hlen (Nat.not_succ_le_self 1)
    obtain ⟨b,hb,hspells⟩ := spells_of_first (free_space_tolerant _) h
    cases u with
    | nil =>
      obtain ⟨g,hg⟩ := hspells
      have hpos := List.length_pos_iff.mpr (List.cons_ne_nil c s)
      exact absurd rfl (proper_space_tolerant hpos _ _ _ _ hg)
    | cons d u =>
      have h : first (space_tolerant (c::s)) (d::(u ++ rest)) = some (d::u) := h
      obtain ⟨n,v,huv,hn,hfirst,hnone⟩ := first_space_tolerant_cons hs h
      obtain ⟨-,huv⟩ := List.cons.inj huv
      have hdrop : (u ++ rest).drop n = v ++ rest := by
        have htake : (u ++ rest).take n ++ (u ++ rest).drop n = (u ++ rest).take n ++ (v ++ rest) := by
          rw [List.take_append_drop,← List.append_assoc]
          exact congrArg (· ++ rest) huv
        exact List.append_cancel_left htake
      rw [List.getLast?_cons_of_ne_nil hs] at hlast
      by_cases hlen' : 2 ≤ s.length
      · rw [hdrop] at hfirst
        exact ih hlen' hlast hfirst
      · -- one space at the end: were there another one, it would be taken before
        have hone : s = [' '] := by
          obtain ⟨e,rfl⟩ := List.length_eq_one_iff.mp
            (show s.length = 1 by have := List.length_pos_iff.mpr hs; omega)
          rw [List.getLast?_singleton] at hlast
          rw [Option.some.inj hlast]
        subst hone
        intro hspace
        obtain ⟨rest',rfl⟩ : ∃ rest', rest = ' '::rest' := by
          cases rest with
          | nil => cases hspace
          | cons e rest => exact ⟨rest,by rw [Option.some.inj hspace]⟩
        have hspells' := spells_of_first (free_space_tolerant _) hfirst
        obtain ⟨b',-,g,e,he,rfl,-⟩ := hspells'
        obtain rfl : e = ' ' := by simpa using he
        have hlt : n < (List.takeWhile (fun e => decide (e = ' ')) (u ++ ' '::rest')).length := by
          refine Nat.lt_of_le_of_ne hn fun heq => ?_
          have hafter := List.head?_dropWhile_not (fun e => decide (e = ' ')) (u ++ ' '::rest')
          rw [← drop_takeWhile,← heq,hdrop] at hafter
          exact Bool.noConfusion hafter
        have hnext := hnone (n+1) (Nat.lt_succ_self n) hlt
        rw [← List.drop_drop,hdrop] at hnext
        cases hnext

end Spelling

section Scrubs

variable {U : Unicode} {s t text : Str}

theorem redacted_ne_nil : REDACTED ≠ [] := List.cons_ne_nil _ _

theorem steady_space_tolerant (hlen : 2 ≤ s.length) : Steady (space_tolerant s) REDACTED := by
  intro u rest rest' hu hhead
  have hfree := free_space_tolerant s
  obtain ⟨_,-,hspells⟩ := spells_of_first hfree hu
  cases hv : first (space_tolerant s) (u ++ rest') with
  | none => exact absurd hv (first_ne_none hfree hspells rest')
  | some v =>
    obtain ⟨b,hb,hspells'⟩ := spells_of_first hfree hv
    rcases Nat.le_total u.length v.length with hle | hle
    · obtain ⟨d,rfl,hrest,hd⟩ := spells_longer hspells hspells' hb hle
      by_cases hnil : d = []
      · rw [hnil,List.append_nil]
      · obtain ⟨hspace,hlast⟩ := hd hnil
        have hrest' : ' ' ∈ rest'.head? := by
          rw [hrest,List.head?_append_of_ne_nil _ hnil]
          exact hspace
        rcases hhead ' ' hrest' with h | h
        · exact absurd h (head?_ne_space_of_first hlen hlast hu)
        · exact absurd h (by decide)
    · obtain ⟨d,rfl,rfl,hd⟩ := spells_longer hspells' hspells hb.symm hle
      by_cases hnil : d = []
      · rw [hnil,List.append_nil]
      · obtain ⟨hspace,hlast⟩ := hd hnil
        refine absurd ?_ (head?_ne_space_of_first hlen hlast (hb ▸ hv))
        rw [List.head?_append_of_ne_nil _ hnil]
        exact hspace

theorem replaceable (hlen : MIN_SECRET_LENGTH ≤ s.length) :
    Replaceable (space_tolerant s) REDACTED :=
  ⟨free_space_tolerant s,proper_space_tolerant (Nat.lt_of_lt_of_le (by decide) hlen),
    steady_space_tolerant (Nat.le_trans (by decide) hlen)⟩

theorem scrub_eq (hlen : MIN_SECRET_LENGTH ≤ s.length) (text : Str) :
    scrub text s = replaced (space_tolerant s) REDACTED text := by
  rw [scrub,if_pos hlen,replaced]

/-- The occurrences of the two secrets share no character, and those of the first none with a
marker. -/
def ApartSecrets (U : Unicode) (s t : Str) : Prop :=
  Apart (Normal U) (Spells (space_tolerant s)) (Spells (space_tolerant t)) ∧
    Apart (Normal U) (Spells (space_tolerant s)) (· = REDACTED)

theorem scrub_comm (hst : ApartSecrets U s t) (hts : ApartSecrets U t s)
    (hs : MIN_SECRET_LENGTH ≤ s.length) (ht : MIN_SECRET_LENGTH ≤ t.length)
    (htext : ∀ c ∈ text, Normal U c) : scrub (scrub text s) t = scrub (scrub text t) s := by
  rw [scrub_eq hs,scrub_eq ht,scrub_eq hs,scrub_eq ht]
  exact replaced_comm (replaceable hs) (replaceable ht) redacted_ne_nil (normal_redacted U) hst.1
    hst.2 hts.2 htext

end Scrubs

section Order

variable {U : Unicode} {secrets secrets' : List Str} {text : Str}

/-- Different secrets that are scrubbed have their occurrences apart. -/
def Unmixed (U : Unicode) (secrets : List Str) : Prop :=
  ∀ s ∈ secrets, ∀ t ∈ secrets, MIN_SECRET_LENGTH ≤ s.length → MIN_SECRET_LENGTH ≤ t.length →
    s ≠ t → ApartSecrets U s t

/-- What the patterns make of the scrubbed text. -/
def finish (U : Unicode) (text : Str) : Option Str :=
  let text := (PATTERNS U).foldl (fun text p => sub p.1 p.2 0 [] text) (text.take MAX_SCAN_LENGTH)
  if text = [] then none else some text

theorem sanitize_eq {message : Str} (h : message ≠ []) (secrets : List Str) :
    sanitize_error_message U (some message) secrets =
      finish U (secrets.foldl scrub (normalize U message)) := by
  cases message with
  | nil => exact absurd rfl h
  | cons c message => rfl

theorem scrub_unmixed (h : Unmixed U secrets) {s t : Str} (hs : s ∈ secrets) (ht : t ∈ secrets)
    (htext : ∀ c ∈ text, Normal U c) : scrub (scrub text s) t = scrub (scrub text t) s := by
  by_cases hst : s = t
  · rw [hst]
  · by_cases hls : MIN_SECRET_LENGTH ≤ s.length
    · by_cases hlt : MIN_SECRET_LENGTH ≤ t.length
      · exact scrub_comm (h s hs t ht hls hlt hst) (h t ht s hs hlt hls (Ne.symm hst)) hls hlt htext
      · simp only [scrub,if_neg hlt]
    · simp only [scrub,if_neg hls]

/-- The loop leaves the same text in every order. -/
theorem scrubs_perm (h : Unmixed U secrets) (hp : secrets.Perm secrets')
    (htext : ∀ c ∈ text, Normal U c) : secrets.foldl scrub text = secrets'.foldl scrub text := by
  let scrubNormal : { text : Str // ∀ c ∈ text, Normal U c } → Str →
      { text : Str // ∀ c ∈ text, Normal U c } := fun x s => ⟨scrub x.1 s,normal_scrub x.2⟩
  have hval : ∀ (l : List Str) x, (l.foldl scrubNormal x).1 = l.foldl scrub x.1 :=
    fun l x => (List.foldl_hom Subtype.val fun _ _ => rfl).symm
  have hperm := hp.foldl_eq' (f:=scrubNormal) (fun s hs t ht x =>
    Subtype.ext (scrub_unmixed h hs ht x.2)) ⟨text,htext⟩
  rw [← hval secrets ⟨text,htext⟩,hperm,hval]

/-- No order of the secrets matters, and an occurrence of a secret that begins with another one,
where its own scrub finds it, is replaced as a whole. -/
structure OrderFree (U : Unicode) (secrets : List Str) : Prop where
  same : ∀ message secrets', secrets.Perm secrets' →
    sanitize_error_message U message secrets = sanitize_error_message U message secrets'
  whole : ∀ s ∈ secrets, ∀ t ∈ secrets, s <+: t → s ≠ t → MIN_SECRET_LENGTH ≤ t.length →
    ∀ message a u b, normalize U message = a ++ (u ++ b) → Spells (space_tolerant t) u →
      scrub (a ++ (u ++ b)) t = scrub a t ++ (REDACTED ++ scrub b t) →
        sanitize_error_message U (some message) secrets =
          finish U ((secrets.erase t).foldl scrub (scrub a t ++ (REDACTED ++ scrub b t)))

theorem orderFree_of_unmixed (h : Unmixed U secrets) : OrderFree U secrets := by
  constructor
  · intro message secrets' hp
    cases message with
    | none => rfl
    | some message =>
      by_cases hm : message = []
      · rw [hm]
        rfl
      · rw [sanitize_eq hm,sanitize_eq hm,scrubs_perm h hp (normal_normalize U message)]
  · intro s _ t ht _ _ hlen message a u b hnormal ⟨g,hg⟩ htaken
    have hm : message ≠ [] := by
      rintro rfl
      have hu : u ≠ [] := (replaceable hlen).proper _ _ _ _ hg
      have hnil : a ++ (u ++ b) = [] := hnormal.symm
      exact hu (List.append_eq_nil_iff.mp (List.append_eq_nil_iff.mp hnil).2).1
    have hp : secrets.Perm (t::secrets.erase t) := List.perm_cons_erase ht
    rw [sanitize_eq hm,scrubs_perm h hp (normal_normalize U message),List.foldl_cons,hnormal,htaken]

end Order

end Redaction
end Dataspoke
