import Dataspoke.RedactionLeaks
import Dataspoke.RedactionOrder
import Mathlib.Data.Fintype.Basic
import Mathlib.Data.List.Infix

/-!
# Overlapping secrets

Where the occurrences of two secrets share a character, the order in which they are scrubbed
shows in the output. The patterns leave a marker at the beginning of a text as it is, and put none
there.
-/

namespace Dataspoke
namespace Redaction

open Python Regex

section Passes

variable {U : Unicode}

theorem prefix_of_not_mem {v x y : Str} {c : Char} (h : v <+: x ++ c::y) (hc : c ∉ v) :
    v <+: x := by
  have hcut : x ++ [c] <+: x ++ c::y := ⟨y,by simp⟩
  rcases List.prefix_or_prefix_of_prefix h hcut with hv | hv
  · rcases List.prefix_concat_iff.mp hv with rfl | hv
    · exact absurd (by simp) hc
    · exact hv
  · exact absurd (hv.subset (by simp)) hc

/-- No match of a pattern begins in a marker: its first part would end before the `>`, and need a
letter that is not there. -/
theorem run_in_marker {q : List Char → List Char → Bool} {h t : Re} {Q : Char → Prop}
    (hw : Within (· ≠ '>') h) (hn : Needs Q h) (hQ : ∀ c ∈ REDACTED, ¬ Q c) {a w : Str} {c : Char}
    (hsplit : REDACTED = a ++ c::w) (before rest : Str) :
    run (.seq (.look q) (.seq h t)) before ((c::w) ++ rest) = [] := by
  refine run_eq_nil fun m rest' g htext hm => ?_
  obtain ⟨_,_,_,_,rfl,-,⟨rfl,-,-⟩,v,z,_,_,rfl,-,hv,-⟩ := hm
  obtain ⟨x,hx⟩ : ∃ x, c::w = x ++ ['>'] := by
    have hlast : (c::w).getLast? = some '>' := by
      rw [← List.getLast?_append_of_ne_nil a (List.cons_ne_nil c w),← hsplit]
      rfl
    obtain ⟨x,hx⟩ := List.getLast?_eq_some_iff.mp hlast
    exact ⟨x,hx⟩
  have hprefix : v <+: x ++ '>'::rest := by
    refine ⟨z ++ rest',?_⟩
    rw [hx] at htext
    simpa using htext.symm
  obtain ⟨d,hd,hQd⟩ := hv.needs hn
  have hmem : d ∈ REDACTED := by
    rw [hsplit,hx]
    have hdx := (prefix_of_not_mem hprefix fun hgt => hv.within hw _ hgt rfl).subset hd
    simp [hdx]
  exact hQ d hmem hQd

theorem within_folded_ne {d : Char} (letters : String)
    (h : (letters.toList.all fun l => !folds l d) = true) : Within (· ≠ d) (folded letters) := by
  unfold folded
  generalize letters.toList = cs at h
  induction cs with
  | nil => trivial
  | cons l cs ih =>
    rw [List.all_cons,Bool.and_eq_true] at h
    refine ⟨fun c hc => ?_,ih h.2⟩
    rintro rfl
    rw [hc] at h
    exact Bool.noConfusion h.1

theorem within_credentialName_ne : Within (· ≠ '>') (credentialName U) := by
  have hname : ∀ c, nameChar U c = true → c ≠ '>' := by
    rintro c hc rfl
    exact Bool.noConfusion hc
  have hdelimiter : ∀ c, delimiter c = true → c ≠ '>' := by
    rintro c hc rfl
    exact Bool.noConfusion hc
  have hkey := within_folded_ne (d:= '>') "key" rfl
  have hword : ∀ letters : String, (letters.toList.all fun l => !folds l '>') = true →
      Within (· ≠ '>') (folded letters) := fun letters h => within_folded_ne letters h
  refine ⟨⟨⟨hname,hdelimiter⟩,trivial⟩,?_,⟨hdelimiter,hname⟩,trivial⟩
  exact ⟨hword _ rfl,hword _ rfl,hword _ rfl,hword _ rfl,hword _ rfl,hword _ rfl,
    ⟨hword _ rfl,⟨hdelimiter,trivial⟩,hkey⟩,⟨hword _ rfl,⟨hdelimiter,trivial⟩,hkey⟩,
    ⟨hword _ rfl,⟨hdelimiter,trivial⟩,hkey⟩,hword _ rfl,⟨hdelimiter,trivial⟩,hkey⟩

/-- A letter that a credential word has, and the marker has not. -/
def Unmarked (c : Char) : Prop :=
  folds 'k' c = true ∨ folds 's' c = true ∨ folds 'p' c = true ∨ folds 'n' c = true

theorem needs_unmarked : Needs Unmarked (credentialName U) := by
  have hk : ∀ letters : String, 'k' ∈ letters.toList → Needs Unmarked (folded letters) :=
    fun letters h => needs_folded h fun c hc => .inl hc
  have hs : ∀ letters : String, 's' ∈ letters.toList → Needs Unmarked (folded letters) :=
    fun letters h => needs_folded h fun c hc => .inr (.inl hc)
  have hp : ∀ letters : String, 'p' ∈ letters.toList → Needs Unmarked (folded letters) :=
    fun letters h => needs_folded h fun c hc => .inr (.inr (.inl hc))
  have hn : ∀ letters : String, 'n' ∈ letters.toList → Needs Unmarked (folded letters) :=
    fun letters h => needs_folded h fun c hc => .inr (.inr (.inr hc))
  have hkey : Needs Unmarked (folded "key") := hk _ (by decide)
  have hword : Needs Unmarked CREDENTIAL_NAME :=
    ⟨hk _ (by decide),hs _ (by decide),hp _ (by decide),hp _ (by decide),hn _ (by decide),
      hk _ (by decide),.inr (.inr hkey),.inr (.inr hkey),.inr (.inr hkey),.inr (.inr hkey)⟩
  exact .inr (.inl hword)

theorem not_unmarked : ∀ c ∈ REDACTED, ¬ Unmarked c := by
  have hall : (REDACTED.all fun c =>
      !(folds 'k' c || folds 's' c || folds 'p' c || folds 'n' c)) = true := rfl
  intro c hc h
  have hno := List.all_eq_true.mp hall c hc
  rcases h with h | h | h | h <;> simp [h] at hno

theorem not_folds_of_all {l : Char} (h : (REDACTED.all fun c => !folds l c) = true) :
    ∀ c ∈ REDACTED, ¬ folds l c = true := by
  intro c hc hl
  have hno := List.all_eq_true.mp h c hc
  rw [hl] at hno
  exact Bool.noConfusion hno

/-- What the patterns do at the beginning of a text. -/
structure Beginning (p : Re × (Match → Str)) : Prop where
  marker : ∀ (a : Str) (c : Char) (w : Str), REDACTED = a ++ c::w → ∀ rest : Str,
    run p.1 a.reverse ((c::w) ++ rest) = []
  after : ∀ rest : Str, rest ≠ [] → sub p.1 p.2 0 REDACTED.reverse rest ≠ []
  other : ∀ (c : Char) (y : Str), c ≠ '<' → ∃ d z, sub p.1 p.2 0 [] (c::y) = d::z ∧ d ≠ '<'

theorem sub_ne_nil {r : Re} {repl : Match → Str} {before text : Str} (hne : text ≠ [])
    (h : ∀ m ∈ run r before text, repl m ≠ []) : sub r repl 0 before text ≠ [] := by
  cases text with
  | nil => exact absurd rfl hne
  | cons c text =>
    rw [sub]
    cases hrun : (run r before (c::text)).head? with
    | none => exact List.cons_ne_nil _ _
    | some m => exact List.append_ne_nil_of_left_ne_nil (h m (List.mem_of_head? hrun)) _

theorem sub_other {r : Re} {repl : Match → Str} {c : Char} {y : Str} (hc : c ≠ '<')
    (h : ∀ m ∈ run r [] (c::y), ∃ d z, repl m = d::z ∧ d ≠ '<') :
    ∃ d z, sub r repl 0 [] (c::y) = d::z ∧ d ≠ '<' := by
  rw [sub]
  cases hrun : (run r [] (c::y)).head? with
  | none => exact ⟨c,_,rfl,hc⟩
  | some m =>
    obtain ⟨d,z,hrepl,hd⟩ := h m (List.mem_of_head? hrun)
    refine ⟨d,z ++ sub r repl (m.text.length-1) [c] y,?_,hd⟩
    exact congrArg (· ++ sub r repl (m.text.length-1) [c] y) hrepl

theorem beginning_userinfo : Beginning (userinfo,fun _ => []) := by
  constructor
  · intro a c w hsplit rest
    refine run_userinfo_of_head fun hslash => ?_
    have hmem : '/' ∈ REDACTED := by
      have ha : '/' ∈ a := List.mem_reverse.mp (List.mem_of_head? hslash)
      rw [hsplit]
      exact List.mem_append_left _ ha
    exact absurd hmem (by decide)
  · intro rest hrest
    refine sub_ne_nil hrest fun m hm => ?_
    rw [run_userinfo_of_head (by decide)] at hm
    cases hm
  · intro c y hc
    have hrun : run userinfo [] (c::y) = [] := run_userinfo_of_head (Option.some_ne_none '/').symm
    refine sub_other hc fun m hm => ?_
    rw [show run (userinfo,fun _ : Match => ([] : Str)).1 [] (c::y) = [] from hrun] at hm
    cases hm

theorem beginning_authorization : Beginning
    (authorization U,fun m => "Authorization".toList ++ captured m 1 ++ REDACTED) := by
  constructor
  · intro a c w hsplit rest
    have hwithin := within_folded_ne (d:= '>') "authorization" rfl
    have hneeds := @needs_folded _ "authorization" 'u' (by decide) fun _ h => h
    exact run_in_marker hwithin hneeds (not_folds_of_all rfl) hsplit _ rest
  · exact fun rest hrest => sub_ne_nil hrest fun m _ =>
      List.append_ne_nil_of_right_ne_nil _ redacted_ne_nil
  · intro c y hc
    have hname : "Authorization".toList = 'A'::"uthorization".toList := by decide
    refine sub_other hc fun m _ => ⟨'A',"uthorization".toList ++ captured m 1 ++ REDACTED,?_,?_⟩
    · dsimp only
      rw [hname,List.cons_append,List.cons_append]
    · decide

theorem beginning_scheme :
    Beginning (scheme U,fun m => captured m 1 ++ [' '] ++ REDACTED) := by
  constructor
  · intro a c w hsplit rest
    have hwithin := within_folded_ne (d:= '>') "bearer" rfl
    have hwithin' := within_folded_ne (d:= '>') "basic" rfl
    have hneeds := @needs_folded _ "bearer" 'b' (by decide) fun _ h => h
    have hneeds' := @needs_folded _ "basic" 'b' (by decide) fun _ h => h
    exact run_in_marker (h:=.group 1 (.alt (folded "bearer") (folded "basic")))
      ⟨hwithin,hwithin'⟩ ⟨hneeds,hneeds'⟩ (not_folds_of_all rfl) hsplit _ rest
  · exact fun rest hrest => sub_ne_nil hrest fun m _ =>
      List.append_ne_nil_of_right_ne_nil _ redacted_ne_nil
  · intro c y hc
    refine sub_other hc fun m hm => ?_
    obtain ⟨rest,htext,hmatch⟩ := mem_run.mp hm
    obtain ⟨token,value,hvalue,hcap⟩ := scheme_head hmatch
    dsimp only
    rw [hcap]
    cases token with
    | nil => exact ⟨' ',_,rfl,by decide⟩
    | cons d token =>
      rw [hvalue] at htext
      obtain ⟨rfl,-⟩ := List.cons.inj htext
      exact ⟨c,_,rfl,hc⟩

theorem beginning_credential :
    Beginning (credential U,fun m => captured m 1 ++ captured m 2 ++ REDACTED) := by
  constructor
  · intro a c w hsplit rest
    exact run_in_marker (h:=.group 1 (credentialName U)) (Q:=Unmarked) within_credentialName_ne
      needs_unmarked not_unmarked hsplit _ rest
  · exact fun rest hrest => sub_ne_nil hrest fun m _ =>
      List.append_ne_nil_of_right_ne_nil _ redacted_ne_nil
  · intro c y hc
    refine sub_other hc fun m hm => ?_
    obtain ⟨rest,htext,hmatch⟩ := mem_run.mp hm
    obtain ⟨name,_,_,_,_,hname,hcap,-,⟨b,r,g,hmatches⟩,-⟩ := credential_head hmatch
    dsimp only
    rw [hcap]
    cases name with
    | nil =>
      have hlen : minLength (credentialName U) = 3 := rfl
      have hle := hmatches.minLength_le
      rw [hlen] at hle
      exact absurd hle (Nat.not_succ_le_zero 2)
    | cons d name =>
      rw [hname] at htext
      obtain ⟨rfl,-⟩ := List.cons.inj htext
      exact ⟨c,_,rfl,hc⟩

theorem beginning_patterns : ∀ p ∈ PATTERNS U, Beginning p := by
  simp only [PATTERNS,List.forall_mem_cons]
  exact ⟨beginning_userinfo,beginning_authorization,beginning_scheme,beginning_credential,
    List.forall_mem_nil _⟩

variable {p : Re × (Match → Str)}

theorem Beginning.sub_marker (hp : Beginning p) (rest : Str) :
    sub p.1 p.2 0 [] (REDACTED ++ rest) = REDACTED ++ sub p.1 p.2 0 REDACTED.reverse rest := by
  suffices h : ∀ w a, REDACTED = a ++ w → sub p.1 p.2 0 a.reverse (w ++ rest) =
      w ++ sub p.1 p.2 0 (a ++ w).reverse rest from h REDACTED [] rfl
  intro w
  induction w with
  | nil =>
    intro a _
    rw [List.append_nil]
    rfl
  | cons c w ih =>
    intro a hsplit
    have hcopy : sub p.1 p.2 0 a.reverse (c::(w ++ rest)) =
        c::sub p.1 p.2 0 (c::a.reverse) (w ++ rest) := sub_copy (hp.marker a c w hsplit rest)
    have hih := ih (a ++ [c]) (by rw [hsplit,List.append_assoc]; rfl)
    rw [List.reverse_append,List.append_assoc] at hih
    exact hcopy.trans (congrArg (c::·) hih)

/-- The patterns leave a marker and what follows it apart, and nothing only where nothing was. -/
theorem finish_marker (rest : Str) : ∃ rest',
    finish U (REDACTED ++ rest) = some (REDACTED ++ rest') ∧ (rest' = [] ↔ rest = []) := by
  have hfold : ∀ (ps : List (Re × (Match → Str))) (rest : Str), (∀ p ∈ ps, Beginning p) →
      ∃ rest', ps.foldl (fun text p => sub p.1 p.2 0 [] text) (REDACTED ++ rest) =
        REDACTED ++ rest' ∧ (rest' = [] ↔ rest = []) := by
    intro ps
    induction ps with
    | nil => exact fun rest _ => ⟨rest,rfl,Iff.rfl⟩
    | cons p ps ih =>
      intro rest hps
      rw [List.forall_mem_cons] at hps
      obtain ⟨rest',hrest',hnil⟩ := ih (sub p.1 p.2 0 REDACTED.reverse rest) hps.2
      refine ⟨rest',by rw [List.foldl_cons,hps.1.sub_marker,hrest'],hnil.trans ⟨fun h => ?_,?_⟩⟩
      · by_contra hne
        exact hps.1.after rest hne h
      · rintro rfl
        rw [sub]
  have htake : (REDACTED ++ rest).take MAX_SCAN_LENGTH =
      REDACTED ++ rest.take (MAX_SCAN_LENGTH-10) := by
    rw [List.take_append,List.take_of_length_le (by decide)]
    rfl
  obtain ⟨rest',hrest',hnil⟩ :=
    hfold (PATTERNS U) (rest.take (MAX_SCAN_LENGTH-10)) beginning_patterns
  refine ⟨rest',?_,hnil.trans ?_⟩
  · unfold finish
    rw [htake,hrest']
    exact if_neg (List.append_ne_nil_of_left_ne_nil redacted_ne_nil _)
  · rw [List.take_eq_nil_iff]
    exact or_iff_right (by decide)

/-- The patterns put no marker at the beginning of a text. -/
theorem finish_other {c : Char} (hc : c ≠ '<') (y : Str) :
    ∃ d z, finish U (c::y) = some (d::z) ∧ d ≠ '<' := by
  have hfold : ∀ (ps : List (Re × (Match → Str))) (c : Char) (y : Str), (∀ p ∈ ps, Beginning p) →
      c ≠ '<' → ∃ d z, ps.foldl (fun text p => sub p.1 p.2 0 [] text) (c::y) = d::z ∧ d ≠ '<' := by
    intro ps
    induction ps with
    | nil => exact fun c y _ hc => ⟨c,y,rfl,hc⟩
    | cons p ps ih =>
      intro c y hps hc
      rw [List.forall_mem_cons] at hps
      obtain ⟨d,z,hsub,hd⟩ := hps.1.other c y hc
      rw [List.foldl_cons,hsub]
      exact ih d z hps.2 hd
  obtain ⟨d,z,hz,hd⟩ := hfold (PATTERNS U) c (y.take (MAX_SCAN_LENGTH-1)) beginning_patterns hc
  refine ⟨d,z,?_,hd⟩
  have htake : (c::y).take MAX_SCAN_LENGTH = c::y.take (MAX_SCAN_LENGTH-1) := rfl
  unfold finish
  rw [htake,hz]
  exact if_neg (List.cons_ne_nil d z)

end Passes

section Apart

variable {U : Unicode} {s t u : Str}

theorem squeeze_of_spells (h : Spells (space_tolerant s) u) : squeeze u = squeeze s := by
  obtain ⟨g,hg⟩ := h
  exact squeeze_eq_of_matches hg

/-- An occurrence without spaces is the secret. -/
theorem eq_of_spells (hs : ' ' ∉ s) (hu : ' ' ∉ u) (h : Spells (space_tolerant s) u) : u = s := by
  rw [← squeeze_eq_self hu,← squeeze_eq_self hs]
  exact squeeze_of_spells h

theorem not_mem_of_spells {c : Char} (hc : c ≠ ' ') (hs : c ∉ s)
    (h : Spells (space_tolerant s) u) : c ∉ u := by
  intro hmem
  have hsqueeze : c ∈ squeeze u := List.mem_filter.mpr ⟨hmem,by simpa using hc⟩
  rw [squeeze_of_spells h] at hsqueeze
  exact hs (List.mem_filter.mp hsqueeze).1

/-- Where one of two stretches of a text begins within the other. -/
theorem split_overlap {a x a' x' : Str} (h : a ++ x = a' ++ x') :
    (∃ e, a' = a ++ e ∧ x = e ++ x') ∨ ∃ e, a = a' ++ e ∧ x' = e ++ x := by
  rcases List.append_eq_append_iff.mp h with ⟨e,ha,hx⟩ | ⟨e,ha,hx⟩
  · exact Or.inl ⟨e,ha,hx⟩
  · exact Or.inr ⟨e,ha,hx⟩

/-- The occurrences of a secret of the contract do not meet a marker. -/
theorem Secret.apart_marker (hs : Secret U s) :
    Apart (Normal U) (Spells (space_tolerant s)) (· = REDACTED) := by
  intro a u b a' marker b' hu hmarker heq _ hlt hlt'
  subst hmarker
  exfalso
  have hopen : '<' ∉ u := not_mem_of_spells (by decide) hs.open_bracket hu
  have hclose : '>' ∉ u := not_mem_of_spells (by decide) hs.close_bracket hu
  rcases split_overlap heq with ⟨e,rfl,hx⟩ | ⟨e,rfl,hx⟩
  · have hle : e.length ≤ u.length := by
      rw [List.length_append] at hlt'
      omega
    obtain ⟨f,rfl⟩ := List.prefix_of_prefix_length_le (hx ▸ List.prefix_append e (REDACTED ++ b'))
      (List.prefix_append u b) hle
    rw [List.append_assoc] at hx
    have hf := List.append_cancel_left hx
    cases f with
    | nil =>
      simp only [List.length_append,List.length_nil] at hlt'
      omega
    | cons d f =>
      have hhead : d::(f ++ b) = '<'::(REDACTED.tail ++ b') := hf
      rw [(List.cons.inj hhead).1] at hopen
      exact hopen (List.mem_append_right e List.mem_cons_self)
  · have hle : e.length ≤ REDACTED.length := by
      rw [List.length_append] at hlt
      omega
    obtain ⟨f,hf⟩ := List.prefix_of_prefix_length_le (hx ▸ List.prefix_append e (u ++ b))
      (List.prefix_append REDACTED b') hle
    rw [← hf,List.append_assoc] at hx
    have hfu := List.append_cancel_left hx
    have hlast : f ≠ [] → f.getLast? = some '>' := by
      intro hne
      rw [← List.getLast?_append_of_ne_nil e hne,hf]
      rfl
    have hfne : f ≠ [] := by
      rintro rfl
      rw [List.append_nil] at hf
      rw [List.length_append,hf] at hlt
      omega
    rcases Nat.le_total f.length u.length with hfu' | hfu'
    · obtain ⟨z,rfl⟩ := List.prefix_of_prefix_length_le (hfu ▸ List.prefix_append f b')
        (List.prefix_append u b) hfu'
      exact hclose (List.mem_append_left z (List.mem_of_getLast? (hlast hfne)))
    · obtain ⟨z,rfl⟩ := List.prefix_of_prefix_length_le (hfu ▸ List.prefix_append u b)
        (List.prefix_append f b') hfu'
      have hspace : ' ' ∉ u := by
        intro hmem
        have hin : ' ' ∈ REDACTED := by
          rw [← hf]
          simp [hmem]
        exact absurd hin (by decide)
      refine hs.marker ?_
      rw [← eq_of_spells hs.no_space hspace hu]
      exact ⟨e,z,by rw [← hf,List.append_assoc]⟩

end Apart

section Loop

variable {U : Unicode} {secrets : List Str} {s t : Str}

/-- The secrets that are scrubbed are those of the contract, and short enough for two of them to
fit in a message. -/
def Contract (U : Unicode) (secrets : List Str) : Prop :=
  ∀ s ∈ secrets, MIN_SECRET_LENGTH ≤ s.length → Secret U s ∧ 2 * s.length ≤ MAX_INPUT_LENGTH

theorem Contract.of_subset {secrets' : List Str} (h : Contract U secrets)
    (hsub : ∀ s ∈ secrets', s ∈ secrets) : Contract U secrets' :=
  fun s hs hlen => h s (hsub s hs) hlen

theorem scrub_marker (hs : MIN_SECRET_LENGTH ≤ s.length → Secret U s) {l r : Str}
    (hN : ∀ c ∈ l ++ (REDACTED ++ r), Normal U c) :
    scrub (l ++ (REDACTED ++ r)) s = scrub l s ++ (REDACTED ++ scrub r s) := by
  by_cases hlen : MIN_SECRET_LENGTH ≤ s.length
  · rw [scrub_eq hlen,scrub_eq hlen,scrub_eq hlen]
    exact replaced_around (replaceable hlen) redacted_ne_nil (hs hlen).apart_marker hN
  · simp only [scrub,if_neg hlen]

theorem normal_marker {l r : Str} (hl : ∀ c ∈ l, Normal U c) (hr : ∀ c ∈ r, Normal U c) :
    ∀ c ∈ l ++ (REDACTED ++ r), Normal U c :=
  List.forall_mem_append.mpr ⟨hl,List.forall_mem_append.mpr ⟨normal_redacted U,hr⟩⟩

/-- The loop works on the two sides of a marker. -/
theorem scrubs_marker (hs : Contract U secrets) {l r : Str} (hl : ∀ c ∈ l, Normal U c)
    (hr : ∀ c ∈ r, Normal U c) : secrets.foldl scrub (l ++ (REDACTED ++ r)) =
      secrets.foldl scrub l ++ (REDACTED ++ secrets.foldl scrub r) := by
  induction secrets generalizing l r with
  | nil => rfl
  | cons s secrets ih =>
    have hscrub := scrub_marker (fun hlen => (hs s List.mem_cons_self hlen).1) (normal_marker hl hr)
    rw [List.foldl_cons,List.foldl_cons,List.foldl_cons,hscrub]
    have hrest : Contract U secrets := hs.of_subset fun q hq => List.mem_cons_of_mem s hq
    exact ih hrest (normal_scrub hl) (normal_scrub hr)

theorem scrubs_nil (secrets : List Str) : secrets.foldl scrub [] = [] := by
  induction secrets with
  | nil => rfl
  | cons s secrets ih =>
    have hscrub : scrub [] s = [] := by
      unfold scrub
      split
      · rw [sub]
      · rfl
    rw [List.foldl_cons,hscrub,ih]

theorem marker_ne_nil (l r : Str) : l ++ (REDACTED ++ r) ≠ [] :=
  List.append_ne_nil_of_right_ne_nil l (List.append_ne_nil_of_left_ne_nil redacted_ne_nil r)

/-- A scrub leaves a text as it is, or replaces an occurrence with only copies before it. -/
theorem scrub_cases (hlen : MIN_SECRET_LENGTH ≤ s.length) (l : Str) : scrub l s = l ∨
    ∃ p u b, l = p ++ (u ++ b) ∧ Spells (space_tolerant s) u ∧
      scrub l s = p ++ (REDACTED ++ scrub b s) := by
  have hr := replaceable hlen
  rw [scrub_eq hlen]
  induction l using first_induction hr.free hr.proper with
  | nil => exact Or.inl replaced_nil
  | copy c l hc ih =>
    rw [replaced_copy hr.free hc]
    rcases ih with h | ⟨p,u,b,hl,hu,h⟩
    · exact Or.inl (congrArg (c::·) h)
    · exact Or.inr ⟨c::p,u,b,congrArg (c::·) hl,hu,congrArg (c::·) h⟩
  | found u l _ hu _ =>
    obtain ⟨_,_,hspells⟩ := spells_of_first hr.free hu
    refine Or.inr ⟨[],u,l,rfl,hspells,?_⟩
    rw [replaced_match hr.free hr.proper hu,scrub_eq hlen]
    rfl

theorem scrub_ne_nil {r : Str} (hr : r ≠ []) : scrub r s ≠ [] := by
  by_cases hlen : MIN_SECRET_LENGTH ≤ s.length
  · rcases scrub_cases hlen r with h | ⟨p,u,b,-,-,h⟩
    · rw [h]
      exact hr
    · rw [h]
      exact marker_ne_nil _ _
  · simp only [scrub,if_neg hlen]
    exact hr

/-- The scrub of a secret of the contract replaces it in a text without spaces. -/
theorem scrub_occurs (hs : Secret U s) {l : Str} (hl : ' ' ∉ l) (hocc : s <:+: l) :
    ∃ p b, l = p ++ (s ++ b) ∧ scrub l s = p ++ (REDACTED ++ scrub b s) := by
  rcases scrub_cases hs.length l with h | ⟨p,u,b,rfl,hu,h⟩
  · have habsent := scrub_absent hs l
    rw [h] at habsent
    have hoccurs : Occurs s l := by
      unfold Occurs
      rw [squeeze_eq_self hl]
      exact hocc
    exact absurd hoccurs habsent
  · have hspace : ' ' ∉ u := fun hmem => hl (by simp [hmem])
    rw [eq_of_spells hs.no_space hspace hu] at h ⊢
    exact ⟨p,b,rfl,h⟩

/-- A text of visible characters is normalized. -/
theorem normalize_visible {word : Str} (hne : word ≠ []) (hword : ∀ c ∈ word, visible U c = true)
    (hlen : word.length ≤ MAX_INPUT_LENGTH) : normalize U word = word := by
  have haround : around [] word [] = word := List.append_nil word
  have h := normalize_around (U:=U) (u:=[]) (y:=[]) hne nofun hword nofun (haround.symm ▸ hlen)
  rwa [haround] at h

end Loop

section Remains

variable {U : Unicode} {secrets : List Str} {s t x : Str}

/-- A marker stands in the text, and something beside it. -/
def Remains (x : Str) : Prop :=
  ∃ l r, x = l ++ (REDACTED ++ r) ∧ '<' ∉ l ∧ ' ' ∉ l ∧ (l ≠ [] ∨ r ≠ [])

theorem finish_remains (h : Remains x) : finish U x ≠ some REDACTED := by
  obtain ⟨l,r,rfl,hl,-,hne⟩ := h
  cases l with
  | nil =>
    obtain ⟨r',hr',hnil⟩ := finish_marker (U:=U) r
    rw [List.nil_append,hr']
    intro heq
    have hr : r' = [] := by simpa using Option.some.inj heq
    exact hne.elim (fun h => h rfl) fun h => h (hnil.mp hr)
  | cons c l =>
    have hc : c ≠ '<' := fun hc => hl (by simp [hc])
    obtain ⟨d,z,hd,hne'⟩ := finish_other (U:=U) hc (l ++ (REDACTED ++ r))
    rw [List.cons_append,hd]
    intro heq
    exact hne' (List.cons.inj (Option.some.inj heq)).1

theorem finish_redacted : finish U REDACTED = some REDACTED := by
  obtain ⟨r,hr,hnil⟩ := finish_marker (U:=U) []
  rw [List.append_nil,hnil.mpr rfl,List.append_nil] at hr
  exact hr

/-- The scrub of a text without spaces copies it up to the first occurrence. -/
theorem scrub_word (hs : MIN_SECRET_LENGTH ≤ s.length → Secret U s) (hx : ' ' ∉ x) :
    scrub x s = x ∨ ∃ p b, x = p ++ (s ++ b) ∧ scrub x s = p ++ (REDACTED ++ scrub b s) := by
  by_cases hlen : MIN_SECRET_LENGTH ≤ s.length
  · by_cases hocc : s <:+: x
    · exact Or.inr (scrub_occurs (hs hlen) hx hocc)
    · refine Or.inl (scrub_eq_self (hs hlen) fun h => hocc ?_)
      unfold Occurs at h
      rwa [squeeze_eq_self hx] at h
  · exact Or.inl (by simp only [scrub,if_neg hlen])

theorem Remains.step (hs : MIN_SECRET_LENGTH ≤ s.length → Secret U s) (h : Remains x)
    (hN : ∀ c ∈ x, Normal U c) : Remains (scrub x s) := by
  obtain ⟨l,r,rfl,hl,hspace,hne⟩ := h
  rw [scrub_marker hs hN]
  rcases scrub_word hs hspace with hsame | ⟨p,b,rfl,hscrub⟩
  · rw [hsame]
    exact ⟨l,_,rfl,hl,hspace,hne.imp_right scrub_ne_nil⟩
  · rw [hscrub,List.append_assoc,List.append_assoc]
    refine ⟨p,_,rfl,fun h => hl ?_,fun h => hspace ?_,Or.inr ?_⟩
    · exact List.mem_append_left _ h
    · exact List.mem_append_left _ h
    · exact marker_ne_nil _ _

theorem Remains.run (hc : Contract U secrets) (h : Remains x) (hN : ∀ c ∈ x, Normal U c) :
    Remains (secrets.foldl scrub x) := by
  induction secrets generalizing x with
  | nil => exact h
  | cons s secrets ih =>
    have hscrub := h.step (fun hlen => (hc s List.mem_cons_self hlen).1) hN
    exact ih (hc.of_subset fun q hq => List.mem_cons_of_mem s hq) hscrub (normal_scrub hN)

/-- The other secrets do not replace a secret as a whole, one that occurs in it a part of it. -/
theorem remains_of_infix (hs : Secret U s) (hc : Contract U secrets)
    (hne : ∀ q ∈ secrets, q ≠ s) (ht : t ∈ secrets) (hlen : MIN_SECRET_LENGTH ≤ t.length)
    (hts : t <:+: s) : Remains (secrets.foldl scrub s) := by
  induction secrets with
  | nil => cases ht
  | cons q secrets ih =>
    have hq : MIN_SECRET_LENGTH ≤ q.length → Secret U q :=
      fun hlen => (hc q List.mem_cons_self hlen).1
    have hrest : Contract U secrets := hc.of_subset fun q' hq' => List.mem_cons_of_mem q hq'
    have hnormal : ∀ c ∈ s, Normal U c := fun c hc => Or.inr (hs.visible c hc)
    rw [List.foldl_cons]
    rcases scrub_word hq hs.no_space with hsame | ⟨p,b,hsplit,hscrub⟩
    · rw [hsame]
      refine ih hrest (fun q' hq' => hne q' (List.mem_cons_of_mem q hq')) ?_
      rcases List.mem_cons.mp ht with rfl | ht
      · obtain ⟨p,b,-,hscrub⟩ := scrub_occurs (hq hlen) hs.no_space hts
        rw [hsame] at hscrub
        refine absurd ?_ hs.open_bracket
        rw [hscrub]
        exact List.mem_append_right p (List.mem_append_left _ List.mem_cons_self)
      · exact ht
    · refine Remains.run hrest ?_ (normal_scrub hnormal)
      rw [hscrub]
      refine ⟨p,_,rfl,fun h => hs.open_bracket ?_,fun h => hs.no_space ?_,?_⟩
      · rw [hsplit]
        exact List.mem_append_left _ h
      · rw [hsplit]
        exact List.mem_append_left _ h
      · by_contra hnone
        rw [not_or,not_not,not_not] at hnone
        have hb : b = [] := by
          by_contra hb
          exact scrub_ne_nil hb hnone.2
        rw [hnone.1,hb,List.append_nil] at hsplit
        exact hne q List.mem_cons_self hsplit.symm

end Remains

section Mixed

variable {U : Unicode} {secrets : List Str} {s t d o e : Str}

/-- A secret of the contract is replaced where a text begins with it. -/
theorem scrub_front (hs : Secret U s) (hspace : ' ' ∉ s ++ e) :
    scrub (s ++ e) s = REDACTED ++ scrub e s := by
  have hfree := free_space_tolerant s
  have hsqueeze : s <+: squeeze (s ++ e) := by
    rw [squeeze_eq_self hspace]
    exact List.prefix_append s e
  have hhead : (s ++ e).head? ≠ some ' ' := fun h => hspace (List.mem_of_head? h)
  obtain ⟨v,rest,g,hsplit,hg⟩ := matches_of_squeeze hs.ne_nil hs.no_space hhead hsqueeze []
  have hne := first_ne_none hfree ⟨g,hg.free hfree [] []⟩ rest
  rw [← hsplit] at hne
  obtain ⟨u,hu⟩ := Option.ne_none_iff_exists'.mp hne
  obtain ⟨b,heq,hspells⟩ := spells_of_first hfree hu
  have hword : ' ' ∉ u := fun h => hspace (by rw [heq]; exact List.mem_append_left b h)
  rw [eq_of_spells hs.no_space hword hspells] at hu
  rw [scrub_eq hs.length,scrub_eq hs.length]
  exact replaced_match hfree (replaceable hs.length).proper hu

/-- The loop puts a marker at the beginning of a text that begins with the first secret. -/
theorem sanitize_front (hc : Contract U (s::secrets)) (hs : Secret U s) (hne : s ++ e ≠ [])
    (hword : ∀ c ∈ s ++ e, visible U c = true) (hlen : (s ++ e).length ≤ MAX_INPUT_LENGTH) :
    ∃ rest, sanitize_error_message U (some (s ++ e)) (s::secrets) = some (REDACTED ++ rest) := by
  have hspace : ' ' ∉ s ++ e := fun h => visible_ne_space (hword _ h) rfl
  have hafter : ∀ c ∈ scrub e s, Normal U c :=
    normal_scrub fun c h => Or.inr (hword c (List.mem_append_right s h))
  have hrest : Contract U secrets := hc.of_subset fun q hq => List.mem_cons_of_mem s hq
  have hmarker := scrubs_marker hrest (l:=[]) nofun hafter
  rw [scrubs_nil,List.nil_append,List.nil_append] at hmarker
  obtain ⟨rest,hfinish,-⟩ := finish_marker (U:=U) (secrets.foldl scrub (scrub e s))
  refine ⟨rest,?_⟩
  rw [sanitize_eq hne,normalize_visible hne hword hlen,List.foldl_cons,scrub_front hs hspace,
    hmarker,hfinish]

/-- A secret within another one shows in the output unless the longer one is scrubbed first. -/
theorem not_same_of_infix (hc : Contract U secrets) (hs : s ∈ secrets) (ht : t ∈ secrets)
    (hls : MIN_SECRET_LENGTH ≤ s.length) (hlt : MIN_SECRET_LENGTH ≤ t.length) (hne : s ≠ t)
    (hts : t <:+: s) : ∃ message secrets', secrets.Perm secrets' ∧
      sanitize_error_message U message secrets ≠ sanitize_error_message U message secrets' := by
  obtain ⟨hsecret,hsmall⟩ := hc s hs hls
  have hnormal : normalize U s = s :=
    normalize_visible hsecret.ne_nil hsecret.visible (by omega)
  let others := secrets.filter fun q => q ≠ s
  let copies := secrets.filter fun q => !decide (q ≠ s)
  have hfirst : secrets.Perm (s::secrets.erase s) := List.perm_cons_erase hs
  have hlast : secrets.Perm (others ++ copies) := (List.filter_append_perm _ secrets).symm
  have hwhole : sanitize_error_message U (some s) (s::secrets.erase s) = some REDACTED := by
    have herase : Contract U (secrets.erase s) := hc.of_subset fun q hq => List.mem_of_mem_erase hq
    have hscrub : scrub s s = REDACTED ++ [] := by
      have hfront := scrub_front (e:=[]) hsecret (by rw [List.append_nil]; exact hsecret.no_space)
      rw [List.append_nil] at hfront
      exact hfront.trans (congrArg (REDACTED ++ ·) (scrubs_nil [s]))
    have hmarker := scrubs_marker herase (l:=[]) (r:=[]) nofun nofun
    rw [scrubs_nil,List.nil_append] at hmarker
    rw [sanitize_eq hsecret.ne_nil,hnormal,List.foldl_cons,hscrub,hmarker,List.append_nil,
      finish_redacted]
  have hpart : sanitize_error_message U (some s) (others ++ copies) ≠ some REDACTED := by
    have hothers : Contract U others := hc.of_subset fun q hq => (List.mem_filter.mp hq).1
    have hcopies : Contract U copies := hc.of_subset fun q hq => (List.mem_filter.mp hq).1
    have hvisible : ∀ c ∈ s, Normal U c := fun c hc => Or.inr (hsecret.visible c hc)
    have hremains : Remains (others.foldl scrub s) :=
      remains_of_infix hsecret hothers (fun q hq => by simpa using (List.mem_filter.mp hq).2)
        (List.mem_filter.mpr ⟨ht,by simpa using hne.symm⟩) hlt hts
    rw [sanitize_eq hsecret.ne_nil,hnormal,List.foldl_append]
    exact finish_remains (hremains.run hcopies (normal_scrubs hvisible))
  by_cases hsame : sanitize_error_message U (some s) secrets = some REDACTED
  · exact ⟨some s,_,hlast,fun h => hpart (h.symm.trans hsame)⟩
  · exact ⟨some s,_,hfirst,fun h => hsame (h.trans hwhole)⟩

/-- Secrets none of which occurs in another one. -/
def Bare (secrets : List Str) : Prop :=
  ∀ s ∈ secrets, ∀ t ∈ secrets, MIN_SECRET_LENGTH ≤ s.length → MIN_SECRET_LENGTH ≤ t.length →
    s ≠ t → ¬ t <:+: s

/-- A part of a secret is copied where no secret occurs in another one. -/
theorem scrubs_part (hc : Contract U secrets) (h : Bare secrets) {p : Str} {secrets' : List Str}
    (hsub : ∀ q ∈ secrets', q ∈ secrets) (hs : s ∈ secrets) (hls : MIN_SECRET_LENGTH ≤ s.length)
    (hp : p <:+: s) (hlt : p.length < s.length) : secrets'.foldl scrub p = p := by
  induction secrets' with
  | nil => rfl
  | cons q secrets' ih =>
    rw [List.forall_mem_cons] at hsub
    have hspace : ' ' ∉ p := fun h => (hc s hs hls).1.no_space (hp.subset h)
    have hsecret : MIN_SECRET_LENGTH ≤ q.length → Secret U q := fun hlq => (hc q hsub.1 hlq).1
    have hscrub : scrub p q = p := by
      by_cases hlq : MIN_SECRET_LENGTH ≤ q.length
      · refine scrub_eq_self (hsecret hlq) fun hocc => ?_
        unfold Occurs at hocc
        rw [squeeze_eq_self hspace] at hocc
        have hne : s ≠ q := by
          rintro rfl
          exact absurd hocc.length_le (Nat.not_le_of_lt hlt)
        exact h s hs q hsub.1 hls hlq hne (hocc.trans hp)
      · simp only [scrub,if_neg hlq]
    rw [List.foldl_cons,hscrub]
    exact ih hsub.2

/-- Where two secrets overlap, the output begins with a marker or not. -/
theorem not_same_of_overlap (hc : Contract U secrets) (h : Bare secrets) (hs : d ++ o ∈ secrets)
    (ht : o ++ e ∈ secrets) (hls : MIN_SECRET_LENGTH ≤ (d ++ o).length)
    (hlt : MIN_SECRET_LENGTH ≤ (o ++ e).length) (hne : d ++ o ≠ o ++ e) (ho : o ≠ []) :
    ∃ message secrets', secrets.Perm secrets' ∧
      sanitize_error_message U message secrets ≠ sanitize_error_message U message secrets' := by
  obtain ⟨hsecret,hsmall⟩ := hc _ hs hls
  obtain ⟨hother,hsmall'⟩ := hc _ ht hlt
  have hvisible : ∀ c ∈ (d ++ o) ++ e, visible U c = true := by
    refine List.forall_mem_append.mpr ⟨hsecret.visible,fun c h => ?_⟩
    exact hother.visible c (List.mem_append_right o h)
  have hword : (d ++ o) ++ e ≠ [] := List.append_ne_nil_of_left_ne_nil hsecret.ne_nil e
  have hspace : ' ' ∉ (d ++ o) ++ e := fun h => visible_ne_space (hvisible _ h) rfl
  have hlen : ((d ++ o) ++ e).length ≤ MAX_INPUT_LENGTH := by
    simp only [List.length_append] at hsmall hsmall' ⊢
    omega
  have hfirst : secrets.Perm ((d ++ o)::secrets.erase (d ++ o)) := List.perm_cons_erase hs
  have hlast : secrets.Perm ((o ++ e)::secrets.erase (o ++ e)) := List.perm_cons_erase ht
  have hcut : secrets.erase (o ++ e) ⊆ secrets := fun q hq => List.mem_of_mem_erase hq
  obtain ⟨rest,hfront⟩ := sanitize_front (e:=e)
    (hc.of_subset fun q hq => hfirst.symm.subset hq) hsecret hword hvisible hlen
  -- the other secret first: what is before it stays
  have hback : ∃ c z, sanitize_error_message U (some ((d ++ o) ++ e))
      ((o ++ e)::secrets.erase (o ++ e)) = some (c::z) ∧ c ≠ '<' := by
    have hocc : o ++ e <:+: (d ++ o) ++ e := ⟨d,[],by simp⟩
    obtain ⟨p,b,hsplit,hscrub⟩ := scrub_occurs hother hspace hocc
    have hle : p.length ≤ d.length := by
      have hlength := congrArg List.length hsplit
      simp only [List.length_append] at hlength
      omega
    obtain ⟨d',hd'⟩ : p <+: d := by
      refine List.prefix_of_prefix_length_le ?_ ⟨o ++ e,(List.append_assoc d o e).symm⟩ hle
      exact ⟨_,hsplit.symm⟩
    have hp : p ≠ [] := by
      rintro rfl
      rw [List.nil_append] at hsplit
      rcases List.prefix_or_prefix_of_prefix (List.prefix_append (d ++ o) e)
        (hsplit ▸ List.prefix_append (o ++ e) b) with hin | hin
      · exact h _ ht _ hs hlt hls hne.symm hin.isInfix
      · exact h _ hs _ ht hls hlt hne hin.isInfix
    have hpart : (secrets.erase (o ++ e)).foldl scrub p = p := by
      refine scrubs_part hc h hcut hs hls ⟨[],d' ++ o,by rw [← hd']; simp⟩ ?_
      have := List.length_pos_iff.mpr ho
      rw [List.length_append]
      omega
    have hnormal : ∀ c ∈ p ++ ((o ++ e) ++ b), Normal U c :=
      fun c h => Or.inr (hvisible c (hsplit ▸ h))
    rw [List.forall_mem_append,List.forall_mem_append] at hnormal
    have hafter : ∀ c ∈ scrub b (o ++ e), Normal U c := normal_scrub hnormal.2.2
    have hmarker := scrubs_marker (hc.of_subset hcut) hnormal.1 hafter
    rw [sanitize_eq hword,normalize_visible hword hvisible hlen,List.foldl_cons,hscrub,hmarker,
      hpart]
    cases p with
    | nil => exact absurd rfl hp
    | cons c p =>
      refine finish_other (fun hc => hsecret.open_bracket ?_) _
      rw [← hd',hc]
      exact List.mem_cons_self
  obtain ⟨c,z,hback,hc'⟩ := hback
  by_cases hsame : sanitize_error_message U (some ((d ++ o) ++ e)) secrets = some (c::z)
  · refine ⟨some ((d ++ o) ++ e),_,hfirst,fun h => hc' ?_⟩
    rw [hsame,hfront] at h
    exact (List.cons.inj (Option.some.inj h)).1
  · exact ⟨some ((d ++ o) ++ e),_,hlast,fun h => hsame (h.trans hback)⟩

end Mixed

section Separate

variable {U : Unicode} {secrets : List Str} {s t u u' e b b' : Str}

/-- No secret that is scrubbed occurs in another one, or ends with what another one begins with. -/
def Separate (secrets : List Str) : Prop :=
  ∀ s ∈ secrets, ∀ t ∈ secrets, MIN_SECRET_LENGTH ≤ s.length → MIN_SECRET_LENGTH ≤ t.length →
    s ≠ t → ¬ t <:+: s ∧ ∀ o ∈ s.tails, o ≠ [] → ¬ o <+: t

instance (secrets : List Str) : Decidable (Separate secrets) := by
  unfold Separate
  infer_instance

/-- The end of an occurrence is not all spaces. -/
theorem squeeze_end_ne_nil (hs : Secret U s) (hu : Spells (space_tolerant s) (e ++ u))
    (hne : u ≠ []) : squeeze u ≠ [] := by
  obtain ⟨g,hg⟩ := hu
  have hlast := getLast?_of_matches hg
  rw [List.getLast?_append_of_ne_nil e hne] at hlast
  have hmem := List.mem_of_getLast? (List.getLast?_eq_some_getLast hne)
  intro hnil
  have hspace := List.filter_eq_nil_iff.mp hnil _ hmem
  rw [List.getLast?_eq_some_getLast hne] at hlast
  have hin := List.mem_of_getLast? hlast.symm
  exact visible_ne_space (hs.visible _ hin) (by simpa using hspace)

/-- Where an occurrence of a secret begins in an occurrence of another one, they overlap. -/
theorem mixed_of_begins (hs : Secret U s) (ht : Secret U t) (hu : Spells (space_tolerant s) u)
    (hu' : Spells (space_tolerant t) u') (heq : u ++ b = e ++ (u' ++ b'))
    (hlt : e.length < u.length) : t <:+: s ∨ ∃ o ∈ s.tails, o ≠ [] ∧ o <+: t := by
  obtain ⟨f,rfl⟩ := List.prefix_of_prefix_length_le (List.prefix_append e (u' ++ b'))
    (heq ▸ List.prefix_append u b) hlt.le
  have hf : f ≠ [] := by
    rintro rfl
    rw [List.append_nil] at hlt
    exact absurd hlt (Nat.lt_irrefl _)
  rw [List.append_assoc] at heq
  have hfu := List.append_cancel_left heq
  have hend := squeeze_end_ne_nil hs hu hf
  have hsplit := squeeze_of_spells hu
  have hother := squeeze_of_spells hu'
  rw [squeeze_eq_self hs.no_space,squeeze_append] at hsplit
  rw [squeeze_eq_self ht.no_space] at hother
  rcases Nat.le_total f.length u'.length with hle | hle
  · obtain ⟨g,rfl⟩ := List.prefix_of_prefix_length_le (hfu ▸ List.prefix_append f b)
      (List.prefix_append u' b') hle
    rw [squeeze_append] at hother
    exact Or.inr ⟨squeeze f,(List.mem_tails _ _).mpr ⟨squeeze e,hsplit⟩,hend,⟨squeeze g,hother⟩⟩
  · obtain ⟨g,rfl⟩ := List.prefix_of_prefix_length_le (hfu ▸ List.prefix_append u' b')
      (List.prefix_append f b) hle
    rw [squeeze_append,hother] at hsplit
    exact Or.inl ⟨squeeze e,squeeze g,by rw [← hsplit,List.append_assoc]⟩

theorem unmixed_of_separate (hc : Contract U secrets) (h : Separate secrets) :
    Unmixed U secrets := by
  intro s hs t ht hls hlt hne
  have hsecret := (hc s hs hls).1
  have hother := (hc t ht hlt).1
  refine ⟨?_,hsecret.apart_marker⟩
  intro a u b a' u' b' hu hu' heq _ hlt₁ hlt₂
  exfalso
  rcases split_overlap heq with ⟨e,rfl,hx⟩ | ⟨e,rfl,hx⟩
  · have hshort : e.length < u.length := by
      rw [List.length_append] at hlt₂
      omega
    rcases mixed_of_begins hsecret hother hu hu' hx hshort with hin | ⟨o,ho,hnil,hpre⟩
    · exact (h s hs t ht hls hlt hne).1 hin
    · exact (h s hs t ht hls hlt hne).2 o ho hnil hpre
  · have hshort : e.length < u'.length := by
      rw [List.length_append] at hlt₁
      omega
    rcases mixed_of_begins hother hsecret hu' hu hx hshort with hin | ⟨o,ho,hnil,hpre⟩
    · exact (h t ht s hs hlt hls hne.symm).1 hin
    · exact (h t ht s hs hlt hls hne.symm).2 o ho hnil hpre

theorem separate_of_same (hc : Contract U secrets)
    (h : ∀ message secrets', secrets.Perm secrets' →
      sanitize_error_message U message secrets = sanitize_error_message U message secrets') :
    Separate secrets := by
  have hbare : Bare secrets := by
    intro s hs t ht hls hlt hne hts
    obtain ⟨message,secrets',hperm,hdiff⟩ := not_same_of_infix hc hs ht hls hlt hne hts
    exact hdiff (h message secrets' hperm)
  intro s hs t ht hls hlt hne
  refine ⟨hbare s hs t ht hls hlt hne,fun o ho hnil hpre => ?_⟩
  obtain ⟨d,rfl⟩ := (List.mem_tails _ _).mp ho
  obtain ⟨e,rfl⟩ := hpre
  obtain ⟨message,secrets',hperm,hdiff⟩ := not_same_of_overlap hc hbare hs ht hls hlt hne hnil
  exact hdiff (h message secrets' hperm)

/-- The order does not matter where the secrets do not mix, and of visible secrets only where none
occurs in another one and none ends with what another one begins with. -/
theorem redaction_order (U : Unicode) (secrets : List Str) :
    (Unmixed U secrets → OrderFree U secrets) ∧
      (Contract U secrets → (OrderFree U secrets ↔ Separate secrets)) := by
  refine ⟨orderFree_of_unmixed,fun hc => ⟨fun h => ?_,fun h => ?_⟩⟩
  · exact separate_of_same hc h.same
  · exact orderFree_of_unmixed (unmixed_of_separate hc h)

/-- A token and a longer one that begins with it. -/
def sampleToken : Str := "abcdef".toList

def longToken : Str := "abcdefgh".toList

theorem contract_sample : Contract asciiWords [sampleKey,sampleToken,longToken] := by
  have htoken : ∀ c ∈ sampleToken, visible asciiWords c = true := List.all_eq_true.mp rfl
  have hlong : ∀ c ∈ longToken, visible asciiWords c = true := List.all_eq_true.mp rfl
  have hmarker : ∀ s : Str, 'b' ∈ s → ¬ s <:+: REDACTED :=
    fun s hs h => absurd (h.subset hs) (by decide)
  intro s hs _
  simp only [List.mem_cons,List.not_mem_nil,or_false] at hs
  rcases hs with rfl | rfl | rfl
  · exact ⟨secret_key,by decide⟩
  · exact ⟨⟨by decide,htoken,by decide,by decide,hmarker _ (by decide)⟩,by decide⟩
  · exact ⟨⟨by decide,hlong,by decide,by decide,hmarker _ (by decide)⟩,by decide⟩

theorem order_sample : OrderFree asciiWords [sampleKey,sampleToken] ∧
    ¬ OrderFree asciiWords [sampleToken,longToken] := by
  constructor
  · have hc : Contract asciiWords [sampleKey,sampleToken] := contract_sample.of_subset (by decide)
    exact (redaction_order asciiWords _).1 (unmixed_of_separate hc (by decide))
  · have hc : Contract asciiWords [sampleToken,longToken] := contract_sample.of_subset (by decide)
    intro h
    have hseparate := ((redaction_order asciiWords _).2 hc).mp h
    exact absurd hseparate (by decide)

/-- The shorter secret first leaves the end of the longer one. -/
theorem shorter_secret_first : ¬ ∀ U secrets, OrderFree U secrets := by
  intro h
  have hnormal : normalize asciiWords longToken = longToken := by decide +kernel
  have hshort : [sampleToken,longToken].foldl scrub longToken = REDACTED ++ "gh".toList := by
    decide +kernel
  have hlong : [longToken,sampleToken].foldl scrub longToken = REDACTED := by decide +kernel
  have hne : longToken ≠ [] := by decide
  have hsame := (h asciiWords [sampleToken,longToken]).same (some longToken) _ (.swap ..)
  obtain ⟨rest,hfinish,hnil⟩ := finish_marker (U:=asciiWords) "gh".toList
  rw [sanitize_eq hne,sanitize_eq hne,hnormal,hshort,hlong,hfinish,finish_redacted,Option.some_inj,
    List.append_right_eq_self] at hsame
  exact absurd (hnil.mp hsame) (by decide)

end Separate

section Client

variable {U : Unicode} {token password message : Str}

/-- The credentials of a client: its token and the password of its URL, where there are any. -/
def redact_values (token : Str) (password : Option Str) : List Str :=
  (token::password.toList).filter (· ≠ [])

def DataHubClient.sanitize (U : Unicode) (token : Str) (password : Option Str) (message : Str) :
    Str :=
  (sanitize_error_message U (some message) (redact_values token password)).getD []

/-- Which of the two credentials is the token makes no difference where they do not mix. -/
theorem DataHubClient.sanitize_swap (h : Unmixed U [token,password]) :
    sanitize U token (some password) message = sanitize U password (some token) message := by
  have hfree : OrderFree U (redact_values token (some password)) := orderFree_of_unmixed
    fun s hs t ht => h s (List.mem_of_mem_filter hs) t (List.mem_of_mem_filter ht)
  have hperm : (redact_values token (some password)).Perm (redact_values password (some token)) :=
    (List.Perm.swap password token []).filter _
  exact congrArg (·.getD []) (hfree.same (some message) _ hperm)

end Client

end Redaction
end Dataspoke
