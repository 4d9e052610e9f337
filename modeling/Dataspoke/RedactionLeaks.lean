import Dataspoke.RedactionSafety

/-!
# What redaction brings back

For a secret of each kind that a pass can bring back, a message without the secret whose
sanitized text has it. The characters that are not part of the match stand one by one between
spaces, where no pattern matches.
-/

namespace Dataspoke
namespace Redaction

open Python Regex

section Spread

/-- The characters, each with a space after it, or before it. -/
def spread (u : Str) : Str := u.flatMap fun c => [c,' ']

def trail (y : Str) : Str := y.flatMap fun c => [' ',c]

@[simp] theorem spread_nil : spread [] = [] := rfl

theorem spread_cons (c : Char) (u : Str) : spread (c::u) = c:: ' '::spread u := rfl

theorem trail_cons (c : Char) (y : Str) : trail (c::y) = ' '::c::trail y := rfl

theorem squeeze_spread {u : Str} (h : ' ' ∉ u) : squeeze (spread u) = u := by
  induction u with
  | nil => rfl
  | cons c u ih =>
    rw [List.mem_cons,not_or] at h
    rw [spread_cons,squeeze_cons,if_neg (Ne.symm h.1),squeeze_cons,if_pos rfl,ih h.2]

theorem squeeze_trail {y : Str} (h : ' ' ∉ y) : squeeze (trail y) = y := by
  induction y with
  | nil => rfl
  | cons c y ih =>
    rw [List.mem_cons,not_or] at h
    rw [trail_cons,squeeze_cons,if_pos rfl,squeeze_cons,if_neg (Ne.symm h.1),ih h.2]

theorem length_spread (u : Str) : (spread u).length = 2 * u.length := by
  induction u with
  | nil => rfl
  | cons c u ih =>
    rw [spread_cons,List.length_cons,List.length_cons,ih,List.length_cons]
    omega

theorem length_trail (y : Str) : (trail y).length = 2 * y.length := by
  induction y with
  | nil => rfl
  | cons c y ih =>
    rw [trail_cons,List.length_cons,List.length_cons,ih,List.length_cons]
    omega

/-- A message with one word among single characters. -/
def around (u word y : Str) : Str := spread u ++ (word ++ trail y)

theorem split_spread {u : Str} (h : ∀ c ∈ u, isspace c = false) (rest : Str) :
    split (spread u ++ rest) = u.map (fun c => [c]) ++ split rest := by
  induction u with
  | nil => rfl
  | cons c u ih =>
    rw [List.forall_mem_cons] at h
    have hsplit : (c:: ' '::(spread u ++ rest)).splitOnP isspace =
        [c]::(spread u ++ rest).splitOnP isspace :=
      @List.splitOnP_append_cons_of_forall_mem _ isspace [c] (by simpa using h.1) ' ' (by decide) _
    have ih := ih h.2
    unfold split at ih ⊢
    rw [spread_cons,List.cons_append,List.cons_append,hsplit,List.filter_cons,if_pos (by simp),ih]
    rfl

theorem split_trail {word y : Str} (hne : word ≠ []) (hword : ∀ c ∈ word, isspace c = false)
    (hy : ∀ c ∈ y, isspace c = false) :
    split (word ++ trail y) = word::y.map fun c => [c] := by
  induction y generalizing word with
  | nil =>
    unfold split
    rw [trail,List.flatMap_nil,List.append_nil,List.splitOnP_eq_singleton hword]
    simp [hne]
  | cons c y ih =>
    rw [List.forall_mem_cons] at hy
    have hsplit : (word ++ ' '::(c::trail y)).splitOnP isspace =
        word::([c] ++ trail y).splitOnP isspace :=
      List.splitOnP_append_cons_of_forall_mem hword ' ' (by decide) _
    have ih := @ih [c] (by simp) (by simpa using hy.1) hy.2
    unfold split at ih ⊢
    rw [trail_cons,hsplit,List.filter_cons,if_pos (by simpa using hne),ih]
    rfl

theorem intercalate_singles {word y : Str} :
    [' '].intercalate (word::y.map fun c => [c]) = word ++ trail y := by
  induction y generalizing word with
  | nil => simp [trail,List.intercalate_singleton]
  | cons c y ih =>
    rw [List.map_cons,List.intercalate_cons_cons,ih,trail_cons]
    simp

theorem intercalate_around {u word y : Str} :
    [' '].intercalate (u.map (fun c => [c]) ++ word::y.map fun c => [c]) = around u word y := by
  induction u with
  | nil => exact intercalate_singles
  | cons c u ih =>
    rw [List.map_cons,List.cons_append,List.intercalate_cons_of_ne_nil (by simp),ih]
    simp [around,spread_cons]

variable {U : Unicode}

theorem not_space_of_visible {c : Char} (h : visible U c = true) : isspace c = false := by
  simp only [visible,Bool.and_eq_true,Bool.not_eq_true'] at h
  exact h.2

theorem normal_around {u word y : Str} (hu : ∀ c ∈ u, visible U c = true)
    (hword : ∀ c ∈ word, visible U c = true) (hy : ∀ c ∈ y, visible U c = true) :
    ∀ c ∈ around u word y, Normal U c := by
  intro c hc
  simp only [around,spread,trail,List.mem_append,List.mem_flatMap,List.mem_cons,List.not_mem_nil,
    or_false] at hc
  rcases hc with ⟨d,hd,rfl | rfl⟩ | hc | ⟨d,hd,rfl | rfl⟩
  · exact .inr (hu _ hd)
  · exact .inl rfl
  · exact .inr (hword _ hc)
  · exact .inl rfl
  · exact .inr (hy _ hd)

/-- Such a message is normalized already. -/
theorem normalize_around {u word y : Str} (hne : word ≠ []) (hu : ∀ c ∈ u, visible U c = true)
    (hword : ∀ c ∈ word, visible U c = true) (hy : ∀ c ∈ y, visible U c = true)
    (hlen : (around u word y).length ≤ MAX_INPUT_LENGTH) :
    normalize U (around u word y) = around u word y := by
  have hnosp : ∀ {t : Str}, (∀ c ∈ t, visible U c = true) → ∀ c ∈ t, isspace c = false :=
    fun h c hc => not_space_of_visible (h c hc)
  unfold normalize
  rw [List.take_of_length_le hlen]
  have hsplit : split (around u word y) = u.map (fun c => [c]) ++ word::y.map fun c => [c] := by
    rw [around,split_spread (hnosp hu),split_trail hne (hnosp hword) (hnosp hy)]
  rw [hsplit,intercalate_around]
  refine List.filter_eq_self.mpr fun c hc => ?_
  rcases normal_around hu hword hy c hc with rfl | hv
  · rfl
  · have hprint : isprintable U c = true := by
      simp only [visible,Bool.and_eq_true] at hv
      exact hv.1
    have hformat := (Normal.category (U:=U) (.inr hv)).2
    simp [hprint,hformat]

end Spread

section Copies

/-- Nothing but a space stands right before. -/
def Blank (before : Str) : Prop := ∀ c ∈ before.head?, c = ' '

/-- The expression matches nowhere among single characters. -/
structure Skips (r : Re) : Prop where
  space : ∀ before rest, run r before (' '::rest) = []
  single : ∀ before c rest, Blank before → Blank rest → run r before (c::rest) = []

variable {r : Re} {repl : Match → Str}

theorem Skips.sub_spread (hr : Skips r) (repl : Match → Str) (u rest : Str) {before : Str}
    (hb : Blank before) :
    ∃ before', Blank before' ∧
      sub r repl 0 before (spread u ++ rest) = spread u ++ sub r repl 0 before' rest := by
  induction u generalizing before with
  | nil => exact ⟨before,hb,rfl⟩
  | cons c u ih =>
    have hb' : Blank (' '::c::before) := by simp [Blank]
    obtain ⟨before',hblank,hsub⟩ := ih hb'
    refine ⟨before',hblank,?_⟩
    rw [spread_cons,List.cons_append,List.cons_append,
      sub_copy (hr.single before c _ hb (by simp [Blank])),sub_copy (hr.space _ _),hsub]
    rfl

theorem Skips.sub_trail (hr : Skips r) (y before : Str) :
    sub r repl 0 before (trail y) = trail y := by
  induction y generalizing before with
  | nil => rfl
  | cons c y ih =>
    have hrest : Blank (trail y) := by cases y <;> simp [Blank,trail]
    rw [trail_cons,sub_copy (hr.space _ _),sub_copy (hr.single _ c _ (by simp [Blank]) hrest),ih]

/-- An expression that starts with characters of a name. -/
theorem skips_of_plain {p : List Char → List Char → Bool} {s : Re}
    (hw : Within (fun c => plain c = true) r) (hl : 2 ≤ minLength r) :
    Skips (.seq (.look p) (.seq r s)) := by
  constructor
  · intro before rest
    exact run_eq_nil_of_head (k:=0) (c:= ' ') hw (by omega) rfl (by decide)
  · intro before c rest _ hrest
    cases rest with
    | nil => exact run_eq_nil_of_length (Nat.lt_of_lt_of_le (by simp) hl)
    | cons d rest =>
      obtain rfl : d = ' ' := hrest d rfl
      exact run_eq_nil_of_head (k:=1) (c:= ' ') hw (by omega) rfl (by decide)

theorem sub_copies {text : Str} (h : ∀ before t c rest, text = t ++ c::rest →
    run r before (c::rest) = []) (before : Str) : sub r repl 0 before text = text := by
  induction text generalizing before with
  | nil => rfl
  | cons c text ih =>
    rw [sub_copy (h before [] c text rfl)]
    congr 1
    exact ih (fun b t d rest ht => h b (c::t) d rest (by rw [ht]; rfl)) _

/-- A scrub leaves a text without the secret as it is. -/
theorem scrub_eq_self {U : Unicode} {secret text : Str} (hs : Secret U secret)
    (h : ¬ Occurs secret text) : scrub text secret = text := by
  rw [scrub,if_pos hs.length]
  refine sub_copies (fun before t c rest ht => ?_) []
  refine run_eq_nil fun m rest' g hm hmatch => h ?_
  have hsq := squeeze_of_matches hmatch hs.no_space
  have hocc : Occurs secret m := (congrArg (secret <:+: ·) hsq).mpr List.infix_rfl
  exact hocc.mono ⟨t,rest',by rw [ht,hm,List.append_assoc]⟩

end Copies

section Patterns

variable {U : Unicode}

theorem run_userinfo_of_head {before text : Str} (h : before.head? ≠ some '/') :
    run userinfo before text = [] := by
  refine run_eq_nil fun t rest g _ hm => ?_
  obtain ⟨_,_,_,_,-,-,⟨-,-,hlook⟩,-⟩ := hm
  obtain ⟨z,rfl⟩ := List.isPrefixOf_iff_prefix.mp hlook
  exact h rfl

theorem skips_userinfo : Skips userinfo := by
  constructor
  · intro before rest
    refine run_eq_nil fun t rest' g ht hm => ?_
    obtain ⟨_,_,_,_,rfl,-,⟨rfl,-,-⟩,x,_,_,_,rfl,-,⟨hx,-⟩,c,hc,rfl,-⟩ := hm
    cases x with
    | nil =>
      obtain rfl : c = ' ' := by simpa using (List.cons.inj ht).1.symm
      cases hc
    | cons d x =>
      obtain rfl : d = ' ' := by simpa using (List.cons.inj ht).1.symm
      have hd := hx ' ' (.head _)
      simp [isspace] at hd
  · intro before c rest hb _
    refine run_userinfo_of_head fun he => ?_
    exact absurd (hb _ he) (by decide)

theorem skips_authorization : Skips (authorization U) :=
  skips_of_plain (within_folded _ rfl) (show 2 ≤ 13 by decide)

theorem skips_scheme : Skips (scheme U) :=
  skips_of_plain (r:=.group 1 (.alt (folded "bearer") (folded "basic")))
    ⟨within_folded _ rfl,within_folded _ rfl⟩ (show 2 ≤ 5 by decide)

theorem skips_credential : Skips (credential U) :=
  skips_of_plain (r:=.group 1 (credentialName U)) within_credentialName (show 2 ≤ 3 by decide)

end Patterns

section Words

variable {U : Unicode} {repl : Match → Str}

/-- Without a slash in it, or right before, a text has no userinfo. -/
theorem sub_userinfo_of_not_mem {text before : Str} (h : '/' ∉ text) (hb : before.head? ≠ some '/') :
    sub userinfo repl 0 before text = text := by
  induction text generalizing before with
  | nil => rfl
  | cons c text ih =>
    rw [List.mem_cons,not_or] at h
    rw [sub_copy (run_userinfo_of_head hb),ih h.2 (by simpa using Ne.symm h.1)]

theorem Blank.head?_ne {before : Str} (h : Blank before) : before.head? ≠ some '/' :=
  fun he => absurd (h _ he) (by decide)

theorem Blank.cases {before : Str} (h : Blank before) :
    before = [] ∨ ∃ b, before = ' '::b := by
  cases before with
  | nil => exact .inl rfl
  | cons c before => exact .inr ⟨before,by rw [h c rfl]⟩

/-- The userinfo `<@` after `://`. -/
theorem sub_userinfo_word {before : Str} (hb : Blank before) (y : Str) :
    sub userinfo (fun _ => []) 0 before ("://<@".toList ++ trail y) =
      [':','/','/'] ++ trail y := by
  have hrun : (run userinfo ('/':: '/':: ':'::before) ('<':: '@'::trail y)).head? =
      some ⟨['<','@'],[]⟩ := by
    cases y <;> rfl
  show sub userinfo (fun _ => []) 0 before (':':: '/':: '/':: '<':: '@'::trail y) = _
  have hreplace : sub userinfo (fun _ => []) 0 ('/':: '/':: ':'::before) ('<':: '@'::trail y) =
      [] ++ sub userinfo (fun _ => []) 0 ('@':: '<':: '/':: '/':: ':'::before) (trail y) :=
    sub_replace (m:=⟨['<','@'],[]⟩) (by simp) hrun rfl
  rw [sub_copy (run_userinfo_of_head hb.head?_ne),sub_copy (run_userinfo_of_head (by simp)),
    sub_copy (run_eq_nil fun t rest g _ hm => ?_),hreplace,List.nil_append,
    skips_userinfo.sub_trail]
  · rfl
  · obtain ⟨_,_,_,_,-,-,⟨-,-,hlook⟩,-⟩ := hm
    cases hlook

/-- Nothing but userinfo matches at `://`. -/
theorem sub_of_plain {p : List Char → List Char → Bool} {r s : Re}
    (hw : Within (fun c => plain c = true) r) (hl : 2 ≤ minLength r) (u y : Str) :
    sub (.seq (.look p) (.seq r s)) repl 0 [] (spread u ++ ([':','/','/'] ++ trail y)) =
      spread u ++ ([':','/','/'] ++ trail y) := by
  have hskips := @skips_of_plain r p s hw hl
  have hnil : ∀ before c rest, plain c = false →
      run (.seq (.look p) (.seq r s)) before (c::rest) = [] := fun before c rest hc =>
    run_eq_nil_of_head (k:=0) (c:=c) hw (by omega) rfl (by simp [hc])
  have hblank : Blank [] := nofun
  obtain ⟨before,-,hsub⟩ := hskips.sub_spread repl u ([':','/','/'] ++ trail y) hblank
  rw [hsub]
  simp only [List.cons_append,List.nil_append]
  rw [sub_copy (hnil _ _ _ rfl),sub_copy (hnil _ _ _ rfl),sub_copy (hnil _ _ _ rfl),
    hskips.sub_trail]

/-- A separator sign. -/
def Sign (c : Char) : Prop := c = '=' ∨ c = ':'

theorem eq_of_first_sign {a b a' b' : Str} {e e' : Char} (ha : ∀ c ∈ a, ¬ Sign c) (he : Sign e)
    (ha' : ∀ c ∈ a', ¬ Sign c) (he' : Sign e') (h : a ++ e::b = a' ++ e'::b') :
    a = a' ∧ e = e' ∧ b = b' := by
  induction a generalizing a' with
  | nil =>
    cases a' with
    | nil => exact ⟨rfl,(List.cons.inj h).1,(List.cons.inj h).2⟩
    | cons c a' =>
      obtain rfl : e = c := (List.cons.inj h).1
      exact absurd he (ha' e (.head _))
  | cons c a ih =>
    cases a' with
    | nil =>
      obtain rfl : c = e' := (List.cons.inj h).1
      exact absurd he' (ha c (.head _))
    | cons c' a' =>
      obtain ⟨rfl,htail⟩ := List.cons.inj h
      rw [List.forall_mem_cons] at ha ha'
      obtain ⟨rfl,he,hb⟩ := ih ha.2 ha'.2 htail
      exact ⟨rfl,he,hb⟩

theorem not_sign_of_plain {c : Char} (h : plain c = true) : ¬ Sign c := by
  rintro (rfl | rfl) <;> cases h

theorem not_sign_of_space {c : Char} (h : isspace c = true) : ¬ Sign c := by
  rintro (rfl | rfl) <;> simp [isspace] at h

/-- A part of the text that ends the text is after its sign, or has it. -/
theorem suffix_cases {a b t s : Str} {e : Char} (h : a ++ e::b = t ++ s) :
    (∃ a', a' <:+ a ∧ s = a' ++ e::b) ∨ s <:+ b := by
  rcases List.append_eq_append_iff.mp h with ⟨x,rfl,hx⟩ | ⟨x,rfl,rfl⟩
  · cases x with
    | nil => exact .inl ⟨[],List.nil_suffix,hx.symm⟩
    | cons c x => exact .inr ⟨x,(List.cons.inj hx).2.symm⟩
  · exact .inl ⟨x,List.suffix_append _ _,rfl⟩

theorem needs_sign_authorization : Needs Sign (authorization U) :=
  .inr (.inr (.inr (.inl (.inr (.inl fun c hc => by simpa [Sign] using hc)))))

theorem needs_sign_credential : Needs Sign (credential U) :=
  .inr (.inr (.inr (.inr (.inl (.inr (.inl fun c hc => by simpa [Sign] using hc))))))

theorem needs_space_scheme : Needs (fun c => isspace c = true) (scheme U) :=
  .inr (.inr (.inl ⟨Nat.one_pos,fun _ h => h⟩))

theorem sub_scheme_of_no_space {text before : Str} (h : ∀ c ∈ text, isspace c = false) :
    sub (scheme U) repl 0 before text = text := by
  refine sub_copies (fun b t c rest ht => ?_) before
  refine run_eq_nil_of_needs needs_space_scheme fun d hd => ?_
  rw [h d (by rw [ht]; exact List.mem_append_right _ hd)]
  exact nofun

theorem matches_folded {letters : String} {t : Str} (hlen : letters.toList.length = t.length)
    (h : ((letters.toList.zip t).all fun p => folds p.1 p.2) = true) (before rest : Str) :
    Matches (folded letters) before t rest [] := by
  unfold folded
  generalize letters.toList = cs at hlen h
  induction cs generalizing t before with
  | nil =>
    obtain rfl := List.length_eq_zero_iff.mp hlen.symm
    exact ⟨rfl,rfl,rfl⟩
  | cons c cs ih =>
    cases t with
    | nil => cases hlen
    | cons d t =>
      rw [List.zip_cons_cons,List.all_cons,Bool.and_eq_true] at h
      exact ⟨[d],t,[],[],rfl,rfl,⟨d,h.1,rfl,rfl⟩,ih _ (Nat.succ.inj hlen) h.2⟩

theorem length_of_matches_folded {letters : String} {before t rest : Str} {g : List (ℕ × Str)}
    (h : Matches (folded letters) before t rest g) : t.length = letters.toList.length := by
  unfold folded at h
  generalize letters.toList = cs at h
  induction cs generalizing before t g with
  | nil =>
    obtain ⟨rfl,-,-⟩ := h
    rfl
  | cons c cs ih =>
    obtain ⟨_,u,_,_,rfl,-,⟨d,-,rfl,-⟩,hu⟩ := h
    rw [List.singleton_append,List.length_cons,ih hu,List.length_cons]

theorem matches_sign {before rest : Str} {e : Char} (he : Sign e) :
    Matches separator before [e] rest [] :=
  Matches.seq (t:=[]) (u:=[e]) (.rep (by simp) (Nat.zero_le _))
    (.seq (t:=[e]) (u:=[]) (.cls (by simpa [Sign] using he)) (.rep (by simp) (Nat.zero_le _)))

theorem isword_sign {e : Char} (he : Sign e) : isword U e = false := by
  rcases he with rfl | rfl <;> rfl

/-- The header name in lower and in upper case. -/
theorem matches_authorization_word {before : Str} (hb : Blank before) {e : Char} (he : Sign e)
    {name : Str} (hname : name = "authorization".toList ∨ name = "AUTHORIZATION".toList) :
    Matches (authorization U) before (name ++ [e,'<']) [] [(1,[e])] := by
  have hfolded : ∀ b r, Matches (folded "authorization") b name r [] := by
    intro b r
    rcases hname with rfl | rfl <;> exact matches_folded (by decide) (by decide) b r
  have hword : (name.head?.any (isword U) && name.reverse.head?.any (isword U)) = true := by
    rcases hname with rfl | rfl <;> rfl
  rw [Bool.and_eq_true] at hword
  have hne : name ≠ [] := by rcases hname with rfl | rfl <;> exact nofun
  have hopen : Matches (boundary U) before [] (name ++ [e,'<']) [] := by
    refine .look ?_
    rw [List.head?_append_of_ne_nil _ hne,hword.1]
    obtain rfl | ⟨b,rfl⟩ := hb.cases <;> rfl
  have hclose : Matches (boundary U) (name.reverse ++ before) [] [e,'<'] [] := by
    refine .look ?_
    rw [List.head?_append_of_ne_nil _ (by simpa using hne),hword.2]
    simp [isword_sign he]
  have hchunk : ∀ b, Matches chunk b ['<'] [] [] :=
    fun b => .rep (by simp [isspace]) (Nat.le_refl _)
  have hvalue : ∀ b, Matches (.seq quote (.seq chunk (.opt (.seq gap chunk)))) b ['<'] [] [] :=
    fun b => Matches.seq (t:=[]) (u:=['<']) .opt_none
      (.seq (t:=['<']) (u:=[]) (hchunk _) .opt_none)
  exact Matches.seq (t:=[]) (u:=name ++ [e,'<']) (by simpa using hopen)
    (.seq (by simpa using hfolded _ _) (.seq (t:=[]) (u:=[e,'<']) (by simpa using hclose)
      (.seq (t:=[e]) (u:=['<']) (.group (matches_sign he)) (hvalue _))))

theorem sub_authorization_word {before : Str} (hb : Blank before) {e : Char} (he : Sign e)
    {name : Str} (hname : name = "authorization".toList ∨ name = "AUTHORIZATION".toList) :
    sub (authorization U) (fun m => "Authorization".toList ++ captured m 1 ++ REDACTED) 0 before
      (name ++ [e,'<']) = "Authorization".toList ++ [e] ++ REDACTED := by
  have hsigns : ∀ c ∈ name, ¬ Sign c := by
    intro c hc
    have hall : name.all plain = true := by rcases hname with rfl | rfl <;> rfl
    exact not_sign_of_plain (List.all_eq_true.mp hall c hc)
  have hlength : name.length = 13 := by rcases hname with rfl | rfl <;> rfl
  refine sub_whole (by simp) (matches_authorization_word hb he hname) fun m rest htext hm => ?_
  -- the whole text is the shortest match, and its sign is the only one
  have hlen := hm.minLength_le
  have hmin : minLength (authorization U) = 15 := rfl
  have htotal := congrArg List.length htext
  rw [List.length_append,List.length_append,hlength,List.length_cons,List.length_cons,
    List.length_nil] at htotal
  obtain rfl : rest = [] := List.length_eq_zero_iff.mp (by omega)
  rw [List.append_nil] at htext
  refine ⟨htext.symm,?_⟩
  obtain ⟨nm,sep,value,hsplit,hcap,⟨b,r,g,hnm⟩,b',r',g',hsep⟩ := authorization_head hm
  obtain ⟨x,e',y,rfl,hx,he',hy⟩ := matches_separator hsep
  have heq : name ++ e::['<'] = (nm ++ x) ++ e'::(y ++ value) := by
    rw [htext,hsplit]
    simp
  have hbefore : ∀ c ∈ nm ++ x, ¬ Sign c := by
    rw [List.forall_mem_append]
    exact ⟨fun c hc => not_sign_of_plain (hnm.within (within_folded _ rfl) c hc),
      fun c hc => not_sign_of_space (hx c hc)⟩
  obtain ⟨hnmx,rfl,hyv⟩ := eq_of_first_sign hsigns he hbefore he' heq
  have hx0 : x = [] := by
    have h13 := length_of_matches_folded hnm
    have hl := congrArg List.length hnmx
    rw [List.length_append,h13,hlength] at hl
    exact List.length_eq_zero_iff.mp (by simpa using hl)
  have hy0 : y = [] := by
    cases y with
    | nil => rfl
    | cons c y =>
      obtain rfl : '<' = c := (List.cons.inj hyv).1
      have hlt := hy '<' (.head _)
      simp [isspace] at hlt
  rw [hcap,hx0,hy0]
  rfl

/-- A letter that every credential word has. -/
def Telling (c : Char) : Prop := folds 'e' c = true ∨ folds 'p' c = true

theorem needs_folded {P : Char → Prop} {letters : String} {l : Char} (hl : l ∈ letters.toList)
    (h : ∀ c, folds l c = true → P c) : Needs P (folded letters) := by
  unfold folded
  generalize letters.toList = cs at hl
  induction cs with
  | nil => cases hl
  | cons c cs ih =>
    rcases List.mem_cons.mp hl with rfl | hl
    · exact .inl h
    · exact .inr (ih hl)

theorem needs_telling : Needs Telling CREDENTIAL_NAME := by
  have he : ∀ letters : String, 'e' ∈ letters.toList → Needs Telling (folded letters) :=
    fun letters h => needs_folded h fun c hc => .inl hc
  have hp : ∀ letters : String, 'p' ∈ letters.toList → Needs Telling (folded letters) :=
    fun letters h => needs_folded h fun c hc => .inr hc
  have hkey : Needs Telling (folded "key") := he _ (by decide)
  exact ⟨he _ (by decide),he _ (by decide),hp _ (by decide),hp _ (by decide),he _ (by decide),
    he _ (by decide),.inr (.inr hkey),.inr (.inr hkey),.inr (.inr hkey),.inr (.inr hkey)⟩

theorem needs_telling_name : Needs Telling (credentialName U) := .inr (.inl needs_telling)

/-- The part of a match before its sign. -/
theorem credential_before_sign {before rest : Str} {m : Match}
    (h : Matches (credential U) before m.text rest m.groups) : ∃ name x e y,
      m.text = (name ++ x) ++ e::y ∧ (∃ b r g, Matches (credentialName U) b name r g) ∧
      (∀ c ∈ name ++ x, ¬ Sign c) ∧ Sign e := by
  obtain ⟨name,opening,sep,closing,value,htext,-,-,hname,⟨b,r,g,hquote⟩,⟨b',r',g',hsep⟩,-⟩ :=
    credential_head h
  obtain ⟨x,e,y,rfl,hx,he,-⟩ := matches_separator hsep
  refine ⟨name,opening ++ x,e,y ++ (closing ++ value),by simp [htext],hname,?_,he⟩
  obtain ⟨b'',r'',g'',hname⟩ := hname
  have hopening : ∀ c ∈ opening, c = '\x22' ∨ c = '\x27' := by
    refine hquote.within ⟨fun c hc => ?_,trivial⟩
    simpa using hc
  simp only [List.forall_mem_append]
  refine ⟨fun c hc => not_sign_of_plain (hname.within within_credentialName c hc),
    fun c hc => ?_,fun c hc => not_sign_of_space (hx c hc)⟩
  rcases hopening c hc with rfl | rfl <;> rintro (h | h) <;> cases h

/-- A text with one sign, and no telling letter before it. -/
theorem sub_credential_of_no_telling {a b : Str} {e : Char} (ha : ∀ c ∈ a, ¬ Sign c) (he : Sign e)
    (hb : ∀ c ∈ b, ¬ Sign c) (htell : ∀ c ∈ a, ¬ Telling c) (before : Str) :
    sub (credential U) repl 0 before (a ++ e::b) = a ++ e::b := by
  refine sub_copies (fun before t c rest ht => ?_) before
  rcases suffix_cases ht with ⟨a',hsuff,hs⟩ | hs
  · refine run_eq_nil fun t' rest' g htext hm => ?_
    obtain ⟨name,x,e',y,hsplit,⟨b',r,g',hname⟩,hbefore,he'⟩ := credential_before_sign (m:=⟨t',g⟩) hm
    have heq : a' ++ e::b = (name ++ x) ++ e'::(y ++ rest') := by
      rw [← hs,htext,show t' = (name ++ x) ++ e'::y from hsplit]
      simp
    obtain ⟨rfl,-,-⟩ := eq_of_first_sign (fun c hc => ha c (hsuff.subset hc)) he hbefore he' heq
    obtain ⟨d,hd,htelling⟩ := hname.needs needs_telling_name
    exact htell d (hsuff.subset (List.mem_append_left _ hd)) htelling
  · exact run_eq_nil_of_needs needs_sign_credential fun d hd => hb d (hs.subset hd)

theorem sub_credential_word {e : Char} (he : Sign e) (before : Str) :
    sub (credential U) repl 0 before ("Authorization".toList ++ [e] ++ REDACTED) =
      "Authorization".toList ++ [e] ++ REDACTED := by
  have htext : "Authorization".toList ++ [e] ++ REDACTED =
      "Authorization".toList ++ e::REDACTED := by simp
  have hheader : ("Authorization".toList.all fun c =>
      plain c && !(folds 'e' c || folds 'p' c)) = true := by decide
  have hmarker : REDACTED.all plain = true := by decide
  rw [htext]
  refine sub_credential_of_no_telling (fun c hc => ?_) he (fun c hc => ?_) (fun c hc => ?_) before
  · have hplain := List.all_eq_true.mp hheader c hc
    rw [Bool.and_eq_true] at hplain
    exact not_sign_of_plain hplain.1
  · exact not_sign_of_plain (List.all_eq_true.mp hmarker c hc)
  · have hquiet := List.all_eq_true.mp hheader c hc
    rw [Bool.and_eq_true,Bool.not_eq_true',Bool.or_eq_false_iff] at hquiet
    rintro (h | h)
    · rw [hquiet.2.1] at h
      cases h
    · rw [hquiet.2.2] at h
      cases h

section Name

variable {name : Str} {e : Char} (hplain : ∀ c ∈ name, plain c = true) (he : Sign e)

include hplain he

/-- The header is not found where a quote stands before the sign. -/
theorem sub_authorization_name (before : Str) :
    sub (authorization U) repl 0 before (name ++ ['\x22',e,'<']) = name ++ ['\x22',e,'<'] := by
  have htext : name ++ ['\x22',e,'<'] = (name ++ ['\x22']) ++ e::['<'] := by simp
  rw [htext]
  refine sub_copies (fun before t c rest ht => ?_) before
  rcases suffix_cases ht with ⟨a',hsuff,hs⟩ | hs
  · refine run_eq_nil fun t' rest' g hmtext hm => ?_
    obtain ⟨nm,sep,value,hsplit,-,⟨b,r,g',hnm⟩,b',r',g'',hsep⟩ := authorization_head (m:=⟨t',g⟩) hm
    obtain ⟨x,e',y,rfl,hx,he',hy⟩ := matches_separator hsep
    have heq : a' ++ e::['<'] = (nm ++ x) ++ e'::(y ++ (value ++ rest')) := by
      rw [← hs,hmtext,show t' = nm ++ (x ++ e'::y) ++ value from hsplit]
      simp
    have hnmplain := hnm.within (within_folded _ rfl)
    have hbefore : ∀ c ∈ nm ++ x, ¬ Sign c := by
      rw [List.forall_mem_append]
      exact ⟨fun c hc => not_sign_of_plain (hnmplain c hc),fun c hc => not_sign_of_space (hx c hc)⟩
    have ha' : ∀ c ∈ a', ¬ Sign c := by
      intro c hc
      rcases List.mem_append.mp (hsuff.subset hc) with hc | hc
      · exact not_sign_of_plain (hplain c hc)
      · rw [List.mem_singleton.mp hc]
        rintro (h | h) <;> cases h
    obtain ⟨rfl,-,-⟩ := eq_of_first_sign ha' he hbefore he' heq
    -- what stands before the sign ends with the quote
    have hmem : '\x22' ∈ nm ++ x := by
      have hne : nm ++ x ≠ [] := by
        have hlen := length_of_matches_folded hnm
        intro hnil
        rw [(List.append_eq_nil_iff.mp hnil).1] at hlen
        cases hlen
      rcases List.suffix_concat_iff.mp hsuff with hnil | ⟨z,hz,-⟩
      · exact absurd hnil hne
      · rw [hz]
        simp
    rcases List.mem_append.mp hmem with hmem | hmem
    · have := hnmplain _ hmem
      cases this
    · have := hx _ hmem
      simp [isspace] at this
  · refine run_eq_nil_of_needs needs_sign_authorization fun d hd => ?_
    rw [List.mem_singleton.mp (hs.subset hd)]
    rintro (h | h) <;> cases h

omit hplain in
theorem matches_credential_name {g : List (ℕ × Str)}
    (hname : Matches (credentialName U) [] name [] g) {before : Str} (hb : Blank before) :
    ∃ g, Matches (credential U) before (name ++ ['\x22',e,'<']) [] g := by
  have hopen : Matches (.look fun before _ => !before.head?.any (nameChar U)) before []
      (name ++ ['\x22',e,'<']) [] := by
    refine .look ?_
    obtain rfl | ⟨b,rfl⟩ := hb.cases <;> rfl
  have hclose : ∀ b, Matches (.look fun _ rest => !rest.head?.any (isword U)) b []
      ['\x22',e,'<'] [] := fun b => .look rfl
  have hvalue : ∀ b, Matches (.rep valueChar 1 none) b ['<'] [] [] :=
    fun b => .rep (by simp [valueChar,isspace]) (Nat.le_refl _)
  have hquote : ∀ b rest, Matches quote b ['\x22'] rest [] :=
    fun b rest => .opt_some (.cls rfl)
  exact ⟨_,Matches.seq (t:=[]) (u:=name ++ ['\x22',e,'<']) (by simpa using hopen)
    (.seq (t:=name) (u:=['\x22',e,'<']) (.group (hname.free free_credentialName _ _))
      (.seq (t:=[]) (u:=['\x22',e,'<']) (hclose _) (.seq (t:=['\x22']) (u:=[e,'<']) (hquote _ _)
        (.seq (t:=[e]) (u:=['<']) (.group (matches_sign he))
          (.seq (t:=[]) (u:=['<']) .opt_none (hvalue _))))))⟩

/-- A name loses the quote before its sign. -/
theorem sub_credential_name {g : List (ℕ × Str)} (hname : Matches (credentialName U) [] name [] g)
    {before : Str} (hb : Blank before) :
    sub (credential U) (fun m => captured m 1 ++ captured m 2 ++ REDACTED) 0 before
      (name ++ ['\x22',e,'<']) = name ++ [e] ++ REDACTED := by
  obtain ⟨g',hex⟩ := matches_credential_name he hname hb
  refine sub_whole (by simp) hex fun m rest htext hm => ?_
  obtain ⟨nm,opening,sep,closing,value,hsplit,hcap,hcap',⟨b,r,g,hnm⟩,⟨b',r',g',hquote⟩,
    ⟨b'',r'',g'',hsep⟩,-,-,hvalue⟩ := credential_head hm
  obtain ⟨x,e',y,rfl,hx,he',hy⟩ := matches_separator hsep
  have hnmplain := hnm.within within_credentialName
  have heq : (name ++ ['\x22']) ++ e::['<'] =
      (nm ++ (opening ++ x)) ++ e'::(y ++ (closing ++ (value ++ rest))) := by
    rw [List.append_assoc,List.singleton_append,htext,hsplit]
    simp
  have hquotes : ∀ c ∈ opening, c = '\x22' ∨ c = '\x27' := by
    refine hquote.within ⟨fun c hc => ?_,trivial⟩
    simpa using hc
  have hbefore : ∀ c ∈ nm ++ (opening ++ x), ¬ Sign c := by
    simp only [List.forall_mem_append]
    refine ⟨fun c hc => not_sign_of_plain (hnmplain c hc),fun c hc => ?_,
      fun c hc => not_sign_of_space (hx c hc)⟩
    rcases hquotes c hc with rfl | rfl <;> rintro (h | h) <;> cases h
  have hafter : ∀ c ∈ name ++ ['\x22'], ¬ Sign c := by
    simp only [List.forall_mem_append,List.forall_mem_singleton]
    refine ⟨fun c hc => not_sign_of_plain (hplain c hc),?_⟩
    rintro (h | h) <;> cases h
  obtain ⟨hleft,rfl,hright⟩ := eq_of_first_sign hafter he hbefore he' heq
  -- after the sign there is room for the value only
  have hlength := congrArg List.length hright
  simp only [List.length_append,List.length_cons,List.length_nil] at hlength
  obtain rfl : y = [] := List.length_eq_zero_iff.mp (by omega)
  obtain rfl : closing = [] := List.length_eq_zero_iff.mp (by omega)
  obtain rfl : rest = [] := List.length_eq_zero_iff.mp (by omega)
  -- the quote is neither of the name nor a space
  have hx0 : x = [] := by
    rcases List.eq_nil_or_concat x with rfl | ⟨z,c,rfl⟩
    · rfl
    · rw [List.concat_eq_append,← List.append_assoc,← List.append_assoc] at hleft
      have hc : '\x22' = c := (List.append_inj' hleft rfl).2 |> List.singleton_inj.mp
      have hspace := hx c (by simp)
      rw [← hc] at hspace
      simp [isspace] at hspace
  subst hx0
  have hnameeq : nm = name := by
    rw [List.append_nil] at hleft
    rcases List.eq_nil_or_concat opening with rfl | ⟨z,c,rfl⟩
    · rw [List.append_nil] at hleft
      have hmem : '\x22' ∈ nm := by rw [← hleft]; simp
      have := hnmplain _ hmem
      cases this
    · rw [List.concat_eq_append,← List.append_assoc] at hleft
      have hz : z = [] := by
        have hlen := hquote.length_le_maxLength (n:=1) rfl
        simpa using hlen
      rw [hz,List.append_nil] at hleft
      exact ((List.append_inj' hleft rfl).1).symm
  refine ⟨by rw [htext,List.append_nil],?_⟩
  rw [hcap,hcap',hnameeq]
  rfl

end Name

end Words

section Messages

variable {U : Unicode} {secret : Str}

theorem Skips.sub_around {r : Re} {repl : Match → Str} (hr : Skips r) (u : Str) {word out : Str}
    (h : ∀ before, Blank before → sub r repl 0 before word = out) :
    sub r repl 0 [] (spread u ++ word) = spread u ++ out := by
  have hnil : Blank [] := nofun
  obtain ⟨before,hb,hsub⟩ := hr.sub_spread repl u word hnil
  rw [hsub,h before hb]

/-- What is left of a normalized message without the secret, pass by pass. -/
theorem sanitize_of_passes (hs : Secret U secret) {text t₁ t₂ t₃ out : Str} (hne : text ≠ [])
    (hnormal : normalize U text = text) (hlen : text.length ≤ MAX_SCAN_LENGTH)
    (hocc : ¬ Occurs secret text) (h₁ : sub userinfo (fun _ => []) 0 [] text = t₁)
    (h₂ : sub (authorization U) (fun m => "Authorization".toList ++ captured m 1 ++ REDACTED) 0 []
      t₁ = t₂)
    (h₃ : sub (scheme U) (fun m => captured m 1 ++ [' '] ++ REDACTED) 0 [] t₂ = t₃)
    (h₄ : sub (credential U) (fun m => captured m 1 ++ captured m 2 ++ REDACTED) 0 [] t₃ = out)
    (hout : out ≠ []) : sanitize_error_message U (some text) [secret] = some out := by
  have hscrub : [secret].foldl scrub (normalize U text) = text := by
    rw [hnormal,List.foldl_cons,List.foldl_nil,scrub_eq_self hs hocc]
  have hpasses : (PATTERNS U).foldl (fun text p => sub p.1 p.2 0 [] text)
      (([secret].foldl scrub (normalize U text)).take MAX_SCAN_LENGTH) = out := by
    rw [hscrub,List.take_of_length_le hlen]
    simp only [PATTERNS,List.foldl_cons,List.foldl_nil,h₁,h₂,h₃,h₄]
  cases text with
  | nil => exact absurd rfl hne
  | cons c text =>
    unfold sanitize_error_message
    dsimp only
    rw [hpasses,if_neg hout]

/-- A message whose sanitized text has the secret. -/
def Leaked (U : Unicode) (secret : Str) : Prop :=
  ∃ message out, sanitize_error_message U (some message) [secret] = some out ∧ Occurs secret out

theorem visible_of_all {t : Str} (h : t.all (visible U) = true) : ∀ c ∈ t, visible U c = true :=
  List.all_eq_true.mp h

theorem no_space_of_visible {t : Str} (h : ∀ c ∈ t, visible U c = true) : ' ' ∉ t :=
  fun hsp => visible_ne_space (h _ hsp) rfl

theorem squeeze_around {u word y : Str} (hu : ∀ c ∈ u, visible U c = true)
    (hword : ∀ c ∈ word, visible U c = true) (hy : ∀ c ∈ y, visible U c = true) :
    squeeze (around u word y) = u ++ (word ++ y) := by
  rw [around,squeeze_append,squeeze_append,squeeze_spread (no_space_of_visible hu),
    squeeze_eq_self (no_space_of_visible hword),squeeze_trail (no_space_of_visible hy)]

theorem length_around (u word y : Str) :
    (around u word y).length = 2 * u.length + word.length + 2 * y.length := by
  rw [around,List.length_append,List.length_append,length_spread,length_trail]
  omega

/-- The two sides of `://` in a secret, or the text that is to stand there. -/
theorem AcrossUserinfo.sides (hs : Secret U secret) (h : AcrossUserinfo secret) :
    ∃ x y, (∀ c ∈ x, c ∈ secret) ∧ (∀ c ∈ y, c ∈ secret) ∧
      x.length + y.length ≤ secret.length ∧ secret <:+: x ++ ([':','/','/'] ++ y) ∧
      x.length + 3 < secret.length ∧ ¬ secret <:+: '@'::y := by
  have hlen := hs.length
  unfold MIN_SECRET_LENGTH at hlen
  rcases h with hhead | ⟨x,y,hy,rfl⟩
  · cases secret with
    | nil => cases hhead
    | cons c y =>
      obtain rfl : c = '/' := Option.some.inj hhead
      refine ⟨[],y,by simp,fun c hc => .tail _ hc,by simp,⟨[':','/'],[],by simp⟩,?_,
        fun hinfix => ?_⟩
      · rw [List.length_nil]
        omega
      · have heq := hinfix.eq_of_length (by simp)
        cases (List.cons.inj heq).1
  · have hpos := List.length_pos_iff.mpr hy
    have htotal : (x ++ [':','/','/'] ++ y).length = x.length + 3 + y.length := by
      rw [List.length_append,List.length_append]
      rfl
    refine ⟨x,y,fun c hc => by simp [hc],fun c hc => by simp [hc],by omega,by simp,by omega,
      fun hinfix => ?_⟩
    have hle := hinfix.length_le
    rw [htotal,List.length_cons] at hle
    omega

theorem leaked_userinfo (hs : Secret U secret) (hlen : secret.length ≤ 4000)
    (h : AcrossUserinfo secret) : Leaked U secret := by
  obtain ⟨x,y,hx,hy,hsum,hin,hxlen,hyin⟩ := h.sides hs
  have hxv : ∀ c ∈ x, visible U c = true := fun c hc => hs.visible c (hx c hc)
  have hyv : ∀ c ∈ y, visible U c = true := fun c hc => hs.visible c (hy c hc)
  have hword : ∀ c ∈ "://<@".toList, visible U c = true := visible_of_all rfl
  have hsmall : (around x "://<@".toList y).length ≤ MAX_SCAN_LENGTH := by
    rw [length_around,show "://<@".toList.length = 5 from rfl,
      show MAX_SCAN_LENGTH = 8192 from rfl]
    omega
  have hocc : ¬ Occurs secret (around x "://<@".toList y) := by
    intro hocc
    rw [Occurs,squeeze_around hxv hword hyv] at hocc
    have hsplit : x ++ ("://<@".toList ++ y) = (x ++ [':','/','/']) ++ '<'::('@'::y) := by
      rw [List.append_assoc]
      rfl
    rw [hsplit] at hocc
    rcases infix_of_separated hs.open_bracket hocc with hocc | hocc
    · have hle := hocc.length_le
      rw [List.length_append,List.length_cons,List.length_cons,List.length_cons,List.length_nil]
        at hle
      omega
    · exact hyin hocc
  refine ⟨_,_,sanitize_of_passes hs (by simp [around]) (normalize_around (by decide) hxv hword hyv
    (hsmall.trans (by decide))) hsmall hocc (skips_userinfo.sub_around x fun b hb => sub_userinfo_word hb y)
    (sub_of_plain (r:=folded "authorization") (within_folded _ rfl) (show 2 ≤ 13 by decide) x y)
    (sub_of_plain (r:=.group 1 (.alt (folded "bearer") (folded "basic")))
      ⟨within_folded _ rfl,within_folded _ rfl⟩ (show 2 ≤ 5 by decide) x y)
    (sub_of_plain (r:=.group 1 (credentialName U)) within_credentialName
      (show 2 ≤ 3 by decide) x y) (by simp),?_⟩
  rw [Occurs,squeeze_append,squeeze_append,squeeze_spread (no_space_of_visible hxv),
    squeeze_trail (no_space_of_visible hyv)]
  exact hin

/-- A word at the end of the message. -/
theorem leaked_of_word (hs : Secret U secret) {u word out : Str} (hne : word ≠ [])
    (hu : ∀ c ∈ u, visible U c = true) (hword : ∀ c ∈ word, visible U c = true)
    (hlen : 2 * u.length + word.length ≤ MAX_SCAN_LENGTH) (hslash : '/' ∉ word)
    (hspace : ∀ c ∈ out, isspace c = false) (hout : out ≠ [])
    {t₂ : Str} (hauthorization : ∀ before, Blank before → sub (authorization U)
      (fun m => "Authorization".toList ++ captured m 1 ++ REDACTED) 0 before word = t₂)
    (ht₂ : ∀ c ∈ t₂, isspace c = false)
    (hcredential : ∀ before, Blank before → sub (credential U)
      (fun m => captured m 1 ++ captured m 2 ++ REDACTED) 0 before t₂ = out)
    (hocc : ¬ secret <:+: u ++ word) (hin : secret <:+: u ++ out) : Leaked U secret := by
  have hy : ∀ c ∈ ([] : Str), visible U c = true := nofun
  have htrail : word ++ trail [] = word := List.append_nil word
  have hsmall : (around u word []).length ≤ MAX_SCAN_LENGTH := by
    rw [length_around]
    simpa using hlen
  have hmissing : ¬ Occurs secret (around u word []) := by
    rw [Occurs,squeeze_around hu hword hy,List.append_nil]
    exact hocc
  have huserinfo : sub userinfo (fun _ => []) 0 [] (around u word []) = around u word [] := by
    rw [around,htrail]
    exact skips_userinfo.sub_around u fun b hb => sub_userinfo_of_not_mem hslash hb.head?_ne
  have hspread : around u word [] = spread u ++ word := by rw [around,htrail]
  refine ⟨_,_,sanitize_of_passes hs (by simp [around,hne]) (normalize_around hne hu hword hy
    (hsmall.trans (by decide)))
    hsmall hmissing huserinfo
    ((congrArg _ hspread).trans (skips_authorization.sub_around u hauthorization))
    (skips_scheme.sub_around u fun b _ => sub_scheme_of_no_space ht₂)
    (skips_credential.sub_around u hcredential) (by simp [hout]),?_⟩
  have hnosp : ' ' ∉ out := fun h => by
    have hsp := hspace ' ' h
    cases hsp
  rw [Occurs,squeeze_append,squeeze_spread (no_space_of_visible hu),squeeze_eq_self hnosp]
  exact hin

theorem visible_sign {e : Char} (he : Sign e) : visible U e = true := by
  rcases he with rfl | rfl <;> rfl

/-- The beginning of `Authorization` is not in its lower case. -/
theorem not_infix_of_lower {x y w : Str} (hw : 'A' ∉ w) : ¬ x ++ 'A'::y <:+: x ++ w := by
  rintro ⟨p,q,h⟩
  have hat : (p ++ (x ++ 'A'::y) ++ q)[p.length + x.length]? = some 'A' := by
    rw [List.append_assoc,List.getElem?_append_right (by omega),List.append_assoc,
      List.getElem?_append_right (by omega),show p.length + x.length - p.length - x.length = 0 by
        omega]
    rfl
  rw [h,List.getElem?_append_right (by omega)] at hat
  exact hw (List.mem_of_getElem? hat)

/-- A part of `uthorization=` is not in the upper case of the header. -/
theorem not_infix_of_upper {s : Str} {e : Char} (he : Sign e) (hlen : 6 ≤ s.length)
    (h : s <:+: "uthorization".toList ++ [e]) : ¬ s <:+: "AUTHORIZATION".toList ++ [e] := by
  intro hupper
  have hall : ("uthorization".toList.all fun c => !"AUTHORIZATION".toList.contains c) = true := by
    decide
  have hsign : ∀ c ∈ s, c = e := by
    intro c hc
    rcases List.mem_append.mp (h.subset hc) with hl | hl
    · rcases List.mem_append.mp (hupper.subset hc) with hu | hu
      · have hnot := List.all_eq_true.mp hall c hl
        rw [Bool.not_eq_true',List.contains_eq_mem,decide_eq_false_iff_not] at hnot
        exact absurd hu hnot
      · exact List.mem_singleton.mp hu
    · exact List.mem_singleton.mp hl
  have hcount : s.count e = s.length := List.count_eq_length.mpr fun c hc => (hsign c hc).symm
  have hle := h.sublist.count_le e
  have hone : ("uthorization".toList ++ [e]).count e = 1 := by rcases he with rfl | rfl <;> decide
  omega

theorem leaked_authorization (hs : Secret U secret) (hlen : secret.length ≤ 4000)
    (h : AcrossAuthorization secret) : Leaked U secret := by
  obtain ⟨e,he,h⟩ := h
  have hsix := hs.length
  unfold MIN_SECRET_LENGTH at hsix
  have hsigned : ∀ name : Str, name.all (visible U) = true → ∀ c ∈ name ++ [e,'<'],
      visible U c = true := by
    intro name hname c hc
    rcases List.mem_append.mp hc with hc | hc
    · exact List.all_eq_true.mp hname c hc
    · rcases List.mem_cons.mp hc with rfl | hc
      · exact visible_sign he
      · rw [List.mem_singleton.mp hc]
        rfl
  have hout : ∀ c ∈ "Authorization".toList ++ [e] ++ REDACTED, isspace c = false := by
    intro c hc
    have hall : ("Authorization".toList ++ REDACTED).all (fun c => !isspace c) = true := by decide
    rw [List.mem_append,List.mem_append,List.mem_singleton] at hc
    rcases hc with (hc | rfl) | hc
    · simpa using List.all_eq_true.mp hall c (List.mem_append_left _ hc)
    · exact not_space_of_visible (visible_sign (U:=U) he)
    · simpa using List.all_eq_true.mp hall c (List.mem_append_right _ hc)
  have hslash : ∀ name : Str, '/' ∉ name → '/' ∉ name ++ [e,'<'] := by
    intro name hname hc
    rw [List.mem_append,List.mem_cons,List.mem_singleton] at hc
    rcases hc with hc | hc | hc
    · exact hname hc
    · rcases he with rfl | rfl <;> cases hc
    · cases hc
  rcases h with ⟨x,y,hy,hpre,rfl⟩ | hin
  · have hyA : ∃ z, y = 'A'::z := by
      cases y with
      | nil => exact absurd rfl hy
      | cons c z =>
        obtain ⟨rest,hrest⟩ := hpre
        obtain rfl : c = 'A' := (List.cons.inj hrest).1
        exact ⟨z,rfl⟩
    obtain ⟨z,rfl⟩ := hyA
    have hxv : ∀ c ∈ x, visible U c = true := fun c hc => hs.visible c (by simp [hc])
    have hxlen : 2 * x.length + ("authorization".toList ++ [e,'<']).length ≤ MAX_SCAN_LENGTH := by
      rw [List.length_append,show "authorization".toList.length = 13 from rfl,
        show MAX_SCAN_LENGTH = 8192 from rfl]
      rw [List.length_append] at hlen
      simp only [List.length_cons,List.length_nil]
      omega
    refine leaked_of_word hs (by simp) hxv (hsigned _ rfl) hxlen (hslash _ (by decide)) hout
      (by simp) (fun b hb => sub_authorization_word hb he (.inl rfl)) hout
      (fun b _ => sub_credential_word he b) (not_infix_of_lower ?_) ?_
    · rw [List.mem_append,List.mem_cons,List.mem_singleton]
      rintro (h | h | h)
      · exact absurd h (by decide)
      · rcases he with rfl | rfl <;> cases h
      · cases h
    · obtain ⟨rest,hrest⟩ := hpre
      exact ⟨[],rest ++ REDACTED,by rw [← hrest]; simp⟩
  · have hxlen : 2 * ([] : Str).length + ("AUTHORIZATION".toList ++ [e,'<']).length ≤
        MAX_SCAN_LENGTH := by
      rw [List.length_append,show "AUTHORIZATION".toList.length = 13 from rfl,
        show MAX_SCAN_LENGTH = 8192 from rfl]
      simp
    refine leaked_of_word hs (u:=[]) (by simp) nofun (hsigned _ rfl) hxlen (hslash _ (by decide))
      hout (by simp) (fun b hb => sub_authorization_word hb he (.inr rfl)) hout
      (fun b _ => sub_credential_word he b) (fun hocc => ?_) ?_
    · exact not_infix_of_upper he hsix hin ((infix_of_separated hs.open_bracket (by
        rw [List.nil_append,← List.singleton_append,← List.append_assoc] at hocc
        exact hocc)).resolve_right fun hnil => hs.ne_nil (List.infix_nil.mp hnil))
    · exact hin.trans ⟨['A'],REDACTED,rfl⟩

/-- The end of a name with its sign is not where a quote stands between. -/
theorem not_infix_of_quote {u name x : Str} {e : Char} (he : Sign e) (hne : name ≠ [])
    (hplain : ∀ c ∈ name, plain c = true) (hx : x ≠ [])
    (hxn : u = [] ∧ x <:+ name ∨ x = u ++ name) (hlt : '<' ∉ x ++ [e]) :
    ¬ x ++ [e] <:+: u ++ (name ++ ['\x22',e,'<']) := by
  intro hin
  have hxu : x <:+ u ++ name := by
    rcases hxn with ⟨rfl,h⟩ | rfl
    · exact h
    · exact List.suffix_rfl
  have hsplit : u ++ (name ++ ['\x22',e,'<']) = (((u ++ name) ++ ['\x22']) ++ [e]) ++ '<'::[] := by
    simp
  rw [hsplit] at hin
  have hquote : e ≠ '\x22' := by rcases he with rfl | rfl <;> decide
  rcases infix_of_separated hlt hin with hin | hnil
  · rcases List.infix_concat_iff.mp hin with hsuff | hin
    · -- the character before the sign is the quote
      rcases List.suffix_concat_iff.mp hsuff with hnil | ⟨t,ht,htsuff⟩
      · simp at hnil
      obtain rfl : x = t := List.append_cancel_right ht
      rcases List.suffix_concat_iff.mp htsuff with rfl | ⟨t',rfl,-⟩
      · exact hx rfl
      · have hlast : (u ++ name).getLast? = some '\x22' := by
          obtain ⟨z,hz⟩ := hxu
          rw [← hz]
          simp
        rw [List.getLast?_append_of_ne_nil _ hne] at hlast
        have hp := hplain _ (List.mem_of_getLast? hlast)
        cases hp
    · rcases List.infix_concat_iff.mp hin with hsuff | hin
      · rcases List.suffix_concat_iff.mp hsuff with hnil | ⟨t,ht,-⟩
        · simp at hnil
        · exact hquote (List.singleton_inj.mp (List.append_inj' ht rfl).2)
      · rcases hxn with ⟨rfl,-⟩ | rfl
        · have hmem : e ∈ name := hin.subset (by simp)
          exact not_sign_of_plain (hplain e hmem) he
        · have hle := hin.length_le
          simp only [List.length_append,List.length_singleton] at hle
          omega
  · have hnil := List.infix_nil.mp hnil
    simp at hnil

theorem leaked_name (hs : Secret U secret) (hlen : secret.length ≤ 4000) (h : AcrossName U secret) :
    Leaked U secret := by
  obtain ⟨e,he,x,name,rfl,⟨hvisible,g,hname⟩,hxn⟩ := h
  have hplain := hname.within within_credentialName
  have hshort : name.length ≤ 133 := hname.length_le_maxLength rfl
  have hne : name ≠ [] := by
    rintro rfl
    exact absurd hname.minLength_le (show ¬ 3 ≤ 0 by decide)
  have hxne : x ≠ [] := by
    rintro rfl
    have hlength := hs.length
    simp [MIN_SECRET_LENGTH] at hlength
  obtain ⟨u,hu,hux⟩ : ∃ u, (∀ c ∈ u, c ∈ x) ∧ (u = [] ∧ x <:+ name ∨ x = u ++ name) := by
    rcases hxn with hx | ⟨u,rfl⟩
    · exact ⟨[],fun _ hc => absurd hc List.not_mem_nil,.inl ⟨rfl,hx⟩⟩
    · exact ⟨u,fun c hc => List.mem_append_left _ hc,.inr rfl⟩
  have huv : ∀ c ∈ u, visible U c = true :=
    fun c hc => hs.visible c (List.mem_append_left _ (hu c hc))
  have hulen : u.length ≤ x.length := by
    rcases hux with ⟨rfl,-⟩ | rfl
    · exact Nat.zero_le _
    · rw [List.length_append]
      omega
  have hword : ∀ c ∈ name ++ ['\x22',e,'<'], visible U c = true := by
    have hend : ∀ c ∈ ['\x22',e,'<'], visible U c = true := by
      simp only [List.forall_mem_cons]
      exact ⟨rfl,visible_sign he,rfl,fun _ hc => absurd hc List.not_mem_nil⟩
    exact List.forall_mem_append.mpr ⟨hvisible,hend⟩
  have hsmall : 2 * u.length + (name ++ ['\x22',e,'<']).length ≤ MAX_SCAN_LENGTH := by
    rw [List.length_append,show ['\x22',e,'<'].length = 3 from rfl,
      show MAX_SCAN_LENGTH = 8192 from rfl]
    rw [List.length_append] at hlen
    omega
  have hslash : '/' ∉ name ++ ['\x22',e,'<'] := by
    intro hc
    simp only [List.mem_append,List.mem_cons,List.not_mem_nil,or_false] at hc
    rcases hc with hc | hc | hc | hc
    · have hp := hplain _ hc
      cases hp
    · cases hc
    · rcases he with rfl | rfl <;> cases hc
    · cases hc
  have hout : ∀ c ∈ name ++ [e] ++ REDACTED, isspace c = false := by
    have hmarker : REDACTED.all (fun c => !isspace c) = true := by decide
    intro c hc
    rw [List.mem_append,List.mem_append,List.mem_singleton] at hc
    rcases hc with (hc | rfl) | hc
    · exact not_space_of_visible (hvisible c hc)
    · exact not_space_of_visible (visible_sign (U:=U) he)
    · simpa using List.all_eq_true.mp hmarker c hc
  refine leaked_of_word hs (by simp) huv hword hsmall hslash hout (by simp)
    (fun b _ => sub_authorization_name hplain he b)
    (fun c hc => not_space_of_visible (hword c hc))
    (fun b hb => sub_credential_name hplain he hname hb)
    (not_infix_of_quote he hne hplain hxne hux hs.open_bracket) ?_
  rcases hux with ⟨rfl,z,hz⟩ | rfl
  · exact ⟨z,REDACTED,by rw [← hz]; simp⟩
  · exact ⟨[],REDACTED,by simp⟩

end Messages

section Contract

variable {U : Unicode}

/-- The contract: no secret, not even with spaces in it, and no control or format character. -/
structure Clean (U : Unicode) (secrets : List Str) (out : Str) : Prop where
  absent : ∀ secret ∈ secrets, ¬ Occurs secret out
  no_control : ∀ c ∈ out, category U c ≠ .control ∧ category U c ≠ .format

/-- A secret is kept out of every output, whatever the message and the other secrets, exactly
when no pass can bring it back. A longer secret, for which the message built here would be cut,
is kept out too if no pass can. -/
theorem redaction_iff (U : Unicode) :
    (∀ message secrets out, (∀ secret ∈ secrets, Secret U secret ∧ ¬ Leaks U secret) →
      sanitize_error_message U message secrets = some out → Clean U secrets out) ∧
    ∀ secret, Secret U secret → secret.length ≤ 4000 →
      ((∀ message secrets out, secret ∈ secrets → (∀ other ∈ secrets, Secret U other) →
        sanitize_error_message U message secrets = some out → ¬ Occurs secret out) ↔
      ¬ Leaks U secret) := by
  constructor
  · intro message secrets out hsecrets h
    constructor
    · intro secret hmem
      obtain ⟨hs,hl⟩ := hsecrets secret hmem
      exact sanitize_absent hs hl hmem h
    · exact fun c hc => (sanitize_normal h c hc).category
  · intro secret hs hlen
    constructor
    · intro hsafe hleaks
      obtain ⟨message,out,hout,hocc⟩ : Leaked U secret := by
        rcases hleaks with h | h | h
        · exact leaked_userinfo hs hlen h
        · exact leaked_authorization hs hlen h
        · exact leaked_name hs hlen h
      exact hsafe (some message) [secret] out (.head _) (by simpa using hs) hout hocc
    · exact fun hl message secrets out hmem _ h => sanitize_absent hs hl hmem h

def asciiWords : Unicode where
  category := fun _ => .visible
  isalnum := fun _ => false

def sampleUrl : Str := "pg://db".toList

theorem secret_sample : Secret asciiWords sampleUrl where
  length := by decide
  visible := List.all_eq_true.mp (show sampleUrl.all (visible asciiWords) = true by decide)
  open_bracket := by decide
  close_bracket := by decide
  marker := fun h => absurd (h.subset (show 'p' ∈ sampleUrl by decide)) (by decide)

/-- Dropping the credentials of a URL puts together the URL that was the secret. -/
theorem userinfo_joins_secret :
    ¬ ∀ message secrets out, (∀ secret ∈ secrets, Secret asciiWords secret) →
      sanitize_error_message asciiWords message secrets = some out →
      Clean asciiWords secrets out := by
  intro hall
  have hout : sanitize_error_message asciiWords
      (some "pg://u@db".toList) [sampleUrl] =
      some "pg://db".toList := by decide +kernel
  have hclean := hall _ _ _ (by simpa using secret_sample) hout
  exact hclean.absent sampleUrl (.head _) ⟨[],[],by decide⟩

def sampleKey : Str := "k1k2k3".toList

theorem secret_key : Secret asciiWords sampleKey where
  length := by decide
  visible := List.all_eq_true.mp (show sampleKey.all (visible asciiWords) = true by decide)
  open_bracket := by decide
  close_bracket := by decide
  marker := fun h => absurd (h.subset (show 'k' ∈ sampleKey by decide)) (by decide)

theorem not_leaks_key : ¬ Leaks asciiWords sampleKey := by
  have hslash : '/' ∉ sampleKey := by decide
  have hletter : 'A' ∉ sampleKey := by decide
  rintro ((h | ⟨x,y,-,h⟩) | ⟨e,he,⟨x,y,hy,hpre,h⟩ | h⟩ | ⟨e,he,x,name,h,-⟩)
  · exact absurd h (by decide)
  · exact hslash (by rw [h]; simp)
  · -- the beginning that the secret ends with has the capital letter
    obtain ⟨c,t,rfl⟩ := List.exists_cons_of_ne_nil hy
    obtain ⟨rest,hrest⟩ := hpre
    obtain rfl : c = 'A' := (List.cons.inj hrest).1
    exact hletter (by rw [h]; simp)
  · have hmem := h.subset (show 'k' ∈ sampleKey by decide)
    rcases List.mem_append.mp hmem with hmem | hmem
    · exact absurd hmem (by decide)
    · rcases he with rfl | rfl <;> exact absurd hmem (by decide)
  · have hlast := congrArg List.getLast? h
    rw [List.getLast?_concat] at hlast
    rcases he with rfl | rfl <;> exact absurd hlast (by decide)

theorem redaction_sample : Clean asciiWords [sampleKey] REDACTED ∧
    ¬ ∀ message secrets out, sampleUrl ∈ secrets → (∀ other ∈ secrets, Secret asciiWords other) →
      sanitize_error_message asciiWords message secrets = some out → ¬ Occurs sampleUrl out := by
  constructor
  · exact (redaction_iff asciiWords).1 (some "k1k2 k3".toList) [sampleKey] REDACTED
      (by simpa using ⟨secret_key,not_leaks_key⟩) (by decide +kernel)
  · intro hsafe
    have hleaks : Leaks asciiWords sampleUrl :=
      .inl (.inr ⟨['p','g'],['d','b'],by decide,by decide⟩)
    exact ((redaction_iff asciiWords).2 sampleUrl secret_sample (by decide)).mp hsafe hleaks

end Contract

end Redaction
end Dataspoke
