import Dataspoke.Redaction

/-!
# What redaction removes

The text of a secret is gone after its scrub, and each later pass can bring it back in one way
only: where it joins what it leaves of a match to the text before it.
-/

namespace Dataspoke
namespace Redaction

open Python Regex

/-- The text without its spaces. -/
def squeeze (text : Str) : Str := text.filter fun c => c ≠ ' '

@[simp] theorem squeeze_nil : squeeze [] = [] := rfl

@[simp] theorem squeeze_append (text rest : Str) :
    squeeze (text ++ rest) = squeeze text ++ squeeze rest := List.filter_append ..

theorem squeeze_cons (c : Char) (text : Str) :
    squeeze (c::text) = if c = ' ' then squeeze text else c::squeeze text := by
  unfold squeeze
  rw [List.filter_cons]
  by_cases hc : c = ' ' <;> simp [hc]

theorem squeeze_eq_self {text : Str} (h : ' ' ∉ text) : squeeze text = text := by
  refine List.filter_eq_self.mpr fun c hc => ?_
  have hne : c ≠ ' ' := by
    rintro rfl
    exact h hc
  simpa using hne

theorem infix_squeeze {text rest : Str} (h : text <:+: rest) : squeeze text <:+: squeeze rest :=
  h.filter _

/-- The secret is in the text, possibly with spaces between its characters. -/
def Occurs (secret text : Str) : Prop := secret <:+: squeeze text

theorem Occurs.mono {secret text rest : Str} (h : Occurs secret text) (ht : text <:+: rest) :
    Occurs secret rest := h.trans (infix_squeeze ht)

/-- A character that a secret does not have separates its occurrences. -/
theorem infix_of_separated {s t u : Str} {c : Char} (hc : c ∉ s) (h : s <:+: t ++ c::u) :
    s <:+: t ∨ s <:+: u := by
  rcases List.infix_append_iff_ne_nil.mp h with h | h | ⟨x,y,-,hy,rfl,-,hyu⟩
  · exact .inl h
  · rcases List.infix_cons_iff.mp h with h | h
    · rcases List.prefix_cons_iff.mp h with rfl | ⟨v,rfl,-⟩
      · exact .inr (List.nil_infix)
      · exact absurd (by simp) hc
    · exact .inr h
  · rcases List.prefix_cons_iff.mp hyu with rfl | ⟨v,rfl,-⟩
    · exact absurd rfl hy
    · exact absurd (by simp) hc

section Secrets

/-- A printable character that is not a space. -/
def visible (U : Unicode) (c : Char) : Bool := isprintable U c && !isspace c

/-- The secrets of the contract. -/
structure Secret (U : Unicode) (secret : Str) : Prop where
  length : MIN_SECRET_LENGTH ≤ secret.length
  visible : ∀ c ∈ secret, visible U c = true
  open_bracket : '<' ∉ secret
  close_bracket : '>' ∉ secret
  marker : ¬ secret <:+: REDACTED

variable {U : Unicode} {secret : Str}

theorem Secret.ne_nil (hs : Secret U secret) : secret ≠ [] := by
  rintro rfl
  exact absurd hs.length (by decide)

theorem visible_ne_space {c : Char} (h : visible U c = true) : c ≠ ' ' := by
  rintro rfl
  have hspace : isspace ' ' = true := by decide
  simp [visible,hspace] at h

theorem Secret.no_space (hs : Secret U secret) : ' ' ∉ secret :=
  fun h => visible_ne_space (hs.visible _ h) rfl

theorem squeeze_marker (rest : Str) :
    squeeze (REDACTED ++ rest) = '<'::("redacted".toList ++ '>'::squeeze rest) := by
  rw [squeeze_append]
  rfl

/-- The marker separates what stands before it from what stands after it. -/
theorem Secret.separated (hs : Secret U secret) {text rest : Str}
    (h : Occurs secret (text ++ REDACTED ++ rest)) : Occurs secret text ∨ Occurs secret rest := by
  unfold Occurs at h
  rw [List.append_assoc,squeeze_append,squeeze_marker] at h
  rcases infix_of_separated hs.open_bracket h with h | h
  · exact .inl h
  · rcases infix_of_separated hs.close_bracket h with h | h
    · exact absurd (h.trans ⟨['<'],['>'],rfl⟩) hs.marker
    · exact .inr h

end Secrets

section Scrub

variable {U : Unicode} {secret : Str}

theorem space_tolerant_cons {c : Char} {s : Str} (hs : s ≠ []) : space_tolerant (c::s) =
    .seq (.cls fun d => d = c) (.seq (.rep (fun d => d = ' ') 0 none) (space_tolerant s)) := by
  cases s with
  | nil => exact absurd rfl hs
  | cons d s => rfl

theorem minLength_space_tolerant (s : Str) : minLength (space_tolerant s) = s.length := by
  induction s with
  | nil => rfl
  | cons c s ih =>
    cases s with
    | nil => rfl
    | cons d s =>
      rw [space_tolerant_cons (by simp)]
      show 1 + (0 + minLength (space_tolerant (d::s))) = (c::d::s).length
      rw [ih,List.length_cons (a:=c)]
      omega

/-- The text of a match is the secret with spaces. -/
theorem squeeze_of_matches {s before text rest : Str} {g : List (ℕ × Str)}
    (h : Matches (space_tolerant s) before text rest g) (hs : ' ' ∉ s) : squeeze text = s := by
  induction s generalizing before text rest g with
  | nil =>
    obtain ⟨rfl,-,-⟩ := h
    rfl
  | cons c s ih =>
    rw [List.mem_cons,not_or] at hs
    by_cases hnil : s = []
    · subst hnil
      obtain ⟨d,hd,rfl,-⟩ := h
      obtain rfl : d = c := by simpa using hd
      rw [squeeze_cons,if_neg (Ne.symm hs.1)]
      rfl
    · rw [space_tolerant_cons hnil] at h
      obtain ⟨_,_,_,_,rfl,-,⟨d,hd,rfl,-⟩,spaces,u,_,_,rfl,-,⟨hspaces,-⟩,hu⟩ := h
      obtain rfl : d = c := by simpa using hd
      have hempty : squeeze spaces = [] :=
        List.filter_eq_nil_iff.mpr fun c hc => by simpa using hspaces c hc
      rw [List.singleton_append,squeeze_cons,if_neg (Ne.symm hs.1),squeeze_append,hempty,ih hu hs.2,
        List.nil_append]

/-- A secret with spaces between its characters is matched. -/
theorem matches_of_squeeze {s text : Str} (hs : s ≠ []) (hsp : ' ' ∉ s)
    (hhead : text.head? ≠ some ' ') (h : s <+: squeeze text) (before : Str) :
    ∃ t rest g, text = t ++ rest ∧ Matches (space_tolerant s) before t rest g := by
  induction s generalizing text before with
  | nil => exact absurd rfl hs
  | cons c s ih =>
    rw [List.mem_cons,not_or] at hsp
    cases text with
    | nil => simp at h
    | cons d text =>
      have hd : d ≠ ' ' := by simpa using hhead
      rw [squeeze_cons,if_neg hd,List.cons_prefix_cons] at h
      obtain ⟨rfl,h⟩ := h
      by_cases hnil : s = []
      · subst hnil
        exact ⟨[c],text,[],rfl,c,by simp,rfl,rfl⟩
      · let spaces := text.takeWhile fun d => d = ' '
        let after := text.dropWhile fun d => d = ' '
        have hsplit : text = spaces ++ after := (List.takeWhile_append_dropWhile ..).symm
        have hspaces : ∀ d ∈ spaces, (fun d => decide (d = ' ')) d = true :=
          List.all_eq_true.mp List.all_takeWhile
        have hafter : after.head? ≠ some ' ' := by
          intro he
          have := List.head?_dropWhile_not (fun d => decide (d = ' ')) text
          rw [show text.dropWhile (fun d => decide (d = ' ')) = after from rfl,he] at this
          simp at this
        have hempty : squeeze spaces = [] :=
          List.filter_eq_nil_iff.mpr fun d hd => by simpa using hspaces d hd
        rw [hsplit,squeeze_append,hempty,List.nil_append] at h
        obtain ⟨t,rest,g,ht,hm⟩ := ih hnil hsp.2 hafter h (spaces.reverse ++ ([c].reverse ++ before))
        refine ⟨c::(spaces ++ t),rest,g,by rw [hsplit,ht]; simp,?_⟩
        rw [space_tolerant_cons hnil]
        exact ⟨[c],spaces ++ t,[],g,rfl,rfl,⟨c,by simp,rfl,rfl⟩,spaces,t,[],g,rfl,rfl,
          ⟨hspaces,Nat.zero_le _,nofun,rfl⟩,hm⟩

/-- What stands in the output before the first marker stands in the text. -/
theorem prefix_of_rewrites {r : Re} {before text out x : Str}
    (h : Rewrites r (fun _ => REDACTED) before text out) (hx : '<' ∉ x)
    (hp : x <+: squeeze out) : x <+: squeeze text := by
  induction h generalizing x with
  | nil => exact hp
  | @copy before text out c _ _ ih =>
    rw [squeeze_cons] at hp ⊢
    split
    · rename_i hc
      rw [if_pos hc] at hp
      exact ih hx hp
    · rename_i hc
      rw [if_neg hc] at hp
      rcases List.prefix_cons_iff.mp hp with rfl | ⟨y,rfl,hy⟩
      · exact List.nil_prefix
      · rw [List.cons_prefix_cons]
        exact ⟨rfl,ih (fun h => hx (by simp [h])) hy⟩
  | replace =>
    rw [squeeze_marker] at hp
    rcases List.prefix_cons_iff.mp hp with rfl | ⟨y,rfl,-⟩
    · exact List.nil_prefix
    · exact absurd (by simp) hx

theorem absent_of_tolerant (hs : Secret U secret) {before text out : Str}
    (h : Rewrites (space_tolerant secret) (fun _ => REDACTED) before text out) :
    ¬ Occurs secret out := by
  induction h with
  | nil =>
    intro h
    exact hs.ne_nil (List.infix_nil.mp h)
  | @copy before text out c hrun hrest ih =>
    intro h
    unfold Occurs at h
    rw [squeeze_cons] at h
    split at h
    · exact ih h
    rename_i hc
    rcases List.infix_cons_iff.mp h with hp | h
    · -- the expression matches where an occurrence begins
      have hout : secret <+: squeeze (c::text) :=
        prefix_of_rewrites (.copy hrun hrest) hs.open_bracket (by rwa [squeeze_cons,if_neg hc])
      obtain ⟨t,rest,g,htext,hm⟩ :=
        matches_of_squeeze hs.ne_nil hs.no_space (by simpa using hc) hout before
      have hmem : (⟨t,g⟩ : Match) ∈ run (space_tolerant secret) before (c::text) :=
        mem_run.mpr ⟨rest,htext,hm⟩
      rw [hrun] at hmem
      cases hmem
    · exact ih h
  | replace _ _ ih =>
    intro h
    rw [← List.nil_append REDACTED] at h
    rcases hs.separated h with h | h
    · exact hs.ne_nil (List.infix_nil.mp h)
    · exact ih h

theorem proper_space_tolerant {s : Str} (hs : 0 < s.length) : Proper (space_tolerant s) := by
  apply proper_of_minLength
  rwa [minLength_space_tolerant]

/-- After the scrub of a secret it is gone. -/
theorem scrub_absent (hs : Secret U secret) (text : Str) : ¬ Occurs secret (scrub text secret) := by
  rw [scrub,if_pos hs.length]
  have hproper := proper_space_tolerant (List.length_pos_iff.mpr hs.ne_nil)
  exact absent_of_tolerant hs (rewrites_sub hproper [] text)

end Scrub

section Passes

variable {U : Unicode} {secret : Str}

/-- A character of a normalized text. -/
def Normal (U : Unicode) (c : Char) : Prop := c = ' ' ∨ visible U c = true

theorem Normal.eq_space {c : Char} (h : Normal U c) (hc : isspace c = true) : c = ' ' := by
  rcases h with h | h
  · exact h
  · simp [visible,hc] at h

/-- A pass that leaves `head` of a match before the marker brings no secret in unless joining
`head` to the text before does. -/
theorem absent_of_rewrites (hs : Secret U secret) {r : Re} {head : Match → Str}
    (hhead : ∀ before rest m, Matches r before m.text rest m.groups → (∀ c ∈ m.text, Normal U c) →
      ∀ before', Occurs secret (before' ++ head m) → Occurs secret (before' ++ m.text))
    {before text out : Str} (h : Rewrites r (fun m => head m ++ REDACTED) before text out)
    (ht : ∀ c ∈ text, Normal U c) :
    ∀ before', Occurs secret (before' ++ out) → Occurs secret (before' ++ text) := by
  induction h with
  | nil => exact fun _ h => h
  | @copy before text out c _ _ ih =>
    intro before' h
    have hih := ih (List.forall_mem_cons.mp ht).2 (before' ++ [c])
    rw [List.append_assoc,List.append_assoc] at hih
    exact hih h
  | @replace before rest out m hm _ ih =>
    rw [List.forall_mem_append] at ht
    intro before' h
    rw [← List.append_assoc,← List.append_assoc] at h
    rcases hs.separated h with h | h
    · refine (hhead _ _ _ hm ht.1 before' h).mono ⟨[],rest,by simp⟩
    · exact (ih ht.2 [] h).mono ⟨before' ++ m.text,[],by simp⟩

/-- The scrub of another secret. -/
theorem absent_scrub (hs : Secret U secret) {text other : Str} (ht : ∀ c ∈ text, Normal U c)
    (h : ¬ Occurs secret text) : ¬ Occurs secret (scrub text other) := by
  unfold scrub
  split
  · rename_i hlen
    have hproper : Proper (space_tolerant other) :=
      proper_space_tolerant (Nat.lt_of_lt_of_le (by decide) hlen)
    have hrewrites : Rewrites (space_tolerant other) (fun _ => [] ++ REDACTED) [] text
        (sub (space_tolerant other) (fun _ => REDACTED) 0 [] text) := rewrites_sub hproper [] text
    intro hocc
    refine h (absent_of_rewrites hs (fun before rest m _ _ before' hocc => ?_) hrewrites ht []
      hocc)
    exact hocc.mono ⟨[],m.text,by simp⟩
  · exact h

theorem normal_redacted (U : Unicode) : ∀ c ∈ REDACTED, Normal U c := by
  have hall : (REDACTED.all (visible U)) = true := rfl
  exact fun c hc => .inr (List.all_eq_true.mp hall c hc)

theorem normal_scrub {text other : Str} (ht : ∀ c ∈ text, Normal U c) :
    ∀ c ∈ scrub text other, Normal U c := by
  unfold scrub
  split
  · rename_i hlen
    have hproper : Proper (space_tolerant other) :=
      proper_space_tolerant (Nat.lt_of_lt_of_le (by decide) hlen)
    have hrewrites : Rewrites (space_tolerant other) (fun _ => REDACTED) [] text _ :=
      rewrites_sub hproper [] text
    exact hrewrites.forall (fun _ _ _ _ _ => normal_redacted U) ht
  · exact ht

theorem absent_scrubs (hs : Secret U secret) {secrets : List Str} {text : Str}
    (ht : ∀ c ∈ text, Normal U c) (h : secret ∈ secrets ∨ ¬ Occurs secret text) :
    ¬ Occurs secret (secrets.foldl scrub text) := by
  induction secrets generalizing text with
  | nil => exact h.resolve_left (by simp)
  | cons other secrets ih =>
    rw [List.foldl_cons]
    refine ih (normal_scrub ht) ?_
    rcases h with h | h
    · rcases List.mem_cons.mp h with rfl | h
      · exact .inr (scrub_absent hs text)
      · exact .inl h
    · exact .inr (absent_scrub hs ht h)

theorem normal_scrubs {secrets : List Str} {text : Str} (ht : ∀ c ∈ text, Normal U c) :
    ∀ c ∈ secrets.foldl scrub text, Normal U c := by
  induction secrets generalizing text with
  | nil => exact ht
  | cons other secrets ih => exact ih (normal_scrub ht)

end Passes

section Kinds

variable {U : Unicode} {secret : Str}

/-- The secret begins with a slash, or has `://` before its end. -/
def AcrossUserinfo (secret : Str) : Prop :=
  secret.head? = some '/' ∨ ∃ x y, y ≠ [] ∧ secret = x ++ [':','/','/'] ++ y

/-- The secret ends with a beginning of `Authorization=` or `Authorization:`, or lies within. -/
def AcrossAuthorization (secret : Str) : Prop :=
  ∃ e, (e = '=' ∨ e = ':') ∧
    ((∃ x y, y ≠ [] ∧ y <+: "Authorization".toList ++ [e] ∧ secret = x ++ y) ∨
      secret <:+: "uthorization".toList ++ [e])

/-- A name that reads like a credential. -/
def CredentialName (U : Unicode) (name : Str) : Prop :=
  (∀ c ∈ name, visible U c = true) ∧ ∃ g, Matches (credentialName U) [] name [] g

/-- The secret ends with `=` or `:`, after the end of a credential name or all of one. -/
def AcrossName (U : Unicode) (secret : Str) : Prop :=
  ∃ e, (e = '=' ∨ e = ':') ∧ ∃ x name, secret = x ++ [e] ∧ CredentialName U name ∧
    (x <:+ name ∨ name <:+ x)

/-- A pass can bring the secret into its output. -/
def Leaks (U : Unicode) (secret : Str) : Prop :=
  AcrossUserinfo secret ∨ AcrossAuthorization secret ∨ AcrossName U secret

theorem across_userinfo {x y t : Str} (hx : x ≠ []) (hy : y ≠ []) (hxt : x <:+ t)
    (ht : [':','/','/'] <:+ t) : AcrossUserinfo (x ++ y) := by
  rcases List.suffix_or_suffix_of_suffix hxt ht with h | ⟨z,rfl⟩
  · have hcases : x = [':','/','/'] ∨ x = ['/','/'] ∨ x = ['/'] ∨ x = [] := by
      simpa [List.suffix_cons_iff] using h
    rcases hcases with rfl | rfl | rfl | rfl
    · exact .inr ⟨[],y,hy,rfl⟩
    · exact .inl rfl
    · exact .inl rfl
    · exact absurd rfl hx
  · exact .inr ⟨z,y,hy,rfl⟩

/-- Removing userinfo joins what follows it to `://`. -/
theorem absent_userinfo (h : ¬ AcrossUserinfo secret) {before text out : Str}
    (hr : Rewrites userinfo (fun _ => []) before text out) :
    ∀ before', before' <:+ before.reverse → Occurs secret (before' ++ out) →
      Occurs secret (before' ++ text) := by
  induction hr with
  | nil => exact fun _ _ h => h
  | @copy before text out c _ _ ih =>
    intro before' hsuff hocc
    have hih := ih (before' ++ [c]) (by
      rw [List.reverse_cons]
      exact (List.suffix_append_inj_of_length_eq rfl).mpr ⟨hsuff,rfl⟩)
    rw [List.append_assoc,List.append_assoc] at hih
    exact hih hocc
  | @replace before rest out m hm _ ih =>
    intro before' hsuff hocc
    rw [List.nil_append] at hocc
    unfold Occurs at hocc
    rw [squeeze_append] at hocc
    rcases List.infix_append_iff_ne_nil.mp hocc with hocc | hocc | ⟨x,y,hx,hy,rfl,hxs,-⟩
    · have hbefore : Occurs secret before' := hocc
      exact hbefore.mono ⟨[],m.text ++ rest,by simp⟩
    · have hrest := ih [] List.nil_suffix hocc
      exact hrest.mono ⟨before' ++ m.text,[],by simp⟩
    · obtain ⟨_,_,_,_,-,-,⟨-,-,hlook⟩,-⟩ := hm
      obtain ⟨z,rfl⟩ := List.isPrefixOf_iff_prefix.mp hlook
      have hrev : (['/','/',':'] ++ z).reverse = z.reverse ++ [':','/','/'] := by simp
      rw [hrev] at hsuff
      have hxt : x <:+ squeeze (z.reverse ++ [':','/','/']) := hxs.trans (hsuff.filter _)
      have ht : [':','/','/'] <:+ squeeze (z.reverse ++ [':','/','/']) := by
        rw [squeeze_append]
        exact ⟨squeeze z.reverse,rfl⟩
      exact absurd (across_userinfo hx hy hxt ht) h

theorem matches_separator {before text rest : Str} {g : List (ℕ × Str)}
    (h : Matches separator before text rest g) : ∃ x e y, text = x ++ e::y ∧
      (∀ c ∈ x, isspace c = true) ∧ (e = '=' ∨ e = ':') ∧ ∀ c ∈ y, isspace c = true := by
  obtain ⟨x,_,_,_,rfl,-,⟨hx,-⟩,_,y,_,_,rfl,-,⟨e,he,rfl,-⟩,hy,-⟩ := h
  exact ⟨x,e,y,by simp,hx,by simpa using he,hy⟩

theorem squeeze_separator {before text rest : Str} {g : List (ℕ × Str)}
    (h : Matches separator before text rest g) (ht : ∀ c ∈ text, Normal U c) :
    ∃ e, (e = '=' ∨ e = ':') ∧ squeeze text = [e] := by
  obtain ⟨x,e,y,rfl,hx,he,hy⟩ := matches_separator h
  rw [List.forall_mem_append,List.forall_mem_cons] at ht
  have hempty : ∀ z : Str, (∀ c ∈ z, Normal U c) → (∀ c ∈ z, isspace c = true) → squeeze z = [] :=
    fun z hn hz => List.filter_eq_nil_iff.mpr fun c hc => by simp [(hn c hc).eq_space (hz c hc)]
  refine ⟨e,he,?_⟩
  rw [squeeze_append,squeeze_cons,hempty x ht.1 hx,hempty y ht.2.2 hy,if_neg]
  · rfl
  · rcases he with rfl | rfl <;> decide

theorem groupless_folded (letters : String) : Groupless (folded letters) := by
  unfold folded
  induction letters.toList with
  | nil => trivial
  | cons c cs ih => exact ⟨trivial,ih⟩

/-- What a match of the header leaves before the marker. -/
theorem authorization_head {before rest : Str} {m : Match}
    (h : Matches (authorization U) before m.text rest m.groups) :
    ∃ name separator' value, m.text = name ++ separator' ++ value ∧
      captured m 1 = separator' ∧ (∃ b r g, Matches (folded "authorization") b name r g) ∧
      ∃ b r g, Matches separator b separator' r g := by
  obtain ⟨_,_,_,_,ht,hg,⟨rfl,rfl,-⟩,name,_,_,_,rfl,rfl,hname,_,_,_,_,rfl,rfl,⟨rfl,rfl,-⟩,sep,v,_,_,
    rfl,rfl,⟨g,rfl,hsep⟩,-⟩ := h
  refine ⟨name,sep,v,by simpa using ht,?_,⟨_,_,_,hname⟩,_,_,_,hsep⟩
  have hnil := hname.groups_eq_nil (groupless_folded _)
  rw [captured,hg,hnil]
  rfl

/-- The header name is rewritten to `Authorization`. -/
theorem absent_authorization (hs : Secret U secret) (h : ¬ AcrossAuthorization secret)
    {text out : Str} (ht : ∀ c ∈ text, Normal U c)
    (hr : Rewrites (authorization U)
      (fun m => "Authorization".toList ++ captured m 1 ++ REDACTED) [] text out) :
    Occurs secret out → Occurs secret text := by
  refine absent_of_rewrites hs (fun before rest m hm hn before' hocc => ?_) hr ht []
  obtain ⟨name,sep,value,htext,hcap,-,b,r,g,hsep⟩ := authorization_head hm
  obtain ⟨e,he,hsq⟩ := squeeze_separator hsep (U:=U) fun c hc => hn c (by simp [htext,hc])
  have hhead : squeeze "Authorization".toList = "Authorization".toList := by decide
  unfold Occurs at hocc
  rw [hcap,squeeze_append,squeeze_append,hsq,hhead] at hocc
  rcases List.infix_append_iff_ne_nil.mp hocc with hocc | hocc | ⟨x,y,-,hy,rfl,-,hyp⟩
  · have hbefore : Occurs secret before' := hocc
    exact hbefore.mono ⟨[],m.text,by simp⟩
  · refine absurd ⟨e,he,?_⟩ h
    rcases List.infix_cons_iff.mp hocc with hp | hi
    · exact .inl ⟨[],secret,hs.ne_nil,hp,rfl⟩
    · exact .inr hi
  · exact absurd ⟨e,he,.inl ⟨x,y,hy,hyp,rfl⟩⟩ h

/-- What a match of a scheme leaves before the marker. -/
theorem scheme_head {before rest : Str} {m : Match}
    (h : Matches (scheme U) before m.text rest m.groups) :
    ∃ token value, m.text = token ++ value ∧ captured m 1 = token := by
  obtain ⟨_,_,_,_,ht,hg,⟨rfl,rfl,-⟩,token,v,_,_,rfl,rfl,⟨g,rfl,-⟩,-⟩ := h
  refine ⟨token,v,by simpa using ht,?_⟩
  rw [captured,hg]
  rfl

/-- A scheme token stays where it is. -/
theorem absent_scheme (hs : Secret U secret) {text out : Str} (ht : ∀ c ∈ text, Normal U c)
    (hr : Rewrites (scheme U) (fun m => captured m 1 ++ [' '] ++ REDACTED) [] text out) :
    Occurs secret out → Occurs secret text := by
  refine absent_of_rewrites hs (fun before rest m hm hn before' hocc => ?_) hr ht []
  obtain ⟨token,value,htext,hcap⟩ := scheme_head hm
  unfold Occurs at hocc
  rw [hcap,squeeze_append,squeeze_append,show squeeze [' '] = [] from rfl,List.append_nil,
    ← squeeze_append] at hocc
  have hbefore : Occurs secret (before' ++ token) := hocc
  exact hbefore.mono ⟨[],value,by simp [htext]⟩

theorem groupless_credentialName : Groupless (credentialName U) := by
  have hword := groupless_folded
  simp [credentialName,NAME_PREFIX,NAME_SUFFIX,CREDENTIAL_NAME,keyName,Re.opt,Re.anyOf,Groupless,
    hword]

theorem free_folded (letters : String) : Free (folded letters) := by
  unfold folded
  induction letters.toList with
  | nil => exact fun _ _ => rfl
  | cons c cs ih => exact ⟨trivial,ih⟩

theorem free_credentialName : Free (credentialName U) := by
  have hword := free_folded
  simp [credentialName,NAME_PREFIX,NAME_SUFFIX,CREDENTIAL_NAME,keyName,Re.opt,Re.anyOf,Free,hword]

/-- None of the characters around a name. -/
def plain (c : Char) : Bool :=
  !(c = ' ' || c = '=' || c = ':' || c = '/' || c = '\x22')

theorem plain_of_folds {l c : Char} (hl : plain l = true) (hu : plain l.toUpper = true)
    (h : folds l c = true) : plain c = true := by
  simp only [folds,Bool.or_eq_true,Bool.and_eq_true,decide_eq_true_eq] at h
  rcases h with (((rfl | rfl) | ⟨-,rfl | rfl⟩) | ⟨-,rfl⟩) | ⟨-,rfl⟩
  · exact hl
  · exact hu
  all_goals decide

theorem within_folded (letters : String)
    (h : (letters.toList.all fun l => plain l && plain l.toUpper) = true) :
    Within (fun c => plain c = true) (folded letters) := by
  unfold folded
  generalize letters.toList = cs at h
  induction cs with
  | nil => trivial
  | cons c cs ih =>
    rw [List.all_cons,Bool.and_eq_true,Bool.and_eq_true] at h
    exact ⟨fun d hd => plain_of_folds h.1.1 h.1.2 hd,ih h.2⟩

theorem plain_of_nameChar {c : Char} (h : nameChar U c = true) : plain c = true := by
  by_contra hc
  simp only [plain,Bool.not_eq_true,Bool.not_eq_false',Bool.or_eq_true,decide_eq_true_eq] at hc
  rcases hc with (((rfl | rfl) | rfl) | rfl) | rfl <;> exact absurd h (Bool.not_eq_true _ ▸ rfl)

theorem within_credentialName : Within (fun c => plain c = true) (credentialName U) := by
  have hname : ∀ c, nameChar U c = true → plain c = true := fun c h => plain_of_nameChar h
  have hdelimiter : ∀ c, delimiter c = true → plain c = true := by
    intro c hc
    simp only [delimiter,Bool.or_eq_true,decide_eq_true_eq] at hc
    rcases hc with (rfl | rfl) | rfl <;> rfl
  have hkey := within_folded "key" rfl
  have hsecret := within_folded "secret" rfl
  refine ⟨⟨⟨hname,hdelimiter⟩,trivial⟩,?_,⟨hdelimiter,hname⟩,trivial⟩
  exact ⟨within_folded _ rfl,hsecret,within_folded _ rfl,within_folded _ rfl,within_folded _ rfl,
    within_folded _ rfl,⟨within_folded _ rfl,⟨hdelimiter,trivial⟩,hkey⟩,
    ⟨within_folded _ rfl,⟨hdelimiter,trivial⟩,hkey⟩,⟨hsecret,⟨hdelimiter,trivial⟩,hkey⟩,
    within_folded _ rfl,⟨hdelimiter,trivial⟩,hkey⟩

/-- What a match of a name and a value leaves before the marker. -/
theorem credential_head {before rest : Str} {m : Match}
    (h : Matches (credential U) before m.text rest m.groups) :
    ∃ name opening separator' closing value, m.text =
        name ++ (opening ++ (separator' ++ (closing ++ value))) ∧
      captured m 1 = name ∧ captured m 2 = separator' ∧
      (∃ b r g, Matches (credentialName U) b name r g) ∧
      (∃ b r g, Matches quote b opening r g) ∧ (∃ b r g, Matches separator b separator' r g) ∧
      (∃ b r g, Matches quote b closing r g) ∧
      (∀ c ∈ value, valueChar c = true) ∧ 1 ≤ value.length := by
  obtain ⟨_,_,_,_,ht,hg,⟨rfl,rfl,-⟩,name,_,_,_,rfl,rfl,⟨g,rfl,hname⟩,_,_,_,_,rfl,rfl,⟨rfl,rfl,-⟩,
    q,_,_,_,rfl,rfl,hq,sep,_,_,_,rfl,rfl,⟨g',rfl,hsep⟩,q',v,_,_,rfl,rfl,hq',hv,hlen,-,rfl⟩ := h
  have hnil := hname.groups_eq_nil groupless_credentialName
  have hqnil := hq.groups_eq_nil (by simp [quote,Re.opt,Groupless])
  refine ⟨name,q,sep,q',v,by simpa using ht,?_,?_,⟨_,_,_,hname⟩,⟨_,_,_,hq⟩,⟨_,_,_,hsep⟩,
    ⟨_,_,_,hq'⟩,hv,hlen⟩
  · rw [captured,hg,hnil]
    rfl
  · rw [captured,hg,hnil,hqnil]
    rfl

/-- A name keeps its separator, and loses the quote between. -/
theorem absent_credential (hs : Secret U secret) (h : ¬ AcrossName U secret)
    {text out : Str} (ht : ∀ c ∈ text, Normal U c)
    (hr : Rewrites (credential U) (fun m => captured m 1 ++ captured m 2 ++ REDACTED) [] text out) :
    Occurs secret out → Occurs secret text := by
  refine absent_of_rewrites hs (fun before rest m hm hn before' hocc => ?_) hr ht []
  obtain ⟨name,opening,sep,closing,value,htext,hcap,hcap',⟨b,r,g,hname⟩,-,⟨b',r',g',hsep⟩,-⟩ :=
    credential_head hm
  obtain ⟨e,he,hsq⟩ := squeeze_separator hsep (U:=U) fun c hc => hn c (by simp [htext,hc])
  have hplain := hname.within within_credentialName
  have hnosp : ' ' ∉ name := fun hsp => absurd (hplain ' ' hsp) (by decide)
  have hprefix : before' ++ name <:+: before' ++ m.text := ⟨[],_,by rw [htext]; simp; rfl⟩
  unfold Occurs at hocc
  rw [hcap,hcap',← List.append_assoc,squeeze_append,hsq] at hocc
  rcases List.infix_append_iff_ne_nil.mp hocc with hocc | hocc | ⟨x,y,-,hy,rfl,hxs,hyp⟩
  · have hbefore : Occurs secret (before' ++ name) := hocc
    exact hbefore.mono hprefix
  · have hlen := hocc.length_le
    have := hs.length
    simp [MIN_SECRET_LENGTH] at hlen this
    omega
  · have hye : y = [e] := by
      rcases List.prefix_cons_iff.mp hyp with rfl | ⟨z,rfl,hz⟩
      · exact absurd rfl hy
      · rw [List.prefix_nil.mp hz]
    subst hye
    refine absurd ⟨e,he,x,name,rfl,⟨fun c hc => ?_,g,hname.free free_credentialName _ _⟩,?_⟩ h
    · rcases hn c (by simp [htext,hc]) with rfl | hv
      · exact absurd hc hnosp
      · exact hv
    · rw [squeeze_append,squeeze_eq_self hnosp] at hxs
      exact List.suffix_or_suffix_of_suffix hxs (List.suffix_append _ _)

end Kinds

section Sanitize

variable {U : Unicode} {secret : Str}

theorem not_of_mem_splitOnP {p : Char → Bool} {text w : Str} (hw : w ∈ text.splitOnP p) :
    ∀ c ∈ w, p c = false := by
  induction text generalizing w with
  | nil =>
    rw [List.splitOnP_nil,List.mem_singleton] at hw
    simp [hw]
  | cons d text ih =>
    rw [List.splitOnP_cons_eq_if_modifyHead] at hw
    split at hw
    · rcases List.mem_cons.mp hw with rfl | hw
      · simp
      · exact ih hw
    · rename_i hd
      cases hsplit : text.splitOnP p with
      | nil => simp [hsplit] at hw
      | cons v vs =>
        rw [hsplit] at ih hw
        rcases List.mem_cons.mp hw with rfl | hw
        · exact List.forall_mem_cons.mpr ⟨by simpa using hd,ih (.head _)⟩
        · exact ih (.tail _ hw)

theorem mem_intercalate {ws : List Str} {c : Char} (h : c ∈ [' '].intercalate ws) :
    c = ' ' ∨ ∃ w ∈ ws, c ∈ w := by
  induction ws with
  | nil => simp [List.intercalate] at h
  | cons w ws ih =>
    by_cases hws : ws = []
    · subst hws
      exact .inr ⟨w,.head _,by simpa [List.intercalate] using h⟩
    · rw [List.intercalate_cons_of_ne_nil hws,List.append_assoc,List.mem_append,List.mem_append,
        List.mem_singleton] at h
      rcases h with h | rfl | h
      · exact .inr ⟨w,.head _,h⟩
      · exact .inl rfl
      · exact (ih h).imp_right fun ⟨v,hv,hc⟩ => ⟨v,.tail _ hv,hc⟩

/-- The normalized text has no control character and no space but `' '`. -/
theorem normal_normalize (U : Unicode) (message : Str) : ∀ c ∈ normalize U message, Normal U c := by
  intro c hc
  obtain ⟨hmem,hkeep⟩ := List.mem_filter.mp hc
  rcases mem_intercalate hmem with rfl | ⟨w,hw,hcw⟩
  · exact .inl rfl
  · have hspace := not_of_mem_splitOnP (List.mem_filter.mp hw).1 c hcw
    simp only [Bool.or_eq_true,decide_eq_true_eq,Bool.and_eq_true] at hkeep
    rcases hkeep with rfl | ⟨hprint,-⟩
    · exact .inl rfl
    · exact .inr (by simp [visible,hprint,hspace])

theorem Normal.category {c : Char} (h : Normal U c) :
    category U c ≠ .control ∧ category U c ≠ .format := by
  have hspace : Redaction.category U ' ' = .separator := rfl
  rcases h with rfl | h
  · rw [hspace]
    exact ⟨nofun,nofun⟩
  · simp only [visible,isprintable,Bool.and_eq_true,Bool.or_eq_true,decide_eq_true_eq] at h
    rcases h.1 with rfl | h
    · rw [hspace]
      exact ⟨nofun,nofun⟩
    · rw [h]
      exact ⟨nofun,nofun⟩

theorem proper_patterns : ∀ p ∈ PATTERNS U, Proper p.1 := by
  have hauthorization : minLength (authorization U) = 15 := rfl
  have hscheme : minLength (scheme U) = 7 := rfl
  have hcredential : minLength (credential U) = 5 := rfl
  simp only [PATTERNS,List.forall_mem_cons]
  refine ⟨?_,?_,?_,?_,by simp⟩ <;> apply proper_of_minLength
  · decide
  · omega
  · omega
  · omega

/-- A pattern leaves normal characters, and none of the secret where it was not. -/
def Keeps (U : Unicode) (secret : Str) (p : Re × (Match → Str)) : Prop :=
  ∀ text, (∀ c ∈ text, Normal U c) → (∀ c ∈ sub p.1 p.2 0 [] text, Normal U c) ∧
    (Secret U secret → ¬ Leaks U secret → Occurs secret (sub p.1 p.2 0 [] text) →
      Occurs secret text)

theorem keeps_patterns : ∀ p ∈ PATTERNS U, Keeps U secret p := by
  have hmarker := normal_redacted U
  have hheader : ∀ c ∈ "Authorization".toList, Normal U c := by
    have hall : ("Authorization".toList.all (visible U)) = true := rfl
    exact fun c hc => .inr (List.all_eq_true.mp hall c hc)
  have hproper := @proper_patterns U
  simp only [PATTERNS,List.forall_mem_cons] at hproper ⊢
  refine ⟨?_,?_,?_,?_,by simp⟩ <;> intro text ht
  · have hr : Rewrites userinfo (fun _ => []) [] text _ :=
      rewrites_sub hproper.1 [] text
    refine ⟨hr.forall (fun _ _ _ _ _ => by simp) ht,fun hs hl hocc => ?_⟩
    exact absent_userinfo (fun h => hl (.inl h)) hr [] List.nil_suffix hocc
  · have hr : Rewrites (authorization U) (fun m => "Authorization".toList ++ captured m 1 ++
        REDACTED) [] text _ := rewrites_sub hproper.2.1 [] text
    refine ⟨hr.forall (fun b r m hm hn => ?_) ht,fun hs hl hocc => ?_⟩
    · obtain ⟨name,sep,value,htext,hcap,-⟩ := authorization_head hm
      rw [hcap,List.forall_mem_append,List.forall_mem_append]
      exact ⟨⟨hheader,fun c hc => hn c (by simp [htext,hc])⟩,hmarker⟩
    · exact absent_authorization hs (fun h => hl (.inr (.inl h))) ht hr hocc
  · have hr : Rewrites (scheme U) (fun m => captured m 1 ++ [' '] ++ REDACTED) [] text _ :=
      rewrites_sub hproper.2.2.1 [] text
    refine ⟨hr.forall (fun b r m hm hn => ?_) ht,fun hs hl hocc => ?_⟩
    · obtain ⟨token,value,htext,hcap⟩ := scheme_head hm
      rw [hcap,List.forall_mem_append,List.forall_mem_append]
      exact ⟨⟨fun c hc => hn c (by simp [htext,hc]),by simp [Normal]⟩,hmarker⟩
    · exact absent_scheme hs ht hr hocc
  · have hr : Rewrites (credential U) (fun m => captured m 1 ++ captured m 2 ++ REDACTED) [] text _ :=
      rewrites_sub hproper.2.2.2.1 [] text
    refine ⟨hr.forall (fun b r m hm hn => ?_) ht,fun hs hl hocc => ?_⟩
    · obtain ⟨name,opening,sep,closing,value,htext,hcap,hcap',-⟩ := credential_head hm
      rw [hcap,hcap',List.forall_mem_append,List.forall_mem_append]
      exact ⟨⟨fun c hc => hn c (by simp [htext,hc]),fun c hc => hn c (by simp [htext,hc])⟩,hmarker⟩
    · exact absent_credential hs (fun h => hl (.inr (.inr h))) ht hr hocc

theorem keeps_foldl {ps : List (Re × (Match → Str))} (hps : ∀ p ∈ ps, Keeps U secret p) {text : Str}
    (ht : ∀ c ∈ text, Normal U c) :
    (∀ c ∈ ps.foldl (fun text p => sub p.1 p.2 0 [] text) text, Normal U c) ∧
    (Secret U secret → ¬ Leaks U secret →
      Occurs secret (ps.foldl (fun text p => sub p.1 p.2 0 [] text) text) → Occurs secret text) := by
  induction ps generalizing text with
  | nil => exact ⟨ht,fun _ _ h => h⟩
  | cons p ps ih =>
    rw [List.forall_mem_cons] at hps
    obtain ⟨hnormal,hocc⟩ := hps.1 text ht
    obtain ⟨hnormal',hocc'⟩ := ih hps.2 hnormal
    exact ⟨hnormal',fun hs hl h => hocc hs hl (hocc' hs hl h)⟩

/-- What is returned, is what the patterns leave of the scrubbed text. -/
theorem sanitize_eq_some {message : Option Str} {secrets : List Str} {out : Str}
    (h : sanitize_error_message U message secrets = some out) : ∃ m, message = some m ∧
      out = (PATTERNS U).foldl (fun text p => sub p.1 p.2 0 [] text)
        ((secrets.foldl scrub (normalize U m)).take MAX_SCAN_LENGTH) := by
  unfold sanitize_error_message at h
  split at h
  · cases h
  · cases h
  · rename_i m hne
    dsimp only at h
    split at h
    · cases h
    · exact ⟨m,rfl,(Option.some.inj h).symm⟩

variable {message : Option Str} {secrets : List Str} {out : Str}

theorem sanitize_normal (h : sanitize_error_message U message secrets = some out) :
    ∀ c ∈ out, Normal U c := by
  obtain ⟨m,rfl,rfl⟩ := sanitize_eq_some h
  refine (keeps_foldl (@keeps_patterns U []) fun c hc => ?_).1
  exact normal_scrubs (normal_normalize U m) c (List.mem_of_mem_take hc)

/-- A secret that no pass can bring back is not in the output, whatever the other secrets. -/
theorem sanitize_absent (hs : Secret U secret) (hl : ¬ Leaks U secret) (hmem : secret ∈ secrets)
    (h : sanitize_error_message U message secrets = some out) : ¬ Occurs secret out := by
  obtain ⟨m,rfl,rfl⟩ := sanitize_eq_some h
  intro hocc
  have hnormal := @normal_scrubs U secrets _ (normal_normalize U m)
  refine absent_scrubs hs (normal_normalize U m) (.inl hmem) ?_
  have hscan := (keeps_foldl keeps_patterns fun c hc => hnormal c (List.mem_of_mem_take hc)).2 hs hl
    hocc
  exact hscan.mono (List.take_prefix _ _).isInfix

end Sanitize

end Redaction
end Dataspoke
