import Dataspoke.FilterGrammar
import Mathlib.Data.List.TakeWhile

/-! The tokenizer divides a text as the grammar does, within the cap on literals, and
every position it reports lies in the text. -/

namespace Dataspoke
namespace DatasetFilter

open Python

def Token.lexeme (t : Token) : Lexeme := (t.kind,t.value)

def eofLexeme : Lexeme := (.eof,[])

/-- The body of a quoted string, its closing quote included. -/
def quotedBody (value : Str) : Str :=
  value.flatMap (fun c => if c = '\'' then ['\'','\''] else [c]) ++ ['\'']

@[simp] theorem quotedBody_nil : quotedBody [] = ['\''] := rfl

theorem quotedBody_cons (c : Char) (value : Str) :
    quotedBody (c::value) =
      (if c = '\'' then ['\'','\''] else [c]) ++ quotedBody value := by
  simp [quotedBody]

theorem scanString_sound {s v rest : Str} {k : ℕ} (h : scanString s = some (v,rest,k)) :
    s = quotedBody v ++ rest ∧ rest.head? ≠ some '\'' ∧ s.length = k + rest.length := by
  fun_induction scanString s generalizing v rest k with
  | case1 => simp at h
  | case2 s ih =>
    simp only [Option.map_eq_some_iff,Prod.mk.injEq] at h
    obtain ⟨⟨v',r,k'⟩,hs,rfl,rfl,rfl⟩ := h
    obtain ⟨rfl,hr,hl⟩ := ih hs
    refine ⟨by simp [quotedBody_cons],hr,?_⟩
    simp only [List.length_cons,hl]
    omega
  | case3 s hs =>
    simp only [Option.some.injEq,Prod.mk.injEq] at h
    obtain ⟨rfl,rfl,rfl⟩ := h
    refine ⟨by simp,?_,by simp [Nat.add_comm]⟩
    intro hq
    cases s with
    | nil => simp at hq
    | cons c s =>
      simp only [List.head?_cons,Option.some.injEq] at hq
      exact hs s (by rw [hq])
  | case4 c s _ hc ih =>
    simp only [Option.map_eq_some_iff,Prod.mk.injEq] at h
    obtain ⟨⟨v',r,k'⟩,hs,rfl,rfl,rfl⟩ := h
    obtain ⟨rfl,hr,hl⟩ := ih hs
    have hne : c ≠ '\'' := fun he => by simp [he] at hc
    refine ⟨by simp [quotedBody_cons,hne],hr,?_⟩
    simp only [List.length_cons,hl]
    omega

theorem scanString_complete (v rest : Str) (hr : rest.head? ≠ some '\'') :
    ∃ k, scanString (quotedBody v ++ rest) = some (v,rest,k) := by
  induction v with
  | nil =>
    cases rest with
    | nil => exact ⟨1,by simp [scanString]⟩
    | cons c rest =>
      have hc : c ≠ '\'' := by simpa using hr
      exact ⟨1,by simp [scanString,hc]⟩
  | cons c v ih =>
    obtain ⟨k,hk⟩ := ih
    by_cases hc : c = '\''
    · exact ⟨k+2,by simp [quotedBody_cons,hc,scanString,hk]⟩
    · exact ⟨k+1,by simp [quotedBody_cons,hc,scanString,hk]⟩

def isString (l : Lexeme) : Bool := l.1 = .string

theorem punctuation_ne_string {c : Char} {k : Kind} (h : punctuation c = some k) :
    k ≠ .string := by
  unfold punctuation at h
  split at h
  all_goals cases h <;> decide

theorem isspace_of_punctuation {c : Char} {k : Kind} (h : punctuation c = some k) :
    isspace c = false := by
  unfold punctuation at h
  split at h
  all_goals cases h <;> decide

theorem identStart_iff {c : Char} :
    identStart c = true ↔ 65 ≤ c.toNat ∧ c.toNat ≤ 90 ∨ 97 ≤ c.toNat ∧ c.toNat ≤ 122 ∨
      c.toNat = 95 := by
  have hu : c = '_' ↔ c.toNat = 95 :=
    ⟨fun h => h ▸ rfl,fun h => Char.ext (UInt32.toNat_inj.mp h)⟩
  simp only [identStart,Bool.or_eq_true,Bool.and_eq_true,decide_eq_true_eq,hu,or_assoc]
  rfl

/-- A character that starts an identifier starts nothing else. -/
theorem identStart_excludes {c : Char} (h : identStart c = true) :
    isspace c = false ∧ punctuation c = none ∧ c ≠ '!' ∧ c ≠ '\'' := by
  refine ⟨?_,?_,?_,?_⟩
  · rw [identStart_iff] at h
    simp [isspace]
    omega
  · unfold punctuation
    split
    all_goals first | rfl | (exfalso; revert h; decide)
  all_goals
    rintro rfl
    revert h
    decide

/-- What follows the identifier the tokenizer takes is no identifier character. -/
theorem head?_dropWhile_identPart {s : Str} {c : Char}
    (h : (s.dropWhile identPart).head? = some c) : identPart c = false := by
  have := List.head?_dropWhile_not identPart s
  rw [h] at this
  simpa using this

theorem takeWhile_identPart {cs t : Str} (hcs : ∀ d ∈ cs, identPart d = true)
    (ht : ∀ c, t.head? = some c → identPart c = false) :
    (cs ++ t).takeWhile identPart = cs ∧ (cs ++ t).dropWhile identPart = t := by
  have hnil : t.takeWhile identPart = [] ∧ t.dropWhile identPart = t := by
    cases t with
    | nil => simp
    | cons c t => simp [ht c rfl]
  rw [List.takeWhile_append_of_pos hcs,List.dropWhile_append_of_pos hcs,hnil.1,hnil.2]
  simp

/-- The lexeme of a token that is read stands at the front of the text. -/
theorem scanToken_sound {i literals k : ℕ} {ch : Char} {rest rest' : Str} {t : Token}
    (h : scanToken i literals ch rest = .ok (t,rest',k)) :
    (∀ ls, Lexes rest' ls → Lexes (ch::rest) (t.lexeme::ls)) ∧ t.position = i ∧
      k + rest'.length = (ch::rest).length ∧ 0 < k ∧
      (t.kind = .string → literals + 1 ≤ MAX_STRING_LITERALS) := by
  revert h
  fun_cases scanToken i literals ch rest with
  | case1 _ kind hk =>
    rintro ⟨⟩
    exact ⟨fun ls => .punct hk,rfl,by simp [Nat.add_comm],Nat.one_pos,
      fun hs => absurd hs (punctuation_ne_string hk)⟩
  | case2 _ hb =>
    rintro ⟨⟩
    subst hb
    exact ⟨fun ls => .neq,rfl,by simp; omega,Nat.two_pos,fun hs => by cases hs⟩
  | case3 | case4 | case5 | case8 => rintro ⟨⟩
  | case6 _ _ _ hq _ _ _ hscan hcap =>
    rintro ⟨⟩
    subst hq
    obtain ⟨rfl,hhead,hlen⟩ := scanString_sound hscan
    exact ⟨fun ls => .string hhead,rfl,by simp only [List.length_cons]; omega,Nat.succ_pos _,
      fun _ => Nat.le_of_not_gt hcap⟩
  | case7 _ _ _ _ hs =>
    rintro ⟨⟩
    have hsplit : ch::rest = (ch::rest.takeWhile identPart) ++ rest.dropWhile identPart := by
      simp
    refine ⟨fun ls hls => ?_,rfl,?_,Nat.succ_pos _,fun hs => by cases hs⟩
    · rw [hsplit]
      exact .ident ⟨ch,_,rfl,hs,fun _ hd => List.mem_takeWhile_imp hd⟩
        (fun c => head?_dropWhile_identPart) hls
    · rw [← List.length_append,← hsplit]

theorem scanToken_error {i literals : ℕ} {ch : Char} {rest : Str}
    {e : DatasetFilterSyntaxError} (h : scanToken i literals ch rest = .error e) :
    e.position = i := by
  unfold scanToken at h
  repeat' split at h
  all_goals cases h <;> rfl

theorem scanToken_punct {c : Char} {k : Kind} (hk : punctuation c = some k)
    (i literals : ℕ) (t : Str) : scanToken i literals c t = .ok (⟨k,[c],i⟩,t,1) := by
  unfold scanToken
  rw [hk]

theorem scanToken_string {value t : Str} (hhead : t.head? ≠ some '\'') (i : ℕ) {literals : ℕ}
    (hcap : literals + 1 ≤ MAX_STRING_LITERALS) :
    ∃ k, scanToken i literals '\'' (quotedBody value ++ t) =
      .ok (⟨.string,value,i⟩,t,k) := by
  obtain ⟨k,hscan⟩ := scanString_complete value t hhead
  have hcap : ¬ literals + 1 > MAX_STRING_LITERALS := by omega
  exact ⟨k+1,by simp [scanToken,punctuation,hscan,hcap]⟩

theorem scanToken_ident {c : Char} {cs t : Str} (hc : identStart c = true)
    (hcs : ∀ d ∈ cs, identPart d = true) (ht : ∀ c, t.head? = some c → identPart c = false)
    (i literals : ℕ) :
    scanToken i literals c (cs ++ t) = .ok (⟨.ident,c::cs,i⟩,t,cs.length+1) := by
  obtain ⟨-,hp,hn,hq⟩ := identStart_excludes hc
  obtain ⟨htake,hdrop⟩ := takeWhile_identPart hcs ht
  simp [scanToken,hp,hn,hq,hc,htake,hdrop]

theorem tokenizeFrom_token {fuel i literals k : ℕ} {ch : Char} {rest rest' : Str} {t : Token}
    (hs : isspace ch = false) (ht : scanToken i literals ch rest = .ok (t,rest',k)) :
    tokenizeFrom (fuel+1) i literals (ch::rest) =
      (tokenizeFrom fuel (i+k) (if t.kind = .string then literals+1 else literals) rest').map
        (t::·) := by
  simp [tokenizeFrom,hs,ht,Except.bind]

theorem tokenizeFrom_sound {fuel i literals : ℕ} {text : Str} {toks : List Token}
    (h : tokenizeFrom fuel i literals text = .ok toks) (hl : literals ≤ MAX_STRING_LITERALS) :
    (∃ ls, Lexes text ls ∧ toks.map Token.lexeme = ls ++ [eofLexeme] ∧
      literals + ls.countP isString ≤ MAX_STRING_LITERALS) ∧
    ∀ t ∈ toks, t.position ≤ i + text.length := by
  fun_induction tokenizeFrom fuel i literals text generalizing toks with
  | case1 fuel i literals =>
    cases h
    exact ⟨⟨[],.nil,rfl,by simpa using hl⟩,by simp⟩
  | case2 => cases h
  | case3 fuel i literals ch rest hs ih =>
    obtain ⟨⟨ls,hlex,hmap,hcount⟩,hpos⟩ := ih h hl
    refine ⟨⟨ls,.space hs hlex,hmap,hcount⟩,fun t ht => ?_⟩
    have := hpos t ht
    simp only [List.length_cons]
    omega
  | case4 fuel i literals ch rest hs ih =>
    obtain ⟨⟨t,rest',k⟩,ht,h⟩ := bind_eq_ok.mp h
    obtain ⟨toks,htoks,rfl⟩ := map_eq_ok.mp h
    obtain ⟨hlex,hposition,hlen,-,hcap⟩ := scanToken_sound ht
    have hl' : (if t.kind = .string then literals+1 else literals) ≤ MAX_STRING_LITERALS := by
      split
      · exact hcap ‹_›
      · exact hl
    obtain ⟨⟨ls,hls,hmap,hcount⟩,hpos⟩ := ih (t,rest',k) htoks hl'
    refine ⟨⟨_,hlex ls hls,by simp [hmap],?_⟩,?_⟩
    · simp only [List.countP_cons,isString,Token.lexeme,decide_eq_true_eq] at hcount ⊢
      split at hcount <;> split <;> simp_all
      omega
    · intro u hu
      rcases List.mem_cons.mp hu with rfl | hu
      · omega
      · have := hpos u hu
        simp only at this
        omega

theorem tokenizeFrom_error {fuel i literals : ℕ} {text : Str} {e : DatasetFilterSyntaxError}
    (h : tokenizeFrom fuel i literals text = .error e) : e.position ≤ i + text.length := by
  fun_induction tokenizeFrom fuel i literals text with
  | case1 => cases h
  | case2 =>
    cases h
    exact Nat.le_add_right _ _
  | case3 fuel i literals ch rest hs ih =>
    have := ih h
    simp only [List.length_cons]
    omega
  | case4 fuel i literals ch rest hs ih =>
    rcases bind_eq_error.mp h with h | ⟨⟨t,rest',k⟩,ht,h⟩
    · exact (scanToken_error h).le.trans (Nat.le_add_right _ _)
    · have := ih (t,rest',k) (map_eq_error.mp h)
      have hlen := (scanToken_sound ht).2.2.1
      simp only at this
      omega

/-- `tokenizeFrom` reads the lexemes `ls` off `text`, from any index on, when the cap on
literals leaves room for them. -/
def Reads (text : Str) (ls : List Lexeme) : Prop :=
  ∀ fuel i literals : ℕ, text.length ≤ fuel →
    literals + ls.countP isString ≤ MAX_STRING_LITERALS →
    ∃ toks, tokenizeFrom fuel i literals text = .ok toks ∧
      toks.map Token.lexeme = ls ++ [eofLexeme]

theorem Reads.cons {ch : Char} {rest rest' : Str} {l : Lexeme} {ls : List Lexeme}
    (hs : isspace ch = false)
    (ht : ∀ i literals, (isString l → literals + 1 ≤ MAX_STRING_LITERALS) →
      ∃ k, scanToken i literals ch rest = .ok (⟨l.1,l.2,i⟩,rest',k))
    (ih : Reads rest' ls) : Reads (ch::rest) (l::ls) := by
  intro fuel i literals hf hl
  rw [List.countP_cons] at hl
  obtain ⟨k,hk⟩ := ht i literals (fun hstr => by rw [if_pos hstr] at hl; omega)
  obtain ⟨-,-,hlen,hk0,-⟩ := scanToken_sound hk
  obtain _ | fuel := fuel
  · simp at hf
  obtain ⟨toks,htoks,hmap⟩ := ih fuel (i+k) (if l.1 = .string then literals+1 else literals)
    (by omega) (by simp only [isString,decide_eq_true_eq] at hl; split at hl <;> simp_all; omega)
  rw [tokenizeFrom_token hs hk,htoks]
  exact ⟨_,rfl,by simp [hmap,Token.lexeme]⟩

theorem reads_of_lexes {text : Str} {ls : List Lexeme} (h : Lexes text ls) :
    Reads text ls := by
  induction h with
  | nil => exact fun fuel i literals _ _ => ⟨[⟨.eof,[],i⟩],by rw [tokenizeFrom],rfl⟩
  | @space c t ls hs _ ih =>
    intro fuel i literals hf hl
    obtain _ | fuel := fuel
    · simp at hf
    obtain ⟨toks,htoks,hmap⟩ := ih fuel (i+1) literals (by simpa using hf) hl
    exact ⟨toks,by simp [tokenizeFrom,hs,htoks],hmap⟩
  | punct hk _ ih =>
    exact ih.cons (isspace_of_punctuation hk) fun i n _ => ⟨1,scanToken_punct hk i n _⟩
  | neq _ ih => exact ih.cons (by decide) fun i n _ => ⟨2,by simp [scanToken,punctuation]⟩
  | string hhead _ ih =>
    exact ih.cons (by decide) fun i n hcap => scanToken_string hhead i (hcap rfl)
  | ident hw ht _ ih =>
    obtain ⟨c,cs,rfl,hc,hcs⟩ := hw
    exact ih.cons (identStart_excludes hc).1 fun i n _ => ⟨_,scanToken_ident hc hcs ht i n⟩

/-- `tokenize` accepts the texts that divide into lexemes within the cap on literals. -/
theorem tokenize_ok_iff {text : Str} {ls : List Lexeme} :
    (Lexes text ls ∧ ls.countP isString ≤ MAX_STRING_LITERALS) ↔
      ∃ toks, tokenize text = .ok toks ∧ toks.map Token.lexeme = ls ++ [eofLexeme] := by
  constructor
  · rintro ⟨hlex,hcount⟩
    exact reads_of_lexes hlex _ _ _ le_rfl (by simpa using hcount)
  · rintro ⟨toks,htoks,hmap⟩
    obtain ⟨⟨ls',hlex,hmap',hcount⟩,-⟩ := tokenizeFrom_sound htoks (Nat.zero_le _)
    obtain rfl : ls' = ls := by simpa using hmap'.symm.trans hmap
    exact ⟨hlex,by simpa using hcount⟩

theorem tokenize_error {text : Str} {e : DatasetFilterSyntaxError}
    (h : tokenize text = .error e) : e.position ≤ text.length := by
  simpa using tokenizeFrom_error h

end DatasetFilter
end Dataspoke
