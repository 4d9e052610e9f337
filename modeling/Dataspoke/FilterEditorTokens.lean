import Dataspoke.FilterEditor
import Mathlib.Data.List.TakeWhile

/-!
# The tokens of the filter editor

How a text divides into tokens, and that the layout keeps apart what the tokenizer would run
together: the formatted text has the tokens of the text.
-/

namespace Dataspoke
namespace FilterEditor

/-- The rest of a closed literal: its value with each quote in it doubled, and a quote. -/
def literalRest (value : Text) : Text :=
  value.flatMap (fun u => if u = quote then [quote,quote] else [u]) ++ [quote]

def literalText (value : Text) : Text := quote::literalRest value

/-- The token of a closed literal, of a word, of `!=` or of any other unit. -/
inductive Fits : Token → Prop
  | string (value : Text) : Fits ⟨.string,literalText value⟩
  | word {u : UInt16} {us : Text} :
      wordStart u = true → (∀ v ∈ us, wordChar v = true) → Fits ⟨.word,u::us⟩
  | neq : Fits ⟨.punct,[bang,equals]⟩
  | punct {u : UInt16} :
      isSpace u = false → u ≠ quote → wordStart u = false → Fits ⟨.punct,[u]⟩

/-- The token ends where `rest` starts. -/
def Ends (token : Token) (rest : Text) : Prop :=
  match token.kind with
  | .string => rest.head? ≠ some quote
  | .word => ∀ u ∈ rest.head?, wordChar u = false
  | .punct => token.text = [bang] → rest.head? ≠ some equals

/-- The division of a text into tokens, whitespace skipped. -/
inductive Reads : Text → List Token → Prop
  | nil : Reads [] []
  | space {u : UInt16} {text : Text} {tokens : List Token} :
      isSpace u = true → Reads text tokens → Reads (u::text) tokens
  | token {token : Token} {text : Text} {tokens : List Token} :
      Fits token → Ends token text → Reads text tokens → Reads (token.text ++ text) (token::tokens)

theorem wordStart_excludes {u : UInt16} (h : wordStart u = true) :
    isSpace u = false ∧ u ≠ quote := by
  simp only [wordStart,Bool.or_eq_true,Bool.and_eq_true,decide_eq_true_eq] at h
  constructor
  · simp [isSpace]
    omega
  · rintro rfl
    revert h
    decide

theorem wordChar_excludes {u : UInt16} (h : wordChar u = true) : isSpace u = false := by
  rw [wordChar,Bool.or_eq_true] at h
  rcases h with h | h
  · exact (wordStart_excludes h).1
  · simp only [Bool.and_eq_true,decide_eq_true_eq] at h
    simp [isSpace]
    omega

/-- What starts a token is no whitespace, and neither is what ends it. -/
theorem Fits.ends_solid {token : Token} (h : Fits token) :
    (∃ u us, token.text = u::us ∧ isSpace u = false) ∧ Solid token := by
  cases h with
  | string value =>
    exact ⟨⟨quote,literalRest value,rfl,by decide⟩,quote,List.getLast?_concat (l:=quote::_),
      by decide⟩
  | @word u us hu hus =>
    have hall : ∀ v ∈ u::us, isSpace v = false := by
      rintro v (_ | ⟨_,hv⟩)
      · exact (wordStart_excludes hu).1
      · exact wordChar_excludes (hus v hv)
    refine ⟨⟨u,us,rfl,hall u List.mem_cons_self⟩,_,List.getLast?_eq_some_getLast (by simp),?_⟩
    exact hall _ (List.getLast_mem _)
  | neq => exact ⟨⟨bang,[equals],rfl,by decide⟩,equals,rfl,by decide⟩
  | punct hs => exact ⟨⟨_,[],rfl,hs⟩,_,rfl,hs⟩

theorem literal_closed (value : Text) {rest : Text} (h : rest.head? ≠ some quote) :
    literal (literalRest value ++ rest) = (literalRest value,rest) := by
  induction value with
  | nil =>
    cases rest with
    | nil => rfl
    | cons v rest =>
      have hv : v ≠ quote := by simpa using h
      simp [literalRest,literal,hv]
  | cons u value ih =>
    by_cases hu : u = quote
    · have hcons : literalRest (u::value) = quote::quote::literalRest value := by
        simp [literalRest,hu]
      rw [hcons,List.cons_append,List.cons_append,literal,if_pos rfl,if_pos rfl,ih]
    · have hcons : literalRest (u::value) = u::literalRest value := by
        simp [literalRest,hu]
      obtain ⟨v,vs,hv⟩ : ∃ v vs, literalRest value ++ rest = v::vs :=
        List.exists_cons_of_ne_nil (by simp [literalRest])
      rw [hcons,List.cons_append,hv,literal,if_neg hu,← hv,ih]

theorem takeWhile_word {us rest : Text} (hus : ∀ v ∈ us, wordChar v = true)
    (hrest : ∀ u ∈ rest.head?, wordChar u = false) :
    (us ++ rest).takeWhile wordChar = us ∧ (us ++ rest).dropWhile wordChar = rest := by
  have hnil : rest.takeWhile wordChar = [] ∧ rest.dropWhile wordChar = rest := by
    cases rest with
    | nil => simp
    | cons u rest => simp [hrest u rfl]
  rw [List.takeWhile_append_of_pos hus,List.dropWhile_append_of_pos hus,hnil.1,hnil.2]
  simp

/-- The tokenizer reads the token at the front of a text. -/
theorem scanToken_of_fits {token : Token} {text us : Text} {u : UInt16} (h : Fits token)
    (hends : Ends token text) (htext : token.text = u::us) :
    scanToken u (us ++ text) = (token,text) := by
  cases h with
  | string value =>
    obtain ⟨rfl,rfl⟩ := List.cons.inj htext
    rw [scanToken,if_pos rfl,literal_closed value hends]
    rfl
  | word hu hus =>
    obtain ⟨rfl,rfl⟩ := List.cons.inj htext
    obtain ⟨htake,hdrop⟩ := takeWhile_word hus hends
    rw [scanToken,if_neg (wordStart_excludes hu).2,if_pos hu,htake,hdrop]
  | neq =>
    obtain ⟨rfl,rfl⟩ := List.cons.inj htext
    simp [scanToken,show bang ≠ quote by decide,show wordStart bang = false by decide]
  | @punct v hs hq hw =>
    obtain ⟨rfl,rfl⟩ := List.cons.inj htext
    have hneq : ¬(v = bang ∧ text.head? = some equals) := by
      rintro ⟨rfl,hhead⟩
      exact hends rfl hhead
    rw [scanToken,if_neg hq,if_neg (by simp [hw]),List.nil_append,if_neg hneq]

theorem tokenizeFrom_of_reads {text : Text} {tokens : List Token} (h : Reads text tokens)
    {fuel : ℕ} (hfuel : text.length ≤ fuel) : tokenizeFrom fuel text = tokens := by
  induction h generalizing fuel with
  | nil => rw [tokenizeFrom]
  | space hs _ ih =>
    obtain _ | fuel := fuel
    · simp at hfuel
    rw [tokenizeFrom,if_pos hs,ih (by simpa using hfuel)]
  | @token token text tokens hfits hends _ ih =>
    obtain ⟨⟨u,us,htext,hu⟩,-⟩ := hfits.ends_solid
    rw [htext,List.cons_append] at hfuel ⊢
    obtain _ | fuel := fuel
    · simp at hfuel
    have hscan := scanToken_of_fits hfits hends htext
    have hlen : text.length ≤ fuel := by
      simp at hfuel
      omega
    rw [tokenizeFrom,if_neg (by simp [hu]),hscan,ih hlen]

theorem tokenize_of_reads {text : Text} {tokens : List Token} (h : Reads text tokens) :
    tokenizeDatasetFilter text = tokens := tokenizeFrom_of_reads h le_rfl

theorem scanToken_fits {u : UInt16} {rest : Text} (hu : isSpace u = false) :
    (scanToken u rest).1.kind = .string ∨ Fits (scanToken u rest).1 := by
  unfold scanToken
  split
  · exact .inl rfl
  split
  · exact .inr (.word ‹_› fun v hv => List.mem_takeWhile_imp hv)
  split
  · exact .inr .neq
  · exact .inr (.punct hu ‹_› (by simpa using ‹¬wordStart u = true›))

theorem tokenizeFrom_fits {fuel : ℕ} {text : Text} :
    ∀ token ∈ tokenizeFrom fuel text, token.kind = .string ∨ Fits token := by
  fun_induction tokenizeFrom fuel text with
  | case1 | case2 => nofun
  | case3 fuel u rest hu ih => exact ih
  | case4 fuel u rest hu ih =>
    rintro token (_ | ⟨_,htoken⟩)
    · exact scanToken_fits (by simpa using hu)
    · exact ih token htoken

/-- Every literal of the text is closed. -/
def Closed (text : Text) : Prop :=
  ∀ token ∈ tokenizeDatasetFilter text, token.kind = .string →
    ∃ value, token.text = literalText value

theorem Closed.fits {text : Text} (h : Closed text) :
    ∀ token ∈ tokenizeDatasetFilter text, Fits token := by
  intro token htoken
  rcases tokenizeFrom_fits token htoken with hstring | hfits
  · obtain ⟨value,hvalue⟩ := h token htoken hstring
    obtain ⟨kind,text⟩ := token
    obtain rfl : kind = .string := hstring
    obtain rfl : text = literalText value := hvalue
    exact .string value
  · exact hfits

section Spacing

/-- The whitespace that the formatter writes. -/
def Blank (gap : Text) : Prop := ∀ u ∈ gap, u = space ∨ u = newline

/-- Tokens behind whitespace, and behind some where the tokenizer would run them together. -/
def Spaced : (previous : Option Token) → List (Text × Token) → Prop
  | _, [] => True
  | previous, chunk::chunks =>
    Blank chunk.1 ∧ Fits chunk.2 ∧
      (chunk.1 = [] → ∀ p ∈ previous, Ends p chunk.2.text) ∧ Spaced (some chunk.2) chunks

theorem Ends.of_head {token : Token} {rest rest' : Text} (h : Ends token rest)
    (he : rest'.head? = rest.head?) : Ends token rest' := by
  unfold Ends at h ⊢
  rwa [he]

theorem ends_nil (token : Token) : Ends token [] := by
  unfold Ends
  split
  · nofun
  · nofun
  · exact fun _ => nofun

theorem ends_space {u : UInt16} (hu : isSpace u = true) (token : Token) (rest : Text) :
    Ends token (u::rest) := by
  have hne : ∀ v, isSpace v = false → u ≠ v := by
    rintro v hv rfl
    simp [hu] at hv
  unfold Ends
  split
  · simpa using hne quote (by decide)
  · rintro _ ⟨⟩
    cases hw : wordChar u with
    | false => rfl
    | true => exact absurd rfl (hne u (wordChar_excludes hw))
  · intro _
    simpa using hne equals (by decide)

theorem Blank.isSpace {gap : Text} (h : Blank gap) {u : UInt16} (hu : u ∈ gap) :
    isSpace u = true := by
  rcases h u hu with rfl | rfl <;> decide

theorem reads_space {gap text : Text} {tokens : List Token} (hgap : Blank gap)
    (h : Reads text tokens) : Reads (gap ++ text) tokens := by
  induction gap with
  | nil => exact h
  | cons u gap ih =>
    exact .space (hgap.isSpace List.mem_cons_self) (ih fun v hv => hgap v (List.mem_cons_of_mem _ hv))

/-- The tokenizer reads the tokens of well-spaced chunks back. -/
theorem Spaced.reads {previous : Option Token} {chunks : List (Text × Token)}
    (h : Spaced previous chunks) :
    Reads (render chunks) (chunks.map Prod.snd) ∧ ∀ p ∈ previous, Ends p (render chunks) := by
  induction chunks generalizing previous with
  | nil => exact ⟨.nil,fun p _ => ends_nil p⟩
  | cons chunk chunks ih =>
    obtain ⟨gap,token⟩ := chunk
    obtain ⟨hgap,hfits,hnext,hrest⟩ := h
    obtain ⟨hreads,hends⟩ := ih hrest
    have hcons : render ((gap,token)::chunks) = gap ++ (token.text ++ render chunks) := by
      simp [render]
    rw [hcons]
    refine ⟨reads_space hgap (.token hfits (hends token rfl) hreads),fun p hp => ?_⟩
    cases gap with
    | nil =>
      obtain ⟨⟨u,us,htext,-⟩,-⟩ := hfits.ends_solid
      have htext : token.text = u::us := htext
      refine (hnext rfl p hp).of_head ?_
      rw [List.nil_append,htext]
      rfl
    | cons u gap => exact ends_space (Blank.isSpace hgap List.mem_cons_self) p _

/-- Nothing runs together with the token before. -/
def Loose (previous : Option Token) : Prop := ∀ p ∈ previous, ∀ rest, Ends p rest

/-- Where the cursor leaves out the whitespace, none is needed. -/
structure Cursor.Apart (c : Cursor) (previous : Option Token) : Prop where
  pending : ∀ gap ∈ c.pending, Blank gap ∧ (gap = [] → Loose previous)
  glue : c.glue = true → Loose previous
  begun : c.begun = false → Loose previous

theorem blank_pad (indent : ℕ) : Blank (pad indent) := fun _ hu => .inl (mem_pad hu)

theorem blank_line (indent : ℕ) : Blank (newline::pad indent) :=
  List.forall_mem_cons.mpr ⟨.inr rfl,blank_pad indent⟩

theorem apart_start : start.Apart none :=
  ⟨by rintro _ ⟨⟩; exact ⟨nofun,fun _ => nofun⟩,nofun,fun _ => nofun⟩

theorem Cursor.apart_behind (c : Cursor) (token : Token) :
    (c.behind false).Apart (some token) := ⟨nofun,nofun,nofun⟩

variable {c : Cursor} {previous : Option Token} {token : Token}

theorem Cursor.Apart.gap (h : c.Apart previous) (glue : Bool) :
    Blank (c.gap glue) ∧
      (c.gap glue = [] → glue = true ∨ Loose previous) := by
  unfold Cursor.gap
  cases hp : c.pending with
  | some gap => exact ⟨(h.pending gap hp).1,fun he => .inr ((h.pending gap hp).2 he)⟩
  | none =>
    cases hg : c.glue with
    | true =>
      rw [Bool.or_true]
      exact ⟨nofun,fun _ => .inr (h.glue hg)⟩
    | false =>
      cases glue with
      | true => exact ⟨nofun,fun _ => .inl rfl⟩
      | false => exact ⟨by simp [Blank],nofun⟩

theorem Cursor.Apart.lineGap (h : c.Apart previous) (indent : ℕ) :
    Blank (c.lineGap indent) ∧ (c.lineGap indent = [] → Loose previous) := by
  unfold Cursor.lineGap
  cases hb : c.begun with
  | true => exact ⟨blank_line indent,nofun⟩
  | false => exact ⟨blank_pad indent,fun _ => h.begun hb⟩

theorem ends_punct {u : UInt16} (hq : u ≠ quote) (hw : wordChar u = false) (he : u ≠ equals)
    (p : Token) : Ends p [u] := by
  unfold Ends
  split
  · simpa using hq
  · rintro _ ⟨⟩
    exact hw
  · intro _
    simpa using he

theorem loose_lparen (h : isPunct token [lparen] = true) : Loose (some token) := by
  rintro _ ⟨⟩ rest
  simp only [isPunct,Bool.and_eq_true,decide_eq_true_eq] at h
  unfold Ends
  rw [h.1,h.2]
  exact fun he => absurd he (by decide)

/-- One token stands apart from the one before, and the next can. -/
theorem Cursor.Apart.step (h : c.Apart previous) (token : Token) :
    Blank (c.token previous token).1 ∧
      ((c.token previous token).1 = [] → ∀ p ∈ previous, Ends p token.text) ∧
      (c.token previous token).2.Apart (some token) := by
  have hgap := h.gap false
  have hfalse : c.gap false = [] → ∀ p ∈ previous, Ends p token.text := fun he p hp =>
    ((hgap.2 he).resolve_left nofun) p hp _
  have hline : ∀ indent, c.lineGap indent = [] → ∀ p ∈ previous, Ends p token.text :=
    fun indent he p hp => (h.lineGap indent).2 he p hp _
  unfold Cursor.token
  by_cases hl : isPunct token [lparen] = true
  · have hloose := loose_lparen hl
    rw [if_pos hl]
    split
    · exact ⟨hgap.1,hfalse,⟨nofun,fun _ => hloose,nofun⟩⟩
    · refine ⟨hgap.1,hfalse,⟨?_,nofun,nofun⟩⟩
      rintro _ ⟨⟩
      exact ⟨blank_line _,nofun⟩
  rw [if_neg hl]
  by_cases hr : isPunct token [rparen] = true
  · have hends : ∀ p, Ends p token.text := by
      rw [isPunct_text hr]
      exact ends_punct (by decide) (by decide) (by decide)
    rw [if_pos hr]
    split
    · exact ⟨(h.lineGap _).1,fun _ p _ => hends p,Cursor.apart_behind _ _⟩
    · exact ⟨(h.gap true).1,fun _ p _ => hends p,Cursor.apart_behind _ _⟩
  rw [if_neg hr]
  by_cases hc : isPunct token [comma] = true
  · have hends : ∀ p, Ends p token.text := by
      rw [isPunct_text hc]
      exact ends_punct (by decide) (by decide) (by decide)
    rw [if_pos hc]
    exact ⟨(h.gap true).1,fun _ p _ => hends p,Cursor.apart_behind _ _⟩
  rw [if_neg hc]
  split
  · exact ⟨(h.lineGap _).1,hline _,Cursor.apart_behind _ _⟩
  · exact ⟨hgap.1,hfalse,Cursor.apart_behind _ _⟩

theorem Cursor.Apart.layout {tokens : List Token} (h : c.Apart previous)
    (hfits : ∀ token ∈ tokens, Fits token) :
    Spaced previous (c.layout previous tokens) := by
  induction tokens generalizing c previous with
  | nil => trivial
  | cons token tokens ih =>
    obtain ⟨hspace,hends,hnext⟩ := h.step token
    exact ⟨hspace,hfits token List.mem_cons_self,hends,
      ih hnext fun t ht => hfits t (List.mem_cons_of_mem _ ht)⟩

theorem layout_tokens (c : Cursor) (previous : Option Token) (tokens : List Token) :
    (c.layout previous tokens).map Prod.snd = tokens := by
  induction tokens generalizing c previous with
  | nil => rfl
  | cons token tokens ih => rw [Cursor.layout,List.map_cons,ih]

/-- The layout of tokens has these tokens. -/
theorem tokenize_layout {tokens : List Token} (hfits : ∀ token ∈ tokens, Fits token) :
    tokenizeDatasetFilter (render (start.layout none tokens)) = tokens := by
  have hreads := (apart_start.layout hfits).reads.1
  rw [layout_tokens] at hreads
  exact tokenize_of_reads hreads

theorem format_of_fits {text : Text} (hfits : ∀ token ∈ tokenizeDatasetFilter text, Fits token) :
    formatDatasetFilter text = render (start.layout none (tokenizeDatasetFilter text)) :=
  format_eq_render fun token htoken => (hfits token htoken).ends_solid.2

end Spacing

section Invariance

variable {text : Text}

theorem tokenize_format (h : Closed text) :
    tokenizeDatasetFilter (formatDatasetFilter text) = tokenizeDatasetFilter text := by
  rw [format_of_fits h.fits]
  exact tokenize_layout h.fits

/-- The formatter reads nothing but the tokens. -/
theorem format_congr {text' : Text}
    (h : tokenizeDatasetFilter text = tokenizeDatasetFilter text') :
    formatDatasetFilter text = formatDatasetFilter text' := by
  rw [formatDatasetFilter,formatDatasetFilter,h]

end Invariance

end FilterEditor
end Dataspoke
