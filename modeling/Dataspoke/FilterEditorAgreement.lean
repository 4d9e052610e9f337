import Dataspoke.FilterFormat
import Dataspoke.FilterEditorTokens
import Dataspoke.Utf16

/-!
# The two formatters agree

The editor's tokens carry the lexemes of the parser, so its layout of an accepted filter has
the same AST; and the canonical form of a filter is the layout of its own tokens.
-/

namespace Dataspoke
namespace FilterEditor

open Python Utf16
open DatasetFilter (MAX_FILTER_CHARS FilterAst parse_filter format_filter format_node Lexeme
  Kind Lexes Node ScalarColumn ArrayColumn BoolColumn BoolOp Chunk identStart identPart
  punctuation quoted source identStart_iff)

section Units

theorem quote_iff {c : Char} {u : UInt16} (h : u ∈ units c) : u = quote ↔ c = '\'' := by
  have hrange := mem_units h
  have hquote : c = '\'' ↔ c.toNat = 39 := ⟨fun h => h ▸ rfl,fun h => toNat_inj h⟩
  have huquote : u = quote ↔ u.toNat = 39 := ⟨fun h => h ▸ rfl,fun h => UInt16.toNat_inj.mp h⟩
  rw [hquote,huquote]
  omega

theorem wordStart_eq {c : Char} {u : UInt16} (h : u ∈ units c) :
    wordStart u = identStart c := by
  have hrange := mem_units h
  rw [Bool.eq_iff_iff,identStart_iff]
  simp only [wordStart,Bool.or_eq_true,Bool.and_eq_true,decide_eq_true_eq]
  omega

theorem wordChar_eq {c : Char} {u : UInt16} (h : u ∈ units c) : wordChar u = identPart c := by
  have hrange := mem_units h
  have hdigit : ('0' ≤ c && c ≤ '9') = true ↔ 48 ≤ c.toNat ∧ c.toNat ≤ 57 := by
    rw [Bool.and_eq_true,decide_eq_true_eq,decide_eq_true_eq]
    rfl
  rw [Bool.eq_iff_iff,wordChar,identPart,wordStart_eq h,Bool.or_eq_true,Bool.or_eq_true,hdigit]
  refine or_congr Iff.rfl ?_
  simp only [Bool.and_eq_true,decide_eq_true_eq]
  omega

theorem eq_of_units_bang {c : Char} (h : units c = [bang]) : c = '!' := by
  have he : encode [c] = encode ['!'] := by rw [encode_cons,h]; rfl
  exact List.singleton_inj.mp (encode_injective he)

variable {s : Str}

theorem head_quote : (encode s).head? = some quote ↔ s.head? = some '\'' := by
  cases s with
  | nil => simp
  | cons c s =>
    obtain ⟨u,us,hu,-⟩ := head_units c
    simpa [hu] using quote_iff (c:=c) (u:=u) (by simp [hu])

theorem head_word : (∀ u ∈ (encode s).head?, wordChar u = false) ↔
    ∀ c, s.head? = some c → identPart c = false := by
  cases s with
  | nil => simp
  | cons c s =>
    obtain ⟨u,us,hu,-⟩ := head_units c
    simp [hu,wordChar_eq (c:=c) (u:=u) (by simp [hu])]

end Units

/-- The token of a lexeme. -/
def tokenOf (l : Lexeme) : Token :=
  match l.1 with
  | .string => ⟨.string,encode (quoted l.2)⟩
  | .ident => ⟨.word,encode l.2⟩
  | _ => ⟨.punct,encode l.2⟩

theorem tokenOf_text (l : Lexeme) : (tokenOf l).text = encode (source l) := by
  obtain ⟨kind,value⟩ := l
  cases kind <;> rfl

theorem encode_quotedBody (value : Str) :
    encode (DatasetFilter.quotedBody value) = literalRest (encode value) := by
  induction value with
  | nil => rfl
  | cons c value ih =>
    have hrest : ∀ us, literalRest (us ++ encode value) =
        us.flatMap (fun u => if u = quote then [quote,quote] else [u]) ++
          literalRest (encode value) := by
      intro us
      simp [literalRest]
    rw [DatasetFilter.quotedBody_cons,encode_append,ih,encode_cons,hrest]
    refine congrArg (· ++ literalRest (encode value)) ?_
    by_cases hc : c = '\''
    · subst hc
      rfl
    · have hunits : ∀ u ∈ units c, (if u = quote then [quote,quote] else [u]) = [u] :=
        fun u hu => if_neg fun he => hc ((quote_iff hu).mp he)
      rw [if_neg hc,List.flatMap_congr hunits]
      simp

theorem encode_quoted (value : Str) : encode (quoted value) = literalText (encode value) :=
  congrArg (quote::·) (encode_quotedBody value)

theorem fits_tokenOf {l : Lexeme} (h : DatasetFilter.Fits l) : Fits (tokenOf l) := by
  obtain ⟨kind,value⟩ := l
  cases kind with
  | string =>
    have : tokenOf (.string,value) = ⟨.string,literalText (encode value)⟩ :=
      congrArg (Token.mk .string) (encode_quoted value)
    exact this ▸ .string _
  | ident =>
    obtain ⟨c,cs,rfl,hc,hcs⟩ := h
    obtain ⟨u,us,hu,-⟩ := head_units c
    have hstart : wordStart u = true := (wordStart_eq (by simp [hu])).trans hc
    have hpart : ∀ v ∈ us ++ encode cs, wordChar v = true := by
      intro v hv
      rcases List.mem_append.mp hv with hv | hv
      · rw [wordChar_eq (c:=c) (by simp [hu,hv]),identPart,hc,Bool.true_or]
      · obtain ⟨d,hd,hvd⟩ := List.mem_flatMap.mp hv
        rw [wordChar_eq hvd]
        exact hcs d hd
    have hword := Fits.word hstart hpart
    rwa [← List.cons_append,← hu] at hword
  | neq =>
    obtain rfl : value = ['!','='] := h
    exact .neq
  | lparen | rparen | comma | eq | eof =>
    obtain ⟨c,rfl,hc⟩ := h
    unfold punctuation at hc
    split at hc
    all_goals first
      | (cases hc; done)
      | exact .punct (by decide) (by decide) (by decide)

theorem ends_iff {l : Lexeme} (h : DatasetFilter.Fits l) (s : Str) :
    Ends (tokenOf l) (encode s) ↔ (l.1 = .string → s.head? ≠ some '\'') ∧
      (l.1 = .ident → ∀ c, s.head? = some c → identPart c = false) := by
  obtain ⟨kind,value⟩ := l
  cases kind with
  | string => simpa [Ends,tokenOf] using head_quote.not
  | ident => simpa [Ends,tokenOf] using head_word
  | neq =>
    obtain rfl : value = ['!','='] := h
    have hbang : encode ['!','='] ≠ [bang] := by decide
    exact ⟨fun _ => ⟨nofun,nofun⟩,fun _ he => absurd he hbang⟩
  | lparen | rparen | comma | eq | eof =>
    obtain ⟨c,rfl,hc⟩ := h
    have hbang : encode [c] ≠ [bang] := by
      intro he
      obtain rfl := eq_of_units_bang (by simpa using he)
      cases hc
    exact ⟨fun _ => ⟨nofun,nofun⟩,fun _ he => absurd he hbang⟩

/-- Tokens that are lexemes, and between them what only the parser takes for whitespace. -/
inductive Carries : List Token → List Lexeme → Prop
  | nil : Carries [] []
  | space {c : Char} {tokens : List Token} {ls : List Lexeme} :
      isspace c = true → Fits ⟨.punct,units c⟩ → Carries tokens ls →
        Carries (⟨.punct,units c⟩::tokens) ls
  | lexeme {l : Lexeme} {tokens : List Token} {ls : List Lexeme} :
      DatasetFilter.Fits l → Carries tokens ls → Carries (tokenOf l::tokens) (l::ls)

theorem isspace_lt {c : Char} (h : isspace c = true) : c.toNat < 0x10000 := by
  simp [isspace] at h
  omega

theorem encode_source (l : Lexeme) (s : Str) :
    encode (source l ++ s) = (tokenOf l).text ++ encode s := by
  rw [encode_append,tokenOf_text]

/-- The editor reads the lexemes of a text. -/
theorem reads_of_lexes {s : Str} {ls : List Lexeme} (h : Lexes s ls) :
    ∃ tokens, Reads (encode s) tokens ∧ Carries tokens ls := by
  have step : ∀ {l : Lexeme} {t : Str} {ls : List Lexeme}, DatasetFilter.Fits l →
      ((l.1 = .string → t.head? ≠ some '\'') ∧
        (l.1 = .ident → ∀ c, t.head? = some c → identPart c = false)) →
      (∃ tokens, Reads (encode t) tokens ∧ Carries tokens ls) →
      ∃ tokens, Reads (encode (source l ++ t)) tokens ∧ Carries tokens (l::ls) := by
    rintro l t ls hfits hends ⟨tokens,hreads,hcarries⟩
    rw [encode_source]
    exact ⟨_,.token (fits_tokenOf hfits) ((ends_iff hfits t).mpr hends) hreads,
      .lexeme hfits hcarries⟩
  have plain : ∀ {l : Lexeme} {t : Str}, l.1 ≠ .string → l.1 ≠ .ident →
      (l.1 = .string → t.head? ≠ some '\'') ∧
        (l.1 = .ident → ∀ c, t.head? = some c → identPart c = false) :=
    fun hstring hident => ⟨fun h => absurd h hstring,fun h => absurd h hident⟩
  induction h with
  | nil => exact ⟨[],.nil,.nil⟩
  | @space c t ls hc _ ih =>
    obtain ⟨tokens,hreads,hcarries⟩ := ih
    have hunits := units_eq (isspace_lt hc)
    rw [encode_cons,hunits]
    cases hs : isSpace (UInt16.ofNat c.toNat) with
    | true => exact ⟨tokens,.space hs hreads,hcarries⟩
    | false =>
      have hmem : UInt16.ofNat c.toNat ∈ units c := by simp [hunits]
      have hquote : UInt16.ofNat c.toNat ≠ quote := by
        rw [ne_eq,quote_iff hmem]
        exact (DatasetFilter.head_space hc).1
      have hstart : wordStart (UInt16.ofNat c.toNat) = false := by
        rw [wordStart_eq hmem]
        have hpart := (DatasetFilter.head_space hc).2
        rw [identPart,Bool.or_eq_false_iff] at hpart
        exact hpart.1
      have hends : Ends ⟨.punct,[UInt16.ofNat c.toNat]⟩ (encode t) := by
        intro he
        rw [← hunits] at he
        obtain rfl := eq_of_units_bang he
        cases hc
      have hfits : Fits ⟨.punct,[UInt16.ofNat c.toNat]⟩ := .punct hs hquote hstart
      have hcarry := Carries.space hc (hunits ▸ hfits) hcarries
      rw [hunits] at hcarry
      exact ⟨_,.token hfits hends hreads,hcarry⟩
  | punct hk _ ih =>
    unfold punctuation at hk
    split at hk
    all_goals cases hk
    · exact step DatasetFilter.fits_lparen (plain (by decide) (by decide)) ih
    · exact step DatasetFilter.fits_rparen (plain (by decide) (by decide)) ih
    · exact step DatasetFilter.fits_comma (plain (by decide) (by decide)) ih
    · exact step DatasetFilter.fits_eq (plain (by decide) (by decide)) ih
  | neq _ ih => exact step (l:=(.neq,['!','='])) rfl (plain (by decide) (by decide)) ih
  | string hhead _ ih => exact step (l:=(.string,_)) trivial ⟨fun _ => hhead,fun h => by cases h⟩ ih
  | ident hw ht _ ih => exact step (l:=(.ident,_)) hw ⟨fun h => (by cases h),fun _ => ht⟩ ih

theorem Carries.fits {tokens : List Token} {ls : List Lexeme} (h : Carries tokens ls) :
    ∀ token ∈ tokens, Fits token := by
  induction h with
  | nil => nofun
  | space _ hfits _ ih => exact List.forall_mem_cons.mpr ⟨hfits,ih⟩
  | lexeme hfits _ ih => exact List.forall_mem_cons.mpr ⟨fits_tokenOf hfits,ih⟩

/-- The whitespace that the formatter writes, as the parser reads it. -/
theorem exists_gap {gap : Text} (h : Blank gap) :
    ∃ g : Str, encode g = gap ∧ ∀ c ∈ g, isspace c = true := by
  induction gap with
  | nil => exact ⟨[],rfl,nofun⟩
  | cons u gap ih =>
    obtain ⟨hu,hgap⟩ := List.forall_mem_cons.mp h
    obtain ⟨g,rfl,hg⟩ := ih hgap
    rcases hu with rfl | rfl
    · exact ⟨' '::g,rfl,List.forall_mem_cons.mpr ⟨rfl,hg⟩⟩
    · exact ⟨'\n'::g,rfl,List.forall_mem_cons.mpr ⟨rfl,hg⟩⟩

/-- Well-spaced tokens that carry lexemes are a text that divides into these. -/
theorem Carries.lexes {tokens : List Token} {ls : List Lexeme} (h : Carries tokens ls)
    {previous : Option Token} {chunks : List (Text × Token)} (hs : Spaced previous chunks)
    (hm : chunks.map Prod.snd = tokens) :
    ∃ s : Str, encode s = render chunks ∧ Lexes s ls := by
  induction h generalizing previous chunks with
  | nil =>
    obtain rfl := List.map_eq_nil_iff.mp hm
    exact ⟨[],rfl,.nil⟩
  | @space c _ _ hc _ _ ih =>
    obtain ⟨⟨gap,_⟩,chunks,rfl,rfl,htail⟩ := List.map_eq_cons_iff.mp hm
    obtain ⟨hgap,-,-,hrest⟩ := hs
    obtain ⟨g,rfl,hg⟩ := exists_gap hgap
    obtain ⟨s,hs,hlex⟩ := ih hrest htail
    refine ⟨g ++ c::s,?_,DatasetFilter.lexes_space hg (.space hc hlex)⟩
    rw [encode_append,encode_cons,hs]
    simp [render]
  | @lexeme l _ _ hfits _ ih =>
    obtain ⟨⟨gap,_⟩,chunks,rfl,rfl,htail⟩ := List.map_eq_cons_iff.mp hm
    obtain ⟨hgap,-,-,hrest⟩ := hs
    obtain ⟨g,rfl,hg⟩ := exists_gap hgap
    obtain ⟨s,hs,hlex⟩ := ih hrest htail
    have hends := hrest.reads.2 _ rfl
    rw [← hs] at hends
    refine ⟨g ++ (source l ++ s),?_,DatasetFilter.lexes_space hg ?_⟩
    · rw [encode_append,encode_source,hs]
      simp [render]
    · exact DatasetFilter.lexes_source hfits ((ends_iff hfits s).mp hends) hlex

section Canonical

open DatasetFilter (Proper ProperAll operandChunks restChunks nodeChunks)

/-- The cursor lays the lexemes of the chunks out with the whitespace that the chunks have. -/
inductive Lays : Cursor → Option Token → List Chunk → Cursor → Option Token → Prop
  | nil {c : Cursor} {p : Option Token} : Lays c p [] c p
  | cons {c c₁ c' : Cursor} {p p' : Option Token} {gap : Str} {l : Lexeme} {xs : List Chunk} :
      c.token p (tokenOf l) = (encode gap,c₁) → Lays c₁ (some (tokenOf l)) xs c' p' →
        Lays c p ((gap,l)::xs) c' p'

theorem Lays.append {c c₁ c' : Cursor} {p p₁ p' : Option Token} {xs ys : List Chunk}
    (hx : Lays c p xs c₁ p₁) (hy : Lays c₁ p₁ ys c' p') : Lays c p (xs ++ ys) c' p' := by
  induction hx with
  | nil => exact hy
  | cons h _ ih => exact .cons h (ih hy)

theorem Lays.layout {c c' : Cursor} {p p' : Option Token} {xs : List Chunk}
    (h : Lays c p xs c' p') :
    c.layout p (xs.map fun x => tokenOf x.2) = xs.map fun x => (encode x.1,tokenOf x.2) := by
  induction h with
  | nil => rfl
  | cons h _ ih => rw [List.map_cons,List.map_cons,Cursor.layout,h,ih]

theorem render_encode (xs : List Chunk) :
    render (xs.map fun x => (encode x.1,tokenOf x.2)) = encode (DatasetFilter.render xs) := by
  induction xs with
  | nil => rfl
  | cons x xs ih =>
    rw [DatasetFilter.render_cons,encode_append,encode_append,← tokenOf_text,← ih]
    rfl

/-- No parenthesis, comma or operator. -/
structure Plain (token : Token) : Prop where
  lparen : isPunct token [lparen] = false
  rparen : isPunct token [rparen] = false
  comma : isPunct token [comma] = false
  and : isKeyword (some token) AND = false
  or : isKeyword (some token) OR = false

theorem Plain.token {token : Token} (h : Plain token) (c : Cursor) (p : Option Token) :
    c.token p token = (c.gap false,c.behind false) := by
  simp [Cursor.token,breaks,h.lparen,h.rparen,h.comma,h.and,h.or]

theorem plain_string (value : Str) : Plain (tokenOf (.string,value)) :=
  ⟨rfl,rfl,rfl,rfl,rfl⟩

theorem plain_scalar (column : ScalarColumn) : Plain (tokenOf (.ident,column.text)) := by
  cases column <;> exact ⟨by decide,by decide,by decide,by decide,by decide⟩

theorem plain_array (column : ArrayColumn) : Plain (tokenOf (.ident,column.text)) := by
  cases column <;> exact ⟨by decide,by decide,by decide,by decide,by decide⟩

theorem plain_bool (column : BoolColumn) : Plain (tokenOf (.ident,column.text)) := by
  cases column
  exact ⟨by decide,by decide,by decide,by decide,by decide⟩

theorem plain_boolText (value : Bool) :
    Plain (tokenOf (.ident,DatasetFilter.boolText value)) := by
  cases value <;> exact ⟨by decide,by decide,by decide,by decide,by decide⟩

theorem plain_in : Plain (tokenOf (.ident,['I','N'])) :=
  ⟨by decide,by decide,by decide,by decide,by decide⟩

theorem plain_not : Plain (tokenOf (.ident,['N','O','T'])) :=
  ⟨by decide,by decide,by decide,by decide,by decide⟩

theorem plain_eq : Plain (tokenOf (.eq,['='])) :=
  ⟨by decide,by decide,by decide,by decide,by decide⟩

theorem plain_neq : Plain (tokenOf (.neq,['!','='])) :=
  ⟨by decide,by decide,by decide,by decide,by decide⟩

/-- The cursor on a line, behind a token. -/
def inline (stack : List Frame) (indent : ℕ) : Cursor := ⟨stack,indent,false,none,true⟩

theorem Lays.plain {c c' : Cursor} {p p' : Option Token} {gap : Str} {l : Lexeme}
    {xs : List Chunk} (hl : Plain (tokenOf l)) (hgap : c.gap false = encode gap)
    (h : Lays (inline c.stack c.indent) (some (tokenOf l)) xs c' p') :
    Lays c p ((gap,l)::xs) c' p' :=
  .cons ((hl.token c p).trans (by rw [hgap]; rfl)) h

theorem Lays.blank {stack : List Frame} {indent : ℕ} {c' : Cursor} {p p' : Option Token}
    {l : Lexeme} {xs : List Chunk} (hl : Plain (tokenOf l))
    (h : Lays (inline stack indent) (some (tokenOf l)) xs c' p') :
    Lays (inline stack indent) p (([' '],l)::xs) c' p' := .plain hl rfl h

section Values

variable (stack : List Frame) (indent : ℕ)

theorem lays_moreValues (values : List Str) (p : Option Token) : ∃ last,
    Lays (inline (.list::stack) indent) p
      (DatasetFilter.moreValues values ++ [([],(.rparen,[')']))]) (inline stack indent) last := by
  induction values generalizing p with
  | nil => exact ⟨_,.cons rfl .nil⟩
  | cons v values ih =>
    obtain ⟨last,h⟩ := ih (some (tokenOf (.string,v)))
    exact ⟨last,.cons rfl (.blank (plain_string v) h)⟩

theorem lays_list (values : List Str) : ∃ last,
    Lays (inline stack indent) (some (tokenOf (.ident,['I','N'])))
      (([' '],(.lparen,['(']))::(DatasetFilter.valueChunks values ++ [([],(.rparen,[')']))]))
      (inline stack indent) last := by
  cases values with
  | nil => exact ⟨_,.cons rfl (.cons rfl .nil)⟩
  | cons v values =>
    obtain ⟨last,h⟩ := lays_moreValues stack indent values
      (some (tokenOf (.string,v)))
    exact ⟨last,.cons rfl (.plain (plain_string v) rfl h)⟩

end Values

theorem lays_predicate {n : Node} (hn : DatasetFilter.IsPredicate n) {c : Cursor} (gap : Str)
    (hgap : c.gap false = encode gap) (p : Option Token) : ∃ last,
    Lays c p (DatasetFilter.predicateChunks gap n) (inline c.stack c.indent) last := by
  cases n with
  | Equals column value =>
    exact ⟨_,.plain (plain_scalar column) hgap (.blank plain_eq
      (.blank (plain_string value) .nil))⟩
  | NotEquals column value =>
    exact ⟨_,.plain (plain_scalar column) hgap (.blank plain_neq
      (.blank (plain_string value) .nil))⟩
  | InList column values =>
    obtain ⟨last,h⟩ := lays_list c.stack c.indent values
    exact ⟨last,.plain (plain_scalar column) hgap (.blank plain_in h)⟩
  | NotInList column values =>
    obtain ⟨last,h⟩ := lays_list c.stack c.indent values
    exact ⟨last,.plain (plain_scalar column) hgap (.blank plain_not (.blank plain_in h))⟩
  | ArrayContains column value =>
    exact ⟨_,.plain (plain_string value) hgap (.blank plain_in (.blank (plain_array column) .nil))⟩
  | ArrayNotContains column value =>
    exact ⟨_,.plain (plain_string value) hgap (.blank plain_not (.blank plain_in
      (.blank (plain_array column) .nil)))⟩
  | BoolEquals column value =>
    exact ⟨_,.plain (plain_bool column) hgap (.blank plain_eq
      (.blank (plain_boolText value) .nil))⟩
  | BoolNode op ns => exact absurd rfl (hn op ns)

theorem encode_newline (indent : ℕ) :
    encode (DatasetFilter.newline indent) = newline::pad indent := by
  rw [DatasetFilter.newline,encode_cons]
  refine congrArg (newline::·) ?_
  induction indent with
  | zero => rfl
  | succ indent ih =>
    rw [DatasetFilter.pad,List.replicate_succ,List.flatten_cons,encode_append]
    exact congrArg (INDENT ++ ·) ih

theorem token_operator (op : BoolOp) {stack : List Frame} (hstack : stack.head? ≠ some .list)
    (indent : ℕ) (p : Option Token) :
    (inline stack indent).token p (tokenOf (.ident,op.text)) =
      (encode (DatasetFilter.newline indent),inline stack indent) := by
  have hkind : ∀ text, isPunct (tokenOf (.ident,op.text)) text = false := fun _ => rfl
  have hbreaks : breaks stack (tokenOf (.ident,op.text)) = true := by
    cases op <;> simpa [breaks,hstack] using by decide
  rw [Cursor.token,hkind,hkind,hkind,encode_newline]
  simp [inline,hbreaks,Cursor.lineGap,Cursor.behind]

theorem isKeyword_operator (op : BoolOp) :
    isKeyword (some (tokenOf (.ident,op.text))) IN = false := by
  cases op <;> decide

theorem token_open {p : Option Token} (hp : isKeyword p IN = false) (c : Cursor) :
    c.token p (tokenOf (.lparen,['('])) =
      (c.gap false,⟨.group::c.stack,c.indent+1,false,some (newline::pad (c.indent+1)),true⟩) := by
  have hopen : isPunct (tokenOf (.lparen,['('])) [lparen] = true := rfl
  rw [Cursor.token,if_pos hopen,hp]
  rfl

theorem token_close (stack : List Frame) (indent : ℕ) (p : Option Token) :
    (inline (.group::stack) (indent+1)).token p (tokenOf (.rparen,[')'])) =
      (encode (DatasetFilter.newline indent),inline stack indent) := by
  rw [encode_newline]
  rfl

/-- A cursor lays out an operand as the canonical form has it. -/
theorem lays_cases : Node.Cases
    (fun n => Proper n → ∀ {c : Cursor} {p : Option Token} (gap : Str),
      c.stack.head? ≠ some .list → isKeyword p IN = false → c.gap false = encode gap →
      ∃ last, Lays c p (operandChunks gap c.indent n) (inline c.stack c.indent) last)
    (fun ns => ProperAll ns → ∀ (op : BoolOp) (stack : List Frame) (indent : ℕ)
      (p : Option Token), stack.head? ≠ some .list →
      ∃ last, Lays (inline stack indent) p (restChunks op indent ns)
        (inline stack indent) last) where
  predicate n hn _ c p gap _ _ hgap := by
    rw [DatasetFilter.operandChunks_predicate hn]
    exact lays_predicate hn gap hgap p
  empty op h := absurd rfl h.1
  group op n ns hn hns h c p gap hstack hp hgap := by
    have hopen := token_open hp c
    rw [hgap] at hopen
    have hgap' := (encode_newline (c.indent+1)).symm
    obtain ⟨last,hfirst⟩ := hn h.2.1 (c:=⟨.group::c.stack,c.indent+1,false,
      some (newline::pad (c.indent+1)),true⟩) (p:=some (tokenOf (.lparen,['('])))
      _ nofun rfl hgap'
    obtain ⟨last',hrest⟩ := hns h.2.2 op (.group::c.stack) (c.indent+1) last nofun
    have hclose := token_close c.stack c.indent last'
    exact ⟨_,.cons hopen ((hfirst.append hrest).append (.cons hclose .nil))⟩
  nil _ _ _ _ p _ := ⟨p,.nil⟩
  cons n ns hn hns h op stack indent p hstack := by
    have hop := token_operator op hstack indent p
    obtain ⟨last,hfirst⟩ := hn h.1 (c:=inline stack indent) [' '] hstack
      (isKeyword_operator op) rfl
    obtain ⟨last',hrest⟩ := hns h.2 op stack indent last hstack
    exact ⟨last',.cons hop (hfirst.append hrest)⟩

theorem lays_node {n : Node} (h : Proper n) : ∃ c last,
    Lays start none (nodeChunks [] 0 n) c last := by
  rcases DatasetFilter.isPredicate_or n with hn | ⟨op,ns,rfl⟩
  · rw [DatasetFilter.nodeChunks_predicate hn]
    obtain ⟨last,hlays⟩ := lays_predicate hn (c:=start) [] rfl none
    exact ⟨_,last,hlays⟩
  · cases ns with
    | nil => exact absurd rfl h.1
    | cons n ns =>
      obtain ⟨last,hfirst⟩ := lays_cases.holds n h.2.1 (c:=start) (p:=none) [] nofun rfl rfl
      obtain ⟨last',hrest⟩ := lays_cases.holdsAll ns h.2.2 op [] 0 last nofun
      exact ⟨_,last',hfirst.append hrest⟩

/-- The canonical text of a tree is the layout of its own tokens. -/
theorem format_canonical {n : Node} (h : Proper n) :
    formatDatasetFilter (encode (format_node n 0)) = encode (format_node n 0) := by
  have hspaced := DatasetFilter.spaced_nodeChunks n
  have hfits : ∀ token ∈ (nodeChunks [] 0 n).map fun x => tokenOf x.2, Fits token := by
    intro token htoken
    obtain ⟨x,hx,rfl⟩ := List.mem_map.mp htoken
    exact fits_tokenOf (hspaced.fits x hx)
  obtain ⟨_,_,hlays⟩ := lays_node h
  have hlayout := congrArg render hlays.layout
  rw [render_encode,DatasetFilter.render_nodeChunks h] at hlayout
  have htokens := tokenize_layout hfits
  rw [hlayout] at htokens
  rw [format_of_fits (by rwa [htokens]),htokens,hlayout]

end Canonical

theorem proper_of_parse {text : Option Str} {n : Node} (h : parse_filter text = .ok ⟨some n⟩) :
    DatasetFilter.Proper n := by
  obtain ⟨-,_,-,-,hfilter⟩ := (DatasetFilter.parse_filter_ok_iff text ⟨some n⟩).mp h
  cases hfilter with
  | expr hexpr => exact hexpr.canonical.proper

/-- The editor leaves the canonical text of an accepted filter as it is. -/
theorem format_format_filter {text : Option Str} {ast : FilterAst}
    (h : parse_filter text = .ok ast) : ∃ canonical, format_filter text = .ok canonical ∧
      formatDatasetFilter (encode canonical) = encode canonical := by
  refine ⟨_,DatasetFilter.format_filter_of_parse h,?_⟩
  obtain ⟨_ | n⟩ := ast
  · rfl
  · exact format_canonical (proper_of_parse h)

/-- The layout of an accepted text is accepted too, with the same AST. -/
theorem parse_formatted {text : Str} {ast : FilterAst} (h : parse_filter (some text) = .ok ast) :
    ∃ laid, formatDatasetFilter (encode text) = encode laid ∧
      (laid.length ≤ MAX_FILTER_CHARS → parse_filter (some laid) = .ok ast) := by
  obtain ⟨-,ls,hlex,hcount,hfilter⟩ := (DatasetFilter.parse_filter_ok_iff _ ast).mp h
  obtain ⟨tokens,hreads,hcarries⟩ := reads_of_lexes hlex
  have htokens : tokenizeDatasetFilter (encode text) = tokens := tokenize_of_reads hreads
  have hfits := hcarries.fits
  obtain ⟨laid,hlaid,hlex'⟩ := hcarries.lexes (apart_start.layout hfits) (layout_tokens _ _ _)
  refine ⟨laid,?_,fun hlen => ?_⟩
  · rw [format_of_fits (by rwa [htokens]),htokens,hlaid]
  · exact (DatasetFilter.parse_filter_ok_iff _ ast).mpr ⟨hlen,ls,hlex',hcount,hfilter⟩

/-- The two formatters agree on accepted texts, and the editor keeps the tokens of any text
whose literals are closed. -/
theorem formatters_agree :
    (∀ (text : Str) (ast : FilterAst), parse_filter (some text) = .ok ast →
      (∃ canonical, format_filter (some text) = .ok canonical ∧
        formatDatasetFilter (encode canonical) = encode canonical) ∧
      ∃ laid, formatDatasetFilter (encode text) = encode laid ∧
        (laid.length ≤ MAX_FILTER_CHARS → parse_filter (some laid) = parse_filter (some text))) ∧
    ∀ text : Text, Closed text →
      tokenizeDatasetFilter (formatDatasetFilter text) = tokenizeDatasetFilter text ∧
        formatDatasetFilter (formatDatasetFilter text) = formatDatasetFilter text := by
  constructor
  · intro text ast h
    refine ⟨format_format_filter h,?_⟩
    rw [h]
    exact parse_formatted h
  · intro text h
    exact ⟨tokenize_format h,format_congr (tokenize_format h)⟩

/-- `')''('` -/
def sampleUnits : Text := [quote,rparen,quote,quote,lparen,quote]

theorem closed_sample : Closed sampleUnits := by
  intro token htoken _
  have htokens : tokenizeDatasetFilter sampleUnits = [⟨.string,sampleUnits⟩] := rfl
  rw [htokens,List.mem_singleton] at htoken
  exact ⟨[rparen,quote,lparen],htoken ▸ rfl⟩

theorem formatters_agree_sample :
    (∃ laid, formatDatasetFilter (encode DatasetFilter.sampleText) = encode laid ∧
      (laid.length ≤ MAX_FILTER_CHARS →
        parse_filter (some laid) = parse_filter (some DatasetFilter.sampleText))) ∧
    tokenizeDatasetFilter (formatDatasetFilter sampleUnits) = tokenizeDatasetFilter sampleUnits :=
  ⟨(formatters_agree.1 _ _ DatasetFilter.sample_parses).2,
    (formatters_agree.2 _ closed_sample).1⟩

end FilterEditor
end Dataspoke
