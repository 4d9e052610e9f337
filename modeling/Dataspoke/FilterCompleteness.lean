import Dataspoke.FilterSoundness

/-! # The parser accepts every sentence, and the two directions put together -/

namespace Dataspoke
namespace DatasetFilter
namespace Parser

open Python

section Runs

variable {α β : Type} {t : Token} {ts ts' : List Token}

theorem bind_run {p : Parser β} {f : β → Parser α} {b : β} (h : p ts = .ok (b,ts')) :
    (p >>= f) ts = f b ts' := by
  simp [bind,StateT.bind,h,Except.bind]

theorem peek_run (f : Token → Parser α) : (peek >>= f) (t::ts) = f t (t::ts) := rfl

theorem next_run (f : Token → Parser α) : (next >>= f) (t::ts) = f t ts := rfl

theorem at_keyword_run (keyword : String) (f : Bool → Parser α) :
    (at_keyword keyword >>= f) (t::ts) = f (isKeyword keyword t) (t::ts) := rfl

theorem pure_run (a : α) : (pure a : Parser α) ts = .ok (a,ts) := rfl

theorem expect_run {kind : Kind} (h : t.kind = kind) (what : String) (f : Token → Parser α) :
    (expect kind what >>= f) (t::ts) = f t ts := by
  simp [expect,h,peek,next,bind,StateT.bind,Except.bind]

theorem loopFrom_done {cond : Token → Bool} {body : α → Parser α} (hc : cond t = false)
    (fuel : ℕ) (a : α) : loopFrom cond body fuel a (t::ts) = .ok (a,t::ts) := by
  unfold loopFrom
  rw [peek_run,hc]
  rfl

theorem loopFrom_round {cond : Token → Bool} {body : α → Parser α} {a a' : α}
    (hc : cond t = true) (hb : body a (t::ts) = .ok (a',ts')) (fuel : ℕ) :
    loopFrom cond body (fuel+1) a (t::ts) = loopFrom cond body fuel a' ts' := by
  have hrun : loopFrom cond body (fuel+1) a (t::ts) =
      (body a >>= loopFrom cond body fuel) (t::ts) := by
    conv_lhs => unfold loopFrom
    rw [peek_run,if_pos hc]
  rw [hrun,bind_run hb]

end Runs

theorem isKeyword_iff {keyword : String} {t : Token} :
    isKeyword keyword t = true ↔ IsWord keyword t.lexeme := by
  simp [isKeyword,IsWord,Token.lexeme]

theorem isKeyword_ne {word keyword : String} {t : Token} (h : IsWord word t.lexeme)
    (hne : word.toList ≠ keyword.toList) : isKeyword keyword t = false := by
  have hw : lower t.value = word.toList := h.2
  simp [isKeyword,hw,hne]

theorem lexeme_eq {t : Token} {k : Kind} {v : Str} (h : t.lexeme = (k,v)) :
    t.kind = k ∧ t.value = v := by
  simpa [Token.lexeme] using h

theorem parse_value_run {c t : Token} (ht : t.kind = .string) (values : List Str)
    (ts : List Token) : parse_value values (c::t::ts) = .ok (values ++ [t.value],ts) := by
  rw [parse_value,next_run,expect_run ht,pure_run]

theorem value_loop_run {ls : List Lexeme} {vs : List Str} (h : ValueList ls vs)
    {us : List Token} (hus : us.map Token.lexeme = ls) :
    ∃ t us' more close, us = t::us' ∧ t.kind = .string ∧ vs = t.value::more ∧
      close.kind = .rparen ∧ ∀ (fuel : ℕ) (values : List Str) (ts : List Token),
        us'.length ≤ fuel → loopFrom (isKind .comma) parse_value fuel values
          (us' ++ ts) = .ok (values ++ more,close::ts) := by
  induction h generalizing us with
  | last hl =>
    obtain ⟨t,_,rfl,ht,hus'⟩ := List.map_eq_cons_iff.mp hus
    obtain ⟨close,_,rfl,rfl,hus''⟩ := List.map_eq_cons_iff.mp hus'
    obtain rfl := List.map_eq_nil_iff.mp hus''
    obtain ⟨hkind,rfl⟩ := lexeme_eq ht
    refine ⟨t,[close],[],close,rfl,hkind,rfl,hl,fun fuel values ts _ => ?_⟩
    have hc : isKind .comma close = false := by
      rw [isKind,show close.kind = .rparen from hl]
      decide
    simpa using loopFrom_done hc fuel values
  | cons hl _ ih =>
    obtain ⟨t,_,rfl,ht,hus'⟩ := List.map_eq_cons_iff.mp hus
    obtain ⟨comma,us,rfl,rfl,hus''⟩ := List.map_eq_cons_iff.mp hus'
    obtain ⟨hkind,rfl⟩ := lexeme_eq ht
    obtain ⟨t',us',more,close,rfl,ht',rfl,hclose,hloop⟩ := ih hus''
    refine ⟨t,comma::t'::us',t'.value::more,close,rfl,hkind,rfl,hclose,fun fuel values ts hf => ?_⟩
    obtain _ | fuel := fuel
    · simp at hf
    have hc : isKind .comma comma = true := decide_eq_true hl
    rw [List.cons_append,List.cons_append,loopFrom_round hc (parse_value_run ht' values _),
      hloop fuel _ ts (by simp at hf; omega)]
    simp

theorem parse_value_list_run {paren : Lexeme} {ls : List Lexeme} {vs : List Str}
    (hp : paren.1 = .lparen) (h : ValueList ls vs) {us : List Token}
    (hus : us.map Token.lexeme = paren::ls) (ts : List Token) :
    parse_value_list (us ++ ts) = .ok (vs,ts) := by
  obtain ⟨t,us,rfl,rfl,hus'⟩ := List.map_eq_cons_iff.mp hus
  obtain ⟨first,us',more,close,rfl,hfirst,rfl,hclose,hloop⟩ := value_loop_run h hus'
  have hloop' : loop (isKind .comma) parse_value [first.value] (us' ++ ts) =
      .ok (first.value::more,close::ts) := hloop _ _ ts (by simp)
  rw [parse_value_list,List.cons_append,expect_run hp,List.cons_append,expect_run hfirst,
    bind_run hloop',expect_run hclose,pure_run]

section Columns

variable {l : Lexeme}

theorem get?_scalar {c : ScalarColumn} (h : IsScalar l c) :
    get? (lower l.2) SCALAR_COLUMNS = some c ∧ get? (lower l.2) BOOL_COLUMNS = none := by
  refine ⟨(get?_eq_some_iff (by decide)).mpr h.2,?_⟩
  have hmem := h.2
  simp only [SCALAR_COLUMNS,List.mem_cons,Prod.mk.injEq,List.not_mem_nil,or_false] at hmem
  rcases hmem with ⟨hw,-⟩ | ⟨hw,-⟩ | ⟨hw,-⟩ <;> rw [hw] <;> rfl

theorem get?_array {c : ArrayColumn} (h : IsArray l c) :
    get? (lower l.2) ARRAY_COLUMNS = some c :=
  (get?_eq_some_iff (by decide)).mpr h.2

theorem get?_bool {c : BoolColumn} (h : IsBool l c) :
    get? (lower l.2) BOOL_COLUMNS = some c :=
  (get?_eq_some_iff (by decide)).mpr h.2

end Columns

theorem parse_bool_predicate_run {op lit : Token} {b : Bool} (hop : op.kind = .eq)
    (hlit : lit.kind = .ident) (hb : (lower lit.value,b) ∈ BOOL_LITERALS)
    (column : BoolColumn) (ts : List Token) :
    parse_bool_predicate column (op::lit::ts) = .ok (.BoolEquals column b,ts) := by
  have hget : get? (lower lit.value) BOOL_LITERALS = some b :=
    (get?_eq_some_iff (by decide)).mpr hb
  rw [parse_bool_predicate,peek_run,if_neg (not_not.mpr hop),next_run,peek_run]
  simp [hlit,hget,next_run,pure_run]

theorem parse_array_column_run {kw col : Token} {c : ArrayColumn} (hin : IsWord "in" kw.lexeme)
    (hcol : IsArray col.lexeme c) (value : Str) (negated : Bool) (ts : List Token) :
    parse_array_column value negated (kw::col::ts) =
      .ok (if negated then .ArrayNotContains c value else .ArrayContains c value,ts) := by
  have hget : get? (lower col.value) ARRAY_COLUMNS = some c := get?_array hcol
  rw [parse_array_column,at_keyword_run,isKeyword_iff.mpr hin]
  simp [next_run,expect_run hcol.1,hget,pure_run]

theorem parse_in_run {kw : Token} {c : ScalarColumn} {paren : Lexeme} {ls : List Lexeme}
    {vs : List Str} (hin : IsWord "in" kw.lexeme) (hp : paren.1 = .lparen)
    (hvs : ValueList ls vs) {us : List Token} (hus : us.map Token.lexeme = paren::ls)
    (ts : List Token) :
    parse_scalar_predicate c (kw::us ++ ts) = .ok (.InList c vs,ts) := by
  have hk : kw.kind = .ident := hin.1
  rw [parse_scalar_predicate,List.cons_append,peek_run,if_neg (by simp [hk]),
    if_neg (by simp [hk]),at_keyword_run,if_pos (isKeyword_iff.mpr hin),next_run,
    bind_run (parse_value_list_run hp hvs hus ts),pure_run]

theorem parse_not_in_run {neg kw : Token} {c : ScalarColumn} {paren : Lexeme}
    {ls : List Lexeme} {vs : List Str} (hneg : IsWord "not" neg.lexeme)
    (hin : IsWord "in" kw.lexeme) (hp : paren.1 = .lparen) (hvs : ValueList ls vs)
    {us : List Token} (hus : us.map Token.lexeme = paren::ls) (ts : List Token) :
    parse_scalar_predicate c (neg::kw::us ++ ts) = .ok (.NotInList c vs,ts) := by
  have hk : neg.kind = .ident := hneg.1
  have hn : isKeyword "in" neg = false := isKeyword_ne hneg (by decide)
  rw [parse_scalar_predicate,List.cons_append,peek_run,if_neg (by simp [hk]),
    if_neg (by simp [hk]),at_keyword_run,if_neg (by simp [hn]),at_keyword_run,
    if_pos (isKeyword_iff.mpr hneg),next_run,List.cons_append,at_keyword_run,
    if_neg (by simp [isKeyword_iff.mpr hin]),next_run,
    bind_run (parse_value_list_run hp hvs hus ts),pure_run]

/-- A predicate of a scalar column, once its name is read. -/
theorem parse_predicate_scalar {col : Token} {c : ScalarColumn} (hcol : IsScalar col.lexeme c)
    (ts : List Token) : parse_predicate (col::ts) = parse_scalar_predicate c ts := by
  obtain ⟨hs,hb⟩ := get?_scalar hcol
  have hk : col.kind = .ident := hcol.1
  simp only [Token.lexeme] at hs hb
  rw [parse_predicate,peek_run,if_neg (by simp [hk]),if_pos hk,next_run]
  simp only [hs,hb]

theorem parse_predicate_run {ls : List Lexeme} {n : Node} (h : Predicate ls n)
    {us : List Token} (hus : us.map Token.lexeme = ls) (ts : List Token) :
    parse_predicate (us ++ ts) = .ok (n,ts) := by
  cases h with
  | equals hcol hop =>
    simp only [List.map_eq_cons_iff,List.map_eq_nil_iff] at hus
    obtain ⟨col,_,rfl,rfl,op,_,rfl,rfl,v,_,rfl,hv,rfl⟩ := hus
    obtain ⟨hkind,rfl⟩ := lexeme_eq hv
    have hop : op.kind = .eq := hop
    rw [List.cons_append,parse_predicate_scalar hcol,parse_scalar_predicate,List.cons_append,
      peek_run,if_pos hop,next_run]
    exact expect_run hkind _ _
  | not_equals hcol hop =>
    simp only [List.map_eq_cons_iff,List.map_eq_nil_iff] at hus
    obtain ⟨col,_,rfl,rfl,op,_,rfl,rfl,v,_,rfl,hv,rfl⟩ := hus
    obtain ⟨hkind,rfl⟩ := lexeme_eq hv
    have hop : op.kind = .neq := hop
    have hne : op.kind ≠ .eq := by
      rw [hop]
      decide
    rw [List.cons_append,parse_predicate_scalar hcol,parse_scalar_predicate,List.cons_append,
      peek_run,if_neg hne,if_pos hop,next_run]
    exact expect_run hkind _ _
  | in_list hcol hin hparen hvs =>
    obtain ⟨col,_,rfl,rfl,hus'⟩ := List.map_eq_cons_iff.mp hus
    obtain ⟨kw,us,rfl,rfl,hus''⟩ := List.map_eq_cons_iff.mp hus'
    exact (parse_predicate_scalar hcol _).trans (parse_in_run hin hparen hvs hus'' ts)
  | not_in_list hcol hneg hin hparen hvs =>
    obtain ⟨col,_,rfl,rfl,hus₁⟩ := List.map_eq_cons_iff.mp hus
    obtain ⟨neg,_,rfl,rfl,hus₂⟩ := List.map_eq_cons_iff.mp hus₁
    obtain ⟨kw,us,rfl,rfl,hus₃⟩ := List.map_eq_cons_iff.mp hus₂
    exact (parse_predicate_scalar hcol _).trans (parse_not_in_run hneg hin hparen hvs hus₃ ts)
  | array_contains hin hcol =>
    simp only [List.map_eq_cons_iff,List.map_eq_nil_iff] at hus
    obtain ⟨v,_,rfl,hv,kw,_,rfl,rfl,col,_,rfl,rfl,rfl⟩ := hus
    obtain ⟨hkind,rfl⟩ := lexeme_eq hv
    have hn : isKeyword "not" kw = false := isKeyword_ne hin (by decide)
    rw [parse_predicate,List.cons_append,peek_run,if_pos hkind,parse_array_predicate,next_run,
      List.cons_append,at_keyword_run,if_neg (by simp [hn])]
    exact parse_array_column_run hin hcol v.value false ts
  | array_not_contains hneg hin hcol =>
    simp only [List.map_eq_cons_iff,List.map_eq_nil_iff] at hus
    obtain ⟨v,_,rfl,hv,neg,_,rfl,rfl,kw,_,rfl,rfl,col,_,rfl,rfl,rfl⟩ := hus
    obtain ⟨hkind,rfl⟩ := lexeme_eq hv
    rw [parse_predicate,List.cons_append,peek_run,if_pos hkind,parse_array_predicate,next_run,
      List.cons_append,at_keyword_run,if_pos (isKeyword_iff.mpr hneg),next_run]
    exact parse_array_column_run hin hcol v.value true ts
  | bool_equals hcol hop hlit hb =>
    simp only [List.map_eq_cons_iff,List.map_eq_nil_iff] at hus
    obtain ⟨col,_,rfl,rfl,op,_,rfl,rfl,lit,_,rfl,rfl,rfl⟩ := hus
    have hget := get?_bool hcol
    have hk : col.kind = .ident := hcol.1
    simp only [Token.lexeme] at hget
    rw [parse_predicate,List.cons_append,peek_run,if_neg (by simp [hk]),if_pos hk,next_run]
    simp only [hget]
    exact parse_bool_predicate_run hop hlit hb _ ts

/-- `p` reads any tokens whose lexemes derive a node, whatever follows them. -/
def Complete (p : Parser Node) (D : List Lexeme → Node → Prop) : Prop :=
  ∀ {ls n}, D ls n → ∀ {us}, us.map Token.lexeme = ls → ∀ ts, p (us ++ ts) = .ok (n,ts)

theorem atOperator_iff {t : Token} : atOperator t = true ↔ ∃ op, IsOp t.lexeme op := by
  simp only [atOperator,Bool.or_eq_true,isKeyword_iff]
  constructor
  · rintro (h | h)
    · exact ⟨.AND,h⟩
    · exact ⟨.OR,h⟩
  · rintro ⟨_ | _,h⟩
    · exact .inl h
    · exact .inr h

theorem keyword_of_isOp {t : Token} {op : BoolOp} (h : IsOp t.lexeme op) :
    (if lower t.value = "and".toList then BoolOp.AND else BoolOp.OR) = op := by
  cases op with
  | AND => exact if_pos h.2
  | OR =>
    have hw : lower t.value = "or".toList := h.2
    rw [hw]
    rfl

theorem parse_operand_run {term : Parser Node} {t : Token} {ts ts' : List Token} {n : Node}
    {op : BoolOp} {state : Option BoolOp × List Node} (hop : IsOp t.lexeme op)
    (hstate : state.1 = none ∨ state.1 = some op) (hn : term ts = .ok (n,ts')) :
    parse_operand term state (t::ts) = .ok ((some op,state.2 ++ [n]),ts') := by
  rw [parse_operand,next_run]
  simp only [keyword_of_isOp hop,if_pos hstate]
  rw [bind_run hn,pure_run]

section Levels

variable {depth : ℕ} {term : Parser Node} (hterm : Complete term (Term depth))
include hterm

theorem operands_run {op : BoolOp} :
    ∀ {ls : List Lexeme} {ns : List Node}, Operands depth op ls ns →
    ∀ {us : List Token}, us.map Token.lexeme = ls → ∀ (fuel : ℕ)
      (state : Option BoolOp × List Node) {t : Token} {ts : List Token},
      atOperator t = false → state.1 = none ∨ state.1 = some op → us.length ≤ fuel →
      loopFrom atOperator (parse_operand term) fuel state (us ++ t::ts) =
        .ok ((some op,state.2 ++ ns),t::ts)
  | _, _, .one hop hn, us, hus, fuel, state, t, ts, ht, hstate, hf => by
    obtain ⟨o,us,rfl,rfl,hus'⟩ := List.map_eq_cons_iff.mp hus
    obtain _ | fuel := fuel
    · simp at hf
    have hround := parse_operand_run hop hstate (hterm hn hus' (t::ts))
    rw [List.cons_append,loopFrom_round (atOperator_iff.mpr ⟨op,hop⟩) hround]
    exact loopFrom_done ht fuel _
  | _, _, .cons hop hn hns, us, hus, fuel, state, t, ts, ht, hstate, hf => by
    obtain ⟨o,us,rfl,rfl,hus'⟩ := List.map_eq_cons_iff.mp hus
    obtain ⟨us₁,us₂,rfl,h₁,h₂⟩ := List.map_eq_append_iff.mp hus'
    obtain _ | fuel := fuel
    · simp at hf
    have hround := parse_operand_run hop hstate (hterm hn h₁ (us₂ ++ t::ts))
    rw [List.cons_append,List.append_assoc,
      loopFrom_round (atOperator_iff.mpr ⟨op,hop⟩) hround,
      operands_run hns h₂ fuel _ ht (.inr rfl) (by simp at hf; omega)]
    simp

/-- An expression is read up to a token that continues it no further. -/
theorem parse_expr_of_run {ls : List Lexeme} {n : Node} (h : Expr depth ls n)
    {us : List Token} (hus : us.map Token.lexeme = ls) {t : Token} (ts : List Token)
    (ht : atOperator t = false) : parse_expr_of term (us ++ t::ts) = .ok (n,t::ts) := by
  cases h with
  | term hn =>
    have hloop : loop atOperator (parse_operand term) (none,[n]) (t::ts) =
        .ok ((none,[n]),t::ts) := loopFrom_done ht _ _
    rw [parse_expr_of,bind_run (hterm hn hus _),bind_run hloop]
    rfl
  | @chain _ op ls₁ ls₂ n ns hn hns =>
    obtain ⟨us₁,us₂,rfl,h₁,h₂⟩ := List.map_eq_append_iff.mp hus
    have hloop : loop atOperator (parse_operand term) (none,[n]) (us₂ ++ t::ts) =
        .ok ((some op,n::ns),t::ts) :=
      operands_run hterm hns h₂ _ _ ht (.inl rfl) (by simp)
    rw [parse_expr_of,List.append_assoc,bind_run (hterm hn h₁ _),bind_run hloop]
    rfl

end Levels

theorem predicate_head {ls : List Lexeme} {n : Node} (h : Predicate ls n) :
    ∃ l ls', ls = l::ls' ∧ l.1 ≠ .lparen ∧ l.1 ≠ .eof := by
  cases h with
  | equals hcol | not_equals hcol | in_list hcol | not_in_list hcol | bool_equals hcol =>
    exact ⟨_,_,rfl,by rw [hcol.1]; decide,by rw [hcol.1]; decide⟩
  | array_contains | array_not_contains => exact ⟨_,_,rfl,nofun,nofun⟩

theorem parse_term_complete (levels : ℕ) : Complete (parse_term levels) (Term levels) := by
  have hpred : ∀ {levels ls n}, Predicate ls n → ∀ {us : List Token},
      us.map Token.lexeme = ls → ∀ ts, parse_term levels (us ++ ts) = .ok (n,ts) := by
    intro levels ls n h us hus ts
    obtain ⟨l,ls,rfl,hl,-⟩ := predicate_head h
    obtain ⟨t,us,rfl,rfl,-⟩ := List.map_eq_cons_iff.mp hus
    have hl : t.kind ≠ .lparen := hl
    rw [← parse_predicate_run h hus ts]
    cases levels <;> rw [parse_term,List.cons_append,peek_run,if_neg hl]
  induction levels with
  | zero =>
    intro ls n h us hus ts
    cases h with
    | predicate h => exact hpred h hus ts
  | succ levels ih =>
    intro ls n h us hus ts
    cases h with
    | predicate h => exact hpred h hus ts
    | group hl he hr =>
      obtain ⟨l,_,rfl,rfl,hus'⟩ := List.map_eq_cons_iff.mp hus
      obtain ⟨us₁,_,rfl,h₁,h₂⟩ := List.map_eq_append_iff.mp hus'
      obtain ⟨r,_,rfl,rfl,h₃⟩ := List.map_eq_cons_iff.mp h₂
      obtain rfl := List.map_eq_nil_iff.mp h₃
      have hl : l.kind = .lparen := hl
      have hr : r.kind = .rparen := hr
      have hstop : atOperator r = false := by simp [atOperator,isKeyword,hr]
      rw [parse_term,List.cons_append,peek_run,if_pos hl,next_run,List.append_assoc,
        List.cons_append,bind_run (parse_expr_of_run ih he h₁ _ hstop),expect_run hr,pure_run]
      rfl

theorem expr_head {depth : ℕ} {ls : List Lexeme} {n : Node} (h : Expr depth ls n) :
    ∃ l ls', ls = l::ls' ∧ l.1 ≠ .eof := by
  have hterm : ∀ {ls n}, Term depth ls n → ∃ l ls', ls = l::ls' ∧ l.1 ≠ .eof := by
    intro ls n h
    cases h with
    | predicate h =>
      obtain ⟨l,ls',rfl,-,hl⟩ := predicate_head h
      exact ⟨l,ls',rfl,hl⟩
    | group hl => exact ⟨_,_,rfl,by rw [hl]; decide⟩
  cases h with
  | term h => exact hterm h
  | chain h _ =>
    obtain ⟨l,ls',rfl,hl⟩ := hterm h
    exact ⟨l,_,rfl,hl⟩

theorem parse_run {ls : List Lexeme} {ast : FilterAst} (h : Filter ls ast) {us : List Token}
    (hus : us.map Token.lexeme = ls) {last : Token} (hlast : last.kind = .eof) :
    parse (us ++ [last]) = .ok (ast,[last]) := by
  cases h with
  | empty =>
    obtain rfl := List.map_eq_nil_iff.mp hus
    rw [parse,List.nil_append,peek_run,if_pos hlast,pure_run]
  | expr h =>
    have hstop : atOperator last = false := by simp [atOperator,isKeyword,hlast]
    have hexpr := parse_expr_of_run (parse_term_complete MAX_PAREN_DEPTH) h hus [] hstop
    obtain ⟨l,ls,rfl,hl⟩ := expr_head h
    obtain ⟨t,us,rfl,rfl,-⟩ := List.map_eq_cons_iff.mp hus
    have hl : t.kind ≠ .eof := hl
    rw [parse,List.cons_append,peek_run,if_neg hl,parse_expr,← List.cons_append,
      bind_run hexpr,peek_run,if_neg (not_not.mpr hlast),pure_run]

end Parser

open Python Dataspoke.DatasetFilter.Parser

theorem lexes_ne_eof {text : Str} {ls : List Lexeme} (h : Lexes text ls) :
    ∀ l ∈ ls, l.1 ≠ .eof := by
  induction h with
  | nil => simp
  | space _ _ ih => exact ih
  | punct hk _ ih =>
    refine List.forall_mem_cons.mpr ⟨?_,ih⟩
    unfold punctuation at hk
    split at hk
    all_goals cases hk <;> decide
  | neq _ ih | string _ _ ih | ident _ _ _ ih => exact List.forall_mem_cons.mpr ⟨nofun,ih⟩

/-- The tokens of a text, but for the closing one, and their lexemes. -/
theorem tokenize_live {text : Str} {toks : List Token} (h : tokenize text = .ok toks) :
    ∃ us last, toks = us ++ [last] ∧ last.kind = .eof ∧ Live text.length toks ∧
      Lexes text (us.map Token.lexeme) ∧
      (us.map Token.lexeme).countP isString ≤ MAX_STRING_LITERALS := by
  obtain ⟨⟨ls,hlex,hmap,hcount⟩,hpos⟩ := tokenizeFrom_sound h (Nat.zero_le _)
  obtain ⟨us,_,rfl,rfl,htail⟩ := List.map_eq_append_iff.mp hmap
  obtain ⟨last,_,rfl,hlast,hnil⟩ := List.map_eq_cons_iff.mp htail
  obtain rfl := List.map_eq_nil_iff.mp hnil
  have hkind : last.kind = .eof := (lexeme_eq hlast).1
  refine ⟨us,last,rfl,hkind,⟨⟨us,last,rfl,hkind,fun t ht => ?_⟩,by simpa using hpos⟩,hlex,
    by simpa using hcount⟩
  exact lexes_ne_eof hlex _ (List.mem_map_of_mem ht)

/-- What a parser that reads live tokens makes of a text within the cap. -/
theorem parse_toks {text : Str} {toks : List Token} (htoks : tokenize text = .ok toks)
    (hcap : text.length ≤ MAX_FILTER_CHARS) (ast : FilterAst) :
    (parse toks).map Prod.fst = .ok ast ↔ Sentence text ast := by
  obtain ⟨us,last,rfl,hlast,hlive,hlex,hcount⟩ := tokenize_live htoks
  constructor
  · intro h
    have hparse := parse_holds hlive
    obtain ⟨⟨_,ts⟩,hp,rfl⟩ := map_eq_ok.mp h
    rw [hp] at hparse
    obtain ⟨us',last',heq,hfilter⟩ := hparse
    obtain ⟨rfl,-⟩ := List.append_inj' heq rfl
    exact ⟨hcap,_,hlex,hcount,hfilter⟩
  · rintro ⟨-,ls,hlex',hcount',hfilter⟩
    obtain ⟨toks',htoks',hmap⟩ := tokenize_ok_iff.mp ⟨hlex',hcount'⟩
    obtain rfl := Except.ok.inj (htoks.symm.trans htoks')
    rw [List.map_append] at hmap
    obtain ⟨hus,-⟩ := List.append_inj' hmap rfl
    rw [parse_run hfilter hus hlast]
    rfl

theorem parse_filter_ok_iff (text : Option Str) (ast : FilterAst) :
    parse_filter text = .ok ast ↔ Sentence (text.getD []) ast := by
  unfold parse_filter
  generalize text.getD [] = text
  dsimp only
  by_cases hcap : text.length > MAX_FILTER_CHARS
  · rw [if_pos hcap]
    exact ⟨nofun,fun h => absurd h.1 (Nat.not_le.mpr hcap)⟩
  rw [if_neg hcap]
  split
  · rename_i e he
    refine ⟨nofun,?_⟩
    rintro ⟨-,ls,hlex,hcount,-⟩
    obtain ⟨toks,htoks,-⟩ := tokenize_ok_iff.mp ⟨hlex,hcount⟩
    cases he.symm.trans htoks
  · exact parse_toks ‹_› (Nat.le_of_not_gt hcap) ast

/-- `parse_filter` accepts the sentences of the grammar with their AST, and refuses every
other text with a syntax error positioned in it. -/
theorem parse_filter_correct (text : Option Str) :
    (∀ ast, parse_filter text = .ok ast ↔ Sentence (text.getD []) ast) ∧
    ∀ e, parse_filter text = .error e →
      ∃ s, e = .syntax_error s ∧ s.position ≤ (text.getD []).length := by
  refine ⟨parse_filter_ok_iff text,?_⟩
  unfold parse_filter
  generalize text.getD [] = text
  dsimp only
  by_cases hcap : text.length > MAX_FILTER_CHARS
  · rw [if_pos hcap]
    rintro _ ⟨⟩
    exact ⟨_,rfl,hcap.le⟩
  rw [if_neg hcap]
  split
  · rename_i e he
    rintro _ ⟨⟩
    exact ⟨e,rfl,tokenize_error he⟩
  · rename_i toks htoks
    intro e h
    obtain ⟨us,last,rfl,-,hlive,-,-⟩ := tokenize_live htoks
    have hparse := parse_holds hlive
    rw [map_eq_error.mp h] at hparse
    cases e with
    | syntax_error s => exact ⟨s,rfl,hparse⟩
    | index_error => exact hparse.elim

end DatasetFilter
end Dataspoke
