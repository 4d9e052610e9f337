import Dataspoke.FilterParser
import Dataspoke.FilterTokenizer

/-!
# The parser accepts only sentences

A triple `Holds` for parsers: what is read derives from the grammar, the tokens left still
end with the end of the text, and a failure is a syntax error positioned in the text.
-/

namespace Dataspoke
namespace DatasetFilter
namespace Parser

open Python

/-- Tokens of a text of length `b`, closed by its end. -/
def Live (b : ℕ) (ts : List Token) : Prop :=
  (∃ init last, ts = init ++ [last] ∧ last.kind = .eof ∧ ∀ t ∈ init, t.kind ≠ .eof) ∧
    ∀ t ∈ ts, t.position ≤ b

def Holds {α : Type} (b : ℕ) (p : Parser α) (ts : List Token) (D : List Lexeme → α → Prop) :
    Prop :=
  match p ts with
  | .ok (a,ts') => ∃ us, ts = us ++ ts' ∧ Live b ts' ∧ D (us.map Token.lexeme) a
  | .error (.syntax_error e) => e.position ≤ b
  | .error .index_error => False

section Rules

variable {α β : Type} {b : ℕ} {t : Token} {ts : List Token} {D : List Lexeme → α → Prop}

theorem Live.ne_nil (h : Live b ts) : ts ≠ [] := by
  obtain ⟨⟨init,last,rfl,-,-⟩,-⟩ := h
  simp

theorem Live.exists_cons (h : Live b ts) : ∃ t ts', ts = t::ts' :=
  List.exists_cons_of_ne_nil h.ne_nil

theorem Live.position (h : Live b (t::ts)) : t.position ≤ b := h.2 t (by simp)

theorem Live.tail (h : Live b (t::ts)) (ht : t.kind ≠ .eof) : Live b ts := by
  obtain ⟨⟨init,last,heq,hlast,hinit⟩,hpos⟩ := h
  cases init with
  | nil =>
    obtain ⟨rfl,-⟩ := by simpa using heq
    exact absurd hlast ht
  | cons u init =>
    obtain ⟨rfl,rfl⟩ := by simpa using heq
    exact ⟨⟨init,last,rfl,hlast,fun u hu => hinit u (by simp [hu])⟩,
      fun u hu => hpos u (by simp [hu])⟩

theorem Live.eq_nil (h : Live b (t::ts)) (ht : t.kind = .eof) : ts = [] := by
  obtain ⟨⟨init,last,heq,-,hinit⟩,-⟩ := h
  cases init with
  | nil => simp_all
  | cons u init =>
    obtain ⟨rfl,-⟩ := by simpa using heq
    exact absurd ht (hinit t (by simp))

theorem Holds.mono {p : Parser α} {D' : List Lexeme → α → Prop} (h : Holds b p ts D)
    (hD : ∀ ls a, D ls a → D' ls a) : Holds b p ts D' := by
  unfold Holds at h ⊢
  split
  · rename_i heq
    rw [heq] at h
    obtain ⟨us,hus,hlive,hd⟩ := h
    exact ⟨us,hus,hlive,hD _ _ hd⟩
  · rename_i heq
    rwa [heq] at h
  · rename_i heq
    rwa [heq] at h

theorem Holds.pure (hl : Live b ts) {a : α} (hD : D [] a) :
    Holds b (pure a : Parser α) ts D :=
  ⟨[],rfl,hl,hD⟩

theorem Holds.raise {message : List Piece} {position : ℕ}
    (hp : position ≤ b) : Holds b (raise message position) ts D := hp

theorem Holds.bind {p : Parser β} {f : β → Parser α} {E : List Lexeme → β → Prop}
    (hp : Holds b p ts E)
    (hf : ∀ us a ts', ts = us ++ ts' → Live b ts' → E (us.map Token.lexeme) a →
      Holds b (f a) ts' fun ls => D (us.map Token.lexeme ++ ls)) :
    Holds b (p >>= f) ts D := by
  unfold Holds at hp
  have hrun : (p >>= f) ts = (p ts).bind fun r => f r.1 r.2 := rfl
  unfold Holds
  rw [hrun]
  split at hp
  · rename_i a ts' heq
    obtain ⟨us,hus,hlive,he⟩ := hp
    have h := hf us a ts' hus hlive he
    unfold Holds at h
    rw [heq]
    simp only [Except.bind]
    split at h
    · obtain ⟨vs,hvs,hlive',hd⟩ := h
      exact ⟨us ++ vs,by simp [hus,hvs],hlive',by simpa using hd⟩
    · exact h
    · exact h.elim
  · rename_i heq
    rwa [heq]
  · exact hp.elim

theorem Holds.peek {f : Token → Parser α} (h : Holds b (f t) (t::ts) D) :
    Holds b (Parser.peek >>= f) (t::ts) D := h

theorem Holds.at_keyword {keyword : String} {f : Bool → Parser α}
    (h : Holds b (f (isKeyword keyword t)) (t::ts) D) :
    Holds b (at_keyword keyword >>= f) (t::ts) D := h

theorem Holds.next {f : Token → Parser α}
    (h : Holds b (f t) ts fun ls => D (t.lexeme::ls)) :
    Holds b (Parser.next >>= f) (t::ts) D := by
  have hrun : (Parser.next >>= f) (t::ts) = f t ts := rfl
  unfold Holds at h ⊢
  rw [hrun]
  split at h
  · obtain ⟨us,rfl,hlive,hd⟩ := h
    exact ⟨t::us,rfl,hlive,hd⟩
  · exact h
  · exact h.elim

theorem Holds.expect {kind : Kind} {what : String} {f : Token → Parser α}
    (hk : kind ≠ .eof) (hl : Live b ts)
    (h : ∀ t ts', t.kind = kind → t.position ≤ b → Live b ts' →
      Holds b (f t) ts' fun ls => D (t.lexeme::ls)) :
    Holds b (expect kind what >>= f) ts D := by
  obtain ⟨t,ts',rfl⟩ := hl.exists_cons
  by_cases ht : t.kind = kind
  · have hrun : (expect kind what >>= f) (t::ts') = (Parser.next >>= f) (t::ts') := by
      simp [Parser.expect,ht,Parser.peek,Bind.bind,StateT.bind,Except.bind]
    have := Holds.next (D:=D) (h t ts' ht hl.position (hl.tail (ht ▸ hk)))
    unfold Holds at this ⊢
    rwa [hrun]
  · have hrun : (expect kind what >>= f) (t::ts') =
        (Parser.raise (α:=α) [.text "expected ",.text what] t.position) (t::ts') := by
      simp [Parser.expect,ht,Parser.peek,Parser.raise,Bind.bind,StateT.bind,Except.bind]
    unfold Holds
    rw [hrun]
    exact hl.position

/-- What the rounds of a loop read, one after another. -/
inductive Rounds (R : α → List Lexeme → α → Prop) : α → List Lexeme → α → Prop
  | done {a : α} : Rounds R a [] a
  | round {a a' a'' : α} {ls ls' : List Lexeme} :
      R a ls a' → Rounds R a' ls' a'' → Rounds R a (ls ++ ls') a''

theorem Holds.loopFrom {cond : Token → Bool} {body : α → Parser α}
    {R : α → List Lexeme → α → Prop} (hR : ∀ a a', ¬ R a [] a')
    (hbody : ∀ a t ts, Live b (t::ts) → cond t = true → Holds b (body a) (t::ts) (R a))
    (fuel : ℕ) (a : α) (ts : List Token) (hf : ts.length ≤ fuel) (hl : Live b ts) :
    Holds b (loopFrom cond body fuel a) ts (Rounds R a) := by
  induction fuel generalizing a ts with
  | zero => exact absurd (List.length_eq_zero_iff.mp (Nat.le_zero.mp hf)) hl.ne_nil
  | succ fuel ih =>
    obtain ⟨t,ts',rfl⟩ := hl.exists_cons
    unfold Parser.loopFrom
    refine Holds.peek ?_
    by_cases hc : cond t = true
    · rw [if_pos hc]
      refine Holds.bind (hbody a t ts' hl hc) fun us a' ts'' hus hl' hr => ?_
      have hne : us ≠ [] := by
        rintro rfl
        exact hR _ _ hr
      have hlen := congrArg List.length hus
      have hpos := List.length_pos_iff.mpr hne
      simp only [List.length_append,List.length_cons] at hlen hf
      exact (ih a' ts'' (by omega) hl').mono fun ls a'' => Rounds.round hr
    · rw [if_neg hc]
      exact Holds.pure hl .done

theorem Holds.loop {cond : Token → Bool} {body : α → Parser α}
    {R : α → List Lexeme → α → Prop} (hR : ∀ a a', ¬ R a [] a')
    (hbody : ∀ a t ts, Live b (t::ts) → cond t = true → Holds b (body a) (t::ts) (R a))
    (a : α) (hl : Live b ts) : Holds b (loop cond body a) ts (Rounds R a) :=
  Holds.loopFrom hR hbody ts.length a ts le_rfl hl

end Rules

variable {b : ℕ} {ts : List Token}

theorem Holds.keyword {α : Type} {D : List Lexeme → α → Prop} {keyword : String} {t : Token}
    {p : Parser α} (hl : Live b (t::ts)) (hk : isKeyword keyword t = true)
    (h : Live b ts → IsWord keyword t.lexeme → Holds b p ts fun ls => D (t.lexeme::ls)) :
    Holds b (Parser.next >>= fun _ => p) (t::ts) D := by
  have hw : IsWord keyword t.lexeme := by
    simpa [isKeyword,IsWord,Token.lexeme] using hk
  exact Holds.next (h (hl.tail (by rw [show t.kind = .ident from hw.1]; decide)) hw)

/-- The commas and strings after the first string of a value list. -/
inductive MoreValues : List Str → List Lexeme → List Str → Prop
  | more {values : List Str} {l : Lexeme} {v : Str} :
      l.1 = .comma → MoreValues values [l,(.string,v)] (values ++ [v])

theorem valueList_of_rounds {values values' : List Str} {ls : List Lexeme}
    (h : Rounds MoreValues values ls values') :
    ∃ more, values' = values ++ more ∧ ∀ (v : Str) (l : Lexeme), l.1 = .rparen →
      ValueList ((.string,v)::ls ++ [l]) (v::more) := by
  induction h with
  | done => exact ⟨[],by simp,fun v l hl => .last hl⟩
  | round hr _ ih =>
    obtain ⟨more,rfl,ih⟩ := ih
    cases hr with
    | more hc => exact ⟨_::more,by simp,fun v l hl => .cons hc (ih _ l hl)⟩

theorem parse_value_list_holds (hl : Live b ts) :
    Holds b parse_value_list ts fun ls vs =>
      ∃ paren ls', ls = paren::ls' ∧ paren.1 = .lparen ∧ ValueList ls' vs := by
  refine Holds.expect (by decide) hl fun paren ts hparen _ hl => ?_
  refine Holds.expect (by decide) hl fun first ts hfirst _ hl => ?_
  refine Holds.bind (Holds.loop (R:=MoreValues) ?_ ?_ _ hl) fun us values ts _ hl hr => ?_
  · rintro _ _ ⟨⟩
  · intro values t ts hl hc
    have hc : t.kind = .comma := by simpa [isKind] using hc
    refine Holds.next (Holds.expect (by decide) (hl.tail (by rw [hc]; decide))
      fun token ts htoken _ hl => Holds.pure hl ?_)
    have : token.lexeme = (.string,token.value) := by rw [Token.lexeme,htoken]
    rw [this]
    exact .more hc
  · refine Holds.expect (by decide) hl fun close ts hclose _ hl => Holds.pure hl ?_
    obtain ⟨more,rfl,h⟩ := valueList_of_rounds hr
    refine ⟨_,_,rfl,hparen,?_⟩
    have : first.lexeme = (.string,first.value) := by rw [Token.lexeme,hfirst]
    rw [this]
    exact h _ _ hclose

theorem parse_bool_predicate_holds (hl : Live b ts) (column : BoolColumn) :
    Holds b (parse_bool_predicate column) ts fun ls n =>
      ∀ col, IsBool col column → Predicate (col::ls) n := by
  obtain ⟨op,ts,rfl⟩ := hl.exists_cons
  refine Holds.peek ?_
  split
  · exact Holds.raise hl.position
  rename_i hop
  have hop : op.kind = .eq := not_not.mp hop
  have hl' := hl.tail (by rw [hop]; decide)
  refine Holds.next ?_
  obtain ⟨lit,ts,rfl⟩ := hl'.exists_cons
  refine Holds.peek ?_
  split
  · exact Holds.raise hl'.position
  split
  · exact Holds.raise hl'.position
  rename_i _ hlit
  have hlit : lit.kind = .ident := not_not.mp hlit
  split
  · exact Holds.raise hl'.position
  · rename_i value hvalue
    refine Holds.next (Holds.pure (hl'.tail (by rw [hlit]; decide)) fun col hcol => ?_)
    exact .bool_equals hcol hop hlit (mem_of_get? hvalue)

theorem parse_scalar_predicate_holds (hl : Live b ts) (column : ScalarColumn) :
    Holds b (parse_scalar_predicate column) ts fun ls n =>
      ∀ col, IsScalar col column → Predicate (col::ls) n := by
  obtain ⟨op,ts,rfl⟩ := hl.exists_cons
  refine Holds.peek ?_
  split
  · rename_i hop
    refine Holds.next (Holds.expect (by decide) (hl.tail (by rw [hop]; decide))
      fun v ts hv _ hl => Holds.pure hl fun col hcol => ?_)
    rw [show v.lexeme = (.string,v.value) by rw [Token.lexeme,hv]]
    exact .equals hcol hop
  split
  · rename_i hop
    refine Holds.next (Holds.expect (by decide) (hl.tail (by rw [hop]; decide))
      fun v ts hv _ hl => Holds.pure hl fun col hcol => ?_)
    rw [show v.lexeme = (.string,v.value) by rw [Token.lexeme,hv]]
    exact .not_equals hcol hop
  refine Holds.at_keyword ?_
  split
  · rename_i hin
    refine Holds.keyword hl hin fun hl hin => ?_
    refine Holds.bind (parse_value_list_holds hl) fun us vs ts _ hl h => Holds.pure hl ?_
    rintro col hcol
    obtain ⟨paren,ls,hls,hparen,hvs⟩ := h
    simpa [hls] using Predicate.in_list hcol hin hparen hvs
  refine Holds.at_keyword ?_
  split
  · rename_i hneg
    refine Holds.keyword hl hneg fun hl hneg => ?_
    obtain ⟨kw,ts,rfl⟩ := hl.exists_cons
    refine Holds.at_keyword ?_
    split
    · exact Holds.peek (Holds.raise hl.position)
    rename_i hin
    refine Holds.keyword hl (by simpa using hin) fun hl hin => ?_
    refine Holds.bind (parse_value_list_holds hl) fun us vs ts _ hl h => Holds.pure hl ?_
    rintro col hcol
    obtain ⟨paren,ls,hls,hparen,hvs⟩ := h
    simpa [hls] using Predicate.not_in_list hcol hneg hin hparen hvs
  · exact Holds.raise hl.position

theorem parse_array_column_holds (hl : Live b ts) (value : Str) (negated : Bool) :
    Holds b (parse_array_column value negated) ts fun ls n =>
      ∃ kw col c, ls = [kw,col] ∧ IsWord "in" kw ∧ IsArray col c ∧
        n = if negated then .ArrayNotContains c value else .ArrayContains c value := by
  obtain ⟨kw,ts,rfl⟩ := hl.exists_cons
  refine Holds.at_keyword ?_
  split
  · exact Holds.peek (Holds.raise hl.position)
  rename_i hin
  refine Holds.keyword hl (by simpa using hin) fun hl hin => ?_
  refine Holds.expect (by decide) hl fun col ts hcol hp hl => ?_
  dsimp only
  split
  · rename_i c hc
    exact Holds.pure hl ⟨kw.lexeme,col.lexeme,c,rfl,hin,⟨hcol,mem_of_get? hc⟩,rfl⟩
  · repeat' split
    all_goals exact Holds.raise hp

theorem parse_array_predicate_holds {t : Token} (hl : Live b (t::ts)) (ht : t.kind = .string) :
    Holds b parse_array_predicate (t::ts) Predicate := by
  refine Holds.next ?_
  have hl' := hl.tail (by rw [ht]; decide)
  rw [show t.lexeme = (.string,t.value) by rw [Token.lexeme,ht]]
  obtain ⟨t',ts,rfl⟩ := hl'.exists_cons
  refine Holds.at_keyword ?_
  split
  · rename_i hneg
    refine Holds.keyword hl' hneg fun hl hneg => ?_
    refine (parse_array_column_holds hl t.value true).mono ?_
    rintro _ _ ⟨kw,col,c,rfl,hin,hcol,rfl⟩
    exact .array_not_contains hneg hin hcol
  · refine (parse_array_column_holds hl' t.value false).mono ?_
    rintro _ _ ⟨kw,col,c,rfl,hin,hcol,rfl⟩
    exact .array_contains hin hcol

theorem parse_predicate_holds (hl : Live b ts) : Holds b parse_predicate ts Predicate := by
  obtain ⟨t,ts,rfl⟩ := hl.exists_cons
  refine Holds.peek ?_
  split
  · exact parse_array_predicate_holds hl ‹_›
  split
  · rename_i _ ht
    refine Holds.next ?_
    have hl' := hl.tail (by rw [ht]; decide)
    dsimp only
    split
    · rename_i c hc
      exact (parse_bool_predicate_holds hl' c).mono fun ls n h => h _ ⟨ht,mem_of_get? hc⟩
    split
    · rename_i c hc
      exact (parse_scalar_predicate_holds hl' c).mono fun ls n h => h _ ⟨ht,mem_of_get? hc⟩
    split <;> exact Holds.raise hl.position
  · exact Holds.raise hl.position

/-- What one round of the loop of `_parse_expr` reads. -/
inductive Operand (depth : ℕ) :
    Option BoolOp × List Node → List Lexeme → Option BoolOp × List Node → Prop
  | operand {state : Option BoolOp × List Node} {op : BoolOp} {l : Lexeme} {ls : List Lexeme}
      {n : Node} : IsOp l op → state.1 = none ∨ state.1 = some op → Term depth ls n →
      Operand depth state (l::ls) (some op,state.2 ++ [n])

theorem operands_of_rounds {depth : ℕ} {state state' : Option BoolOp × List Node}
    {ls : List Lexeme} (h : Rounds (Operand depth) state ls state') :
    (ls = [] ∧ state' = state) ∨
      ∃ op more, (state.1 = none ∨ state.1 = some op) ∧ state' = (some op,state.2 ++ more) ∧
        Operands depth op ls more := by
  induction h with
  | done => exact .inl ⟨rfl,rfl⟩
  | round hr _ ih =>
    refine .inr ?_
    cases hr with | @operand op l ls n hop hstate hterm => ?_
    rcases ih with ⟨rfl,rfl⟩ | ⟨op',more,hop',rfl,hmore⟩
    · exact ⟨op,[n],hstate,rfl,by simpa using Operands.one hop hterm⟩
    · obtain rfl : op = op' := by simpa using hop'
      exact ⟨op,n::more,hstate,by simp,by simpa using Operands.cons hop hterm hmore⟩

theorem parse_operand_holds {depth : ℕ} {term : Parser Node}
    (hterm : ∀ ts, Live b ts → Holds b term ts (Term depth)) {t : Token}
    (state : Option BoolOp × List Node) (hl : Live b (t::ts)) (ht : atOperator t = true) :
    Holds b (parse_operand term state) (t::ts) (Operand depth state) := by
  have hident : t.kind = .ident := by
    simp only [atOperator,isKeyword,Bool.or_eq_true,Bool.and_eq_true,decide_eq_true_eq] at ht
    rcases ht with ht | ht <;> exact ht.1
  refine Holds.next ?_
  have hl' := hl.tail (by rw [hident]; decide)
  have hop : IsOp t.lexeme (if lower t.value = "and".toList then .AND else .OR) := by
    simp only [atOperator,isKeyword,Bool.or_eq_true,Bool.and_eq_true,decide_eq_true_eq] at ht
    split
    · exact ⟨hident,‹_›⟩
    · exact ⟨hident,by tauto⟩
  dsimp only
  generalize (if lower t.value = "and".toList then BoolOp.AND else BoolOp.OR) = op at *
  split
  · rename_i hstate
    refine Holds.bind (hterm ts hl') fun us n ts _ hl hn => Holds.pure hl ?_
    simpa using Operand.operand hop hstate hn
  · exact Holds.raise hl.position

theorem parse_expr_of_holds {depth : ℕ} {term : Parser Node}
    (hterm : ∀ ts, Live b ts → Holds b term ts (Term depth)) (hl : Live b ts) :
    Holds b (parse_expr_of term) ts (Expr depth) := by
  refine Holds.bind (hterm ts hl) fun us n ts _ hl hn => ?_
  have hloop := Holds.loop (R:=Operand depth) (by rintro _ _ ⟨⟩)
    (fun state t ts => parse_operand_holds hterm state) (none,[n]) hl
  refine Holds.bind hloop fun vs state ts _ hl hr => ?_
  rcases operands_of_rounds hr with ⟨hvs,rfl⟩ | ⟨op,more,-,rfl,hmore⟩
  · exact Holds.pure hl (by simpa [hvs] using Expr.term hn)
  · exact Holds.pure hl (by simpa using Expr.chain hn hmore)

theorem parse_term_holds (levels : ℕ) (hl : Live b ts) :
    Holds b (parse_term levels) ts (Term levels) := by
  induction levels generalizing ts with
  | zero =>
    obtain ⟨t,ts,rfl⟩ := hl.exists_cons
    refine Holds.peek ?_
    split
    · exact Holds.raise hl.position
    · exact (parse_predicate_holds hl).mono fun ls n => .predicate
  | succ levels ih =>
    obtain ⟨t,ts,rfl⟩ := hl.exists_cons
    refine Holds.peek ?_
    split
    · rename_i ht
      refine Holds.next ?_
      have hl' := hl.tail (by rw [ht]; decide)
      refine Holds.bind (parse_expr_of_holds (fun ts => ih) hl') fun us n ts _ hl hn => ?_
      refine Holds.expect (by decide) hl fun r ts hr _ hl => Holds.pure hl ?_
      simpa using Term.group (l:=t.lexeme) (r:=r.lexeme) ht hn hr
    · exact (parse_predicate_holds hl).mono fun ls n => .predicate

/-- `parse` reads all the tokens before the closing one, as a sentence. -/
theorem parse_holds (hl : Live b ts) :
    match parse ts with
    | .ok (ast,_) => ∃ us last, ts = us ++ [last] ∧ Filter (us.map Token.lexeme) ast
    | .error (.syntax_error e) => e.position ≤ b
    | .error .index_error => False := by
  obtain ⟨t,ts,rfl⟩ := hl.exists_cons
  by_cases ht : t.kind = .eof
  · obtain rfl := hl.eq_nil ht
    have hrun : parse [t] = .ok (⟨none⟩,[t]) := by
      simp only [parse,peek,bind,StateT.bind,Except.bind,ht,if_true]
      rfl
    rw [hrun]
    exact ⟨[],t,rfl,.empty⟩
  · have hrun : parse (t::ts) = (parse_expr MAX_PAREN_DEPTH (t::ts)).bind fun r =>
        (peek >>= fun trailing => if trailing.kind ≠ .eof then
          raise [.text "expected AND, OR or end of filter"] trailing.position
        else (return ⟨some r.1⟩ : Parser FilterAst)) r.2 := by
      simp only [parse,peek,bind,StateT.bind,Except.bind,ht,if_false]
    have h := parse_expr_of_holds (fun _ => parse_term_holds MAX_PAREN_DEPTH) hl
    unfold Holds at h
    rw [hrun,parse_expr]
    split at h
    · rename_i n ts' heq
      obtain ⟨us,hus,hl',hn⟩ := h
      rw [heq]
      obtain ⟨t',ts',rfl⟩ := hl'.exists_cons
      by_cases ht' : t'.kind = .eof
      · obtain rfl := hl'.eq_nil ht'
        simp only [Except.bind,peek,bind,StateT.bind,ht',ne_eq,not_true,if_false]
        exact ⟨us,t',hus,.expr hn⟩
      · simp only [Except.bind,peek,bind,StateT.bind,ne_eq,ht',not_false_eq_true,if_true]
        exact hl'.position
    · rename_i heq
      rw [heq]
      exact h
    · exact h.elim

end Parser
end DatasetFilter
end Dataspoke
