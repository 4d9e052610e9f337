import Dataspoke.FilterCompleteness

/-!
# The canonical form of a filter

`format_filter` and the lexemes that it writes, each with the whitespace before it. Its text
is a sentence with the AST that it was made from.
-/

namespace Dataspoke
namespace DatasetFilter

open Python

def INDENT : Str := [' ',' ',' ',' ']

def pad (indent : ℕ) : Str := (List.replicate indent INDENT).flatten

/-- The name that the parser gives the column. -/
def ScalarColumn.text : ScalarColumn → Str
  | .dataset_urn => "dataset_urn".toList
  | .origin => "origin".toList
  | .platform_urn => "platform_urn".toList

def ArrayColumn.text : ArrayColumn → Str
  | .tag_urns => "tag_urns".toList
  | .glossary_term_urns => "glossary_term_urns".toList

def BoolColumn.text : BoolColumn → Str
  | .is_primary => "is_primary".toList

def BoolOp.text : BoolOp → Str
  | .AND => ['A','N','D']
  | .OR => ['O','R']

def boolText : Bool → Str
  | true => "true".toList
  | false => "false".toList

/-- `value.replace("'", "''")` between quotes. -/
def quote (value : Str) : Str :=
  '\'' :: value.flatMap (fun c => if c = '\'' then ['\'','\''] else [c]) ++ ['\'']

/-- `", ".join(_quote(value) for value in values)`. -/
def quoteAll (values : List Str) : Str := [',',' '].intercalate (values.map quote)

/-- A `BoolNode` is no predicate; the `AssertionError` is out of reach. -/
def format_predicate : Node → Str
  | .Equals column value => column.text ++ [' ','=',' '] ++ quote value
  | .NotEquals column value => column.text ++ [' ','!','=',' '] ++ quote value
  | .InList column values => column.text ++ [' ','I','N',' ','('] ++ quoteAll values ++ [')']
  | .NotInList column values =>
    column.text ++ [' ','N','O','T',' ','I','N',' ','('] ++ quoteAll values ++ [')']
  | .ArrayContains column value => quote value ++ [' ','I','N',' '] ++ column.text
  | .ArrayNotContains column value =>
    quote value ++ [' ','N','O','T',' ','I','N',' '] ++ column.text
  | .BoolEquals column value => column.text ++ [' ','=',' '] ++ boolText value
  | .BoolNode _ _ => []

mutual

/-- The body of a group is `_format_node` of it, one level in. -/
def format_operand (indent : ℕ) : Node → Str
  | .BoolNode op children =>
    ['(','\n'] ++ ['\n'].intercalate (format_lines op (indent+1) true children) ++
      ['\n'] ++ pad indent ++ [')']
  | .Equals column value => format_predicate (.Equals column value)
  | .NotEquals column value => format_predicate (.NotEquals column value)
  | .InList column values => format_predicate (.InList column values)
  | .NotInList column values => format_predicate (.NotInList column values)
  | .ArrayContains column value => format_predicate (.ArrayContains column value)
  | .ArrayNotContains column value => format_predicate (.ArrayNotContains column value)
  | .BoolEquals column value => format_predicate (.BoolEquals column value)

/-- The lines of a `BoolNode`, the operator before each operand but the first. -/
def format_lines (op : BoolOp) (indent : ℕ) : (first : Bool) → List Node → List Str
  | _, [] => []
  | first, child::children =>
    (pad indent ++ (if first then [] else op.text ++ [' ']) ++ format_operand indent child)::
      format_lines op indent false children

end

def format_node (node : Node) (indent : ℕ) : Str :=
  match node with
  | .BoolNode op children => ['\n'].intercalate (format_lines op indent true children)
  | node => pad indent ++ format_predicate node

def format_filter (text : Option Str) : Except Exc Str := do
  let ast ← parse_filter text
  match ast.root with
  | none => return []
  | some root => return format_node root 0

/-- A lexeme with the whitespace before it. -/
abbrev Chunk := Str × Lexeme

def source (l : Lexeme) : Str := if l.1 = .string then quoted l.2 else l.2

def render (chunks : List Chunk) : Str := chunks.flatMap fun chunk => chunk.1 ++ source chunk.2

def moreValues : List Str → List Chunk
  | [] => []
  | v::vs => ([],(.comma,[',']))::([' '],(.string,v))::moreValues vs

def valueChunks : List Str → List Chunk
  | [] => []
  | v::vs => ([],(.string,v))::moreValues vs

def predicateChunks (gap : Str) : Node → List Chunk
  | .Equals column value =>
    [(gap,(.ident,column.text)),([' '],(.eq,['='])),([' '],(.string,value))]
  | .NotEquals column value =>
    [(gap,(.ident,column.text)),([' '],(.neq,['!','='])),([' '],(.string,value))]
  | .InList column values =>
    (gap,(.ident,column.text))::([' '],(.ident,['I','N']))::([' '],(.lparen,['(']))::
      (valueChunks values ++ [([],(.rparen,[')']))])
  | .NotInList column values =>
    (gap,(.ident,column.text))::([' '],(.ident,['N','O','T']))::([' '],(.ident,['I','N']))::
      ([' '],(.lparen,['(']))::(valueChunks values ++ [([],(.rparen,[')']))])
  | .ArrayContains column value =>
    [(gap,(.string,value)),([' '],(.ident,['I','N'])),([' '],(.ident,column.text))]
  | .ArrayNotContains column value =>
    [(gap,(.string,value)),([' '],(.ident,['N','O','T'])),([' '],(.ident,['I','N'])),
      ([' '],(.ident,column.text))]
  | .BoolEquals column value =>
    [(gap,(.ident,column.text)),([' '],(.eq,['='])),([' '],(.ident,boolText value))]
  | .BoolNode _ _ => []

def newline (indent : ℕ) : Str := '\n' :: pad indent

mutual

def operandChunks (gap : Str) (indent : ℕ) : Node → List Chunk
  | .BoolNode op children =>
    (gap,(.lparen,['(']))::(childChunks op (indent+1) (newline (indent+1)) children ++
      [(newline indent,(.rparen,[')']))])
  | .Equals column value => predicateChunks gap (.Equals column value)
  | .NotEquals column value => predicateChunks gap (.NotEquals column value)
  | .InList column values => predicateChunks gap (.InList column values)
  | .NotInList column values => predicateChunks gap (.NotInList column values)
  | .ArrayContains column value => predicateChunks gap (.ArrayContains column value)
  | .ArrayNotContains column value => predicateChunks gap (.ArrayNotContains column value)
  | .BoolEquals column value => predicateChunks gap (.BoolEquals column value)

def childChunks (op : BoolOp) (indent : ℕ) (gap : Str) : List Node → List Chunk
  | [] => []
  | child::children => operandChunks gap indent child ++ restChunks op indent children

/-- The operands after the first, each behind the operator on a line of its own. -/
def restChunks (op : BoolOp) (indent : ℕ) : List Node → List Chunk
  | [] => []
  | child::children =>
    (newline indent,(.ident,op.text))::(operandChunks [' '] indent child ++
      restChunks op indent children)

end

def nodeChunks (gap : Str) (indent : ℕ) : Node → List Chunk
  | .BoolNode op children => childChunks op indent gap children
  | node => predicateChunks gap node

@[simp] theorem render_nil : render [] = [] := rfl

@[simp] theorem render_cons (chunk : Chunk) (chunks : List Chunk) :
    render (chunk::chunks) = chunk.1 ++ source chunk.2 ++ render chunks := rfl

@[simp] theorem render_append (xs ys : List Chunk) :
    render (xs ++ ys) = render xs ++ render ys := List.flatMap_append

@[simp] theorem source_string (value : Str) : source (.string,value) = quote value := rfl

theorem render_moreValues (v : Str) (vs : List Str) :
    quote v ++ render (moreValues vs) = quoteAll (v::vs) := by
  induction vs generalizing v with
  | nil => simp [moreValues,quoteAll]
  | cons w vs ih =>
    have h := ih w
    simp only [moreValues,render_cons,source_string]
    simp only [quoteAll,List.map_cons] at h ⊢
    rw [List.intercalate_cons_cons,← h]
    simp [source]

theorem render_valueChunks (values : List Str) :
    render (valueChunks values) = quoteAll values := by
  cases values with
  | nil => rfl
  | cons v vs => simpa [valueChunks] using render_moreValues v vs

def IsPredicate (n : Node) : Prop := ∀ op ns, n ≠ .BoolNode op ns

theorem isPredicate_or (n : Node) : IsPredicate n ∨ ∃ op ns, n = .BoolNode op ns := by
  by_cases h : ∃ op ns, n = .BoolNode op ns
  · exact .inr h
  · exact .inl fun op ns he => h ⟨op,ns,he⟩

/-- What an induction over a tree shows, its predicates taken together. -/
structure Node.Cases (P : Node → Prop) (Q : List Node → Prop) : Prop where
  predicate : ∀ n, IsPredicate n → P n
  empty : ∀ op, P (.BoolNode op [])
  group : ∀ op n ns, P n → Q ns → P (.BoolNode op (n::ns))
  nil : Q []
  cons : ∀ n ns, P n → Q ns → Q (n::ns)

mutual

theorem Node.Cases.holds {P : Node → Prop} {Q : List Node → Prop} (h : Node.Cases P Q) :
    ∀ n, P n
  | .BoolNode op [] => h.empty op
  | .BoolNode op (n::ns) => h.group op n ns (h.holds n) (h.holdsAll ns)
  | .Equals _ _ => h.predicate _ fun _ _ h => nomatch h
  | .NotEquals _ _ => h.predicate _ fun _ _ h => nomatch h
  | .InList _ _ => h.predicate _ fun _ _ h => nomatch h
  | .NotInList _ _ => h.predicate _ fun _ _ h => nomatch h
  | .ArrayContains _ _ => h.predicate _ fun _ _ h => nomatch h
  | .ArrayNotContains _ _ => h.predicate _ fun _ _ h => nomatch h
  | .BoolEquals _ _ => h.predicate _ fun _ _ h => nomatch h

theorem Node.Cases.holdsAll {P : Node → Prop} {Q : List Node → Prop} (h : Node.Cases P Q) :
    ∀ ns, Q ns
  | [] => h.nil
  | n::ns => h.cons n ns (h.holds n) (h.holdsAll ns)

end

theorem operandChunks_predicate {n : Node} (hn : IsPredicate n) (gap : Str) (indent : ℕ) :
    operandChunks gap indent n = predicateChunks gap n := by
  cases n with
  | BoolNode op ns => exact absurd rfl (hn op ns)
  | _ => rfl

theorem format_operand_predicate {n : Node} (hn : IsPredicate n) (indent : ℕ) :
    format_operand indent n = format_predicate n := by
  cases n with
  | BoolNode op ns => exact absurd rfl (hn op ns)
  | _ => rfl

theorem render_predicateChunks (gap : Str) {n : Node} (hn : IsPredicate n) :
    render (predicateChunks gap n) = gap ++ format_predicate n := by
  cases n with
  | BoolNode op ns => exact absurd rfl (hn op ns)
  | InList | NotInList =>
    simp [predicateChunks,format_predicate,render_valueChunks,source]
  | Equals | NotEquals | ArrayContains | ArrayNotContains =>
    simp only [predicateChunks,format_predicate,render_cons,source_string]
    simp [source]
  | BoolEquals => simp [predicateChunks,format_predicate,source]

theorem render_operand_predicate {n : Node} (hn : IsPredicate n) (gap : Str) (indent : ℕ) :
    render (operandChunks gap indent n) = gap ++ format_operand indent n := by
  rw [operandChunks_predicate hn,format_operand_predicate hn,render_predicateChunks gap hn]

mutual

/-- No group in the tree is empty. -/
def Proper : Node → Prop
  | .BoolNode _ children => children ≠ [] ∧ ProperAll children
  | _ => True

def ProperAll : List Node → Prop
  | [] => True
  | n::ns => Proper n ∧ ProperAll ns

end

theorem newline_intercalate (line : Str) (lines : List Str) :
    ['\n'].intercalate (line::lines) = line ++ lines.flatMap ('\n'::·) := by
  induction lines generalizing line with
  | nil => simp
  | cons l lines ih =>
    rw [List.intercalate_cons_cons,ih]
    simp

/-- The chunks of a node and of the operands behind the first. -/
theorem render_cases : Node.Cases
    (fun n => Proper n → ∀ (gap : Str) (indent : ℕ),
      render (operandChunks gap indent n) = gap ++ format_operand indent n)
    (fun ns => ProperAll ns → ∀ (op : BoolOp) (indent : ℕ),
      render (restChunks op indent ns) =
        (format_lines op indent false ns).flatMap ('\n'::·)) where
  predicate n hn _ gap indent := render_operand_predicate hn gap indent
  empty op h := absurd rfl h.1
  group op n ns hn hns h gap indent := by
    have hbody : render (childChunks op (indent+1) (newline (indent+1)) (n::ns)) =
        '\n' :: ['\n'].intercalate (format_lines op (indent+1) true (n::ns)) := by
      rw [childChunks,render_append,hn h.2.1,hns h.2.2,format_lines,newline_intercalate]
      simp [newline]
    rw [operandChunks,format_operand,render_cons,render_append,hbody]
    simp [source,newline]
  nil _ _ _ := rfl
  cons n ns hn hns h op indent := by
    rw [restChunks,render_cons,render_append,hn h.1,hns h.2,format_lines]
    simp [source,newline]

theorem nodeChunks_predicate {n : Node} (hn : IsPredicate n) (gap : Str) (indent : ℕ) :
    nodeChunks gap indent n = predicateChunks gap n := by
  cases n with
  | BoolNode op ns => exact absurd rfl (hn op ns)
  | _ => rfl

theorem format_node_predicate {n : Node} (hn : IsPredicate n) :
    format_node n 0 = format_predicate n := by
  cases n with
  | BoolNode op ns => exact absurd rfl (hn op ns)
  | _ => rfl

/-- The canonical text is made of the chunks of the tree. -/
theorem render_nodeChunks {n : Node} (h : Proper n) :
    render (nodeChunks [] 0 n) = format_node n 0 := by
  rcases isPredicate_or n with hn | ⟨op,ns,rfl⟩
  · rw [nodeChunks_predicate hn,format_node_predicate hn]
    exact render_predicateChunks [] hn
  · cases ns with
    | nil => exact absurd rfl h.1
    | cons n ns =>
      have hn := render_cases.holds n h.2.1
      have hns := render_cases.holdsAll ns h.2.2
      rw [nodeChunks,childChunks,render_append,hn,hns,format_node,format_lines,
        newline_intercalate]
      simp [pad]

/-- A lexeme as the tokenizer reads it. -/
def Fits (l : Lexeme) : Prop :=
  match l.1 with
  | .string => True
  | .ident => IsIdent l.2
  | .neq => l.2 = ['!','=']
  | kind => ∃ c, l.2 = [c] ∧ punctuation c = some kind

/-- Two lexemes that stay two without a gap between them. -/
def Apart (l l' : Lexeme) : Prop :=
  (l.1 = .string → l'.1 ≠ .string) ∧ (l.1 = .ident → l'.1 ≠ .ident)

/-- Lexemes behind whitespace, and behind some where they would run together. -/
def Spaced : List Chunk → Prop
  | [] => True
  | chunk::chunks =>
    (∀ c ∈ chunk.1, isspace c = true) ∧ Fits chunk.2 ∧
      (∀ next ∈ chunks.head?, next.1 = [] → Apart chunk.2 next.2) ∧ Spaced chunks

theorem lexes_space {gap t : Str} {ls : List Lexeme} (hgap : ∀ c ∈ gap, isspace c = true)
    (h : Lexes t ls) : Lexes (gap ++ t) ls := by
  induction gap with
  | nil => exact h
  | cons c gap ih =>
    exact .space (hgap c List.mem_cons_self) (ih fun d hd => hgap d (List.mem_cons_of_mem _ hd))

/-- Neither whitespace nor the first character of a lexeme of another kind continues an
identifier or a string. -/
theorem head_source {l : Lexeme} (h : Fits l) :
    ∃ c cs, source l = c::cs ∧ (l.1 ≠ .string → c ≠ '\'') ∧
      (l.1 ≠ .ident → identPart c = false) := by
  obtain ⟨kind,value⟩ := l
  cases kind with
  | string => exact ⟨_,_,rfl,fun hn => absurd rfl hn,fun _ => by decide⟩
  | ident =>
    obtain ⟨c,cs,rfl,hc,-⟩ := h
    exact ⟨c,cs,rfl,fun _ => (identStart_excludes hc).2.2.2,fun hn => absurd rfl hn⟩
  | neq =>
    obtain rfl : value = ['!','='] := h
    exact ⟨_,_,rfl,fun _ => by decide,fun _ => by decide⟩
  | lparen | rparen | comma | eq | eof =>
    obtain ⟨c,rfl,hc⟩ := h
    unfold punctuation at hc
    split at hc
    all_goals first | (cases hc; done) | exact ⟨_,_,rfl,fun _ => by decide,fun _ => by decide⟩

theorem identPart_excludes {c : Char} (h : isspace c = true) : identPart c = false := by
  cases hi : identPart c with
  | false => rfl
  | true =>
    rw [identPart,Bool.or_eq_true] at hi
    rcases hi with hi | hi
    · exact absurd h (by simp [(identStart_excludes hi).1])
    · simp only [Bool.and_eq_true,decide_eq_true_eq] at hi
      have hd : 48 ≤ c.toNat ∧ c.toNat ≤ 57 := hi
      simp [isspace] at h
      omega

theorem head_space {c : Char} (h : isspace c = true) : c ≠ '\'' ∧ identPart c = false :=
  ⟨by rintro rfl; exact absurd h (by decide),identPart_excludes h⟩

/-- The head of what follows a lexeme leaves it as it is. -/
theorem head_render {l : Lexeme} {chunks : List Chunk} (h : Spaced chunks)
    (hnext : ∀ next ∈ chunks.head?, next.1 = [] → Apart l next.2) :
    (l.1 = .string → (render chunks).head? ≠ some '\'') ∧
      (l.1 = .ident → ∀ c, (render chunks).head? = some c → identPart c = false) := by
  cases chunks with
  | nil => exact ⟨fun _ => nofun,fun _ _ hc => nomatch hc⟩
  | cons next chunks =>
    obtain ⟨gap,l'⟩ := next
    obtain ⟨hgap,hfits,-,-⟩ := h
    cases gap with
    | cons d gap =>
      obtain ⟨hq,hi⟩ := head_space (hgap d List.mem_cons_self)
      refine ⟨fun _ => ?_,fun _ c hc => ?_⟩
      · simpa using hq
      · have : d = c := by simpa using hc
        exact this ▸ hi
    | nil =>
      obtain ⟨hs,hi⟩ := hnext _ rfl rfl
      obtain ⟨c,cs,hsrc,hcq,hci⟩ := head_source hfits
      simp only [render_cons,hsrc,List.nil_append,List.cons_append,List.head?_cons,ne_eq,
        Option.some.injEq]
      exact ⟨fun h => hcq (hs h),fun h d hd => hd ▸ hci (hi h)⟩

/-- A lexeme at the front of a text that does not continue it. -/
theorem lexes_source {l : Lexeme} {t : Str} {ls : List Lexeme} (hfits : Fits l)
    (hends : (l.1 = .string → t.head? ≠ some '\'') ∧
      (l.1 = .ident → ∀ c, t.head? = some c → identPart c = false))
    (h : Lexes t ls) : Lexes (source l ++ t) (l::ls) := by
  obtain ⟨kind,value⟩ := l
  cases kind with
  | string => exact .string (hends.1 rfl) h
  | ident => exact .ident hfits (hends.2 rfl) h
  | neq =>
    obtain rfl : value = ['!','='] := hfits
    exact .neq h
  | lparen | rparen | comma | eq | eof =>
    obtain ⟨c,rfl,hc⟩ := hfits
    exact .punct hc h

/-- The tokenizer reads the lexemes of well-spaced chunks back. -/
theorem lexes_render {chunks : List Chunk} (h : Spaced chunks) :
    Lexes (render chunks) (chunks.map Prod.snd) := by
  induction chunks with
  | nil => exact .nil
  | cons chunk chunks ih =>
    obtain ⟨gap,l⟩ := chunk
    obtain ⟨hgap,hfits,hnext,hrest⟩ := h
    rw [render_cons,List.append_assoc,List.map_cons]
    exact lexes_space hgap (lexes_source hfits (head_render hrest hnext) (ih hrest))

theorem Spaced.fits {chunks : List Chunk} (h : Spaced chunks) :
    ∀ chunk ∈ chunks, Fits chunk.2 := by
  induction chunks with
  | nil => nofun
  | cons chunk chunks ih =>
    obtain ⟨-,hfits,-,hrest⟩ := h
    exact List.forall_mem_cons.mpr ⟨hfits,ih hrest⟩

theorem Spaced.append {xs ys : List Chunk} (hx : Spaced xs) (hy : Spaced ys)
    (hjoin : ∀ y ∈ ys.head?, y.1 = [] → ∀ x ∈ xs.getLast?, Apart x.2 y.2) :
    Spaced (xs ++ ys) := by
  induction xs with
  | nil => exact hy
  | cons x xs ih =>
    obtain ⟨hgap,hfits,hnext,hrest⟩ := hx
    cases xs with
    | nil => exact ⟨hgap,hfits,fun y hy' he => hjoin y hy' he x rfl,hy⟩
    | cons x' xs => exact ⟨hgap,hfits,hnext,ih hrest hjoin⟩

/-- What stands behind a gap joins anything. -/
theorem Spaced.append_gap {xs ys : List Chunk} (hx : Spaced xs) (hy : Spaced ys)
    (hgap : ∀ y ∈ ys.head?, y.1 ≠ []) : Spaced (xs ++ ys) :=
  hx.append hy fun y hy' he => absurd he (hgap y hy')

theorem space_pad (indent : ℕ) : ∀ c ∈ pad indent, isspace c = true := by
  intro c hc
  obtain ⟨l,hl,hcl⟩ := List.mem_flatten.mp hc
  obtain rfl := (List.mem_replicate.mp hl).2
  have : c = ' ' := by simpa [INDENT] using hcl
  exact this ▸ rfl

theorem space_newline (indent : ℕ) : ∀ c ∈ newline indent, isspace c = true :=
  List.forall_mem_cons.mpr ⟨rfl,space_pad indent⟩

theorem space_blank : ∀ c ∈ [' '], isspace c = true := by simp [isspace]

theorem fits_ident {word : Str} (h : (identStart (word.headD ' ') && word.all identPart) = true) :
    Fits (.ident,word) := by
  rw [Bool.and_eq_true,List.all_eq_true] at h
  cases word with
  | nil => exact absurd h.1 (by decide)
  | cons c cs => exact ⟨c,cs,rfl,h.1,fun d hd => h.2 d (List.mem_cons_of_mem _ hd)⟩

theorem fits_scalar (column : ScalarColumn) : Fits (.ident,column.text) :=
  fits_ident (by cases column <;> decide)

theorem fits_array (column : ArrayColumn) : Fits (.ident,column.text) :=
  fits_ident (by cases column <;> decide)

theorem fits_bool (column : BoolColumn) : Fits (.ident,column.text) :=
  fits_ident (by cases column; decide)

theorem fits_boolText (value : Bool) : Fits (.ident,boolText value) :=
  fits_ident (by cases value <;> decide)

theorem fits_op (op : BoolOp) : Fits (.ident,op.text) :=
  fits_ident (by cases op <;> decide)

theorem fits_in : Fits (.ident,['I','N']) := fits_ident (by decide)

theorem fits_not : Fits (.ident,['N','O','T']) := fits_ident (by decide)

theorem fits_lparen : Fits (.lparen,['(']) := ⟨'(',rfl,rfl⟩

theorem fits_rparen : Fits (.rparen,[')']) := ⟨')',rfl,rfl⟩

theorem fits_comma : Fits (.comma,[',']) := ⟨',',rfl,rfl⟩

theorem fits_eq : Fits (.eq,['=']) := ⟨'=',rfl,rfl⟩

theorem spaced_values (v : Str) (vs : List Str) {gap : Str}
    (hgap : ∀ c ∈ gap, isspace c = true) :
    Spaced ((gap,(.string,v))::(moreValues vs ++ [([],(.rparen,[')']))])) := by
  induction vs generalizing v gap with
  | nil =>
    exact ⟨hgap,trivial,by simp [moreValues,Apart],by simp,fits_rparen,by simp,trivial⟩
  | cons w vs ih =>
    refine ⟨hgap,trivial,by simp [moreValues,Apart],by simp,fits_comma,?_,ih w space_blank⟩
    simp

theorem spaced_list (values : List Str) :
    Spaced (([' '],(.lparen,['(']))::(valueChunks values ++ [([],(.rparen,[')']))])) := by
  refine ⟨space_blank,fits_lparen,?_,?_⟩
  · exact fun _ _ _ => ⟨nofun,nofun⟩
  · cases values with
    | nil => exact ⟨by simp,fits_rparen,by simp,trivial⟩
    | cons v vs => exact spaced_values v vs (by simp)

theorem spaced_predicateChunks {gap : Str} (hgap : ∀ c ∈ gap, isspace c = true) (n : Node) :
    Spaced (predicateChunks gap n) := by
  cases n with
  | Equals column value =>
    exact ⟨hgap,fits_scalar column,by simp,space_blank,fits_eq,by simp,space_blank,trivial,
      by simp,trivial⟩
  | NotEquals column value =>
    exact ⟨hgap,fits_scalar column,by simp,space_blank,rfl,by simp,space_blank,trivial,
      by simp,trivial⟩
  | InList column values =>
    exact ⟨hgap,fits_scalar column,by simp,space_blank,fits_in,by simp,spaced_list values⟩
  | NotInList column values =>
    exact ⟨hgap,fits_scalar column,by simp,space_blank,fits_not,by simp,space_blank,fits_in,
      by simp,spaced_list values⟩
  | ArrayContains column value =>
    exact ⟨hgap,trivial,by simp,space_blank,fits_in,by simp,space_blank,fits_array column,
      by simp,trivial⟩
  | ArrayNotContains column value =>
    exact ⟨hgap,trivial,by simp,space_blank,fits_not,by simp,space_blank,fits_in,by simp,
      space_blank,fits_array column,by simp,trivial⟩
  | BoolEquals column value =>
    exact ⟨hgap,fits_bool column,by simp,space_blank,fits_eq,by simp,space_blank,
      fits_boolText value,by simp,trivial⟩
  | BoolNode op ns => trivial

theorem operandChunks_cons (gap : Str) (indent : ℕ) (n : Node) :
    ∃ l chunks, operandChunks gap indent n = (gap,l)::chunks := by
  cases n <;> exact ⟨_,_,rfl⟩

theorem spaced_children {op : BoolOp} {indent : ℕ} {n : Node} {ns : List Node} {gap : Str}
    (hn : Spaced (operandChunks gap indent n)) (hns : Spaced (restChunks op indent ns)) :
    Spaced (operandChunks gap indent n ++ restChunks op indent ns) := by
  refine hn.append_gap hns ?_
  cases ns <;> simp [restChunks,newline]

theorem spaced_cases : Node.Cases
    (fun n => ∀ {gap : Str}, (∀ c ∈ gap, isspace c = true) → ∀ indent,
      Spaced (operandChunks gap indent n))
    (fun ns => ∀ (op : BoolOp) (indent : ℕ), Spaced (restChunks op indent ns)) where
  predicate n hn _ hgap indent := by
    rw [operandChunks_predicate hn]
    exact spaced_predicateChunks hgap n
  empty op _ hgap indent :=
    ⟨hgap,fits_lparen,fun _ _ _ => ⟨nofun,nofun⟩,space_newline _,fits_rparen,by simp,trivial⟩
  group op n ns hn hns _ hgap indent := by
    refine ⟨hgap,fits_lparen,fun _ _ _ => ⟨nofun,nofun⟩,?_⟩
    exact (spaced_children (hn (space_newline _) _) (hns op _)).append_gap
      ⟨space_newline _,fits_rparen,by simp,trivial⟩ (by simp [newline])
  nil _ _ := trivial
  cons n ns hn hns op indent := by
    refine ⟨space_newline _,fits_op op,?_,spaced_children (hn space_blank indent) (hns op indent)⟩
    obtain ⟨l,chunks,heq⟩ := operandChunks_cons [' '] indent n
    simp [heq]

theorem spaced_nodeChunks (n : Node) : Spaced (nodeChunks [] 0 n) := by
  rcases isPredicate_or n with hn | ⟨op,ns,rfl⟩
  · rw [nodeChunks_predicate hn]
    exact spaced_predicateChunks (by simp) n
  · cases ns with
    | nil => trivial
    | cons n ns =>
      exact spaced_children (spaced_cases.holds n (by simp) 0) (spaced_cases.holdsAll ns op 0)

theorem isScalar_text (column : ScalarColumn) : IsScalar (.ident,column.text) column := by
  cases column <;> exact ⟨rfl,by decide⟩

theorem isArray_text (column : ArrayColumn) : IsArray (.ident,column.text) column := by
  cases column <;> exact ⟨rfl,by decide⟩

theorem isBool_text (column : BoolColumn) : IsBool (.ident,column.text) column := by
  cases column
  exact ⟨rfl,by decide⟩

theorem isOp_text (op : BoolOp) : IsOp (.ident,op.text) op := by
  cases op <;> exact ⟨rfl,rfl⟩

theorem isWord_in : IsWord "in" (.ident,['I','N']) := ⟨rfl,rfl⟩

theorem isWord_not : IsWord "not" (.ident,['N','O','T']) := ⟨rfl,rfl⟩

theorem valueList_chunks (v : Str) (vs : List Str) :
    ValueList ((valueChunks (v::vs) ++ [([],(Kind.rparen,[')']))]).map Prod.snd) (v::vs) := by
  induction vs generalizing v with
  | nil => exact .last rfl
  | cons w vs ih => exact .cons rfl (ih w)

theorem valueList_ne {ls : List Lexeme} {vs : List Str} (h : ValueList ls vs) :
    ∃ v vs', vs = v::vs' := by
  cases h <;> exact ⟨_,_,rfl⟩

theorem predicate_chunks {ls : List Lexeme} {n : Node} (h : Predicate ls n) (gap : Str) :
    Predicate ((predicateChunks gap n).map Prod.snd) n := by
  cases h with
  | equals => exact .equals (isScalar_text _) rfl
  | not_equals => exact .not_equals (isScalar_text _) rfl
  | in_list _ _ _ hvs =>
    obtain ⟨v,vs,rfl⟩ := valueList_ne hvs
    exact .in_list (isScalar_text _) isWord_in rfl (valueList_chunks v vs)
  | not_in_list _ _ _ _ hvs =>
    obtain ⟨v,vs,rfl⟩ := valueList_ne hvs
    exact .not_in_list (isScalar_text _) isWord_not isWord_in rfl (valueList_chunks v vs)
  | array_contains => exact .array_contains isWord_in (isArray_text _)
  | array_not_contains => exact .array_not_contains isWord_not isWord_in (isArray_text _)
  | @bool_equals _ _ _ _ b =>
    exact .bool_equals (isBool_text _) rfl rfl (by cases b <;> decide)

theorem predicate_isPredicate {ls : List Lexeme} {n : Node} (h : Predicate ls n) :
    IsPredicate n := by
  cases h <;> rintro _ _ ⟨⟩

mutual

/-- More levels of parentheses admit no less. -/
theorem Term.mono {depth : ℕ} {ls : List Lexeme} {n : Node} :
    Term depth ls n → Term (depth+1) ls n
  | .predicate h => .predicate h
  | .group hl h hr => .group hl h.mono hr

theorem Expr.mono {depth : ℕ} {ls : List Lexeme} {n : Node} :
    Expr depth ls n → Expr (depth+1) ls n
  | .term h => .term h.mono
  | .chain h hs => .chain h.mono hs.mono

theorem Operands.mono {depth : ℕ} {op : BoolOp} {ls : List Lexeme} {ns : List Node} :
    Operands depth op ls ns → Operands (depth+1) op ls ns
  | .one hop h => .one hop h.mono
  | .cons hop h hs => .cons hop h.mono hs.mono

end

def stringCount (ls : List Lexeme) : ℕ := ls.countP isString

@[simp] theorem stringCount_nil : stringCount [] = 0 := rfl

@[simp] theorem stringCount_cons (l : Lexeme) (ls : List Lexeme) :
    stringCount (l::ls) = stringCount ls + if l.1 = .string then 1 else 0 := by
  simp [stringCount,List.countP_cons,isString]

@[simp] theorem stringCount_append (xs ys : List Lexeme) :
    stringCount (xs ++ ys) = stringCount xs + stringCount ys := List.countP_append

theorem stringCount_moreValues (vs : List Str) :
    stringCount ((moreValues vs).map Prod.snd) = vs.length := by
  induction vs with
  | nil => rfl
  | cons v vs ih => simp [moreValues,ih]

theorem stringCount_valueChunks (vs : List Str) :
    stringCount ((valueChunks vs).map Prod.snd) = vs.length := by
  cases vs with
  | nil => rfl
  | cons v vs => simp [valueChunks,stringCount_moreValues]

theorem stringCount_valueList {ls : List Lexeme} {vs : List Str} (h : ValueList ls vs) :
    stringCount ls = vs.length := by
  induction h with
  | last hl => simp [hl]
  | cons hl _ ih => simp [hl,ih]

theorem stringCount_predicate {ls : List Lexeme} {n : Node} (h : Predicate ls n) (gap : Str) :
    stringCount ((predicateChunks gap n).map Prod.snd) = stringCount ls := by
  cases h with
  | equals hc ho => simp [predicateChunks,hc.1,ho]
  | not_equals hc ho => simp [predicateChunks,hc.1,ho]
  | in_list hc hk hp hvs =>
    simp [predicateChunks,hc.1,hk.1,hp,stringCount_valueChunks,stringCount_valueList hvs]
  | not_in_list hc hn hk hp hvs =>
    simp [predicateChunks,hc.1,hn.1,hk.1,hp,stringCount_valueChunks,stringCount_valueList hvs]
  | array_contains hk hc => simp [predicateChunks,hk.1,hc.1]
  | array_not_contains hn hk hc => simp [predicateChunks,hn.1,hk.1,hc.1]
  | bool_equals hc ho hl => simp [predicateChunks,hc.1,ho,hl]

/-- The chunks of a node that was read from `ls`: a term one level out of its body, and as
many string literals as there were. -/
structure Canonical (inner outer : ℕ) (ls : List Lexeme) (n : Node) : Prop where
  operand : ∀ gap indent, Term outer ((operandChunks gap indent n).map Prod.snd) n
  node : ∀ gap indent, Expr inner ((nodeChunks gap indent n).map Prod.snd) n
  operandCount : ∀ gap indent,
    stringCount ((operandChunks gap indent n).map Prod.snd) = stringCount ls
  nodeCount : ∀ gap indent,
    stringCount ((nodeChunks gap indent n).map Prod.snd) = stringCount ls
  proper : Proper n

/-- The same of the operands behind the first. -/
structure CanonicalRest (depth : ℕ) (op : BoolOp) (ls : List Lexeme) (ns : List Node) :
    Prop where
  operands : ∀ indent, Operands depth op ((restChunks op indent ns).map Prod.snd) ns
  count : ∀ indent, stringCount ((restChunks op indent ns).map Prod.snd) = stringCount ls
  proper : ProperAll ns

theorem Canonical.predicate {depth depth' : ℕ} {ls : List Lexeme} {n : Node}
    (h : Predicate ls n) : Canonical depth depth' ls n := by
  have hn := predicate_isPredicate h
  refine ⟨?_,?_,?_,?_,?_⟩
  · intro gap indent
    rw [operandChunks_predicate hn]
    exact .predicate (predicate_chunks h gap)
  · intro gap indent
    rw [nodeChunks_predicate hn]
    exact .term (.predicate (predicate_chunks h gap))
  · intro gap indent
    rw [operandChunks_predicate hn]
    exact stringCount_predicate h gap
  · intro gap indent
    rw [nodeChunks_predicate hn]
    exact stringCount_predicate h gap
  · cases h <;> trivial

theorem Canonical.group {depth : ℕ} {op : BoolOp} {ls ls' : List Lexeme} {n : Node}
    {ns : List Node} (h : Canonical depth depth ls n) (hs : CanonicalRest depth op ls' ns) :
    Canonical depth (depth+1) (ls ++ ls') (.BoolNode op (n::ns)) := by
  have body : ∀ gap indent, Expr depth ((childChunks op indent gap (n::ns)).map Prod.snd)
      (.BoolNode op (n::ns)) := by
    intro gap indent
    rw [childChunks,List.map_append]
    exact .chain (h.operand gap indent) (hs.operands indent)
  have count : ∀ gap indent, stringCount ((childChunks op indent gap (n::ns)).map Prod.snd) =
      stringCount (ls ++ ls') := by
    intro gap indent
    rw [childChunks,List.map_append,stringCount_append,h.operandCount,hs.count,
      stringCount_append]
  refine ⟨fun gap indent => ?_,body,fun gap indent => ?_,count,?_⟩
  · rw [operandChunks,List.map_cons,List.map_append]
    exact .group rfl (body _ _) rfl
  · rw [operandChunks,List.map_cons,List.map_append,stringCount_cons,stringCount_append,count]
    simp
  · exact ⟨List.cons_ne_nil n ns,h.proper,hs.proper⟩

theorem isOp_ident {l : Lexeme} {op : BoolOp} (h : IsOp l op) : l.1 = .ident := by
  cases op <;> exact h.1

theorem stringCount_parens {l r : Lexeme} (hl : l.1 = .lparen) (hr : r.1 = .rparen)
    (ls : List Lexeme) : stringCount (l::ls ++ [r]) = stringCount ls := by
  simp [hl,hr]

mutual

theorem Term.canonical {depth : ℕ} {ls : List Lexeme} {n : Node} :
    Term depth ls n → Canonical depth depth ls n
  | .predicate h => .predicate h
  | .group hl h hr => by
    have hc := h.canonical
    have hcount := stringCount_parens hl hr
    exact ⟨hc.operand,fun gap indent => (hc.node gap indent).mono,
      fun gap indent => (hc.operandCount gap indent).trans (hcount _).symm,
      fun gap indent => (hc.nodeCount gap indent).trans (hcount _).symm,hc.proper⟩

theorem Expr.canonical {depth : ℕ} {ls : List Lexeme} {n : Node} :
    Expr depth ls n → Canonical depth (depth+1) ls n
  | .term h => by
    have hc := h.canonical
    exact ⟨fun gap indent => (hc.operand gap indent).mono,hc.node,hc.operandCount,
      hc.nodeCount,hc.proper⟩
  | .chain h hs => h.canonical.group hs.canonical

theorem Operands.canonical {depth : ℕ} {op : BoolOp} {ls : List Lexeme} {ns : List Node} :
    Operands depth op ls ns → CanonicalRest depth op ls ns
  | .one hop h => by
    have hc := h.canonical
    have hident := isOp_ident hop
    refine ⟨fun indent => ?_,fun indent => ?_,hc.proper,trivial⟩
    · rw [restChunks,restChunks,List.append_nil,List.map_cons]
      exact .one (isOp_text op) (hc.operand _ _)
    · rw [restChunks,restChunks,List.append_nil,List.map_cons,stringCount_cons,hc.operandCount,
        stringCount_cons,hident]
  | .cons hop h hs => by
    have hc := h.canonical
    have hcs := hs.canonical
    have hident := isOp_ident hop
    refine ⟨fun indent => ?_,fun indent => ?_,hc.proper,hcs.proper⟩
    · rw [restChunks,List.map_cons,List.map_append]
      exact .cons (isOp_text op) (hc.operand _ _) (hcs.operands indent)
    · rw [restChunks,List.map_cons,List.map_append,stringCount_cons,stringCount_append,
        hc.operandCount,hcs.count,stringCount_cons,stringCount_append,hident]

end

/-- The text of a sentence that is made canonical is a sentence with the same AST, as long as
it is not too long. -/
theorem sentence_format {text : Str} {n : Node} (h : Sentence text ⟨some n⟩)
    (hlen : (format_node n 0).length ≤ MAX_FILTER_CHARS) :
    Sentence (format_node n 0) ⟨some n⟩ := by
  obtain ⟨-,ls,-,hcount,hfilter⟩ := h
  cases hfilter with
  | expr hexpr =>
    have hc := hexpr.canonical
    have hlex := lexes_render (spaced_nodeChunks n)
    rw [render_nodeChunks hc.proper] at hlex
    refine ⟨hlen,_,hlex,?_,.expr (hc.node [] 0)⟩
    exact (hc.nodeCount [] 0).trans_le hcount

theorem format_filter_of_parse {text : Option Str} {ast : FilterAst}
    (h : parse_filter text = .ok ast) :
    format_filter text = .ok (ast.root.elim [] fun root => format_node root 0) := by
  rw [format_filter,h]
  cases ast with
  | mk root => cases root <;> rfl

/-- The canonical text of an accepted filter parses to the same AST and is its own canonical
text, as long as it is not too long. -/
theorem format_filter_round_trip (text : Option Str) (ast : FilterAst) (formatted : Str)
    (hp : parse_filter text = .ok ast) (hf : format_filter text = .ok formatted)
    (hlen : formatted.length ≤ MAX_FILTER_CHARS) :
    parse_filter (some formatted) = .ok ast ∧ format_filter (some formatted) = .ok formatted := by
  have hparse : parse_filter (some formatted) = .ok ast := by
    rw [format_filter_of_parse hp] at hf
    obtain ⟨root⟩ := ast
    obtain rfl := Except.ok.inj hf
    refine (parse_filter_ok_iff _ _).mpr ?_
    cases root with
    | none => exact ⟨Nat.zero_le _,[],.nil,Nat.zero_le _,.empty⟩
    | some n => exact sentence_format ((parse_filter_ok_iff _ _).mp hp) hlen
  refine ⟨hparse,?_⟩
  rw [format_filter_of_parse hparse,← format_filter_of_parse hp,hf]

/-- `(origin='P')`. -/
def sampleText : Str := '(' :: (ScalarColumn.origin.text ++ '=' :: (quoted ['P'] ++ [')']))

def sampleNode : Node := .Equals .origin ['P']

theorem sample_parses : parse_filter (some sampleText) = .ok ⟨some sampleNode⟩ := by
  have hlex : Lexes sampleText [(.lparen,['(']),(.ident,ScalarColumn.origin.text),(.eq,['=']),
      (.string,['P']),(.rparen,[')'])] := by
    refine .punct rfl (.ident (fits_scalar .origin) ?_ (.punct rfl (.string nofun
      (.punct rfl .nil))))
    rintro _ ⟨⟩
    rfl
  have hpred : Predicate [(.ident,ScalarColumn.origin.text),(.eq,['=']),(.string,['P'])]
      sampleNode := .equals (isScalar_text .origin) rfl
  refine (parse_filter_ok_iff _ _).mpr ⟨by decide,_,hlex,by decide,.expr (.term ?_)⟩
  exact .group rfl (.term (.predicate hpred)) rfl

/-- `origin='O''B'AND(origin='P'OR origin='Q')`. -/
def nestedText : Str :=
  ScalarColumn.origin.text ++ '=' :: (quoted ['O','\'','B'] ++ (BoolOp.AND.text ++ '(' ::
    (ScalarColumn.origin.text ++ '=' :: (quoted ['P'] ++ (BoolOp.OR.text ++ ' ' ::
      (ScalarColumn.origin.text ++ '=' :: (quoted ['Q'] ++ [')'])))))))

def nestedNode : Node :=
  .BoolNode .AND [.Equals .origin ['O','\'','B'],
    .BoolNode .OR [.Equals .origin ['P'],.Equals .origin ['Q']]]

def originIs (value : Str) : List Lexeme :=
  [(.ident,ScalarColumn.origin.text),(.eq,['=']),(.string,value)]

theorem lexes_originIs {value t : Str} {ls : List Lexeme} (ht : t.head? ≠ some '\'')
    (h : Lexes t ls) :
    Lexes (ScalarColumn.origin.text ++ '=' :: (quoted value ++ t)) (originIs value ++ ls) := by
  refine .ident (fits_scalar .origin) ?_ (.punct rfl (.string ht h))
  rintro _ ⟨⟩
  rfl

theorem term_originIs (depth : ℕ) (value : Str) :
    Term depth (originIs value) (.Equals .origin value) :=
  .predicate (.equals (isScalar_text .origin) rfl)

theorem nested_parses : parse_filter (some nestedText) = .ok ⟨some nestedNode⟩ := by
  have hgroup : ∀ depth, Term (depth+1)
      ((.lparen,['('])::(originIs ['P'] ++ ((.ident,BoolOp.OR.text)::originIs ['Q'])) ++
        [(.rparen,[')'])]) (.BoolNode .OR [.Equals .origin ['P'],.Equals .origin ['Q']]) := by
    intro depth
    refine .group rfl (.chain (term_originIs depth ['P']) ?_) rfl
    exact .one (isOp_text .OR) (term_originIs depth ['Q'])
  have hlex : Lexes nestedText (originIs ['O','\'','B'] ++ ((.ident,BoolOp.AND.text)::
      (.lparen,['('])::(originIs ['P'] ++ ((.ident,BoolOp.OR.text)::
        (originIs ['Q'] ++ [(.rparen,[')'])]))))) := by
    refine lexes_originIs nofun (.ident (fits_op .AND) ?_ (.punct rfl ?_))
    · rintro _ ⟨⟩
      rfl
    refine lexes_originIs nofun (.ident (fits_op .OR) ?_ (.space rfl ?_))
    · rintro _ ⟨⟩
      rfl
    exact lexes_originIs nofun (.punct rfl .nil)
  refine (parse_filter_ok_iff _ _).mpr ⟨by decide,_,hlex,by decide,.expr ?_⟩
  exact .chain (term_originIs _ ['O','\'','B']) (.one (isOp_text .AND) (hgroup _))

theorem format_filter_round_trip_sample :
    parse_filter (some (format_node nestedNode 0)) = .ok ⟨some nestedNode⟩ ∧
      format_filter (some (format_node nestedNode 0)) = .ok (format_node nestedNode 0) :=
  format_filter_round_trip (some nestedText) _ _ nested_parses
    (format_filter_of_parse nested_parses) (by decide)

end DatasetFilter
end Dataspoke
