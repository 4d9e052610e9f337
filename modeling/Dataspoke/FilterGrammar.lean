import Dataspoke.FilterSyntax

/-!
# The grammar of dataset filters

The documented language, stated without the code: how a text divides into lexemes, and
which sequences of lexemes are sentences with which AST.
-/

namespace Dataspoke
namespace DatasetFilter

open Python

/-- A lexeme: a kind, and the word of an identifier or the value of a string. -/
abbrev Lexeme := Kind × Str

/-- A string value between single quotes, with each quote in it doubled. -/
def quoted (value : Str) : Str :=
  '\'' :: value.flatMap (fun c => if c = '\'' then ['\'','\''] else [c]) ++ ['\'']

def IsIdent (word : Str) : Prop :=
  ∃ c cs, word = c::cs ∧ identStart c = true ∧ ∀ d ∈ cs, identPart d = true

/-- The division of a text into lexemes, whitespace skipped. Strings and identifiers are
maximal: no quote follows a string, no identifier character an identifier. -/
inductive Lexes : Str → List Lexeme → Prop
  | nil : Lexes [] []
  | space {c : Char} {t : Str} {ls : List Lexeme} :
      isspace c = true → Lexes t ls → Lexes (c::t) ls
  | punct {c : Char} {k : Kind} {t : Str} {ls : List Lexeme} :
      punctuation c = some k → Lexes t ls → Lexes (c::t) ((k,[c])::ls)
  | neq {t : Str} {ls : List Lexeme} :
      Lexes t ls → Lexes ('!' :: '=' :: t) ((.neq,['!','='])::ls)
  | string {value t : Str} {ls : List Lexeme} :
      t.head? ≠ some '\'' → Lexes t ls → Lexes (quoted value ++ t) ((.string,value)::ls)
  | ident {word t : Str} {ls : List Lexeme} :
      IsIdent word → (∀ c, t.head? = some c → identPart c = false) → Lexes t ls →
        Lexes (word ++ t) ((.ident,word)::ls)

/-- An identifier that is `word` up to the case of its letters. -/
def IsWord (word : String) (l : Lexeme) : Prop := l.1 = .ident ∧ lower l.2 = word.toList

def IsScalar (l : Lexeme) (column : ScalarColumn) : Prop :=
  l.1 = .ident ∧ (lower l.2,column) ∈ SCALAR_COLUMNS

def IsArray (l : Lexeme) (column : ArrayColumn) : Prop :=
  l.1 = .ident ∧ (lower l.2,column) ∈ ARRAY_COLUMNS

def IsBool (l : Lexeme) (column : BoolColumn) : Prop :=
  l.1 = .ident ∧ (lower l.2,column) ∈ BOOL_COLUMNS

def IsOp (l : Lexeme) : BoolOp → Prop
  | .AND => IsWord "and" l
  | .OR => IsWord "or" l

/-- `string {',' string}`, then the closing parenthesis. -/
inductive ValueList : List Lexeme → List Str → Prop
  | last {v : Str} {l : Lexeme} : l.1 = .rparen → ValueList [(.string,v),l] [v]
  | cons {v : Str} {l : Lexeme} {ls : List Lexeme} {vs : List Str} :
      l.1 = .comma → ValueList ls vs → ValueList ((.string,v)::l::ls) (v::vs)

inductive Predicate : List Lexeme → Node → Prop
  | equals {col op : Lexeme} {c : ScalarColumn} {v : Str} :
      IsScalar col c → op.1 = .eq → Predicate [col,op,(.string,v)] (.Equals c v)
  | not_equals {col op : Lexeme} {c : ScalarColumn} {v : Str} :
      IsScalar col c → op.1 = .neq → Predicate [col,op,(.string,v)] (.NotEquals c v)
  | in_list {col kw paren : Lexeme} {c : ScalarColumn} {ls : List Lexeme} {vs : List Str} :
      IsScalar col c → IsWord "in" kw → paren.1 = .lparen → ValueList ls vs →
        Predicate (col::kw::paren::ls) (.InList c vs)
  | not_in_list {col neg kw paren : Lexeme} {c : ScalarColumn} {ls : List Lexeme}
      {vs : List Str} :
      IsScalar col c → IsWord "not" neg → IsWord "in" kw → paren.1 = .lparen →
        ValueList ls vs → Predicate (col::neg::kw::paren::ls) (.NotInList c vs)
  | array_contains {kw col : Lexeme} {c : ArrayColumn} {v : Str} :
      IsWord "in" kw → IsArray col c → Predicate [(.string,v),kw,col] (.ArrayContains c v)
  | array_not_contains {neg kw col : Lexeme} {c : ArrayColumn} {v : Str} :
      IsWord "not" neg → IsWord "in" kw → IsArray col c →
        Predicate [(.string,v),neg,kw,col] (.ArrayNotContains c v)
  | bool_equals {col op lit : Lexeme} {c : BoolColumn} {b : Bool} :
      IsBool col c → op.1 = .eq → lit.1 = .ident → (lower lit.2,b) ∈ BOOL_LITERALS →
        Predicate [col,op,lit] (.BoolEquals c b)

mutual

/-- A predicate, or a group in parentheses, with `depth` more levels of parentheses
admitted. -/
inductive Term : (depth : ℕ) → List Lexeme → Node → Prop
  | predicate {depth : ℕ} {ls : List Lexeme} {n : Node} : Predicate ls n → Term depth ls n
  | group {depth : ℕ} {l r : Lexeme} {ls : List Lexeme} {n : Node} :
      l.1 = .lparen → Expr depth ls n → r.1 = .rparen → Term (depth+1) (l::ls ++ [r]) n

/-- One term, or two and more joined by one kind of operator. -/
inductive Expr : (depth : ℕ) → List Lexeme → Node → Prop
  | term {depth : ℕ} {ls : List Lexeme} {n : Node} : Term depth ls n → Expr depth ls n
  | chain {depth : ℕ} {op : BoolOp} {ls ls' : List Lexeme} {n : Node} {ns : List Node} :
      Term depth ls n → Operands depth op ls' ns → Expr depth (ls ++ ls') (.BoolNode op (n::ns))

/-- One operand or more, each with the operator before it. -/
inductive Operands : (depth : ℕ) → BoolOp → List Lexeme → List Node → Prop
  | one {depth : ℕ} {op : BoolOp} {l : Lexeme} {ls : List Lexeme} {n : Node} :
      IsOp l op → Term depth ls n → Operands depth op (l::ls) [n]
  | cons {depth : ℕ} {op : BoolOp} {l : Lexeme} {ls ls' : List Lexeme} {n : Node}
      {ns : List Node} :
      IsOp l op → Term depth ls n → Operands depth op ls' ns →
        Operands depth op (l::(ls ++ ls')) (n::ns)

end

inductive Filter : List Lexeme → FilterAst → Prop
  | empty : Filter [] ⟨none⟩
  | expr {ls : List Lexeme} {n : Node} : Expr MAX_PAREN_DEPTH ls n → Filter ls ⟨some n⟩

/-- A text is a sentence with AST `ast`, within the caps. -/
def Sentence (text : Str) (ast : FilterAst) : Prop :=
  text.length ≤ MAX_FILTER_CHARS ∧ ∃ ls, Lexes text ls ∧
    ls.countP (fun l => l.1 = .string) ≤ MAX_STRING_LITERALS ∧ Filter ls ast

end DatasetFilter
end Dataspoke
