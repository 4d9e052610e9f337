import Dataspoke.Python

/-!
# The syntax of dataset filters

The AST of a `dataset_filter`, its syntax errors, and the tokenizer.
-/

namespace Dataspoke
namespace DatasetFilter

open Python

def MAX_FILTER_CHARS : ℕ := 8000
def MAX_STRING_LITERALS : ℕ := 1000
def MAX_PAREN_DEPTH : ℕ := 2

def ERROR_FRAGMENT_MAX : ℕ := 64

inductive ScalarColumn
  | dataset_urn | origin | platform_urn
  deriving DecidableEq

inductive ArrayColumn
  | tag_urns | glossary_term_urns
  deriving DecidableEq

inductive BoolColumn
  | is_primary
  deriving DecidableEq

def SCALAR_COLUMNS : List (Str × ScalarColumn) :=
  [("dataset_urn".toList,.dataset_urn),("origin".toList,.origin),
    ("platform_urn".toList,.platform_urn)]

def ARRAY_COLUMNS : List (Str × ArrayColumn) :=
  [("tag_urns".toList,.tag_urns),("glossary_term_urns".toList,.glossary_term_urns)]

def BOOL_COLUMNS : List (Str × BoolColumn) := [("is_primary".toList,.is_primary)]

def BOOL_LITERALS : List (Str × Bool) := [("true".toList,true),("false".toList,false)]

inductive BoolOp
  | AND | OR
  deriving DecidableEq

inductive Node
  | Equals (column : ScalarColumn) (value : Str)
  | NotEquals (column : ScalarColumn) (value : Str)
  | InList (column : ScalarColumn) (values : List Str)
  | NotInList (column : ScalarColumn) (values : List Str)
  | ArrayContains (column : ArrayColumn) (value : Str)
  | ArrayNotContains (column : ArrayColumn) (value : Str)
  | BoolEquals (column : BoolColumn) (value : Bool)
  | BoolNode (op : BoolOp) (children : List Node)

/-- A parsed filter; the root of the empty filter is `none`. -/
structure FilterAst where
  root : Option Node

structure DatasetFilterSyntaxError where
  message : List Piece
  position : ℕ
  error_code : Str := "INVALID_DATASET_FILTER".toList

/-- `DatasetFilterSyntaxError(message, position)`; the constructor appends the position. -/
def syntaxError (message : List Piece) (position : ℕ) : DatasetFilterSyntaxError where
  message := message ++ [.text " (at character ",.num position,.text ")"]
  position := position

/-- `_CTRL_RE.sub("?", value)`. -/
def scrub (value : Str) : Str :=
  value.map fun c => if c.toNat < 0x20 || c.toNat = 0x7f then '?' else c

def safe (value : Str) : Piece :=
  let scrubbed := scrub value
  .repr (if scrubbed.length > ERROR_FRAGMENT_MAX
    then scrubbed.take ERROR_FRAGMENT_MAX ++ ['…'] else scrubbed)

inductive Kind
  | ident | string | lparen | rparen | comma | eq | neq | eof
  deriving DecidableEq

structure Token where
  kind : Kind
  value : Str
  position : ℕ
  deriving DecidableEq

def identStart (c : Char) : Bool :=
  ('A' ≤ c && c ≤ 'Z') || ('a' ≤ c && c ≤ 'z') || c = '_'

def identPart (c : Char) : Bool := identStart c || ('0' ≤ c && c ≤ '9')

/-- The one-character tokens, `ch in "(),="`. -/
def punctuation : Char → Option Kind
  | '(' => some .lparen
  | ')' => some .rparen
  | ',' => some .comma
  | '=' => some .eq
  | _ => none

/-- A string literal after its opening quote: its characters, the text after the closing
quote, and how many characters were read. `none` when the literal is not closed. -/
def scanString : Str → Option (Str × Str × ℕ)
  | [] => none
  | '\'' :: '\'' :: rest => (scanString rest).map fun r => ('\'' :: r.1,r.2.1,r.2.2 + 2)
  | '\'' :: rest => some ([],rest,1)
  | c::rest => (scanString rest).map fun r => (c::r.1,r.2.1,r.2.2 + 1)

/-- The token that `ch` starts at index `i`, with `literals` string tokens behind it: the
token, the text after it, and how many characters it takes. -/
def scanToken (i literals : ℕ) (ch : Char) (rest : Str) :
    Except DatasetFilterSyntaxError (Token × Str × ℕ) :=
  match punctuation ch with
  | some kind => .ok (⟨kind,[ch],i⟩,rest,1)
  | none =>
    if ch = '!' then
      match rest with
      | '='::rest => .ok (⟨.neq,['!','='],i⟩,rest,2)
      | _ => .error (syntaxError [.text "unexpected character ",safe [ch]] i)
    else if ch = '\'' then
      match scanString rest with
      | none => .error (syntaxError [.text "unterminated string literal"] i)
      | some (chunks,rest,k) =>
        if literals + 1 > MAX_STRING_LITERALS then
          .error (syntaxError [.text "filter carries more than ",.num MAX_STRING_LITERALS,
            .text " string literals"] i)
        else .ok (⟨.string,chunks,i⟩,rest,k+1)
    else if identStart ch then
      let word := ch::rest.takeWhile identPart
      .ok (⟨.ident,word,i⟩,rest.dropWhile identPart,word.length)
    else .error (syntaxError [.text "unexpected character ",safe [ch]] i)

/-- The loop of `_tokenize` from index `i` on. `fuel` bounds the characters left. -/
def tokenizeFrom : (fuel i literals : ℕ) → Str → Except DatasetFilterSyntaxError (List Token)
  | _, i, _, [] => .ok [⟨.eof,[],i⟩]
  | 0, i, _, ch::_ => .error (syntaxError [.text "unexpected character ",safe [ch]] i)
  | fuel+1, i, literals, ch::rest =>
    if isspace ch then tokenizeFrom fuel (i+1) literals rest
    else (scanToken i literals ch rest).bind fun r =>
      (tokenizeFrom fuel (i+r.2.2) (if r.1.kind = .string then literals+1 else literals)
        r.2.1).map (r.1::·)

def tokenize (text : Str) : Except DatasetFilterSyntaxError (List Token) :=
  tokenizeFrom text.length 0 0 text

end DatasetFilter
end Dataspoke
