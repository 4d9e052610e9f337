import Dataspoke.FilterSyntax

/-!
# The parser of dataset filters

`_Parser` and `parse_filter`. The parser's position is the list of tokens from it on.
-/

namespace Dataspoke
namespace DatasetFilter

open Python

/-- What the parser raises: a syntax error, or an `IndexError` when it reads past its tokens. -/
inductive Exc
  | syntax_error (e : DatasetFilterSyntaxError)
  | index_error

abbrev Parser := StateT (List Token) (Except Exc)

namespace Parser

def peek : Parser Token := fun
  | [] => .error .index_error
  | t::ts => .ok (t,t::ts)

def next : Parser Token := fun
  | [] => .error .index_error
  | t::ts => .ok (t,ts)

def raise {α : Type} (message : List Piece) (position : ℕ) : Parser α := fun _ =>
  .error (.syntax_error (syntaxError message position))

def isKeyword (keyword : String) (t : Token) : Bool :=
  t.kind = .ident && lower t.value = keyword.toList

def isKind (kind : Kind) (t : Token) : Bool := t.kind = kind

def at_keyword (keyword : String) : Parser Bool := do
  return isKeyword keyword (← peek)

def expect (kind : Kind) (what : String) : Parser Token := do
  let token ← peek
  if token.kind ≠ kind then
    raise [.text "expected ",.text what] token.position
  else next

/-- `while cond: body` where the condition looks at the next token. Every round reads a
token, so the tokens left bound the rounds. -/
def loopFrom {α : Type} (cond : Token → Bool) (body : α → Parser α) : ℕ → α → Parser α
  | fuel, a => do
    if cond (← peek) then
      match fuel with
      | 0 => fun _ => .error .index_error
      | fuel+1 => do loopFrom cond body fuel (← body a)
    else return a

def loop {α : Type} (cond : Token → Bool) (body : α → Parser α) (a : α) : Parser α :=
  fun ts => loopFrom cond body ts.length a ts

/-- `", ".join(sorted(columns))`. -/
def column_list {C : Type} (columns : List (Str × C)) : Piece :=
  .text (", ".intercalate ((columns.map fun c => String.ofList c.1).mergeSort (· ≤ ·)))

/-- One round of the loop of `_parse_value_list`: a comma and the value after it. -/
def parse_value (values : List Str) : Parser (List Str) := do
  let _ ← next
  let token ← expect .string "a quoted string value"
  return values ++ [token.value]

/-- The value list of an `IN`, whose keyword is read. -/
def parse_value_list : Parser (List Str) := do
  let _ ← expect .lparen "an opening parenthesis after IN"
  let first ← expect .string "a quoted string value"
  let values ← loop (isKind .comma) parse_value [first.value]
  let _ ← expect .rparen "a closing parenthesis"
  return values

/-- The predicate of a boolean column, whose name is read. -/
def parse_bool_predicate (column : BoolColumn) : Parser Node := do
  let nxt ← peek
  if nxt.kind ≠ .eq then
    raise [.text "expected = after a boolean column; boolean columns take neither IN, ",
      .text "NOT IN, != nor a quoted value, only \"<column> = TRUE\" or ",
      .text "\"<column> = FALSE\""] nxt.position
  else
    let _ ← next
    let value_token ← peek
    if value_token.kind = .string then
      raise [.text "expected TRUE or FALSE after a boolean column; the value is a bare ",
        .text "word, never quoted"] value_token.position
    else if value_token.kind ≠ .ident then
      raise [.text "expected TRUE or FALSE after a boolean column"] value_token.position
    else match get? (lower value_token.value) BOOL_LITERALS with
    | none =>
      raise [.text "expected TRUE or FALSE after a boolean column"] value_token.position
    | some value => do
      let _ ← next
      return .BoolEquals column value

/-- The predicate of an array column after its string literal, and its `NOT` if there is
one. -/
def parse_array_column (value : Str) (negated : Bool) : Parser Node := do
  if !(← at_keyword "in") then
    raise [.text (if negated then "expected IN after NOT"
      else "expected IN or NOT IN after a string literal")] (← peek).position
  else
    let _ ← next
    let column_token ← expect .ident "an array column name"
    let column := lower column_token.value
    match get? column ARRAY_COLUMNS with
    | some column =>
      return if negated then .ArrayNotContains column value
        else .ArrayContains column value
    | none =>
      if (get? column SCALAR_COLUMNS).isSome then
        raise [.text "column ",safe column_token.value,.text " is a scalar column, not an ",
          .text "array column; write it as \"<column> = 'value'\" or ",
          .text "\"<column> != 'value'\"; ",.text "array columns are ",
          column_list ARRAY_COLUMNS] column_token.position
      else if (get? column BOOL_COLUMNS).isSome then
        raise [.text "column ",safe column_token.value,.text " is a boolean column, not an ",
          .text "array column; write it as \"<column> = TRUE\"; ",
          .text "array columns are ",column_list ARRAY_COLUMNS] column_token.position
      else
        raise [.text "unknown array column ",safe column_token.value,.text "; ",
          .text "array columns are ",column_list ARRAY_COLUMNS] column_token.position

/-- The predicate of an array column, from its string literal on. -/
def parse_array_predicate : Parser Node := do
  let token ← next
  if ← at_keyword "not" then
    let _ ← next
    parse_array_column token.value true
  else parse_array_column token.value false

/-- The predicate of a scalar column, whose name is read. -/
def parse_scalar_predicate (column : ScalarColumn) : Parser Node := do
  let nxt ← peek
  if nxt.kind = .eq then
    let _ ← next
    let value_token ← expect .string "a quoted string value"
    return .Equals column value_token.value
  else if nxt.kind = .neq then
    let _ ← next
    let value_token ← expect .string "a quoted string value"
    return .NotEquals column value_token.value
  else if ← at_keyword "in" then
    let _ ← next
    return .InList column (← parse_value_list)
  else if ← at_keyword "not" then
    let _ ← next
    if !(← at_keyword "in") then
      raise [.text "expected IN after NOT"] (← peek).position
    else
      let _ ← next
      return .NotInList column (← parse_value_list)
  else
    raise [.text "expected =, !=, IN or NOT IN after a column name"] nxt.position

def parse_predicate : Parser Node := do
  let token ← peek
  if token.kind = .string then parse_array_predicate
  else if token.kind = .ident then
    let column_token ← next
    let column := lower column_token.value
    match get? column BOOL_COLUMNS with
    | some column => parse_bool_predicate column
    | none =>
      match get? column SCALAR_COLUMNS with
      | some column => parse_scalar_predicate column
      | none =>
        if (get? column ARRAY_COLUMNS).isSome then
          raise [.text "column ",safe column_token.value,.text " is an array column; ",
            .text "write it as \"'value' IN <column>\" or ",
            .text "\"'value' NOT IN <column>\""] column_token.position
        else
          raise [.text "unknown column ",safe column_token.value,.text "; ",
            .text "scalar columns are ",column_list SCALAR_COLUMNS,.text ", ",
            .text "boolean columns are ",column_list BOOL_COLUMNS] column_token.position
  else raise [.text "expected a column name or a quoted string"] token.position

/-- One round of the loop of `_parse_expr`: an operator and the operand after it. -/
def parse_operand (term : Parser Node) (state : Option BoolOp × List Node) :
    Parser (Option BoolOp × List Node) := do
  let token ← next
  let keyword := if lower token.value = "and".toList then BoolOp.AND else BoolOp.OR
  if state.1 = none ∨ state.1 = some keyword then
    return (some keyword,state.2 ++ [← term])
  else
    raise [.text "AND and OR cannot be mixed at the same level; use parentheses"]
      token.position

def atOperator (t : Token) : Bool := isKeyword "and" t || isKeyword "or" t

/-- `_parse_expr`, given `_parse_term` at its depth. -/
def parse_expr_of (term : Parser Node) : Parser Node := do
  let child ← term
  let (op,children) ← loop atOperator (parse_operand term) (none,[child])
  match op with
  | none => return child
  | some op => return .BoolNode op children

/-- `_parse_term(depth)`, where `levels` is `MAX_PAREN_DEPTH - depth`. -/
def parse_term : (levels : ℕ) → Parser Node
  | 0 => do
    let token ← peek
    if token.kind = .lparen then
      raise [.text "parentheses nest deeper than ",.num MAX_PAREN_DEPTH,.text " levels"]
        token.position
    else parse_predicate
  | levels+1 => do
    let token ← peek
    if token.kind = .lparen then
      let _ ← next
      let node ← parse_expr_of (parse_term levels)
      let _ ← expect .rparen "a closing parenthesis"
      return node
    else parse_predicate

/-- `_parse_expr(depth)`, where `levels` is `MAX_PAREN_DEPTH - depth`. -/
def parse_expr (levels : ℕ) : Parser Node := parse_expr_of (parse_term levels)

def parse : Parser FilterAst := do
  if (← peek).kind = .eof then return ⟨none⟩
  else
    let node ← parse_expr MAX_PAREN_DEPTH
    let trailing ← peek
    if trailing.kind ≠ .eof then
      raise [.text "expected AND, OR or end of filter"] trailing.position
    else return ⟨some node⟩

end Parser

def parse_filter (text : Option Str) : Except Exc FilterAst :=
  let source := text.getD []
  if source.length > MAX_FILTER_CHARS then
    .error (.syntax_error (syntaxError [.text "filter text exceeds ",.num MAX_FILTER_CHARS,
      .text " characters"] MAX_FILTER_CHARS))
  else match tokenize source with
  | .error e => .error (.syntax_error e)
  | .ok tokens => (Parser.parse tokens).map Prod.fst

end DatasetFilter
end Dataspoke
