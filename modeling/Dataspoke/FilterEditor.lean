import Dataspoke.Python
import Mathlib.Data.List.DropRight

/-!
# The formatter of the filter editor

`formatDatasetFilter` of the frontend, which lays out the tokens of a text without its
grammar, and an abstract layout: for each token the whitespace before it. The formatter's
output is the layout written out.
-/

namespace Dataspoke
namespace FilterEditor

abbrev Text := List UInt16

def quote : UInt16 := 39
def bang : UInt16 := 33
def equals : UInt16 := 61
def lparen : UInt16 := 40
def rparen : UInt16 := 41
def comma : UInt16 := 44
def space : UInt16 := 32
def newline : UInt16 := 10

/-- `/\s/`. -/
def isSpace (u : UInt16) : Bool :=
  let n := u.toNat
  (9 ≤ n && n ≤ 13) || n = 32 || n = 0xa0 || n = 0x1680 || (0x2000 ≤ n && n ≤ 0x200a) ||
    n = 0x2028 || n = 0x2029 || n = 0x202f || n = 0x205f || n = 0x3000 || n = 0xfeff

/-- `WORD_START`. -/
def wordStart (u : UInt16) : Bool :=
  let n := u.toNat
  (65 ≤ n && n ≤ 90) || (97 ≤ n && n ≤ 122) || n = 95

/-- `WORD_CHAR`. -/
def wordChar (u : UInt16) : Bool := wordStart u || (48 ≤ u.toNat && u.toNat ≤ 57)

def upper (u : UInt16) : UInt16 := if 97 ≤ u.toNat && u.toNat ≤ 122 then u-32 else u

inductive TokenKind
  | string | word | punct
  deriving DecidableEq

structure Token where
  kind : TokenKind
  text : Text
  deriving DecidableEq

/-- The rest of a literal whose opening quote is read, with its closing quote if it has one,
and what follows. -/
def literal : Text → Text × Text
  | [] => ([],[])
  | [u] => ([u],[])
  | u::v::rest =>
    if u = quote then
      if v = quote then (u::v::(literal rest).1,(literal rest).2) else ([u],v::rest)
    else (u::(literal (v::rest)).1,(literal (v::rest)).2)

/-- The first token of a text that starts with `u`, and what follows it. -/
def scanToken (u : UInt16) (rest : Text) : Token × Text :=
  if u = quote then (⟨.string,u::(literal rest).1⟩,(literal rest).2)
  else if wordStart u then
    (⟨.word,u::rest.takeWhile wordChar⟩,rest.dropWhile wordChar)
  else if u = bang ∧ rest.head? = some equals then (⟨.punct,[bang,equals]⟩,rest.tail)
  else (⟨.punct,[u]⟩,rest)

/-- The loop; `fuel` bounds the units left. -/
def tokenizeFrom : (fuel : ℕ) → Text → List Token
  | _, [] => []
  | 0, _::_ => []
  | fuel+1, u::rest =>
    if isSpace u then tokenizeFrom fuel rest
    else (scanToken u rest).1::tokenizeFrom fuel (scanToken u rest).2

def tokenizeDatasetFilter (text : Text) : List Token := tokenizeFrom text.length text

def IN : Text := [73,78]
def AND : Text := [65,78,68]
def OR : Text := [79,82]

def isKeyword (token : Option Token) (keyword : Text) : Bool :=
  match token with
  | none => false
  | some token => token.kind = .word && token.text.map upper = keyword

def isPunct (token : Token) (text : Text) : Bool := token.kind = .punct && token.text = text

inductive Frame
  | group | list
  deriving DecidableEq

/-- The variables of `formatDatasetFilter`; the top of the stack is its head. -/
structure State where
  lines : List Text
  stack : List Frame
  indent : ℕ
  current : Text
  glueNext : Bool

def INDENT : Text := [space,space,space,space]

def pad (indent : ℕ) : Text := (List.replicate indent INDENT).flatten

/-- A line is kept without the whitespace at its end, if there is anything else on it. -/
def State.flush (st : State) : State :=
  { st with
    lines := if st.current.any (!isSpace ·) then st.lines ++ [st.current.rdropWhile isSpace]
      else st.lines
    current := [] }

def State.startLine (st : State) : State := { st with current := pad st.indent }

def State.append (st : State) (piece : Text) (glue : Bool) : State :=
  { st with
    glueNext := false
    current := st.current ++
      (if st.current ≠ [] ∧ st.current.getLast? ≠ some space ∧ ¬(glue || st.glueNext) then [space]
        else []) ++ piece }

def breaks (stack : List Frame) (token : Token) : Bool :=
  stack.head? ≠ some .list && (isKeyword token AND || isKeyword token OR)

def State.token (st : State) (previous : Option Token) (token : Token) : State :=
  if isPunct token [lparen] then
    if isKeyword previous IN then
      { { st with stack := .list::st.stack }.append [lparen] false with glueNext := true }
    else
      let st := ({ st with stack := .group::st.stack }.append [lparen] false).flush
      { st with indent := st.indent+1 }.startLine
  else if isPunct token [rparen] then
    if st.stack.head? = some .group then
      let st := { st with stack := st.stack.tail }.flush
      { st with indent := st.indent-1 }.startLine.append [rparen] true
    else { st with stack := st.stack.tail }.append [rparen] true
  else if isPunct token [comma] then st.append [comma] true
  else if breaks st.stack token then st.flush.startLine.append token.text true
  else st.append token.text false

def State.run (st : State) : Option Token → List Token → State
  | _, [] => st
  | previous, token::tokens => (st.token previous token).run (some token) tokens

def formatDatasetFilter (text : Text) : Text :=
  let tokens := tokenizeDatasetFilter text
  if tokens = [] then []
  else [newline].intercalate ((State.run ⟨[],[],0,[],false⟩ none tokens).flush).lines

/-- Where the layout stands: `pending` is the whitespace behind the last token, once it is
settled, and `begun` says whether there is a token at all. -/
structure Cursor where
  stack : List Frame
  indent : ℕ
  glue : Bool
  pending : Option Text
  begun : Bool

/-- The whitespace before a token on the line. -/
def Cursor.gap (c : Cursor) (glue : Bool) : Text :=
  c.pending.getD (if glue || c.glue then [] else [space])

/-- The whitespace before a token on a line of its own. -/
def Cursor.lineGap (c : Cursor) (indent : ℕ) : Text :=
  if c.begun then newline::pad indent else pad indent

def Cursor.behind (c : Cursor) (glue : Bool) : Cursor :=
  { c with glue := glue, pending := none, begun := true }

def Cursor.token (c : Cursor) (previous : Option Token) (token : Token) : Text × Cursor :=
  if isPunct token [lparen] then
    if isKeyword previous IN then
      (c.gap false,{ c with stack := .list::c.stack }.behind true)
    else
      (c.gap false,
        { { c with stack := .group::c.stack, indent := c.indent+1 }.behind false with
          pending := some (newline::pad (c.indent+1)) })
  else if isPunct token [rparen] then
    if c.stack.head? = some .group then
      (c.lineGap (c.indent-1),
        { c with stack := c.stack.tail, indent := c.indent-1 }.behind false)
    else (c.gap true,{ c with stack := c.stack.tail }.behind false)
  else if isPunct token [comma] then (c.gap true,c.behind false)
  else if breaks c.stack token then (c.lineGap c.indent,c.behind false)
  else (c.gap false,c.behind false)

/-- The tokens, each behind its whitespace. -/
def Cursor.layout (c : Cursor) : Option Token → List Token → List (Text × Token)
  | _, [] => []
  | previous, token::tokens =>
    ((c.token previous token).1,token)::(c.token previous token).2.layout (some token) tokens

def start : Cursor := ⟨[],0,false,some [],false⟩

def render (chunks : List (Text × Token)) : Text :=
  chunks.flatMap fun chunk => chunk.1 ++ chunk.2.text

section Refinement

/-- A token whose last unit is no whitespace. -/
def Solid (token : Token) : Prop :=
  ∃ u, token.text.getLast? = some u ∧ isSpace u = false

def above (lines : List Text) : Text := lines.flatMap (· ++ [newline])

/-- The lines and the current line show `written`, and behind it the whitespace that is
settled, if any is. -/
def Line (lines : List Text) (current : Text) (begun : Bool) (written : Text) :
    Option Text → Prop
  | none => begun = true ∧ above lines ++ current = written ∧
      ∃ u, current.getLast? = some u ∧ isSpace u = false
  | some gap => (∀ u ∈ current, u = space) ∧
      if begun then above lines = written ++ [newline] ∧ gap = newline::current
      else lines = [] ∧ written = [] ∧ gap = current

/-- The formatter stands where the cursor does and has written `written`. -/
structure Shows (st : State) (c : Cursor) (written : Text) : Prop where
  stack : st.stack = c.stack
  indent : st.indent = c.indent
  glue : st.glueNext = c.glue
  line : Line st.lines st.current c.begun written c.pending

@[simp] theorem isSpace_space : isSpace space = true := by decide

theorem above_append (lines : List Text) (line : Text) :
    above (lines ++ [line]) = above lines ++ line ++ [newline] := by
  simp [above]

theorem mem_pad {u : UInt16} {indent : ℕ} (h : u ∈ pad indent) : u = space := by
  obtain ⟨l,hl,hu⟩ := List.mem_flatten.mp h
  obtain rfl := (List.mem_replicate.mp hl).2
  simpa [INDENT] using hu

theorem not_any_of_spaces {current : Text} (h : ∀ u ∈ current, u = space) :
    current.any (!isSpace ·) = false := by
  rw [List.any_eq_false]
  intro u hu
  simp [h u hu]

/-- A line that ends in no whitespace is kept as it is. -/
theorem rdropWhile_of_getLast? {current : Text} {u : UInt16} (h : current.getLast? = some u)
    (hu : isSpace u = false) : current.rdropWhile isSpace = current := by
  rw [List.rdropWhile_eq_self_iff]
  intro hne
  rw [List.getLast?_eq_some_getLast hne,Option.some.injEq] at h
  simp [h,hu]

theorem any_of_getLast? {current : Text} {u : UInt16} (h : current.getLast? = some u)
    (hu : isSpace u = false) : current.any (!isSpace ·) = true :=
  List.any_eq_true.mpr ⟨u,List.mem_of_getLast? h,by simp [hu]⟩

section Line

variable {lines : List Text} {current written : Text} {begun : Bool} {pending : Option Text}

theorem Line.append {piece : Text} (h : Line lines current begun written pending)
    (hpiece : ∃ u, piece.getLast? = some u ∧ isSpace u = false) (glue : Bool) :
    Line lines (current ++ (if current ≠ [] ∧ current.getLast? ≠ some space ∧ ¬glue then [space]
        else []) ++ piece)
      true (written ++ pending.getD (if glue then [] else [space]) ++ piece) none := by
  obtain ⟨u,hu,hsolid⟩ := hpiece
  refine ⟨rfl,?_,u,by simp [List.getLast?_append,hu],hsolid⟩
  cases pending with
  | none =>
    obtain ⟨-,rfl,v,hv,hv'⟩ := h
    have hne : current ≠ [] := by
      rintro rfl
      cases hv
    have hlast : current.getLast? ≠ some space := by
      rw [hv]
      rintro ⟨⟩
      exact absurd hv' (by simp)
    cases glue <;> simp [hne,hlast]
  | some gap =>
    obtain ⟨hspaces,h⟩ := h
    have hif : ¬(current ≠ [] ∧ current.getLast? ≠ some space ∧ ¬(glue = true)) := by
      rintro ⟨hne,hlast,-⟩
      refine hlast ?_
      rw [List.getLast?_eq_some_getLast hne,hspaces _ (List.getLast_mem hne)]
    rw [if_neg hif]
    cases begun with
    | true =>
      obtain ⟨habove,rfl⟩ := h
      simp [habove]
    | false =>
      obtain ⟨rfl,rfl,rfl⟩ := h
      simp [above]

theorem Line.break (h : Line lines current begun written pending) (indent : ℕ) :
    Line (if current.any (!isSpace ·) then lines ++ [current.rdropWhile isSpace] else lines)
      (pad indent) begun written
      (some (if begun then newline::pad indent else pad indent)) := by
  refine ⟨fun u => mem_pad,?_⟩
  cases pending with
  | none =>
    obtain ⟨rfl,rfl,u,hu,hu'⟩ := h
    rw [if_pos (any_of_getLast? hu hu'),rdropWhile_of_getLast? hu hu',above_append]
    simp
  | some gap =>
    obtain ⟨hspaces,h⟩ := h
    rw [not_any_of_spaces hspaces]
    cases begun with
    | true => exact ⟨h.1,rfl⟩
    | false => exact ⟨h.1,h.2.1,rfl⟩

theorem intercalate_above (lines : List Text) (line : Text) :
    [newline].intercalate (lines ++ [line]) = above lines ++ line := by
  induction lines with
  | nil => simp [above]
  | cons l lines ih =>
    rw [List.cons_append,List.intercalate_cons_of_ne_nil (by simp),ih]
    simp [above]

theorem intercalate_of_above {lines : List Text} {written : Text}
    (h : above lines = written ++ [newline]) : [newline].intercalate lines = written := by
  cases lines using List.reverseRecOn with
  | nil => simp [above] at h
  | append_singleton lines line =>
    rw [above_append] at h
    rw [intercalate_above]
    exact List.append_inj_left' h rfl

/-- The lines joined, once the last one is closed. -/
theorem Line.joined (h : Line lines current true written pending) :
    [newline].intercalate
      (if current.any (!isSpace ·) then lines ++ [current.rdropWhile isSpace] else lines) =
        written := by
  cases pending with
  | none =>
    obtain ⟨-,rfl,u,hu,hu'⟩ := h
    rw [if_pos (any_of_getLast? hu hu'),rdropWhile_of_getLast? hu hu']
    exact intercalate_above lines current
  | some gap =>
    obtain ⟨hspaces,habove,-⟩ := h
    rw [not_any_of_spaces hspaces]
    exact intercalate_of_above habove

end Line

variable {st : State} {c : Cursor} {written : Text}

theorem Shows.append {piece : Text} (h : Shows st c written)
    (hpiece : ∃ u, piece.getLast? = some u ∧ isSpace u = false) (glue glue' : Bool) :
    Shows { st.append piece glue with glueNext := glue' } (c.behind glue')
      (written ++ c.gap glue ++ piece) := by
  refine ⟨h.stack,h.indent,rfl,?_⟩
  have hline := h.line.append hpiece (glue || c.glue)
  rw [← h.glue] at hline
  rw [Cursor.gap,← h.glue]
  exact hline

theorem Shows.newLine (h : Shows st c written) (stack : List Frame) (indent : ℕ) :
    Shows { { st with stack := stack }.flush with indent := indent }.startLine
      { c with
        stack := stack
        indent := indent
        pending := some (c.lineGap indent) } written :=
  ⟨rfl,rfl,h.glue,h.line.break indent⟩

theorem Shows.onStack (h : Shows st c written) (stack : List Frame) :
    Shows { st with stack := stack } { c with stack := stack } written :=
  ⟨rfl,h.indent,h.glue,h.line⟩

theorem isPunct_text {token : Token} {text : Text} (h : isPunct token text = true) :
    token.text = text := by
  simp only [isPunct,Bool.and_eq_true,decide_eq_true_eq] at h
  exact h.2

/-- One token, and the whitespace before it, is added to what is written. -/
theorem Shows.token {token : Token} (h : Shows st c written) (hsolid : Solid token)
    (previous : Option Token) :
    Shows (st.token previous token) (c.token previous token).2
      (written ++ (c.token previous token).1 ++ token.text) := by
  obtain ⟨_,_,_,pending,begun⟩ := c
  obtain ⟨rfl,rfl,rfl,hline⟩ := h
  have h : Shows st ⟨st.stack,st.indent,st.glueNext,pending,begun⟩ written :=
    ⟨rfl,rfl,rfl,hline⟩
  unfold State.token Cursor.token
  by_cases hl : isPunct token [lparen] = true
  · have htext := isPunct_text hl
    rw [if_pos hl,if_pos hl]
    have hpiece : ∃ u, [lparen].getLast? = some u ∧ isSpace u = false := htext ▸ hsolid
    rw [htext]
    split
    · exact (h.onStack (.list::st.stack)).append hpiece false true
    · have hopen := (h.onStack (.group::st.stack)).append hpiece false false
      exact hopen.newLine (.group::st.stack) (st.indent+1)
  rw [if_neg hl,if_neg hl]
  by_cases hr : isPunct token [rparen] = true
  · have htext := isPunct_text hr
    have hpiece : ∃ u, [rparen].getLast? = some u ∧ isSpace u = false := htext ▸ hsolid
    rw [if_pos hr,if_pos hr,htext]
    split
    · exact (h.newLine st.stack.tail (st.indent-1)).append hpiece true false
    · exact (h.onStack st.stack.tail).append hpiece true false
  rw [if_neg hr,if_neg hr]
  by_cases hc : isPunct token [comma] = true
  · have htext := isPunct_text hc
    rw [if_pos hc,if_pos hc,← htext]
    exact h.append hsolid true false
  rw [if_neg hc,if_neg hc]
  split
  · exact (h.newLine st.stack st.indent).append hsolid true false
  · exact h.append hsolid false false

theorem Cursor.token_begun (c : Cursor) (previous : Option Token) (token : Token) :
    (c.token previous token).2.begun = true := by
  unfold Cursor.token
  repeat' split
  all_goals rfl

theorem Shows.run {tokens : List Token} (h : Shows st c written)
    (hsolid : ∀ token ∈ tokens, Solid token) (previous : Option Token) :
    ∃ c', Shows (st.run previous tokens) c' (written ++ render (c.layout previous tokens)) ∧
      (c.begun = true ∨ tokens ≠ [] → c'.begun = true) := by
  induction tokens generalizing st c written previous with
  | nil =>
    refine ⟨c,by simpa [render,Cursor.layout,State.run] using h,?_⟩
    rintro (h | h)
    · exact h
    · exact absurd rfl h
  | cons token tokens ih =>
    have hstep := h.token (hsolid token List.mem_cons_self) previous
    obtain ⟨c',hrun,hbegun⟩ :=
      ih hstep (fun t ht => hsolid t (List.mem_cons_of_mem _ ht)) (some token)
    refine ⟨c',?_,fun _ => hbegun (.inl (c.token_begun previous token))⟩
    simpa [State.run,Cursor.layout,render] using hrun

/-- The formatter lays the tokens out. -/
theorem format_eq_render {text : Text}
    (hsolid : ∀ token ∈ tokenizeDatasetFilter text, Solid token) :
    formatDatasetFilter text = render (start.layout none (tokenizeDatasetFilter text)) := by
  rw [formatDatasetFilter]
  split
  · rename_i hnil
    rw [hnil]
    rfl
  · rename_i hne
    have hstart : Shows ⟨[],[],0,[],false⟩ start [] :=
      ⟨rfl,rfl,rfl,nofun,rfl,rfl,rfl⟩
    obtain ⟨c',hrun,hbegun⟩ := hstart.run hsolid none
    have hline := hrun.line
    rw [hbegun (.inr hne),List.nil_append] at hline
    exact hline.joined

end Refinement

end FilterEditor
end Dataspoke
