import Dataspoke.Debate
import Dataspoke.Slug

/-!
# The output of the ontology producer

`OntogenLLMOutput` with its before-validator, `validate_ontogen_output` and
`partition_clean_rows`.
-/

namespace Dataspoke
namespace Ontogen

open Python Pydantic Slug

/-- What the models take from libraries: the NFKD tables, the reading of numeric strings,
and pydantic's report on a payload it refuses. -/
structure Lib where
  nfkd : Str → Str
  parse_float : Str → Option Number
  schema_message : Json → String
  schema_errors : Json → List ValidationError

structure OntogenLLMNode where
  id : Option Str
  name : Str
  description : Str
  confidence_score : Number
  dataset_urns : List Str

structure OntogenLLMEdge where
  id : Option Str
  label : Str
  semantics : Str
  confidence_score : Number

structure OntogenLLMTriple where
  subject_node_id : Str
  edge_id : Str
  object_node_id : Str
  confidence_score : Number

structure OntogenLLMOutput where
  nodes : List OntogenLLMNode
  edges : List OntogenLLMEdge
  triples : List OntogenLLMTriple

section Before

/-- `bool(v)`. -/
def truthy : Json → Bool
  | .null | .bool false => false
  | .num x => x ≠ .fin 0
  | .str s => s ≠ []
  | .arr xs => !xs.isEmpty
  | .obj items => !items.isEmpty
  | .bool true => true

/-- The elements of `for x in values.get(key, []) or []`; `none` where it raises. -/
def iterOr (key : String) (values : List (Str × Json)) : Option (List Json) :=
  match get? key.toList values with
  | none => some []
  | some v =>
    if !truthy v then some []
    else match v with
    | .arr xs => some xs
    | .obj items => some (items.map fun kv => .str kv.1)
    | .str s => some (s.map fun c => .str [c])
    | _ => none

/-- `d[key] = v` on a key the dict has. -/
def setItem (key : Str) (v : Json) (items : List (Str × Json)) : List (Str × Json) :=
  items.map fun kv => if kv.1 = key then (kv.1,v) else kv

/-- The id of a dict that has one to normalize: `orig and isinstance(orig, str)`. -/
def origId : Json → Option Str
  | .obj items => match get? "id".toList items with
    | some (.str (c::cs)) => some (c::cs)
    | _ => none
  | _ => none

variable (nfkd : Str → Str)

def normalizeRow (row : Json) : Json :=
  match row, origId row with
  | .obj items, some orig => .obj (setItem "id".toList (.str (to_snake nfkd orig)) items)
  | _, _ => row

/-- A reference of a triple after the remap of the ids `origs`; `none` where the lookup of
an unhashable value raises. -/
def remapRef (origs : List Str) (key : String) (items : List (Str × Json)) :
    Option (List (Str × Json)) :=
  match get? key.toList items with
  | some (.str s) =>
    some (if s ∈ origs then setItem key.toList (.str (to_snake nfkd s)) items else items)
  | some (.arr _) | some (.obj _) => none
  | _ => some items

def normalizeTriple (nodeIds edgeIds : List Str) : Json → Option Json
  | .obj items => do
    let items ← remapRef nfkd nodeIds "subject_node_id" items
    let items ← remapRef nfkd edgeIds "edge_id" items
    let items ← remapRef nfkd nodeIds "object_node_id" items
    return .obj items
  | row => some row

/-- A list value with its rows changed in place. -/
def mapRows (f : Json → Option Json) : Json → Option Json
  | .arr xs => (xs.mapM f).map .arr
  | v => some v

def mapField (key : String) (f : Json → Option Json) (values : List (Str × Json)) :
    Option (List (Str × Json)) :=
  match get? key.toList values with
  | none => some values
  | some v => (mapRows f v).map fun v => setItem key.toList v values

/-- `_normalize_ids`. -/
def normalize_ids : Json → Option Json
  | .obj values => do
    let nodes ← iterOr "nodes" values
    let edges ← iterOr "edges" values
    let _ ← iterOr "triples" values
    let values ← mapField "nodes" (some ∘ normalizeRow nfkd) values
    let values ← mapField "edges" (some ∘ normalizeRow nfkd) values
    let values ← mapField "triples"
      (normalizeTriple nfkd (nodes.filterMap origId) (edges.filterMap origId)) values
    return .obj values
  | v => some v

end Before

section Decode

variable (parse_float : Str → Option Number)

def decodeRebuttal : Json → Option (Option Str) := decodeOptional (decodeStr (some 500))

def decodeNode : Json → Option OntogenLLMNode
  | .obj items => do
    let id ← optional "id" none (decodeOptional (decodeStr (some 200))) items
    let name ← required "name" (decodeName 200) items
    let description ← optional "description" [] (decodeStr (some 4000)) items
    let score ← optional "confidence_score" (.fin 0) (decodeScore parse_float) items
    let urns ← optional "dataset_urns" [] (decodeList (some 100) (decodeStr (some 1024))) items
    let _ ← optional "producer_rebuttal" none decodeRebuttal items
    return ⟨id,name,description,score,urns⟩
  | _ => none

def decodeEdge : Json → Option OntogenLLMEdge
  | .obj items => do
    let id ← optional "id" none (decodeOptional (decodeStr none)) items
    let label ← required "label" (decodeName 200) items
    let semantics ← optional "semantics" [] (decodeStr (some 4000)) items
    let score ← optional "confidence_score" (.fin 0) (decodeScore parse_float) items
    let _ ← optional "producer_rebuttal" none decodeRebuttal items
    return ⟨id,label,semantics,score⟩
  | _ => none

def decodeTriple : Json → Option OntogenLLMTriple
  | .obj items => do
    let subject ← required "subject_node_id" (decodeStr (some 200)) items
    let edge ← required "edge_id" (decodeStr (some 200)) items
    let object ← required "object_node_id" (decodeStr (some 200)) items
    let score ← optional "confidence_score" (.fin 0) (decodeScore parse_float) items
    let _ ← optional "producer_rebuttal" none decodeRebuttal items
    return ⟨subject,edge,object,score⟩
  | _ => none

def decodeOutput : Json → Option OntogenLLMOutput
  | .obj items => do
    let nodes ← optional "nodes" [] (decodeList (some 500) (decodeNode parse_float)) items
    let edges ← optional "edges" [] (decodeList (some 500) (decodeEdge parse_float)) items
    let triples ← optional "triples" [] (decodeList (some 500) (decodeTriple parse_float)) items
    return ⟨nodes,edges,triples⟩
  | _ => none

end Decode

def outputSchema (L : Lib) : Schema OntogenLLMOutput where
  before := normalize_ids L.nfkd
  decode := decodeOutput L.parse_float

def field (collection : String) (i : ℕ) (name : String) : List Piece :=
  [.text collection,.text "[",.num i,.text "]",.text name]

def check_slug (path : List Piece) (value : Str) : List ValidationError :=
  if hasDouble value then
    [⟨path,"DOUBLE_UNDERSCORE",path ++ [.text " contains double-underscore: ",.repr value]⟩]
  else if !isSlug value then
    [⟨path,"SLUG_FORMAT",path ++
      [.text " does not match ^[a-z0-9_]\x7b1,64\x7d$ (a-z 0-9 _): ",.repr value]⟩]
  else []

/-- SLUG_FORMAT and DOUBLE_UNDERSCORE of one collection. -/
def slugErrors (collection : String) (ids : List (Option Str)) : List ValidationError :=
  ids.zipIdx.flatMap fun (id,i) => id.elim [] (check_slug (field collection i ".id"))

/-- DUP_ID of one collection, from index `i` on; `what` names the kind of row. -/
def dupIdErrors (collection what : String) :
    (i : ℕ) → (seen : List (Str × ℕ)) → List (Option Str) → List ValidationError
  | _, _, [] => []
  | i, seen, none::ids => dupIdErrors collection what (i+1) seen ids
  | i, seen, some id::ids =>
    match get? id seen with
    | some first =>
      ⟨field collection i ".id","DUP_ID",[.text "duplicate ",.text what,.text " id ",.repr id,
        .text " (first at index ",.num first,.text ")"]⟩ ::
        dupIdErrors collection what (i+1) seen ids
    | none => dupIdErrors collection what (i+1) ((id,i)::seen) ids

/-- UNKNOWN_NODE_REF and UNKNOWN_EDGE_REF of one reference of a triple. -/
def refErrors (i : ℕ) (name code : String) (collection : String) (ref : Str)
    (ids : List (Option Str)) : List ValidationError :=
  if some ref ∈ ids then []
  else [⟨field "triples" i ("." ++ name),code,
    [.text name,.text " ",.repr ref,.text " not in ",.text collection]⟩]

def tripleRefErrors (output : OntogenLLMOutput) : List ValidationError :=
  let node_ids := output.nodes.map (·.id)
  let edge_ids := output.edges.map (·.id)
  output.triples.zipIdx.flatMap fun (t,i) =>
    refErrors i "subject_node_id" "UNKNOWN_NODE_REF" "nodes" t.subject_node_id node_ids ++
    refErrors i "object_node_id" "UNKNOWN_NODE_REF" "nodes" t.object_node_id node_ids ++
    refErrors i "edge_id" "UNKNOWN_EDGE_REF" "edges" t.edge_id edge_ids

/-- CONF_OUT_OF_RANGE of one collection. -/
def confErrors (collection : String) (scores : List Number) : List ValidationError :=
  scores.zipIdx.flatMap fun (x,i) =>
    if (Number.fin 0).le x && x.le (.fin 1) then []
    else [⟨field collection i ".confidence_score","CONF_OUT_OF_RANGE",
      [.text "confidence_score ",.float x,.text " out of [0.0, 1.0]"]⟩]

/-- MISSING_DATASET_URNS and OUT_OF_SCOPE_URN. -/
def urnErrors (in_scope_urns : List Str) (nodes : List OntogenLLMNode) :
    List ValidationError :=
  nodes.zipIdx.flatMap fun (node,i) =>
    if node.dataset_urns = [] then
      [⟨field "nodes" i ".dataset_urns","MISSING_DATASET_URNS",
        [.text "dataset_urns must be non-empty"]⟩]
    else node.dataset_urns.zipIdx.flatMap fun (urn,j) =>
      if urn ∈ in_scope_urns then []
      else [⟨field "nodes" i ".dataset_urns" ++ [.text "[",.num j,.text "]"],
        "OUT_OF_SCOPE_URN",[.text "URN ",.repr urn,.text " not in evidence set"]⟩]

def tripleKey (t : OntogenLLMTriple) : Str × Str × Str :=
  (t.subject_node_id,t.edge_id,t.object_node_id)

/-- DUP_TRIPLE, from index `i` on. -/
def dupTripleErrors : (i : ℕ) → (seen : List ((Str × Str × Str) × ℕ)) →
    List OntogenLLMTriple → List ValidationError
  | _, _, [] => []
  | i, seen, t::ts =>
    match seen.find? fun s => s.1 = tripleKey t with
    | some first =>
      ⟨field "triples" i "","DUP_TRIPLE",[.text "duplicate triple (",.repr t.subject_node_id,
        .text ", ",.repr t.edge_id,.text ", ",.repr t.object_node_id,.text ")",
        .text " (first at index ",.num first.2,.text ")"]⟩ :: dupTripleErrors (i+1) seen ts
    | none => dupTripleErrors (i+1) ((tripleKey t,i)::seen) ts

/-- The semantic rules, in the order of the code. -/
def semanticErrors (in_scope_urns : List Str) (output : OntogenLLMOutput) :
    List ValidationError :=
  slugErrors "nodes" (output.nodes.map (·.id)) ++
  slugErrors "edges" (output.edges.map (·.id)) ++
  dupIdErrors "nodes" "node" 0 [] (output.nodes.map (·.id)) ++
  dupIdErrors "edges" "edge" 0 [] (output.edges.map (·.id)) ++
  tripleRefErrors output ++
  confErrors "nodes" (output.nodes.map (·.confidence_score)) ++
  confErrors "edges" (output.edges.map (·.confidence_score)) ++
  confErrors "triples" (output.triples.map (·.confidence_score)) ++
  urnErrors in_scope_urns output.nodes ++
  dupTripleErrors 0 [] output.triples

/-- `none` where the before-validator raises. -/
def validate_ontogen_output (L : Lib) (payload : Json) (in_scope_urns : List Str) :
    Option (List ValidationError) :=
  ((outputSchema L).model_validate payload).map fun
    | (payload,none) => [⟨[],"SCHEMA",[.text (L.schema_message payload)]⟩]
    | (_,some output) => semanticErrors in_scope_urns output

/-- The `ontogen_validate` tool; its `payload` argument is a dict. -/
def validate_tool (L : Lib) (in_scope_urns : List Str) : ToolLoop.Tool where
  name := "ontogen_validate".toList
  ainvoke args := match get? "payload".toList args with
    | some (.obj items) =>
      (validate_ontogen_output L (.obj items) in_scope_urns).elim (.error "TypeError") .ok
    | _ => .error "ValidationError"

inductive Collection
  | nodes | edges | triples
  deriving DecidableEq

/-- `_PATH_INDEX_RE.match(path)`. -/
def pathIndex : List Piece → Option (Collection × ℕ)
  | .text "nodes"::.text "["::.num i::.text "]"::_ => some (.nodes,i)
  | .text "edges"::.text "["::.num i::.text "]"::_ => some (.edges,i)
  | .text "triples"::.text "["::.num i::.text "]"::_ => some (.triples,i)
  | _ => none

/-- The rows of a list whose index is not in `bad`. -/
def dropRows {α : Type} (bad : List ℕ) (rows : List α) : List α :=
  (rows.zipIdx.filter fun p => p.2 ∉ bad).map Prod.fst

def partition_clean_rows (payload : OntogenLLMOutput) (errors : List ValidationError) :
    OntogenLLMOutput × ℕ :=
  if errors.any (·.code = "SCHEMA") then
    (⟨[],[],[]⟩,payload.nodes.length + payload.edges.length + payload.triples.length)
  else
    let indices (c : Collection) := (errors.filterMap fun e =>
      (pathIndex e.path).bind fun p => if p.1 = c then some p.2 else none).dedup
    let bad_nodes := indices .nodes
    let bad_edges := indices .edges
    let bad_node_ids := bad_nodes.filterMap fun i => payload.nodes[i]?.map (·.id)
    let bad_edge_ids := bad_edges.filterMap fun i => payload.edges[i]?.map (·.id)
    let cascaded := payload.triples.zipIdx.filterMap fun (t,i) =>
      if i ∉ indices .triples ∧ (some t.subject_node_id ∈ bad_node_ids ∨
        some t.object_node_id ∈ bad_node_ids ∨ some t.edge_id ∈ bad_edge_ids)
      then some i else none
    let bad_triples := indices .triples ++ cascaded
    (⟨dropRows bad_nodes payload.nodes,dropRows bad_edges payload.edges,
      dropRows bad_triples payload.triples⟩,
      bad_nodes.length + bad_edges.length + bad_triples.length)

end Ontogen
end Dataspoke
