import Dataspoke.OntogenStore

/-!
# An ontology run

`_run_inner`: the debate, the resolution of its final payload against the stored nodes and
edges, and the persist phase.
-/

namespace Dataspoke
namespace Ontogen

open Python Pydantic Slug Debate ToolLoop

/-- Rows a run may reuse; rejected rows are not loaded. -/
def Status.eligible (s : Status) : Bool := s ≠ .rejected

/-- A name-to-id table over the eligible rows, the approved rows shadowing the pending ones
and a later row an earlier one. -/
def nameToId (rows : List (Str × Str × Status)) : List (Str × Str) :=
  let approved := rows.filter fun r => r.2.2 = .approved || r.2.2 = .llm_approved
  let pending := rows.filter fun r => r.2.2 = .llm_pending
  (approved.reverse ++ pending.reverse).map fun r => (r.1,r.2.1)

def existing_node_ids (db : Db) : List Str :=
  (db.nodes.rows.filter fun r => r.status.eligible).map (·.id)

def existing_edge_ids (db : Db) : List Str :=
  (db.edges.rows.filter fun r => r.status.eligible).map (·.id)

def existing_triple_ids (db : Db) : List Str :=
  (db.triples.rows.filter fun r => r.status.eligible).map (·.id)

def node_name_to_id (db : Db) : List (Str × Str) :=
  nameToId (db.nodes.rows.map fun r => (r.name,r.id,r.status))

def edge_label_to_id (db : Db) : List (Str × Str) :=
  nameToId (db.edges.rows.map fun r => (r.label,r.id,r.status))

def status_for_outcome (score : Number) (debate_outcome : Outcome) : Status :=
  if debate_outcome = .accept && ONTOLOGY_CONFIDENCE_THRESHOLD.le score then .llm_approved
  else .llm_pending

/-- `id or name`, the key under which triples refer to a proposal. -/
def hintId (id : Option Str) (name : Str) : Str :=
  match id with
  | some (c::cs) => c::cs
  | _ => name

/-- What the resolution reads: the stored rows, the outcome of the debate, and the best hit
of the embedding search for a name and a description. -/
structure Context where
  nfkd : Str → Str
  node_name_to_id : List (Str × Str)
  edge_label_to_id : List (Str × Str)
  existing_triple_ids : List Str
  outcome : Outcome
  search : Str → Str → Option Str

variable (C : Context)

/-- One round of the loop over the proposed nodes; `none` for a name that is empty. -/
def resolveNode (all_known_ids : List Str) (p : OntogenLLMNode) : Option NodeUpsert :=
  let name := strip isspace p.name
  if name = [] then none
  else
    let reused_id := (get? name C.node_name_to_id).or (C.search name p.description)
    -- stored ids are not empty, so `if reused_id` is a test for `None`
    let final_id := reused_id.getD (make_snake_id C.nfkd name all_known_ids)
    some ⟨final_id,name,p.description,p.confidence_score,
      status_for_outcome p.confidence_score C.outcome,reused_id.isSome,p.dataset_urns⟩

/-- The ids known after a round: a new id joins them. -/
def knownAfter (known : List Str) (n : Option NodeUpsert) : List Str :=
  match n with
  | some n => if n.is_reuse then known else n.id::known
  | none => known

/-- The loop over the proposed nodes, each with what it stages. -/
def resolveNodes : List Str → List OntogenLLMNode → List (OntogenLLMNode × Option NodeUpsert)
  | _, [] => []
  | known, p::ps =>
    let n := resolveNode C known p
    (p,n)::resolveNodes (knownAfter known n) ps

def resolveEdge (all_known_edge_ids : List Str) (p : OntogenLLMEdge) : Option EdgeUpsert :=
  let label := strip isspace p.label
  if label = [] then none
  else
    let final_id := (get? label C.edge_label_to_id).getD
      (make_snake_id C.nfkd label all_known_edge_ids)
    some ⟨final_id,label,if p.semantics = [] then none else some p.semantics,
      p.confidence_score,status_for_outcome p.confidence_score C.outcome⟩

def knownEdgesAfter (known : List Str) (e : Option EdgeUpsert) : List Str :=
  match e with
  | some e => if (get? e.label C.edge_label_to_id).isSome then known else e.id::known
  | none => known

def resolveEdges : List Str → List OntogenLLMEdge → List (OntogenLLMEdge × Option EdgeUpsert)
  | _, [] => []
  | known, p::ps =>
    let e := resolveEdge C known p
    (p,e)::resolveEdges (knownEdgesAfter C known e) ps

/-- A remap table, the latest entry first: each staged proposal enters its hint and then its
final id. `rounds` are the hints and final ids in the order of the loop. -/
def remapOf (rounds : List (Str × Str)) : List (Str × Str) :=
  rounds.foldl (fun remap r => (r.2,r.2)::(r.1,r.2)::remap) []

def hints {P U : Type} (pid : P → Option Str) (name uid : U → Str)
    (rounds : List (P × Option U)) : List (Str × Str) :=
  rounds.filterMap fun r => r.2.map fun u => (hintId (pid r.1) (name u),uid u)

def nodeHints : List (OntogenLLMNode × Option NodeUpsert) → List (Str × Str) :=
  hints OntogenLLMNode.id NodeUpsert.name NodeUpsert.id

def edgeHints : List (OntogenLLMEdge × Option EdgeUpsert) → List (Str × Str) :=
  hints OntogenLLMEdge.id EdgeUpsert.label EdgeUpsert.id

/-- `remap.get(raw, raw)`. -/
def remapped (remap : List (Str × Str)) (raw : Str) : Str := (get? raw remap).getD raw

def resolveTriple (node_id_remap edge_id_remap : List (Str × Str)) (p : OntogenLLMTriple) :
    Option TripleUpsert :=
  let subj_id := remapped node_id_remap p.subject_node_id
  let edge_id_val := remapped edge_id_remap p.edge_id
  let obj_id := remapped node_id_remap p.object_node_id
  if !(assert_node_id subj_id && assert_edge_id edge_id_val && assert_node_id obj_id) then none
  else
    let triple_id := tripleId subj_id edge_id_val obj_id
    if triple_id ∈ C.existing_triple_ids then none
    else some ⟨triple_id,subj_id,edge_id_val,obj_id,p.confidence_score,
      status_for_outcome p.confidence_score C.outcome⟩

/-- The loop over the proposed triples, after those over the nodes and edges. -/
def resolveTriples (nodes : List (OntogenLLMNode × Option NodeUpsert))
    (edges : List (OntogenLLMEdge × Option EdgeUpsert)) (ps : List OntogenLLMTriple) :
    List (OntogenLLMTriple × Option TripleUpsert) :=
  ps.map fun p =>
    (p,resolveTriple C (remapOf (nodeHints nodes)) (remapOf (edgeHints edges)) p)

/-- What a payload stages, given the ids of the eligible nodes and edges. -/
def resolve (node_ids edge_ids : List Str) (output : OntogenLLMOutput) : Staged :=
  let nodes := resolveNodes C node_ids output.nodes
  let edges := resolveEdges C edge_ids output.edges
  { nodes := nodes.filterMap Prod.snd
    edges := edges.filterMap Prod.snd
    triples := (resolveTriples C nodes edges output.triples).filterMap Prod.snd }

/-- A run: its configuration, the datasets with evidence, and what comes from outside: the
replies of the models, the prompts, the hits of the embedding search. -/
structure RunInput where
  dry_run : Bool
  is_enabled : Bool
  run_id : Str
  evidence : List Str
  max_turns : ℕ
  producer_max_iterations : ℕ
  canonical_hash : Json → Str
  review_errors : Json → List ValidationError
  sample_rag_anchors : Json → Option Unit
  build_reviewer_prompt : Json → Option Unit
  build_producer_revision_prompt : Json → Json → Option Unit
  producer : ℕ → ℕ → Reply
  reviewer : ℕ → ℕ → Reply
  search : Str → Str → Option Str

def rebuttalOf : Json → Option Str
  | .obj items => match get? "producer_rebuttal".toList items with
    | some (.str s) => if strip isspace s = [] then none else some (strip isspace s)
    | _ => none
  | _ => none

/-- `_extract_rebuttals`; raises on anything but a dict and on a field it cannot iterate. -/
def extract_rebuttals : Json → Option (Option (List Str))
  | .obj items => do
    let nodes ← iterOr "nodes" items
    let edges ← iterOr "edges" items
    let triples ← iterOr "triples" items
    let rebuttals := (nodes ++ edges ++ triples).filterMap rebuttalOf
    return if rebuttals = [] then none else some rebuttals
  | _ => none

def ISSUES : List String := ["naming_format","confidence_miscalibrated","duplicates_existing",
  "weak_evidence","ontology_incoherent","out_of_scope"]

def reviewSchema : Schema ReviewOutput where
  decode := decodeReview (decodeItemVerdict ["node","edge","triple"] ISSUES false)

/-- The `ontogen_review` tool, whose arguments are a `ReviewOutput`. -/
def review_tool : Tool where
  name := "ontogen_review".toList
  ainvoke args := match reviewSchema.decode (.obj args) with
    | some _ => .ok []
    | none => .error "ValidationError"

def RunInput.setup (L : Lib) (i : RunInput) : Setup OntogenLLMOutput where
  schema := outputSchema L
  schema_errors := L.schema_errors
  validate_tool := validate_tool L i.evidence
  review := reviewSchema
  review_errors := i.review_errors
  review_tool := review_tool
  producer_max_iterations := i.producer_max_iterations
  max_turns := i.max_turns
  canonical_hash := i.canonical_hash
  extract_rebuttals := extract_rebuttals
  sample_rag_anchors := i.sample_rag_anchors
  build_reviewer_prompt := i.build_reviewer_prompt
  build_producer_revision_prompt := i.build_producer_revision_prompt
  producer := i.producer
  reviewer := i.reviewer

def RunInput.context (L : Lib) (i : RunInput) (db : Db) (outcome : Outcome) : Context where
  nfkd := L.nfkd
  node_name_to_id := Ontogen.node_name_to_id db
  edge_label_to_id := Ontogen.edge_label_to_id db
  existing_triple_ids := Ontogen.existing_triple_ids db
  outcome := outcome
  search := i.search

inductive RunResult
  | disabled | failed | dry_run | violation (v : Violation) | success
  deriving DecidableEq

/-- The rows of the final payload that go on to the persist phase; the list of remaining
errors is empty whatever the payload. `none` where the validation raises. -/
def llm_run_result (L : Lib) (payload : Json) : Option OntogenLLMOutput :=
  ((outputSchema L).model_validate payload).map fun r =>
    let candidate_output := r.2.getD ⟨[],[],[]⟩
    let final_validation_errors : List ValidationError := []
    (partition_clean_rows candidate_output final_validation_errors).1

def staged (L : Lib) (i : RunInput) (db : Db) (outcome : Outcome) (output : OntogenLLMOutput) :
    Staged :=
  resolve (i.context L db outcome) (existing_node_ids db) (existing_edge_ids db) output

def run_inner (L : Lib) (i : RunInput) (db : Db) : Db × RunResult :=
  if !i.is_enabled && !i.dry_run then (db,.disabled)
  else match run_debate (i.setup L) with
  | none => (db,.failed)
  | some debate_result =>
    match llm_run_result L debate_result.payload with
    | none => (db,.failed)
    | some output =>
      if i.dry_run then (db,.dry_run)
      else
        let result := persist i.run_id (staged L i db debate_result.outcome output) db
        (result.1,result.2.elim .success .violation)

end Ontogen
end Dataspoke
