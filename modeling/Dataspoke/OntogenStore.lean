import Dataspoke.OntogenModels
import Dataspoke.Table

/-!
# The ontology tables

The four tables with their constraints, the human reviews, and the persist phase of a run.
A session flushes before every select, so each write is checked where it is made; a violated
constraint takes the tables back to the last commit.
-/

namespace Dataspoke
namespace Ontogen

open Python Slug

inductive Status
  | llm_pending | llm_approved | approved | rejected
  deriving DecidableEq

structure OntogenNode where
  id : Str
  name : Str
  description : Str
  confidence_score : Number
  status : Status
  run_id : Option Str
  deriving DecidableEq

structure OntogenEdge where
  id : Str
  label : Str
  semantics : Option Str
  confidence_score : Number
  status : Status
  run_id : Option Str
  deriving DecidableEq

structure OntogenTriple where
  id : Str
  subject_node_id : Str
  edge_id : Str
  object_node_id : Str
  confidence_score : Number
  status : Status
  run_id : Option Str
  deriving DecidableEq

structure DatasetNodeMap where
  dataset_urn : Str
  node_id : Str
  confidence_score : Number
  status : Status
  is_primary : Bool
  deriving DecidableEq

def DatasetNodeMap.key (m : DatasetNodeMap) : Str × Str := (m.dataset_urn,m.node_id)

structure Db where
  nodes : Table OntogenNode.id
  edges : Table OntogenEdge.id
  triples : Table OntogenTriple.id
  maps : Table DatasetNodeMap.key

def Db.empty : Db := ⟨.empty _,.empty _,.empty _,.empty _⟩

inductive Verdict
  | approve | reject
  deriving DecidableEq

def Verdict.status : Verdict → Status
  | .approve => .approved
  | .reject => .rejected

/-- `verdict not in ("approve", "reject")` raises. -/
def parseVerdict (verdict : Str) : Option Verdict :=
  if verdict = "approve".toList then some .approve
  else if verdict = "reject".toList then some .reject
  else none

inductive ReviewError
  | not_found | invalid_parameter | dependency_pending
  deriving DecidableEq

def Db.setMapStatus (db : Db) (node_id : Str) (status : Status) : Db :=
  let maps := db.maps.modify (fun m => m.node_id = node_id)
    (fun m => { m with status := status }) fun _ => rfl
  { db with maps := maps }

def review_node (db : Db) (node_id verdict : Str) : Except ReviewError Db :=
  match db.nodes.get? node_id with
  | none => .error .not_found
  | some row =>
    match parseVerdict verdict with
    | none => .error .invalid_parameter
    | some v =>
      let db := { db with nodes := db.nodes.put { row with status := v.status } }
      .ok (db.setMapStatus node_id v.status)

def review_edge (db : Db) (edge_id verdict : Str) : Except ReviewError Db :=
  match db.edges.get? edge_id with
  | none => .error .not_found
  | some row =>
    match parseVerdict verdict with
    | none => .error .invalid_parameter
    | some v => .ok { db with edges := db.edges.put { row with status := v.status } }

def nodeApproved (db : Db) (id : Str) : Bool :=
  (db.nodes.get? id).any fun row => row.status = .approved

def edgeApproved (db : Db) (id : Str) : Bool :=
  (db.edges.get? id).any fun row => row.status = .approved

def review_triple (db : Db) (triple_id verdict : Str) : Except ReviewError Db :=
  match db.triples.get? triple_id with
  | none => .error .not_found
  | some row =>
    match parseVerdict verdict with
    | none => .error .invalid_parameter
    | some .approve =>
      if nodeApproved db row.subject_node_id && edgeApproved db row.edge_id &&
          nodeApproved db row.object_node_id then
        .ok { db with triples := db.triples.put { row with status := .approved } }
      else .error .dependency_pending
    | some .reject => .ok { db with triples := db.triples.put { row with status := .rejected } }

/-- The constraints of the tables; all their texts are of unbounded length. -/
inductive Violation
  | primary_key | unique_name | unique_label | double_underscore | foreign_key | composite_id
  deriving DecidableEq

def Db.putNode (db : Db) (row : OntogenNode) : Except Violation Db :=
  if hasDouble row.id then .error .double_underscore
  else if db.nodes.rows.any fun r => r.name = row.name && r.id ≠ row.id then .error .unique_name
  else .ok { db with nodes := db.nodes.put row }

def Db.insertNode (db : Db) (row : OntogenNode) : Except Violation Db :=
  if (db.nodes.get? row.id).isSome then .error .primary_key else db.putNode row

def Db.insertEdge (db : Db) (row : OntogenEdge) : Except Violation Db :=
  if (db.edges.get? row.id).isSome then .error .primary_key
  else if hasDouble row.id then .error .double_underscore
  else if db.edges.rows.any fun r => r.label = row.label then .error .unique_label
  else .ok { db with edges := db.edges.put row }

/-- `f"{subject}__{edge}__{object}"`. -/
def tripleId (subject edge object : Str) : Str :=
  subject ++ "__".toList ++ edge ++ "__".toList ++ object

def Db.insertTriple (db : Db) (row : OntogenTriple) : Except Violation Db :=
  if (db.triples.get? row.id).isSome then .error .primary_key
  else if row.id ≠ tripleId row.subject_node_id row.edge_id row.object_node_id then
    .error .composite_id
  else if (db.nodes.get? row.subject_node_id).isNone || (db.edges.get? row.edge_id).isNone ||
      (db.nodes.get? row.object_node_id).isNone then .error .foreign_key
  else .ok { db with triples := db.triples.put row }

def Db.putMap (db : Db) (row : DatasetNodeMap) : Except Violation Db :=
  if (db.nodes.get? row.node_id).isNone then .error .foreign_key
  else .ok { db with maps := db.maps.put row }

/-- The double nearest to 0.7. -/
def ONTOLOGY_CONFIDENCE_THRESHOLD : Number := .fin (3152519739159347/4503599627370496)

/-- The rows a run stages for its persist phase. -/
structure NodeUpsert where
  id : Str
  name : Str
  description : Str
  confidence_score : Number
  status : Status
  is_reuse : Bool
  dataset_urns : List Str

structure EdgeUpsert where
  id : Str
  label : Str
  semantics : Option Str
  confidence_score : Number
  status : Status

structure TripleUpsert where
  id : Str
  subject_node_id : Str
  edge_id : Str
  object_node_id : Str
  confidence_score : Number
  status : Status

/-- One URN of `_upsert_dataset_node_maps`; the first of the list is primary. -/
def upsertMap (node_id : Str) (confidence : Number) (status : Status) (db : Db)
    (urn : Str × ℕ) : Except Violation Db :=
  match db.maps.get? (urn.1,node_id) with
  | none => db.putMap ⟨urn.1,node_id,confidence,status,urn.2 = 0⟩
  | some row => db.putMap { row with confidence_score := confidence, status := status }

def mapStatus (confidence : Number) : Status :=
  if ONTOLOGY_CONFIDENCE_THRESHOLD.le confidence then .llm_approved else .llm_pending

def upsert_dataset_node_maps (db : Db) (node_id : Str) (dataset_urns : List Str)
    (confidence : Number) : Except Violation Db :=
  dataset_urns.zipIdx.foldlM (upsertMap node_id confidence (mapStatus confidence)) db

/-- One round of the first loop of the persist phase. -/
def persistNode (run_id : Str) (db : Db) (n : NodeUpsert) : Except Violation Db :=
  if !assert_node_id n.id then .ok db
  else if n.is_reuse then upsert_dataset_node_maps db n.id n.dataset_urns n.confidence_score
  else match db.nodes.get? n.id with
  | none =>
    db.insertNode ⟨n.id,n.name,n.description,n.confidence_score,n.status,some run_id⟩
  | some existing =>
    if existing.description ≠ n.description ∨ existing.name ≠ n.name then
      db.putNode { existing with
        name := n.name
        description := n.description
        confidence_score := n.confidence_score }
    else .ok db

/-- One round of the second loop, which does not look at the id again. -/
def persistMaps (db : Db) (n : NodeUpsert) : Except Violation Db :=
  if n.is_reuse then .ok db
  else upsert_dataset_node_maps db n.id n.dataset_urns n.confidence_score

def persistNodes (run_id : Str) (nodes : List NodeUpsert) (db : Db) : Except Violation Db := do
  let db ← nodes.foldlM (persistNode run_id) db
  nodes.foldlM persistMaps db

def persistEdge (run_id : Str) (db : Db) (e : EdgeUpsert) : Except Violation Db :=
  if !assert_edge_id e.id then .ok db
  else match db.edges.get? e.id with
  | some _ => .ok db
  | none =>
    db.insertEdge ⟨e.id,e.label,e.semantics,e.confidence_score,e.status,some run_id⟩

def persistEdges (run_id : Str) (edges : List EdgeUpsert) (db : Db) : Except Violation Db :=
  edges.foldlM (persistEdge run_id) db

def persistTriple (run_id : Str) (db : Db) (t : TripleUpsert) : Except Violation Db :=
  match db.nodes.get? t.subject_node_id, db.nodes.get? t.object_node_id,
    db.edges.get? t.edge_id with
  | some _, some _, some _ =>
    match db.triples.get? t.id with
    | some _ => .ok db
    | none => db.insertTriple ⟨t.id,t.subject_node_id,t.edge_id,t.object_node_id,
        t.confidence_score,t.status,some run_id⟩
  | _, _, _ => .ok db

def persistTriples (run_id : Str) (triples : List TripleUpsert) (db : Db) :
    Except Violation Db :=
  triples.foldlM (persistTriple run_id) db

structure Staged where
  nodes : List NodeUpsert
  edges : List EdgeUpsert
  triples : List TripleUpsert

/-- The persist phase: a commit after the nodes and their maps, one after the edges, one
after the triples. -/
def persist (run_id : Str) (staged : Staged) (db : Db) : Db × Option Violation :=
  match persistNodes run_id staged.nodes db with
  | .error v => (db,some v)
  | .ok db₁ =>
    match persistEdges run_id staged.edges db₁ with
    | .error v => (db₁,some v)
    | .ok db₂ =>
      match persistTriples run_id staged.triples db₂ with
      | .error v => (db₂,some v)
      | .ok db₃ => (db₃,none)

end Ontogen
end Dataspoke
