import Dataspoke.OntogenIntegrity
import Dataspoke.ThreeValued

/-!
# The node search

The search filters on a status that each embedding row carries. A run writes the rows of its new
nodes one by one after its last commit; a review writes the node and its maps only.
-/

namespace Dataspoke
namespace Ontogen
namespace NodeSearch

open Python Transition Fold Debate

variable {V : Type}

structure NodeEmbedding (V : Type) where
  node_id : Str
  embedding : V
  name : Str
  status : Status

abbrev Embeddings (V : Type) := Table (@NodeEmbedding.node_id V)

/-- `dataset_urn` is the id of the node, and `name` the payload. -/
structure VectorHit where
  dataset_urn : Str
  score : Number
  name : Str

/-- `status IN ('approved', 'llm_approved')`. -/
def isApproved (status : Status) : Bool := status = .approved || status = .llm_approved

/-- `x <= y` of a database: NaN equals itself and is above every number. -/
def sqlLe : Number → Number → Bool
  | _, .nan => true
  | .nan, _ => false
  | x, y => x.le y

/-- The search, with `GREATEST(0.0, 1.0 - (embedding <=> query_vec))` as a parameter and the
rows in the order of a scan; `none` for a query that raises. A negative limit raises too. -/
def search_node_embeddings (score : V → V → Number) (scan : Option (Sql.Order (NodeEmbedding V)))
    (embeddings : Embeddings V) (query_vec : V) (top_k : ℤ) (threshold : Option Number) :
    List VectorHit :=
  match scan with
  | none => []
  | some scan =>
    let found := embeddings.rows.filter fun row => isApproved row.status &&
      threshold.all fun threshold => sqlLe threshold (score row.embedding query_vec)
    let sorted := (scan.order found).mergeSort fun a b =>
      sqlLe (score b.embedding query_vec) (score a.embedding query_vec)
    (sorted.take top_k.toNat).map fun row =>
      ⟨row.node_id,score row.embedding query_vec,row.name⟩

def NODE_REUSE_THRESHOLD : Number := ONTOLOGY_CONFIDENCE_THRESHOLD

/-- The tables, and the nodes the last run has still to embed. -/
structure Store (V : Type) where
  db : Db
  embeddings : Embeddings V
  pending : List NodeUpsert

def Store.empty : Store V := ⟨.empty,.empty _,[]⟩

/-- `f"{name} {description}"`. -/
def embed_text (name description : Str) : Str := name ++ " ".toList ++ description

/-- The embedding based reuse of a run; `embed` is `none` for a text the model fails on. -/
def reused_id (score : V → V → Number) (embeddings : Embeddings V) (embed : Str → Option V)
    (scan : Str → Option (Sql.Order (NodeEmbedding V))) (name description : Str) : Option Str :=
  (embed (embed_text name description)).bind fun query_vec =>
    (search_node_embeddings score (scan (embed_text name description)) embeddings query_vec 5
      (some NODE_REUSE_THRESHOLD)).head?.map (·.dataset_urn)

def upsert_node_embedding (db : Db) (embeddings : Embeddings V) (node_id : Str) (embedding : V)
    (name : Str) (status : Status) : Except Violation (Embeddings V) :=
  if (db.nodes.get? node_id).isNone then .error .foreign_key
  else .ok (embeddings.put ⟨node_id,embedding,name,status⟩)

/-- One round of `_refresh_node_embeddings`; whatever fails is logged. -/
def refresh_node_embedding (db : Db) (embeddings : Embeddings V) (n : NodeUpsert)
    (vec : Option V) : Embeddings V :=
  if n.is_reuse then embeddings
  else if n.name = [] then embeddings
  else match vec with
  | none => embeddings
  | some vec =>
    match upsert_node_embedding db embeddings n.id vec n.name n.status with
    | .error _ => embeddings
    | .ok embeddings => embeddings

def nodes_to_upsert (L : Lib) (i : RunInput) (db : Db) : List NodeUpsert :=
  match run_debate (i.setup L) with
  | none => []
  | some debate_result =>
    match llm_run_result L debate_result.payload with
    | none => []
    | some output => (staged L i db debate_result.outcome output).nodes

/-- A run up to its last commit; one that raises before refreshes no embeddings. -/
def Store.run (L : Lib) (i : RunInput) (s : Store V) : Store V where
  db := (run_inner L i s.db).1
  embeddings := s.embeddings
  pending := if (run_inner L i s.db).2 = .success then nodes_to_upsert L i s.db else []

inductive Act (V : Type)
  | run (i : RunInput) (embed : Str → Option V)
      (scan : Str → Option (Sql.Order (NodeEmbedding V)))
  | review (r : Review)
  /-- The next round of `_refresh_node_embeddings`, in a transaction of its own. -/
  | upsert (vec : Option V)
  /-- The run ends before its rounds are over. -/
  | crash

/-- A run holds its lock until its rounds are over; reviews do not ask for it. -/
def step (L : Lib) (score : V → V → Number) (s : Store V) : Act V → Option (Store V)
  | .run i embed scan =>
    if s.pending.isEmpty then
      some (s.run L { i with search := reused_id score s.embeddings embed scan })
    else none
  | .review r => (review s.db r).map fun db => { s with db := db }
  | .upsert vec =>
    match s.pending with
    | [] => none
    | n::pending => some ⟨s.db,refresh_node_embedding s.db s.embeddings n vec,pending⟩
  | .crash => some { s with pending := [] }

def system (L : Lib) (score : V → V → Number) : System (Store V) (Act V) :=
  ofFun (fun s => s = .empty) (step L score)

/-- Whatever the search is asked for, its hits are approved nodes. -/
def Fresh (score : V → V → Number) (s : Store V) : Prop :=
  ∀ scan query_vec top_k threshold, ∀ hit ∈ search_node_embeddings score scan s.embeddings query_vec
    top_k threshold, ∃ row, s.db.nodes.get? hit.dataset_urn = some row ∧
      (row.status = .approved ∨ row.status = .llm_approved)

def statusOf (db : Db) (id : Str) : Option Status := (db.nodes.get? id).map (·.status)

def Shown (db : Db) (id : Str) : Prop := (statusOf db id).any isApproved = true

/-- The round writes a row. -/
def Writes (db : Db) (n : NodeUpsert) (vec : Option V) : Prop :=
  n.is_reuse = false ∧ n.name ≠ [] ∧ vec.isSome ∧ (db.nodes.get? n.id).isSome

/-- A rejected node has no row the search looks at, and such a row is written for an approved node
only. -/
def Guard (s : Store V) : Act V → Prop
  | .review r => ∀ e ∈ s.embeddings.rows, isApproved e.status = true →
      r ≠ .node e.node_id "reject".toList
  | .upsert vec => ∀ n ∈ s.pending.head?, Writes s.db n vec → isApproved n.status = true →
      Shown s.db n.id
  | _ => True

/-- The step is not the rejection of a node. -/
def NoReject (_ : Store V) (a : Act V) : Prop := ∀ id, a ≠ .review (.node id "reject".toList)

section Hits

variable {score : V → V → Number} {s : Store V}

/-- A hit is an embedding row of an approved status. -/
theorem mem_search {scan : Option (Sql.Order (NodeEmbedding V))} {embeddings : Embeddings V}
    {query_vec : V} {top_k : ℤ} {threshold : Option Number} {hit : VectorHit}
    (h : hit ∈ search_node_embeddings score scan embeddings query_vec top_k threshold) :
    ∃ e ∈ embeddings.rows, isApproved e.status = true ∧ hit.dataset_urn = e.node_id := by
  cases scan with
  | none => cases h
  | some scan =>
    obtain ⟨e,he,rfl⟩ := List.mem_map.mp h
    have hfound := (scan.mem).mp (List.mem_mergeSort.mp (List.mem_of_mem_take he))
    obtain ⟨hrow,hcond⟩ := List.mem_filter.mp hfound
    rw [Bool.and_eq_true] at hcond
    exact ⟨e,hrow,hcond.1,rfl⟩

/-- Without a threshold and with a limit that is large enough, every such row is a hit. -/
theorem search_complete {e : NodeEmbedding V} (he : e ∈ s.embeddings.rows)
    (hstatus : isApproved e.status = true) :
    ∃ hit ∈ search_node_embeddings score (some ⟨fun rows => rows,fun _ => .refl _⟩) s.embeddings
      e.embedding s.embeddings.rows.length none, hit.dataset_urn = e.node_id := by
  refine ⟨_,List.mem_map.mpr ⟨e,?_,rfl⟩,rfl⟩
  rw [List.take_of_length_le]
  · rw [List.mem_mergeSort]
    exact List.mem_filter.mpr ⟨he,by simp [hstatus]⟩
  · rw [List.length_mergeSort]
    exact List.length_filter_le _ _

theorem shown_iff {db : Db} {id : Str} :
    Shown db id ↔ ∃ row, db.nodes.get? id = some row ∧
      (row.status = .approved ∨ row.status = .llm_approved) := by
  unfold Shown statusOf
  cases db.nodes.get? id with
  | none => simp
  | some row => simp [isApproved]

/-- The search is fresh exactly when the rows it looks at belong to approved nodes. -/
theorem fresh_iff : Fresh score s ↔
    ∀ e ∈ s.embeddings.rows, isApproved e.status = true → Shown s.db e.node_id := by
  constructor
  · intro h e he hstatus
    obtain ⟨hit,hmem,hurn⟩ := @search_complete _ score _ _ he hstatus
    rw [shown_iff,← hurn]
    exact h _ _ _ _ hit hmem
  · intro h scan query_vec top_k threshold hit hhit
    obtain ⟨e,he,hstatus,hurn⟩ := mem_search hhit
    rw [hurn,← shown_iff]
    exact h e he hstatus

end Hits

section Statuses

variable {run_id : Str} {db db' : Db} {ns : List NodeUpsert}

theorem statusOf_eq_none {id : Str} : statusOf db id = none ↔ db.nodes.get? id = none := by
  simp [statusOf]

/-- A stored node keeps its status, and a new one has the status of a node of `ns`. -/
def Kept (ns : List NodeUpsert) (db db' : Db) : Prop :=
  ∀ id, statusOf db' id = statusOf db id ∨ statusOf db id = none ∧
    ∃ n ∈ ns, n.is_reuse = false ∧ n.id = id ∧ statusOf db' id = some n.status

theorem Kept.of_nodes (h : db'.nodes = db.nodes) : Kept ns db db' := by
  intro id
  left
  rw [statusOf,statusOf,h]

theorem Kept.trans_nodes {db'' : Db} (h : Kept ns db db') (hn : db''.nodes = db'.nodes) :
    Kept ns db db'' := by
  intro id
  have hid : statusOf db'' id = statusOf db' id := by rw [statusOf,statusOf,hn]
  rw [hid]
  exact h id

theorem Kept.shown (h : Kept ns db db') {id : Str} (hs : Shown db id) : Shown db' id := by
  rcases h id with he | ⟨hnone,-⟩
  · rw [Shown,he]
    exact hs
  · rw [Shown,hnone] at hs
    cases hs

theorem persistNode_statusOf {n : NodeUpsert} (h : persistNode run_id db n = .ok db') (id : Str) :
    statusOf db' id = statusOf db id ∨ statusOf db id = none ∧ n.is_reuse = false ∧ n.id = id ∧
      statusOf db' id = some n.status := by
  obtain ⟨-,rfl⟩ | ⟨-,hmaps⟩ | ⟨-,hnew,rfl⟩ := persistNode_ok h
  · exact .inl rfl
  · left
    rw [statusOf,statusOf,(upsert_dataset_node_maps_ok hmaps).1.1]
  · obtain ⟨hid,-,-,hstatus⟩ := writtenNode_spec run_id db.nodes n
    by_cases he : n.id = id
    · have hwritten : statusOf
          { db with nodes := db.nodes.put (writtenNode run_id (db.nodes.get? n.id) n) } id =
          some ((db.nodes.get? n.id).elim n.status (·.status)) := by
        unfold statusOf
        rw [Table.get?_put,if_pos (hid.trans he)]
        exact congrArg some hstatus
      subst he
      rw [hwritten]
      unfold statusOf
      cases db.nodes.get? n.id with
      | none => exact .inr ⟨rfl,hnew,rfl,rfl⟩
      | some row => exact .inl rfl
    · left
      unfold statusOf
      rw [Table.get?_put,if_neg (by rwa [hid])]

theorem persistNodes_kept (h : persistNodes run_id ns db = .ok db') : Kept ns db db' := by
  obtain ⟨db₁,h₁,h₂⟩ := bind_eq_ok.mp h
  have hloop : Kept ns db db₁ := by
    refine foldlM_invariant (fun s n hn t hs ht => ?_) (Kept.of_nodes rfl) h₁
    intro id
    rcases persistNode_statusOf ht id with he | ⟨hnone,hnew,hid,hstatus⟩
    · rw [he]
      exact hs id
    · rcases hs id with hkeep | ⟨-,m,-,-,-,hm⟩
      · exact .inr ⟨hkeep.symm.trans hnone,n,hn,hnew,hid,hstatus⟩
      · rw [hnone] at hm
        cases hm
  refine foldlM_invariant (I:=fun t => Kept ns db t) (fun s n _ t hs ht => ?_) hloop h₂
  exact hs.trans_nodes (persistMaps_ok ht).1.1

theorem persist_kept (run_id : Str) (db : Db) (st : Staged) : Kept st.nodes db (persist run_id st db).1 := by
  refine persist_invariant (I:=fun t => Kept st.nodes db t) (.of_nodes rfl)
    (fun t ht => persistNodes_kept ht) (fun s t hs ht => ?_) fun s t hs ht => ?_
  · exact hs.trans_nodes (persistEdges_ok ht).1
  · exact hs.trans_nodes (persistTriples_ok ht).1

end Statuses

section Runs

variable {L : Lib} {i : RunInput} {s : Store V}

/-- A run persists what it stages, and leaves the nodes among it for the refresh. -/
theorem Store.run_cases (L : Lib) (i : RunInput) (s : Store V) :
    ((s.run L i).db = s.db ∧ (s.run L i).pending = []) ∨ ∃ outcome output,
      (s.run L i).db = (persist i.run_id (staged L i s.db outcome output) s.db).1 ∧
      ((s.run L i).pending = [] ∨
        (s.run L i).pending = (staged L i s.db outcome output).nodes) := by
  by_cases hoff : i.is_enabled = false ∧ i.dry_run = false
  · left
    simp [Store.run,run_inner,hoff]
  cases hdebate : run_debate (i.setup L) with
  | none =>
    left
    simp [Store.run,run_inner,hoff,hdebate]
  | some result =>
    cases houtput : llm_run_result L result.payload with
    | none =>
      left
      simp [Store.run,run_inner,hoff,hdebate,houtput]
    | some output =>
      by_cases hdry : i.dry_run = true
      · left
        simp [Store.run,run_inner,hdebate,houtput,hdry]
      · refine .inr ⟨result.outcome,output,?_,?_⟩
        · have hon : ¬ i.is_enabled = false := fun h => hoff ⟨h,by simpa using hdry⟩
          simp [Store.run,run_inner,hon,hdebate,houtput,hdry]
        · by_cases hok : (run_inner L i s.db).2 = .success
          · right
            simp [Store.run,nodes_to_upsert,hok,hdebate,houtput]
          · left
            simp [Store.run,hok]

theorem Store.run_kept (L : Lib) (i : RunInput) (s : Store V) :
    ∃ ns, Kept ns s.db (s.run L i).db := by
  rcases s.run_cases L i with ⟨hdb,-⟩ | ⟨outcome,output,hdb,-⟩
  · exact ⟨[],.of_nodes (by rw [hdb])⟩
  · rw [hdb]
    exact ⟨_,persist_kept _ _ _⟩

theorem staged_status {db : Db} {outcome : Outcome} {output : OntogenLLMOutput} {n : NodeUpsert}
    (h : n ∈ (staged L i db outcome output).nodes) : n.status ≠ .rejected := by
  obtain ⟨p,-,known,-,hn⟩ := staged_node h
  unfold resolveNode at hn
  dsimp only at hn
  split at hn
  · cases hn
  cases hn
  unfold status_for_outcome
  dsimp only
  split <;> exact nofun

theorem staged_unique {db : Db} {outcome : Outcome} {output : OntogenLLMOutput} {m n : NodeUpsert}
    (hm : m ∈ (staged L i db outcome output).nodes) (hn : n ∈ (staged L i db outcome output).nodes)
    (hmnew : m.is_reuse = false) (hnew : n.is_reuse = false) (hid : m.id = n.id) : m = n := by
  have hsymm : Std.Symm fun m n : NodeUpsert =>
      m.is_reuse = false → n.is_reuse = false → m.id ≠ n.id :=
    ⟨fun x y hxy hy hx he => hxy hx hy he.symm⟩
  have hpair := stagedNodes_pairwise (C:=i.context L db outcome) (existing_node_ids db) output.nodes
  by_contra hne
  exact hpair.forall hm hn hne hmnew hnew hid

/-- A new id is none of the ids of the eligible rows. -/
theorem staged_fresh {db : Db} (hdb : ∀ id, statusOf db id ≠ some .rejected) {outcome : Outcome}
    {output : OntogenLLMOutput} {n : NodeUpsert} (h : n ∈ (staged L i db outcome output).nodes)
    (hnew : n.is_reuse = false) : statusOf db n.id = none := by
  obtain ⟨p,-,known,hsub,hn⟩ := staged_node h
  obtain ⟨-,⟨hreuse,-⟩ | ⟨-,-,-,hknown⟩⟩ := resolveNode_some hn
  · rw [hnew] at hreuse
    cases hreuse
  · cases hrow : db.nodes.get? n.id with
    | none => exact statusOf_eq_none.mpr hrow
    | some row =>
      obtain ⟨hmem,hid⟩ := Table.get?_eq_some.mp hrow
      have hne : row.status ≠ .rejected := fun he =>
        hdb n.id (by rw [statusOf,hrow,Option.map_some,he])
      refine absurd (hsub ?_) hknown
      refine List.mem_map.mpr ⟨row,List.mem_filter.mpr ⟨hmem,?_⟩,hid⟩
      simpa [Status.eligible] using hne

end Runs

section Reviews

variable {db db' : Db} {r : Review}

theorem review_statusOf (h : review db r = some db') (id : Str) :
    statusOf db' id = statusOf db id ∨ ∃ verdict v, r = .node id verdict ∧
      parseVerdict verdict = some v ∧ statusOf db id ≠ none ∧ statusOf db' id = some v.status := by
  have hdb : (r.run db).toOption.getD db = db' := Option.some.inj h
  cases hrun : r.run db with
  | error e =>
    obtain rfl : db = db' := by simpa [hrun,Except.toOption] using hdb
    exact .inl rfl
  | ok db₁ =>
    obtain rfl : db₁ = db' := by simpa [hrun,Except.toOption] using hdb
    cases r with
    | node node_id verdict =>
      obtain ⟨row,v,hrow,hv,rfl⟩ := review_node_ok hrun
      obtain ⟨-,hid⟩ := Table.get?_eq_some.mp hrow
      have hput : statusOf ({ db with nodes := db.nodes.put { row with status := v.status } }.setMapStatus
          node_id v.status) id = if node_id = id then some v.status else statusOf db id := by
        unfold statusOf Db.setMapStatus
        rw [Table.get?_put,← hid]
        split <;> rfl
      by_cases he : node_id = id
      · subst he
        rw [if_pos rfl] at hput
        refine .inr ⟨verdict,v,rfl,hv,?_,hput⟩
        rw [statusOf,hrow]
        exact Option.some_ne_none _
      · rw [if_neg he] at hput
        exact .inl hput
    | edge id verdict =>
      obtain ⟨row,v,-,-,rfl⟩ := review_edge_ok hrun
      exact .inl rfl
    | triple id verdict =>
      obtain ⟨row,v,-,-,-,rfl⟩ := review_triple_ok hrun
      exact .inl rfl

/-- A review that does not reject the node keeps it approved. -/
theorem review_shown (h : review db r = some db') {id : Str} (hs : Shown db id)
    (hr : r ≠ .node id "reject".toList) : Shown db' id := by
  rcases review_statusOf h id with he | ⟨verdict,v,rfl,hv,-,he⟩
  · rw [Shown,he]
    exact hs
  · rw [Shown,he]
    cases v with
    | approve => rfl
    | reject => exact absurd (by rw [parseVerdict_eq hv]) hr

theorem review_stored (h : review db r = some db') {id : Str} (hid : statusOf db id ≠ none) :
    statusOf db' id ≠ none := by
  rcases review_statusOf h id with he | ⟨verdict,v,-,-,-,he⟩
  · rwa [he]
  · rw [he]
    exact nofun

theorem review_reject {id : Str} (h : review db (.node id "reject".toList) = some db')
    (hid : statusOf db id ≠ none) : ¬ Shown db' id := by
  obtain ⟨row,hrow⟩ := Option.ne_none_iff_exists'.mp (fun hn => hid (statusOf_eq_none.mpr hn))
  have hrun : review_node db id "reject".toList =
      .ok ({ db with nodes := db.nodes.put { row with status := .rejected } }.setMapStatus id
        .rejected) := by
    unfold review_node
    rw [hrow]
    rfl
  have hdb := Option.some.inj h
  rw [show Review.run db (.node id "reject".toList) = _ from hrun] at hdb
  subst hdb
  obtain ⟨-,rfl⟩ := Table.get?_eq_some.mp hrow
  intro hs
  have hstatus : statusOf ({ db with nodes := db.nodes.put { row with status := .rejected } }.setMapStatus
      row.id .rejected) row.id = some .rejected := by
    unfold statusOf Db.setMapStatus
    rw [Table.get?_put,if_pos rfl]
    rfl
  have hs : (statusOf ({ db with nodes := db.nodes.put { row with status := .rejected } }.setMapStatus
      row.id .rejected) row.id).any isApproved = true := hs
  rw [hstatus] at hs
  cases hs

end Reviews

section Refresh

variable {db : Db} {embeddings : Embeddings V} {n : NodeUpsert} {vec : Option V}

theorem Writes.stored (h : Writes db n vec) : statusOf db n.id ≠ none := by
  intro hnone
  have hnode := h.2.2.2
  rw [statusOf_eq_none.mp hnone] at hnode
  cases hnode

/-- A round that writes leaves a row of the node with the staged status. -/
theorem refresh_writes (embeddings : Embeddings V) (h : Writes db n vec) :
    ∃ e : NodeEmbedding V, e.node_id = n.id ∧ e.status = n.status ∧
      refresh_node_embedding db embeddings n vec = embeddings.put e := by
  obtain ⟨hnew,hname,hvec,hnode⟩ := h
  obtain ⟨vec,rfl⟩ := Option.isSome_iff_exists.mp hvec
  refine ⟨⟨n.id,vec,n.name,n.status⟩,rfl,rfl,?_⟩
  unfold refresh_node_embedding upsert_node_embedding
  rw [if_neg (by simp [hnew]),if_neg hname]
  dsimp only
  rw [if_neg (by simpa [Option.isSome_iff_ne_none] using hnode)]

theorem refresh_skips (h : ¬ Writes db n vec) :
    refresh_node_embedding db embeddings n vec = embeddings := by
  unfold refresh_node_embedding upsert_node_embedding
  split
  · rfl
  rename_i hnew
  split
  · rfl
  rename_i hname
  cases vec with
  | none => rfl
  | some vec =>
    dsimp only
    by_cases hnode : (db.nodes.get? n.id).isNone = true
    · rw [if_pos hnode]
    · refine absurd ⟨by simpa using hnew,hname,rfl,?_⟩ h
      simpa [Option.isSome_iff_ne_none] using hnode

end Refresh

section Guarded

variable {L : Lib} {score : V → V → Number} {s t : Store V} {a : Act V}

theorem step_cases (h : step L score s a = some t) :
    (∃ i embed scan, a = .run i embed scan ∧
      t = s.run L { i with search := reused_id score s.embeddings embed scan }) ∨
    (∃ r db, a = .review r ∧ review s.db r = some db ∧ t = { s with db := db }) ∨
    (∃ vec n pending, a = .upsert vec ∧ s.pending = n::pending ∧
      t = ⟨s.db,refresh_node_embedding s.db s.embeddings n vec,pending⟩) ∨
    (a = .crash ∧ t = { s with pending := [] }) := by
  cases a with
  | run i embed scan =>
    simp only [step] at h
    split at h
    · exact .inl ⟨i,embed,scan,rfl,(Option.some.inj h).symm⟩
    · cases h
  | review r =>
    simp only [step,Option.map_eq_some_iff] at h
    obtain ⟨db,hdb,rfl⟩ := h
    exact .inr (.inl ⟨r,db,rfl,hdb,rfl⟩)
  | upsert vec =>
    simp only [step] at h
    split at h
    · cases h
    · rename_i n pending hpending
      exact .inr (.inr (.inl ⟨vec,n,pending,rfl,hpending,(Option.some.inj h).symm⟩))
  | crash => exact .inr (.inr (.inr ⟨rfl,(Option.some.inj h).symm⟩))

/-- `node_embeddings.node_id` is a foreign key. -/
def Stored (s : Store V) : Prop := ∀ e ∈ s.embeddings.rows, statusOf s.db e.node_id ≠ none

theorem stored_run (i : RunInput) (hs : Stored s) : Stored (s.run L i) := by
  obtain ⟨ns,hkept⟩ := s.run_kept L i
  intro e he
  rcases hkept e.node_id with hid | ⟨hnone,-⟩
  · rw [hid]
    exact hs e he
  · exact absurd hnone (hs e he)

theorem stored_step (hs : Stored s) (h : step L score s a = some t) : Stored t := by
  obtain ⟨i,embed,scan,rfl,rfl⟩ | ⟨r,db,rfl,hdb,rfl⟩ | ⟨vec,n,pending,rfl,hpending,rfl⟩ |
    ⟨rfl,rfl⟩ := step_cases h
  · exact stored_run _ hs
  · exact fun e he => review_stored hdb (hs e he)
  · by_cases hw : Writes s.db n vec
    · obtain ⟨e,hid,-,hput⟩ := refresh_writes s.embeddings hw
      rw [hput]
      intro e' he'
      rcases Table.mem_put.mp he' with rfl | ⟨he',-⟩
      · rw [hid]
        exact hw.stored
      · exact hs e' he'
    · rw [refresh_skips hw]
      exact hs
  · exact hs

/-- The search looks at rows of approved nodes, and every row has a node. -/
structure Sound (s : Store V) : Prop where
  shown : ∀ e ∈ s.embeddings.rows, isApproved e.status = true → Shown s.db e.node_id
  stored : Stored s

theorem sound_step (hs : Sound s) (hg : Guard s a) (h : step L score s a = some t) :
    Sound t := by
  refine ⟨?_,stored_step hs.stored h⟩
  obtain ⟨i,embed,scan,rfl,rfl⟩ | ⟨r,db,rfl,hdb,rfl⟩ | ⟨vec,n,pending,rfl,hpending,rfl⟩ |
    ⟨rfl,rfl⟩ := step_cases h
  · obtain ⟨ns,hkept⟩ := s.run_kept L _
    exact fun e he hstatus => hkept.shown (hs.shown e he hstatus)
  · intro e he hstatus
    exact review_shown hdb (hs.shown e he hstatus) (hg e he hstatus)
  · by_cases hw : Writes s.db n vec
    · obtain ⟨e,hid,hstatus,hput⟩ := refresh_writes s.embeddings hw
      rw [hput]
      intro e' he' happ
      rcases Table.mem_put.mp he' with rfl | ⟨he',-⟩
      · rw [hid]
        exact hg n (by simp [hpending]) hw (by rwa [← hstatus])
      · exact hs.shown e' he' happ
    · rw [refresh_skips hw]
      exact hs.shown
  · exact hs.shown

/-- The first step that misses the guard leaves a row of a node that is not approved. -/
theorem stale_step (hs : Sound s) (hg : ¬ Guard s a) (h : step L score s a = some t) :
    ¬ Fresh score t := by
  rw [fresh_iff]
  intro hfresh
  refine hg ?_
  obtain ⟨i,embed,scan,rfl,rfl⟩ | ⟨r,db,rfl,hdb,rfl⟩ | ⟨vec,n,pending,rfl,hpending,rfl⟩ |
    ⟨rfl,rfl⟩ := step_cases h
  · trivial
  · rintro e he hstatus rfl
    exact review_reject hdb (hs.stored e he) (hfresh e he hstatus)
  · intro m hm hw hstatus
    obtain rfl : n = m := by simpa [hpending] using hm
    obtain ⟨e,hid,he,hput⟩ := refresh_writes s.embeddings hw
    rw [hput] at hfresh
    have hshown := hfresh e (Table.mem_put.mpr (.inl rfl)) (by rwa [he])
    rwa [hid] at hshown
  · trivial

end Guarded

section Unrejected

variable {L : Lib} {score : V → V → Number} {s t : Store V} {a : Act V}

/-- No node is rejected, and the nodes that are still to be embedded as approved are approved. -/
structure Unrejected (s : Store V) : Prop extends Sound s where
  rejected : ∀ id, statusOf s.db id ≠ some .rejected
  pending : ∀ n ∈ s.pending, n.is_reuse = false → isApproved n.status = true →
    statusOf s.db n.id ≠ none → Shown s.db n.id

theorem guard_of_unrejected (hs : Unrejected s) (ha : NoReject s a) : Guard s a := by
  cases a with
  | run i embed scan => trivial
  | review r =>
    rintro e - - rfl
    exact ha e.node_id rfl
  | upsert vec =>
    intro n hn hw happ
    exact hs.pending n (List.mem_of_mem_head? hn) hw.1 happ hw.stored
  | crash => trivial

theorem unrejected_run (i : RunInput) (hs : Unrejected s) :
    (∀ id, statusOf (s.run L i).db id ≠ some .rejected) ∧ ∀ n ∈ (s.run L i).pending,
      n.is_reuse = false → isApproved n.status = true → statusOf (s.run L i).db n.id ≠ none →
      Shown (s.run L i).db n.id := by
  constructor
  · intro id
    rcases s.run_cases L i with ⟨hdb,-⟩ | ⟨outcome,output,hdb,-⟩
    · rw [hdb]
      exact hs.rejected id
    · rw [hdb]
      rcases persist_kept i.run_id s.db (staged L i s.db outcome output) id with
        he | ⟨-,n,hn,-,-,he⟩
      · rw [he]
        exact hs.rejected id
      · rw [he]
        exact fun h => staged_status hn (Option.some.inj h)
  · intro n hn hnew happ hstored
    rcases s.run_cases L i with ⟨-,hnil⟩ | ⟨outcome,output,hdb,hnil | hpending⟩
    · simp [hnil] at hn
    · simp [hnil] at hn
    rw [hpending] at hn
    rw [hdb] at hstored ⊢
    have hfresh := staged_fresh hs.rejected hn hnew
    rcases persist_kept i.run_id s.db (staged L i s.db outcome output) n.id with
      he | ⟨-,m,hm,hmnew,hid,he⟩
    · exact absurd (he.trans hfresh) hstored
    · rw [Shown,he,staged_unique hm hn hmnew hnew hid]
      exact happ

theorem unrejected_review {r : Review} {db : Db} (hs : Unrejected s)
    (hr : ∀ id, r ≠ .node id "reject".toList) (hdb : review s.db r = some db) :
    (∀ id, statusOf db id ≠ some .rejected) ∧ ∀ n ∈ s.pending, n.is_reuse = false →
      isApproved n.status = true → statusOf db n.id ≠ none → Shown db n.id := by
  constructor
  · intro id
    rcases review_statusOf hdb id with he | ⟨verdict,v,hnode,hv,-,he⟩
    · rw [he]
      exact hs.rejected id
    · rw [he]
      cases v with
      | approve => exact nofun
      | reject => exact absurd (by rw [hnode,parseVerdict_eq hv]) (hr id)
  · intro n hn hnew happ hstored
    refine review_shown hdb (hs.pending n hn hnew happ fun hnone => hstored ?_) (hr n.id)
    rcases review_statusOf hdb n.id with he | ⟨verdict,v,-,-,hne,-⟩
    · exact he.trans hnone
    · exact absurd hnone hne

theorem unrejected_step (hs : Unrejected s) (ha : NoReject s a)
    (h : step L score s a = some t) : Unrejected t := by
  have hsound := sound_step hs.toSound (guard_of_unrejected hs ha) h
  obtain ⟨i,embed,scan,rfl,rfl⟩ | ⟨r,db,rfl,hdb,rfl⟩ | ⟨vec,n,pending,rfl,hpending,rfl⟩ |
    ⟨rfl,rfl⟩ := step_cases h
  · obtain ⟨hrejected,hpending⟩ := unrejected_run _ hs
    exact ⟨hsound,hrejected,hpending⟩
  · obtain ⟨hrejected,hpending⟩ :=
      unrejected_review hs (fun id he => ha id (congrArg _ he)) hdb
    exact ⟨hsound,hrejected,hpending⟩
  · refine ⟨hsound,hs.rejected,fun m hm => ?_⟩
    exact hs.pending m (by simp [hpending,hm])
  · exact ⟨hsound,hs.rejected,by simp⟩

end Unrejected

section Runs

variable {L : Lib} {score : V → V → Number} {s t : Store V} {h : List (Store V × Act V)}

/-- What a run reuses by its embedding is a stored node. -/
theorem hitsStored (hs : Stored s) {i : RunInput} (embed : Str → Option V)
    (scan : Str → Option (Sql.Order (NodeEmbedding V))) :
    HitsStored { i with search := reused_id score s.embeddings embed scan } s.db := by
  intro name description id hid
  obtain ⟨query_vec,-,hhit⟩ := Option.bind_eq_some_iff.mp hid
  obtain ⟨hit,hhead,rfl⟩ := Option.map_eq_some_iff.mp hhit
  obtain ⟨e,he,-,hurn⟩ := mem_search (List.mem_of_mem_head? hhead)
  rw [hurn,Option.isSome_iff_ne_none]
  exact fun hnone => hs e he (statusOf_eq_none.mpr hnone)

/-- The tables of a reachable store are reachable by runs and reviews. -/
theorem reachable_db (hr : Reachable (system L score) s) : Reachable (ontology L) s.db := by
  refine (hr.invariant (I:=fun s => Stored s ∧ Reachable (ontology L) s.db) ?_ ?_).2
  · rintro s rfl
    exact ⟨by simp [Stored,Store.empty,Table.empty],reachable_empty L⟩
  · rintro s a t ⟨hs,s₀,hist,hinit,hrun⟩ h
    refine ⟨stored_step hs h,?_⟩
    obtain ⟨i,embed,scan,rfl,rfl⟩ | ⟨r,db,rfl,hdb,rfl⟩ | ⟨vec,n,pending,rfl,-,rfl⟩ |
      ⟨rfl,rfl⟩ := step_cases h
    · have hstep : (ontology L).step s.db
          (.run { i with search := reused_id score s.embeddings embed scan })
          (s.run L { i with search := reused_id score s.embeddings embed scan }).db :=
        ⟨hitsStored hs embed scan,rfl⟩
      exact ⟨s₀,_,hinit,hrun.step hstep⟩
    · have hstep : (ontology L).step s.db (.review r) db := hdb
      exact ⟨s₀,_,hinit,hrun.step hstep⟩
    · exact ⟨s₀,hist,hinit,hrun⟩
    · exact ⟨s₀,hist,hinit,hrun⟩

theorem unrejected_empty : Unrejected (Store.empty : Store V) where
  shown := by simp [Store.empty,Table.empty]
  stored := by simp [Stored,Store.empty,Table.empty]
  rejected id := by simp [Store.empty,Db.empty,statusOf,Table.empty,Table.get?]
  pending := by simp [Store.empty]

/-- The search is fresh along a run exactly when no step rejects a node whose row it looks at, or
writes such a row for a node that is not approved; in a run without rejections it is fresh. -/
theorem node_search_fresh_iff (hs : (system L score).init s) (hr : Run (system L score) s h t) :
    (Visits (Fresh score) h t ↔ Meets Guard h) ∧ (Meets NoReject h → Visits (Fresh score) h t) := by
  obtain rfl : s = Store.empty := hs
  have hfresh : ∀ s : Store V, Sound s → Fresh score s := fun s hs => fresh_iff.mpr hs.shown
  constructor
  · exact hr.visits_iff_meets unrejected_empty.toSound hfresh
      (fun s a t hs hg h => sound_step hs hg h) fun s a t hs hg h => stale_step hs hg h
  · intro hno
    have hv := hr.visits unrejected_empty (fun s a t hs ha h => unrejected_step hs ha h) hno
    exact ⟨hfresh _ hv.1.toSound,fun p hp => hfresh _ (hv.2 p hp).toSound⟩

end Runs

def acceptedRun : RunInput :=
  { sampleRun with
    max_turns := 2
    producer := fun _ _ => .message [⟨"ontogen_validate".toList,[("payload".toList,
      obj [("nodes",.arr [obj [("name",str "Order"),("confidence_score",.num (.fin 1)),
        ("dataset_urns",.arr [str "urn"])]])])]⟩]
    reviewer := fun _ _ => .message [⟨"ontogen_review".toList,
      [("overall_verdict".toList,str "accept"),("item_verdicts".toList,.arr []),
        ("summary".toList,str "")]⟩] }

def sampleScore : Unit → Unit → Number := fun _ _ => .fin 1

def reviewed (verdict : String) : List (Act Unit) :=
  [.run acceptedRun (fun _ => none) fun _ => none,.upsert (some ()),
    .review (.node "order".toList verdict.toList)]

def reviewedStore (verdict : String) : Store Unit :=
  ((replay (step sampleLib sampleScore) [] .empty (reviewed verdict)).map Prod.snd).getD .empty

/-- The search finds a node that was rejected after it was embedded. -/
theorem rejected_node_found :
    ¬ ∀ (V : Type) (L : Lib) (score : V → V → Number) (s t : Store V)
      (h : List (Store V × Act V)), (system L score).init s → Run (system L score) s h t →
      Fresh score t := by
  intro hall
  obtain ⟨⟨h,t⟩,he⟩ : ∃ r, replay (step sampleLib sampleScore) [] .empty (reviewed "reject") =
      some r := ⟨_,rfl⟩
  have hrun : Run (system sampleLib sampleScore) .empty h t := run_of_replay .refl he
  have hfresh := fresh_iff.mp (hall Unit sampleLib sampleScore _ t h rfl hrun)
  have ht : reviewedStore "reject" = t := by rw [reviewedStore,he,Option.map_some,Option.getD_some]
  rw [← ht] at hfresh
  have hrow : (reviewedStore "reject").embeddings.rows.any
      (fun e => e.node_id == "order".toList && isApproved e.status) = true := by decide +kernel
  have hstatus : statusOf (reviewedStore "reject").db "order".toList = some .rejected := by
    decide +kernel
  obtain ⟨e,hmem,he⟩ := List.any_eq_true.mp hrow
  rw [Bool.and_eq_true,beq_iff_eq] at he
  have hshown := hfresh e hmem he.2
  rw [Shown,he.1,hstatus] at hshown
  cases hshown

theorem node_search_fresh_sample :
    ∃ h t, Run (system sampleLib sampleScore) Store.empty h t ∧ h.length = 3 ∧
      Visits (Fresh sampleScore) h t := by
  obtain ⟨⟨h,t⟩,he⟩ : ∃ r, replay (step sampleLib sampleScore) [] .empty (reviewed "approve") =
      some r := ⟨_,rfl⟩
  have hrun : Run (system sampleLib sampleScore) .empty h t := run_of_replay .refl he
  refine ⟨h,t,hrun,?_,(node_search_fresh_iff rfl hrun).2 ?_⟩
  · cases he
    rfl
  · cases he
    simp [NoReject,Meets]

end NodeSearch
end Ontogen
end Dataspoke
