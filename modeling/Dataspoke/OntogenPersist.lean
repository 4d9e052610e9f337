import Dataspoke.OntogenRun
import Dataspoke.Fold

/-!
# What a run stages, and what the persist phase writes

One lemma on each round of the resolution and of the persist loops; the results on runs are
derived from these.
-/

namespace Dataspoke
namespace Ontogen

open Python Pydantic Slug Fold

section Resolution

variable {C : Context}

/-- A staged node: its proposal, and either a stored id or a new one. -/
theorem resolveNode_some {known : List Str} {p : OntogenLLMNode} {n : NodeUpsert}
    (h : resolveNode C known p = some n) :
    (n.name = strip isspace p.name ∧ n.description = p.description ∧
      n.confidence_score = p.confidence_score ∧ n.dataset_urns = p.dataset_urns) ∧
    ((n.is_reuse = true ∧ (get? n.name C.node_name_to_id = some n.id ∨
        C.search n.name n.description = some n.id)) ∨
      (n.is_reuse = false ∧ get? n.name C.node_name_to_id = none ∧ IsSnake n.id ∧
        n.id ∉ known)) := by
  unfold resolveNode at h
  dsimp only at h
  split at h
  · cases h
  cases h
  refine ⟨⟨rfl,rfl,rfl,rfl⟩,?_⟩
  cases hname : get? (strip isspace p.name) C.node_name_to_id with
  | some id => exact .inl ⟨rfl,.inl rfl⟩
  | none =>
    cases hhit : C.search (strip isspace p.name) p.description with
    | some id => exact .inl ⟨rfl,.inr rfl⟩
    | none =>
      obtain ⟨hnew,hsnake⟩ := make_snake_id_spec C.nfkd (strip isspace p.name) known
      exact .inr ⟨rfl,rfl,hsnake,hnew⟩

def stagedNodes (C : Context) (known : List Str) (ps : List OntogenLLMNode) : List NodeUpsert :=
  (resolveNodes C known ps).filterMap Prod.snd

theorem stagedNodes_cons (known : List Str) (p : OntogenLLMNode) (ps : List OntogenLLMNode) :
    stagedNodes C known (p::ps) = (resolveNode C known p).toList ++
      stagedNodes C (knownAfter known (resolveNode C known p)) ps := by
  simp only [stagedNodes,resolveNodes,List.filterMap_cons]
  cases resolveNode C known p <;> rfl

theorem subset_knownAfter (known : List Str) (n : Option NodeUpsert) :
    known ⊆ knownAfter known n := by
  unfold knownAfter
  split
  · split
    · exact fun _ h => h
    · exact List.subset_cons_self _ _
  · exact fun _ h => h

/-- Every staged node is staged by one round. -/
theorem mem_stagedNodes {known : List Str} {ps : List OntogenLLMNode} {n : NodeUpsert}
    (h : n ∈ stagedNodes C known ps) :
    ∃ p ∈ ps, ∃ known', known ⊆ known' ∧ resolveNode C known' p = some n := by
  induction ps generalizing known with
  | nil => simp [stagedNodes,resolveNodes] at h
  | cons p ps ih =>
    rw [stagedNodes_cons,List.mem_append,Option.mem_toList] at h
    rcases h with h | h
    · exact ⟨p,by simp,known,fun _ h => h,h⟩
    · obtain ⟨p',hp',known',hsub,hn⟩ := ih h
      exact ⟨p',by simp [hp'],known',fun _ hx => hsub (subset_knownAfter known _ hx),hn⟩

/-- No two new ids are equal. -/
theorem stagedNodes_pairwise (known : List Str) (ps : List OntogenLLMNode) :
    (stagedNodes C known ps).Pairwise fun m n =>
      m.is_reuse = false → n.is_reuse = false → m.id ≠ n.id := by
  induction ps generalizing known with
  | nil => exact .nil
  | cons p ps ih =>
    rw [stagedNodes_cons]
    cases hn : resolveNode C known p with
    | none => exact ih _
    | some n =>
      refine List.pairwise_cons.mpr ⟨fun m hm hnew hmnew he => ?_,ih _⟩
      obtain ⟨p',-,known',hsub,hm⟩ := mem_stagedNodes hm
      obtain ⟨-,⟨hreuse,-⟩ | ⟨-,-,-,hfresh⟩⟩ := resolveNode_some hm
      · rw [hmnew] at hreuse
        cases hreuse
      · refine hfresh (hsub ?_)
        rw [knownAfter]
        simp [hnew,he]

theorem resolveEdge_some {known : List Str} {p : OntogenLLMEdge} {e : EdgeUpsert}
    (h : resolveEdge C known p = some e) :
    (e.label = strip isspace p.label ∧ e.confidence_score = p.confidence_score ∧
      e.semantics = (if p.semantics = [] then none else some p.semantics)) ∧
    (get? e.label C.edge_label_to_id = some e.id ∨
      get? e.label C.edge_label_to_id = none ∧ IsSnake e.id ∧ e.id ∉ known) := by
  unfold resolveEdge at h
  dsimp only at h
  split at h
  · cases h
  cases h
  refine ⟨⟨rfl,rfl,rfl⟩,?_⟩
  cases hlabel : get? (strip isspace p.label) C.edge_label_to_id with
  | some id => exact .inl rfl
  | none =>
    obtain ⟨hnew,hsnake⟩ := make_snake_id_spec C.nfkd (strip isspace p.label) known
    exact .inr ⟨rfl,hsnake,hnew⟩

def stagedEdges (C : Context) (known : List Str) (ps : List OntogenLLMEdge) : List EdgeUpsert :=
  (resolveEdges C known ps).filterMap Prod.snd

theorem stagedEdges_cons (known : List Str) (p : OntogenLLMEdge) (ps : List OntogenLLMEdge) :
    stagedEdges C known (p::ps) = (resolveEdge C known p).toList ++
      stagedEdges C (knownEdgesAfter C known (resolveEdge C known p)) ps := by
  simp only [stagedEdges,resolveEdges,List.filterMap_cons]
  cases resolveEdge C known p <;> rfl

theorem subset_knownEdgesAfter (known : List Str) (e : Option EdgeUpsert) :
    known ⊆ knownEdgesAfter C known e := by
  unfold knownEdgesAfter
  split
  · split
    · exact fun _ h => h
    · exact List.subset_cons_self _ _
  · exact fun _ h => h

theorem mem_stagedEdges {known : List Str} {ps : List OntogenLLMEdge} {e : EdgeUpsert}
    (h : e ∈ stagedEdges C known ps) :
    ∃ p ∈ ps, ∃ known', known ⊆ known' ∧ resolveEdge C known' p = some e := by
  induction ps generalizing known with
  | nil => simp [stagedEdges,resolveEdges] at h
  | cons p ps ih =>
    rw [stagedEdges_cons,List.mem_append,Option.mem_toList] at h
    rcases h with h | h
    · exact ⟨p,by simp,known,fun _ h => h,h⟩
    · obtain ⟨p',hp',known',hsub,he⟩ := ih h
      exact ⟨p',by simp [hp'],known',fun _ hx => hsub (subset_knownEdgesAfter known _ hx),he⟩

theorem stagedEdges_pairwise (known : List Str) (ps : List OntogenLLMEdge) :
    (stagedEdges C known ps).Pairwise fun d e =>
      get? d.label C.edge_label_to_id = none → get? e.label C.edge_label_to_id = none →
        d.id ≠ e.id := by
  induction ps generalizing known with
  | nil => exact .nil
  | cons p ps ih =>
    rw [stagedEdges_cons]
    cases he : resolveEdge C known p with
    | none => exact ih _
    | some e =>
      refine List.pairwise_cons.mpr ⟨fun d hd hnew hdnew heq => ?_,ih _⟩
      obtain ⟨p',-,known',hsub,hd⟩ := mem_stagedEdges hd
      obtain ⟨-,hreuse | ⟨-,-,hfresh⟩⟩ := resolveEdge_some hd
      · rw [hdnew] at hreuse
        cases hreuse
      · refine hfresh (hsub ?_)
        rw [knownEdgesAfter]
        simp [hnew,heq]

end Resolution

theorem putMap_ok {db db' : Db} {row : DatasetNodeMap} (h : db.putMap row = .ok db') :
    (db.nodes.get? row.node_id).isSome ∧ db' = { db with maps := db.maps.put row } := by
  unfold Db.putMap at h
  split at h
  · cases h
  · rename_i hsome
    cases h
    exact ⟨by simpa [Option.isSome_iff_ne_none] using hsome,rfl⟩

theorem upsertMap_ok {node_id : Str} {confidence : Number} {status : Status} {db db' : Db}
    {urn : Str × ℕ} (h : upsertMap node_id confidence status db urn = .ok db') :
    (db.nodes.get? node_id).isSome ∧ ∃ row : DatasetNodeMap, row.key = (urn.1,node_id) ∧
      (row.confidence_score = confidence ∧ row.status = status) ∧
      db' = { db with maps := db.maps.put row } := by
  unfold upsertMap at h
  split at h
  · obtain ⟨hnode,hdb⟩ := putMap_ok h
    exact ⟨hnode,_,rfl,⟨rfl,rfl⟩,hdb⟩
  · rename_i row hrow
    obtain ⟨hnode,hdb⟩ := putMap_ok h
    have hkey : row.key = (urn.1,node_id) := (Table.get?_eq_some.mp hrow).2
    have hid : row.node_id = node_id := congrArg Prod.snd hkey
    exact ⟨by simpa [hid] using hnode,{ row with confidence_score := confidence, status := status },
      hkey,⟨rfl,rfl⟩,hdb⟩

/-- The tables but for the maps are the same. -/
def SameButMaps (db db' : Db) : Prop :=
  db'.nodes = db.nodes ∧ db'.edges = db.edges ∧ db'.triples = db.triples

theorem SameButMaps.refl (db : Db) : SameButMaps db db := ⟨rfl,rfl,rfl⟩

theorem SameButMaps.trans {db db' db'' : Db} (h : SameButMaps db db')
    (h' : SameButMaps db' db'') : SameButMaps db db'' :=
  ⟨h'.1.trans h.1,h'.2.1.trans h.2.1,h'.2.2.trans h.2.2⟩

theorem upsertMaps_ok {node_id : Str} {confidence : Number} {status : Status}
    {urns : List (Str × ℕ)} {db db' : Db}
    (h : urns.foldlM (upsertMap node_id confidence status) db = .ok db') :
    SameButMaps db db' ∧ ∀ k, db'.maps.get? k = db.maps.get? k ∨
      k.2 = node_id ∧ k.1 ∈ urns.map Prod.fst ∧
        ∃ row, db'.maps.get? k = some row ∧ row.confidence_score = confidence ∧
          row.status = status := by
  induction urns generalizing db with
  | nil =>
    cases h
    exact ⟨.refl _,fun _ => .inl rfl⟩
  | cons urn urns ih =>
    rw [List.foldlM_cons] at h
    obtain ⟨db₁,h₁,h⟩ := bind_eq_ok.mp h
    obtain ⟨-,row,hkey,hstatus,rfl⟩ := upsertMap_ok h₁
    obtain ⟨hsame,hmaps⟩ := ih h
    refine ⟨SameButMaps.trans ⟨rfl,rfl,rfl⟩ hsame,fun k => ?_⟩
    rcases hmaps k with hk | ⟨hid,hmem,hrow⟩
    · rw [hk,Table.get?_put,hkey]
      split
      · rename_i he
        rw [← he]
        exact .inr ⟨rfl,by simp,row,rfl,hstatus⟩
      · exact .inl rfl
    · exact .inr ⟨hid,by simp [hmem],hrow⟩

/-- What `_upsert_dataset_node_maps` writes: rows of the given node and URNs, at the status
of the confidence. -/
theorem upsert_dataset_node_maps_ok {db db' : Db} {node_id : Str} {urns : List Str}
    {confidence : Number} (h : upsert_dataset_node_maps db node_id urns confidence = .ok db') :
    SameButMaps db db' ∧ ∀ k, db'.maps.get? k = db.maps.get? k ∨
      k.2 = node_id ∧ k.1 ∈ urns ∧
        ∃ row, db'.maps.get? k = some row ∧ row.confidence_score = confidence ∧
          row.status = mapStatus confidence := by
  simpa using upsertMaps_ok h

/-- A node without a row fails on the foreign key of its first URN. -/
theorem upsert_dataset_node_maps_ok_iff {db : Db} {node_id : Str} {urns : List Str}
    {confidence : Number} :
    (∃ db', upsert_dataset_node_maps db node_id urns confidence = .ok db') ↔
      urns = [] ∨ (db.nodes.get? node_id).isSome := by
  constructor
  · rintro ⟨db',h⟩
    cases urns with
    | nil => exact .inl rfl
    | cons urn urns =>
      rw [upsert_dataset_node_maps,List.zipIdx_cons,List.foldlM_cons] at h
      obtain ⟨db₁,h₁,-⟩ := bind_eq_ok.mp h
      exact .inr (upsertMap_ok h₁).1
  · rintro (rfl | hnode)
    · exact ⟨db,rfl⟩
    · unfold upsert_dataset_node_maps
      generalize urns.zipIdx = us
      induction us generalizing db with
      | nil => exact ⟨db,rfl⟩
      | cons u us ih =>
        obtain ⟨db₁,h₁⟩ : ∃ db₁, upsertMap node_id confidence (mapStatus confidence) db u =
            .ok db₁ := by
          unfold upsertMap
          split
          · exact ⟨_,by rw [Db.putMap,if_neg (by simpa [Option.isSome_iff_ne_none] using hnode)]⟩
          · rename_i row hrow
            have hid : row.node_id = node_id :=
              congrArg Prod.snd (Table.get?_eq_some.mp hrow).2
            exact ⟨_,by rw [Db.putMap,if_neg (by simpa [hid,Option.isSome_iff_ne_none] using hnode)]⟩
        obtain ⟨-,row,-,-,rfl⟩ := upsertMap_ok h₁
        have hkeep : ({ db with maps := db.maps.put row }.nodes.get? node_id).isSome := hnode
        obtain ⟨db',h'⟩ := ih hkeep
        exact ⟨db',by rw [List.foldlM_cons,h₁]; exact h'⟩

theorem persistMaps_ok {db db' : Db} {n : NodeUpsert} (h : persistMaps db n = .ok db') :
    SameButMaps db db' ∧ ∀ k, db'.maps.get? k = db.maps.get? k ∨
      n.is_reuse = false ∧ k.2 = n.id ∧ k.1 ∈ n.dataset_urns ∧
        ∃ row, db'.maps.get? k = some row ∧ row.confidence_score = n.confidence_score ∧
          row.status = mapStatus n.confidence_score := by
  unfold persistMaps at h
  split at h
  · cases h
    exact ⟨.refl _,fun _ => .inl rfl⟩
  · rename_i hnew
    obtain ⟨hsame,hmaps⟩ := upsert_dataset_node_maps_ok h
    exact ⟨hsame,fun k => (hmaps k).imp_right fun hk => ⟨by simpa using hnew,hk⟩⟩

/-- The row the first loop leaves under the id of a new node. -/
def writtenNode (run_id : Str) (existing : Option OntogenNode) (n : NodeUpsert) : OntogenNode :=
  match existing with
  | none => ⟨n.id,n.name,n.description,n.confidence_score,n.status,some run_id⟩
  | some row =>
    if row.description ≠ n.description ∨ row.name ≠ n.name then
      { row with
        name := n.name
        description := n.description
        confidence_score := n.confidence_score }
    else row

theorem writtenNode_spec (run_id : Str) (nodes : Table OntogenNode.id) (n : NodeUpsert) :
    let row := writtenNode run_id (nodes.get? n.id) n
    row.id = n.id ∧ row.name = n.name ∧ row.description = n.description ∧
      row.status = (nodes.get? n.id).elim n.status (·.status) := by
  intro row
  cases h : nodes.get? n.id with
  | none => simp [row,h,writtenNode]
  | some existing =>
    have hid : existing.id = n.id := (Table.get?_eq_some.mp h).2
    by_cases hch : existing.description ≠ n.description ∨ existing.name ≠ n.name
    · simp [row,h,writtenNode,hch,hid]
    · have hrow : row = existing := by simp only [row,h,writtenNode,if_neg hch]
      rw [not_or,not_not,not_not] at hch
      rw [hrow]
      exact ⟨hid,hch.2,hch.1,rfl⟩

/-- The stored ids pass `assert_node_id`, and the names are unique. -/
structure NodesOk (nodes : Table OntogenNode.id) : Prop where
  slug : ∀ r ∈ nodes.rows, isSlug r.id = true
  unique : ∀ r ∈ nodes.rows, ∀ r' ∈ nodes.rows, r.name = r'.name → r.id = r'.id

/-- No other row has the name of the node. -/
def NoClash (nodes : Table OntogenNode.id) (n : NodeUpsert) : Prop :=
  ∀ r ∈ nodes.rows, r.name = n.name → r.id = n.id

theorem putNode_ok {db db' : Db} {row : OntogenNode} (h : db.putNode row = .ok db') :
    (∀ r ∈ db.nodes.rows, r.name = row.name → r.id = row.id) ∧
      db' = { db with nodes := db.nodes.put row } := by
  unfold Db.putNode at h
  split at h
  · cases h
  split at h
  · cases h
  rename_i hclash
  cases h
  exact ⟨by simpa using hclash,rfl⟩

theorem persistNode_ok {run_id : Str} {db db' : Db} {n : NodeUpsert}
    (h : persistNode run_id db n = .ok db') :
    (isSlug n.id = false ∧ db' = db) ∨
    (n.is_reuse = true ∧
      upsert_dataset_node_maps db n.id n.dataset_urns n.confidence_score = .ok db') ∨
    (isSlug n.id = true ∧ n.is_reuse = false ∧
      db' = { db with nodes := db.nodes.put (writtenNode run_id (db.nodes.get? n.id) n) }) := by
  unfold persistNode assert_node_id at h
  split at h
  · rename_i hslug
    cases h
    exact .inl ⟨by simpa using hslug,rfl⟩
  rename_i hslug
  split at h
  · exact .inr (.inl ⟨‹_›,h⟩)
  rename_i hnew
  refine .inr (.inr ⟨by simpa using hslug,by simpa using hnew,?_⟩)
  split at h
  · rename_i hnone
    unfold Db.insertNode at h
    split at h
    · cases h
    rw [hnone]
    exact (putNode_ok h).2
  · rename_i existing hsome
    obtain ⟨-,hid⟩ := Table.get?_eq_some.mp hsome
    split at h
    · rename_i hch
      rw [hsome,(putNode_ok h).2,writtenNode,if_pos hch]
    · rename_i hch
      cases h
      have hwritten : writtenNode run_id (some existing) n = existing := if_neg hch
      rw [hsome,hwritten,Table.put_eq_self (by rw [hid]; exact hsome)]

/-- A round that writes a node has found its name free. -/
theorem persistNode_noClash {run_id : Str} {db db' : Db} {n : NodeUpsert}
    (hdb : NodesOk db.nodes) (hslug : isSlug n.id = true) (hnew : n.is_reuse = false)
    (h : persistNode run_id db n = .ok db') : NoClash db.nodes n := by
  unfold persistNode assert_node_id at h
  rw [if_neg (by simp [hslug]),if_neg (by simp [hnew])] at h
  split at h
  · unfold Db.insertNode at h
    split at h
    · cases h
    exact (putNode_ok h).1
  · rename_i existing hsome
    obtain ⟨hmem,hid⟩ := Table.get?_eq_some.mp hsome
    intro r hr hname
    split at h
    · exact ((putNode_ok h).1 r hr hname).trans hid
    · rename_i hch
      rw [not_or,not_not,not_not] at hch
      exact (hdb.unique r hr existing hmem (hname.trans hch.2.symm)).trans hid

theorem persistNode_new {run_id : Str} {db : Db} {n : NodeUpsert} (hslug : isSlug n.id = true)
    (hnew : n.is_reuse = false) (hsingle : hasDouble n.id = false)
    (hclash : NoClash db.nodes n) : ∃ db', persistNode run_id db n = .ok db' := by
  have hput : ∀ row : OntogenNode, row.id = n.id → row.name = n.name →
      ∃ db', db.putNode row = .ok db' := by
    intro row hid hname
    rw [Db.putNode,hid,hname,if_neg (by simp [hsingle]),if_neg (by simpa [NoClash] using hclash)]
    exact ⟨_,rfl⟩
  unfold persistNode assert_node_id
  rw [if_neg (by simp [hslug]),if_neg (by simp [hnew])]
  split
  · rename_i hnone
    rw [Db.insertNode,if_neg (by simp [hnone])]
    exact hput _ rfl rfl
  · rename_i existing hsome
    split
    · exact hput _ (Table.get?_eq_some.mp hsome).2 rfl
    · exact ⟨db,rfl⟩

theorem nodesOk_put {nodes : Table OntogenNode.id} {row : OntogenNode} (h : NodesOk nodes)
    (hslug : isSlug row.id = true) (hclash : ∀ r ∈ nodes.rows, r.name = row.name → r.id = row.id) :
    NodesOk (nodes.put row) := by
  constructor
  · intro r hr
    rcases Table.mem_put.mp hr with rfl | ⟨hr,-⟩
    · exact hslug
    · exact h.slug r hr
  · intro r hr r' hr' hname
    rcases Table.mem_put.mp hr with rfl | ⟨hold,hne⟩ <;>
      rcases Table.mem_put.mp hr' with rfl | ⟨hold',hne'⟩
    · rfl
    · exact absurd (hclash r' hold' hname.symm) hne'
    · exact absurd (hclash r hold hname) hne
    · exact h.unique r hold r' hold' hname

theorem persistNode_nodesOk {run_id : Str} {db db' : Db} {n : NodeUpsert}
    (hdb : NodesOk db.nodes) (h : persistNode run_id db n = .ok db') : NodesOk db'.nodes := by
  obtain ⟨-,rfl⟩ | ⟨-,hmaps⟩ | ⟨hslug,hnew,rfl⟩ := persistNode_ok h
  · exact hdb
  · rw [(upsert_dataset_node_maps_ok hmaps).1.1]
    exact hdb
  · obtain ⟨hid,hname,-⟩ := writtenNode_spec run_id db.nodes n
    refine nodesOk_put hdb (by rw [hid]; exact hslug) fun r hr hr' => ?_
    rw [hid]
    exact persistNode_noClash hdb hslug hnew h r hr (hr'.trans hname)

/-- A round keeps every row, if not its contents. -/
theorem persistNode_isSome {run_id : Str} {db db' : Db} {n : NodeUpsert} {id : Str}
    (h : persistNode run_id db n = .ok db') (hid : (db.nodes.get? id).isSome) :
    (db'.nodes.get? id).isSome := by
  obtain ⟨-,rfl⟩ | ⟨-,hmaps⟩ | ⟨-,-,rfl⟩ := persistNode_ok h
  · exact hid
  · rwa [(upsert_dataset_node_maps_ok hmaps).1.1]
  · rw [Table.get?_put]
    split
    · rfl
    · exact hid

def EdgeUpsert.row (run_id : Str) (e : EdgeUpsert) : OntogenEdge :=
  ⟨e.id,e.label,e.semantics,e.confidence_score,e.status,some run_id⟩

theorem persistEdge_ok {run_id : Str} {db db' : Db} {e : EdgeUpsert}
    (h : persistEdge run_id db e = .ok db') :
    ((isSlug e.id = false ∨ (db.edges.get? e.id).isSome) ∧ db' = db) ∨
    (isSlug e.id = true ∧ db.edges.get? e.id = none ∧
      (∀ r ∈ db.edges.rows, r.label ≠ e.label) ∧
      db' = { db with edges := db.edges.put (e.row run_id) }) := by
  unfold persistEdge assert_edge_id at h
  split at h
  · rename_i hslug
    cases h
    exact .inl ⟨.inl (by simpa using hslug),rfl⟩
  rename_i hslug
  split at h
  · rename_i hsome
    cases h
    exact .inl ⟨.inr (by simp [hsome]),rfl⟩
  rename_i hnone
  unfold Db.insertEdge at h
  split at h
  · cases h
  split at h
  · cases h
  split at h
  · cases h
  rename_i hlabel
  cases h
  exact .inr ⟨by simpa using hslug,hnone,by simpa using hlabel,rfl⟩

theorem persistEdge_new {run_id : Str} {db : Db} {e : EdgeUpsert}
    (hsingle : hasDouble e.id = false) (hlabel : ∀ r ∈ db.edges.rows, r.label ≠ e.label) :
    ∃ db', persistEdge run_id db e = .ok db' := by
  unfold persistEdge
  split
  · exact ⟨db,rfl⟩
  split
  · exact ⟨db,rfl⟩
  rename_i hnone
  rw [Db.insertEdge,if_neg (by simp [hnone]),if_neg (by simp [hsingle]),
    if_neg (by simpa using hlabel)]
  exact ⟨_,rfl⟩

def TripleUpsert.row (run_id : Str) (t : TripleUpsert) : OntogenTriple :=
  ⟨t.id,t.subject_node_id,t.edge_id,t.object_node_id,t.confidence_score,t.status,some run_id⟩

/-- A round of the third loop writes at most its triple, whose nodes and edge are there. -/
theorem persistTriple_ok {run_id : Str} {db db' : Db} {t : TripleUpsert}
    (h : persistTriple run_id db t = .ok db') :
    db' = db ∨ ((db.nodes.get? t.subject_node_id).isSome ∧ (db.edges.get? t.edge_id).isSome ∧
      (db.nodes.get? t.object_node_id).isSome ∧ db.triples.get? t.id = none ∧
      db' = { db with triples := db.triples.put (t.row run_id) }) := by
  unfold persistTriple at h
  split at h
  · rename_i hs ho he
    split at h
    · cases h
      exact .inl rfl
    · rename_i hnone
      unfold Db.insertTriple at h
      split at h
      · cases h
      split at h
      · cases h
      split at h
      · cases h
      cases h
      exact .inr ⟨by simp [hs],by simp [he],by simp [ho],hnone,rfl⟩
  · cases h
    exact .inl rfl

/-- A triple whose id is made of its references never violates a constraint. -/
theorem persistTriple_total {run_id : Str} {t : TripleUpsert}
    (ht : t.id = tripleId t.subject_node_id t.edge_id t.object_node_id) (db : Db) :
    ∃ db', persistTriple run_id db t = .ok db' := by
  unfold persistTriple
  split
  · rename_i hs ho he
    split
    · exact ⟨db,rfl⟩
    · rename_i hnone
      rw [Db.insertTriple,if_neg (by simp [hnone]),if_neg (by simp [ht]),
        if_neg (by simp [hs,ho,he])]
      exact ⟨_,rfl⟩
  · exact ⟨db,rfl⟩

end Ontogen
end Dataspoke
