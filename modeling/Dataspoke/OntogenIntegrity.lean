import Dataspoke.OntogenPersist
import Dataspoke.OntogenResolve
import Dataspoke.OntogenReview

/-!
# The constraints of the ontology tables

Runs and reviews in any order, and the exact condition on a payload and the tables under
which the persist phase violates no constraint.
-/

namespace Dataspoke
namespace Ontogen

open Python Pydantic Slug Fold Debate Transition

/-- The hits of the embedding search name stored nodes: `node_embeddings.node_id` is a
foreign key. -/
def HitsStored (i : RunInput) (db : Db) : Prop :=
  ∀ name description id, i.search name description = some id → (db.nodes.get? id).isSome

inductive Action
  | run (i : RunInput)
  | review (r : Review)

/-- The ontology tables under runs and reviews in any order. -/
def ontology (L : Lib) : System Db Action where
  init db := db = .empty
  step db a db' := match a with
    | .run i => HitsStored i db ∧ (run_inner L i db).1 = db'
    | .review r => review db r = some db'

section Reuse

theorem mem_nameToId {rows : List (Str × Str × Status)} {name id : Str}
    (h : (name,id) ∈ nameToId rows) : ∃ status, (name,id,status) ∈ rows ∧ status.eligible := by
  simp only [nameToId,List.map_append,List.map_reverse,List.mem_append,List.mem_reverse,
    List.mem_map,List.mem_filter,Prod.mk.injEq] at h
  obtain ⟨r,⟨hr,hstatus⟩,rfl,rfl⟩ | ⟨r,⟨hr,hstatus⟩,rfl,rfl⟩ := h
  · refine ⟨r.2.2,hr,?_⟩
    cases hst : r.2.2 <;> simp_all [Status.eligible]
  · refine ⟨r.2.2,hr,?_⟩
    cases hst : r.2.2 <;> simp_all [Status.eligible]

/-- A node reused for its name is stored under the name, and not rejected. -/
theorem node_name_to_id_some {db : Db} {name id : Str}
    (h : get? name (node_name_to_id db) = some id) :
    ∃ row, db.nodes.get? id = some row ∧ row.name = name ∧ row.status.eligible := by
  obtain ⟨status,hmem,helig⟩ := mem_nameToId (mem_of_get? h)
  obtain ⟨row,hrow,he⟩ := List.mem_map.mp hmem
  obtain ⟨rfl,rfl,rfl⟩ : row.name = name ∧ row.id = id ∧ row.status = status := by simpa using he
  exact ⟨row,Table.get?_eq_some.mpr ⟨hrow,rfl⟩,rfl,helig⟩

theorem edge_label_to_id_some {db : Db} {label id : Str}
    (h : get? label (edge_label_to_id db) = some id) :
    ∃ row, db.edges.get? id = some row ∧ row.label = label := by
  obtain ⟨status,hmem,-⟩ := mem_nameToId (mem_of_get? h)
  obtain ⟨row,hrow,he⟩ := List.mem_map.mp hmem
  obtain ⟨rfl,rfl,-⟩ : row.label = label ∧ row.id = id ∧ row.status = status := by simpa using he
  exact ⟨row,Table.get?_eq_some.mpr ⟨hrow,rfl⟩,rfl⟩

variable {L : Lib} {i : RunInput} {db : Db} {outcome : Outcome} {output : OntogenLLMOutput}

theorem staged_node {n : NodeUpsert} (h : n ∈ (staged L i db outcome output).nodes) :
    ∃ p ∈ output.nodes, ∃ known, existing_node_ids db ⊆ known ∧
      resolveNode (i.context L db outcome) known p = some n :=
  mem_stagedNodes h

theorem staged_edge {e : EdgeUpsert} (h : e ∈ (staged L i db outcome output).edges) :
    ∃ p ∈ output.edges, ∃ known, existing_edge_ids db ⊆ known ∧
      resolveEdge (i.context L db outcome) known p = some e :=
  mem_stagedEdges h

/-- A reused id has a row, a new one is made by `make_snake_id`. -/
theorem staged_node_id (hits : HitsStored i db) {n : NodeUpsert}
    (h : n ∈ (staged L i db outcome output).nodes) :
    (n.is_reuse = true → (db.nodes.get? n.id).isSome) ∧ (n.is_reuse = false → IsSnake n.id) := by
  obtain ⟨p,-,known,-,hn⟩ := staged_node h
  obtain ⟨-,⟨hreuse,hname | hhit⟩ | ⟨hnew,-,hsnake,-⟩⟩ := resolveNode_some hn
  · obtain ⟨row,hrow,-⟩ := node_name_to_id_some hname
    exact ⟨fun _ => by simp [hrow],fun hnew => by simp [hreuse] at hnew⟩
  · exact ⟨fun _ => hits _ _ _ hhit,fun hnew => by simp [hreuse] at hnew⟩
  · exact ⟨fun hreuse => by simp [hnew] at hreuse,fun _ => hsnake⟩

theorem staged_edge_id {e : EdgeUpsert} (h : e ∈ (staged L i db outcome output).edges) :
    (∃ id, get? e.label (edge_label_to_id db) = some id ∧ (db.edges.get? e.id).isSome) ∨
      get? e.label (edge_label_to_id db) = none ∧ IsSnake e.id := by
  obtain ⟨p,-,known,-,he⟩ := staged_edge h
  obtain ⟨-,hlabel | ⟨hlabel,hsnake,-⟩⟩ := resolveEdge_some he
  · obtain ⟨row,hrow,-⟩ := edge_label_to_id_some hlabel
    exact .inl ⟨e.id,hlabel,by simp [hrow]⟩
  · exact .inr ⟨hlabel,hsnake⟩

/-- The id of a staged triple is made of its references. -/
theorem staged_triple_id {t : TripleUpsert} (h : t ∈ (staged L i db outcome output).triples) :
    t.id = tripleId t.subject_node_id t.edge_id t.object_node_id := by
  obtain ⟨⟨p,t'⟩,hmem,rfl⟩ := List.mem_filterMap.mp h
  obtain ⟨p',-,he⟩ := List.mem_map.mp hmem
  obtain ⟨rfl,hres⟩ := Prod.mk.inj he
  unfold resolveTriple at hres
  dsimp only at hres
  split at hres
  · cases hres
  split at hres
  · cases hres
  · cases hres
    rfl

end Reuse

section Nodes

/-- A new node after the nodes `before`: none of these is new and has its name, and a stored
row with its name has its id or gets another name from one of them. -/
def NodeFits (nodes : Table OntogenNode.id) (before : List NodeUpsert) (n : NodeUpsert) : Prop :=
  n.is_reuse = false → (∀ v ∈ before, v.is_reuse = false → v.name ≠ n.name) ∧
    ∀ r ∈ nodes.rows, r.name = n.name → r.id = n.id ∨ ∃ v ∈ before, v.is_reuse = false ∧ v.id = r.id

/-- The new ids are short enough, and the names are free. -/
def NodesFit (nodes : Table OntogenNode.id) (ns : List NodeUpsert) : Prop :=
  (∀ n ∈ ns, n.is_reuse = false → isSlug n.id = true) ∧ Along (NodeFits nodes) ns

variable {run_id : Str} {db : Db}

theorem persistNode_ok_iff {s : Db} {n : NodeUpsert} (hs : NodesOk s.nodes)
    (hreuse : n.is_reuse = true → (s.nodes.get? n.id).isSome)
    (hnew : n.is_reuse = false → IsSnake n.id ∧ isSlug n.id = true) :
    (∃ t, persistNode run_id s n = .ok t) ↔ NodeFits s.nodes [] n := by
  constructor
  · rintro ⟨t,ht⟩ hnew'
    refine ⟨by simp,fun r hr hname => .inl ?_⟩
    exact persistNode_noClash hs (hnew hnew').2 hnew' ht r hr hname
  · intro hfit
    cases hr : n.is_reuse with
    | true =>
      obtain ⟨t,ht⟩ : ∃ t, upsert_dataset_node_maps s n.id n.dataset_urns n.confidence_score =
          .ok t := upsert_dataset_node_maps_ok_iff.mpr (.inr (hreuse hr))
      by_cases hslug : isSlug n.id = true
      · exact ⟨t,by simpa [persistNode,assert_node_id,hslug,hr] using ht⟩
      · exact ⟨s,by simp [persistNode,assert_node_id,hslug]⟩
    | false =>
      obtain ⟨hsnake,hslug⟩ := hnew hr
      refine persistNode_new hslug hr hsnake.single fun r hmem hname => ?_
      exact ((hfit hr).2 r hmem hname).resolve_right (by simp)

/-- A round moves the condition on a later node to the rows it leaves. -/
theorem nodeFits_persistNode {s t : Db} {x y : NodeUpsert} {before : List NodeUpsert}
    (hx : x.is_reuse = false → isSlug x.id = true)
    (hne : ∀ z ∈ before ++ [y], x.is_reuse = false → z.is_reuse = false → x.id ≠ z.id)
    (ht : persistNode run_id s x = .ok t) :
    NodeFits t.nodes before y ↔ NodeFits s.nodes (x::before) y := by
  cases hr : x.is_reuse with
  | true =>
    have hnodes : t.nodes = s.nodes := by
      obtain ⟨-,rfl⟩ | ⟨-,hmaps⟩ | ⟨-,hnew,-⟩ := persistNode_ok ht
      · rfl
      · exact (upsert_dataset_node_maps_ok hmaps).1.1
      · rw [hr] at hnew
        cases hnew
    simp [NodeFits,hnodes,hr]
  | false =>
    obtain ⟨hslug,-⟩ | ⟨hreuse,-⟩ | ⟨-,-,rfl⟩ := persistNode_ok ht
    · rw [hx hr] at hslug
      cases hslug
    · rw [hr] at hreuse
      cases hreuse
    obtain ⟨hid,hname,-⟩ := writtenNode_spec run_id s.nodes x
    constructor
    · intro hfit hy
      obtain ⟨hnames,hrows⟩ := hfit hy
      refine ⟨List.forall_mem_cons.mpr ⟨fun _ he => ?_,hnames⟩,fun r hmem hrname => ?_⟩
      · -- the row of `x` would need the id of `y`, or of a node in between
        rcases hrows _ (Table.mem_put.mpr (.inl rfl)) (hname.trans he) with h | ⟨v,hv,hvnew,h⟩
        · exact hne y (by simp) hr hy (hid.symm.trans h)
        · exact hne v (by simp [hv]) hr hvnew (hid.symm.trans h.symm)
      · by_cases hrid : r.id = x.id
        · exact .inr ⟨x,by simp,hr,hrid.symm⟩
        · rcases hrows r (Table.mem_put.mpr (.inr ⟨hmem,by rwa [hid]⟩)) hrname with h | ⟨v,hv,h⟩
          · exact .inl h
          · exact .inr ⟨v,by simp [hv],h⟩
    · intro hfit hy
      obtain ⟨hnames,hrows⟩ := hfit hy
      obtain ⟨hxname,hnames⟩ := List.forall_mem_cons.mp hnames
      refine ⟨hnames,fun r hmem hrname => ?_⟩
      rcases Table.mem_put.mp hmem with rfl | ⟨hold,hrid⟩
      · exact absurd (hname.symm.trans hrname) (hxname hr)
      · rcases hrows r hold hrname with h | ⟨v,hv,hvnew,h⟩
        · exact .inl h
        · rcases List.mem_cons.mp hv with rfl | hv
          · exact absurd (h.symm.trans hid.symm) hrid
          · exact .inr ⟨v,hv,hvnew,h⟩

section Loops

variable {ns : List NodeUpsert} (hdb : NodesOk db.nodes)
  (hid : ∀ n ∈ ns, (n.is_reuse = true → (db.nodes.get? n.id).isSome) ∧
    (n.is_reuse = false → IsSnake n.id))
  (hpair : ns.Pairwise fun m n => m.is_reuse = false → n.is_reuse = false → m.id ≠ n.id)

include hdb

theorem nodeLoop_nodesOk {db₁ : Db} (h : ns.foldlM (persistNode run_id) db = .ok db₁) :
    NodesOk db₁.nodes :=
  foldlM_invariant (I:=fun s => NodesOk s.nodes) (fun _ _ _ _ hs ht => persistNode_nodesOk hs ht)
    hdb h

theorem nodeLoop_isSome {db₁ : Db} (h : ns.foldlM (persistNode run_id) db = .ok db₁)
    {n : NodeUpsert} (hn : n ∈ ns) (hnew : n.is_reuse = false) (hslug : isSlug n.id = true) :
    (db₁.nodes.get? n.id).isSome := by
  refine foldlM_establishes (I:=fun s => NodesOk s.nodes)
    (J:=fun s => (s.nodes.get? n.id).isSome) hn (fun _ _ _ _ hs ht => persistNode_nodesOk hs ht)
    (fun _ _ _ _ hs hj ht => persistNode_isSome ht hj) (fun s t hs ht => ?_) hdb h
  obtain ⟨hslug',-⟩ | ⟨hreuse,-⟩ | ⟨-,-,rfl⟩ := persistNode_ok ht
  · rw [hslug] at hslug'
    cases hslug'
  · rw [hnew] at hreuse
    cases hreuse
  · dsimp only
    rw [Table.get?_put,if_pos (writtenNode_spec run_id s.nodes n).1]
    rfl

include hid hpair

theorem nodeLoop_ok_iff (hslug : ∀ n ∈ ns, n.is_reuse = false → isSlug n.id = true) :
    (∃ db₁, ns.foldlM (persistNode run_id) db = .ok db₁) ↔ Along (NodeFits db.nodes) ns := by
  refine foldlM_ok_iff (P:=fun s : Db => NodeFits s.nodes)
    (I:=fun s : Db =>
      NodesOk s.nodes ∧ ∀ id, (db.nodes.get? id).isSome → (s.nodes.get? id).isSome)
    (D:=fun n => (n.is_reuse = true → (db.nodes.get? n.id).isSome) ∧
      (n.is_reuse = false → IsSnake n.id ∧ isSlug n.id = true)) ?_ ?_
    (fun n hn => ⟨(hid n hn).1,fun hnew => ⟨(hid n hn).2 hnew,hslug n hn hnew⟩⟩) hpair
    ⟨hdb,fun _ h => h⟩
  · rintro s x ⟨hs,hsome⟩ ⟨hreuse,hnew⟩
    exact persistNode_ok_iff hs (fun hr => hsome _ (hreuse hr)) hnew
  · rintro s x t ⟨hs,hsome⟩ ⟨-,hnew⟩ ht
    refine ⟨⟨persistNode_nodesOk hs ht,fun id h => persistNode_isSome ht (hsome id h)⟩,?_⟩
    exact fun before y hz => nodeFits_persistNode (fun hr => (hnew hr).2)
      (fun z hmem => (hz z hmem).2) ht

end Loops

theorem mapLoop_ok_iff {ns : List NodeUpsert} (hurns : ∀ n ∈ ns, n.dataset_urns ≠ []) :
    (∃ t, ns.foldlM persistMaps db = .ok t) ↔
      ∀ n ∈ ns, n.is_reuse = false → (db.nodes.get? n.id).isSome := by
  have hround : ∀ s n, n.dataset_urns ≠ [] → ((∃ t, persistMaps s n = .ok t) ↔
      (n.is_reuse = false → (s.nodes.get? n.id).isSome)) := by
    intro s n hne
    unfold persistMaps
    split
    · rename_i hreuse
      simp [hreuse]
    · rename_i hnew
      rw [upsert_dataset_node_maps_ok_iff]
      simp [hne,hnew]
  refine Iff.trans ?_ (along_const
    (p:=fun n : NodeUpsert => n.is_reuse = false → (db.nodes.get? n.id).isSome))
  refine foldlM_ok_iff (P:=fun (s : Db) _ n => n.is_reuse = false → (s.nodes.get? n.id).isSome)
    (I:=fun _ => True) (R:=fun _ _ => True) (fun s n _ => hround s n) (fun s n t _ _ ht => ?_)
    hurns (List.pairwise_of_forall fun _ _ => trivial) trivial
  have hnodes : t.nodes = s.nodes := (persistMaps_ok ht).1.1
  simp [hnodes]

/-- The node phase goes through exactly when the new nodes fit. -/
theorem persistNodes_ok_iff {ns : List NodeUpsert} (hdb : NodesOk db.nodes)
    (hid : ∀ n ∈ ns, (n.is_reuse = true → (db.nodes.get? n.id).isSome) ∧
      (n.is_reuse = false → IsSnake n.id))
    (hpair : ns.Pairwise fun m n => m.is_reuse = false → n.is_reuse = false → m.id ≠ n.id)
    (hurns : ∀ n ∈ ns, n.dataset_urns ≠ []) :
    (∃ t, persistNodes run_id ns db = .ok t) ↔ NodesFit db.nodes ns := by
  constructor
  · rintro ⟨t,ht⟩
    obtain ⟨db₁,h₁,h₂⟩ := bind_eq_ok.mp ht
    have hslug : ∀ n ∈ ns, n.is_reuse = false → isSlug n.id = true := by
      intro n hn hnew
      obtain ⟨row,hrow⟩ := Option.isSome_iff_exists.mp ((mapLoop_ok_iff hurns).mp ⟨t,h₂⟩ n hn hnew)
      obtain ⟨hmem,hrid⟩ := Table.get?_eq_some.mp hrow
      rw [← hrid]
      exact (nodeLoop_nodesOk hdb h₁).slug row hmem
    exact ⟨hslug,(nodeLoop_ok_iff hdb hid hpair hslug).mp ⟨db₁,h₁⟩⟩
  · rintro ⟨hslug,halong⟩
    obtain ⟨db₁,h₁⟩ := (nodeLoop_ok_iff hdb hid hpair hslug).mpr halong
    obtain ⟨t,ht⟩ := (mapLoop_ok_iff hurns).mpr
      fun n hn hnew => nodeLoop_isSome hdb h₁ hn hnew (hslug n hn hnew)
    exact ⟨t,bind_eq_ok.mpr ⟨db₁,h₁,ht⟩⟩

/-- The node phase does not touch edges or triples, and keeps the node table in order. -/
theorem persistNodes_ok {ns : List NodeUpsert} {db' : Db}
    (h : persistNodes run_id ns db = .ok db') :
    (NodesOk db.nodes → NodesOk db'.nodes) ∧ db'.edges = db.edges ∧ db'.triples = db.triples := by
  obtain ⟨db₁,h₁,h₂⟩ := bind_eq_ok.mp h
  have hloop := foldlM_invariant
    (I:=fun s : Db => (NodesOk db.nodes → NodesOk s.nodes) ∧ s.edges = db.edges ∧
      s.triples = db.triples)
    (fun s n _ t hs ht => ?_) ⟨fun h => h,rfl,rfl⟩ h₁
  · refine foldlM_invariant
      (I:=fun s : Db => (NodesOk db.nodes → NodesOk s.nodes) ∧ s.edges = db.edges ∧
        s.triples = db.triples)
      (fun s n _ t hs ht => ?_) hloop h₂
    obtain ⟨hn,he,ht⟩ := (persistMaps_ok ht).1
    rw [hn,he,ht]
    exact hs
  · refine ⟨fun hdb => persistNode_nodesOk (hs.1 hdb) ht,?_⟩
    obtain ⟨-,rfl⟩ | ⟨-,hmaps⟩ | ⟨-,-,rfl⟩ := persistNode_ok ht
    · exact hs.2
    · obtain ⟨-,he,ht⟩ := (upsert_dataset_node_maps_ok hmaps).1
      rw [he,ht]
      exact hs.2
    · exact hs.2

end Nodes

section Edges

/-- The second loop of the persist phase inserts the edge. -/
def Inserts (edges : Table OntogenEdge.id) (e : EdgeUpsert) : Prop :=
  isSlug e.id = true ∧ edges.get? e.id = none

/-- An inserted edge has a label that no stored row and no inserted edge before it has. -/
def EdgeFits (edges : Table OntogenEdge.id) (before : List EdgeUpsert) (e : EdgeUpsert) : Prop :=
  Inserts edges e → (∀ v ∈ before, Inserts edges v → v.label ≠ e.label) ∧
    ∀ r ∈ edges.rows, r.label ≠ e.label

def EdgesFit (edges : Table OntogenEdge.id) (es : List EdgeUpsert) : Prop :=
  Along (EdgeFits edges) es

variable {run_id : Str}

theorem persistEdge_ok_iff {s : Db} {e : EdgeUpsert}
    (hsingle : Inserts s.edges e → hasDouble e.id = false) :
    (∃ t, persistEdge run_id s e = .ok t) ↔ EdgeFits s.edges [] e := by
  constructor
  · rintro ⟨t,ht⟩ ⟨hslug,hnone⟩
    obtain ⟨hslug' | hsome,-⟩ | ⟨-,-,hlabel,-⟩ := persistEdge_ok ht
    · rw [hslug] at hslug'
      cases hslug'
    · simp [hnone] at hsome
    · exact ⟨by simp,hlabel⟩
  · intro hfit
    by_cases hins : Inserts s.edges e
    · exact persistEdge_new (hsingle hins) (hfit hins).2
    · refine ⟨s,?_⟩
      unfold persistEdge assert_edge_id
      split
      · rfl
      rename_i hslug
      split
      · rfl
      · rename_i hnone
        exact absurd ⟨by simpa using hslug,hnone⟩ hins

theorem edgeFits_persistEdge {s t : Db} {x y : EdgeUpsert} {before : List EdgeUpsert}
    (hne : ∀ z ∈ before ++ [y], Inserts s.edges x → Inserts s.edges z → x.id ≠ z.id)
    (ht : persistEdge run_id s x = .ok t) :
    EdgeFits t.edges before y ↔ EdgeFits s.edges (x::before) y := by
  obtain ⟨hskip,rfl⟩ | ⟨hslug,hnone,-,rfl⟩ := persistEdge_ok ht
  · have hx : ¬ Inserts t.edges x := by
      rintro ⟨hslug,hnone⟩
      rcases hskip with h | h
      · rw [hslug] at h
        cases h
      · simp [hnone] at h
    simp [EdgeFits,hx]
  · have hins : ∀ z ∈ before ++ [y], (Inserts (s.edges.put (x.row run_id)) z ↔
        Inserts s.edges z) := by
      intro z hz
      unfold Inserts
      rw [Table.get?_put]
      by_cases hid : x.id = z.id
      · have hz' : ¬ Inserts s.edges z := fun h => hne z hz ⟨hslug,hnone⟩ h hid
        rw [if_pos (show (x.row run_id).id = z.id from hid)]
        exact ⟨fun h => by simp at h,fun h => absurd h hz'⟩
      · rw [if_neg (show ¬ (x.row run_id).id = z.id from hid)]
    have hrows : (∀ r ∈ (s.edges.put (x.row run_id)).rows, r.label ≠ y.label) ↔
        x.label ≠ y.label ∧ ∀ r ∈ s.edges.rows, r.label ≠ y.label := by
      constructor
      · intro h
        refine ⟨h (x.row run_id) (Table.mem_put.mpr (.inl rfl)),fun r hr => ?_⟩
        refine h r (Table.mem_put.mpr (.inr ⟨hr,fun hid => ?_⟩))
        exact Table.get?_eq_none.mp hnone r hr hid
      · rintro ⟨hx,hold⟩ r hr
        rcases Table.mem_put.mp hr with rfl | ⟨hr,-⟩
        · exact hx
        · exact hold r hr
    have hbefore : (∀ v ∈ before, Inserts (s.edges.put (x.row run_id)) v → v.label ≠ y.label) ↔
        ∀ v ∈ before, Inserts s.edges v → v.label ≠ y.label := by
      refine forall₂_congr fun v hv => ?_
      rw [hins v (by simp [hv])]
    unfold EdgeFits
    dsimp only
    rw [hins y (by simp),hrows,hbefore,List.forall_mem_cons]
    refine imp_congr_right fun _ => ?_
    constructor
    · rintro ⟨hb,hx,hr⟩
      exact ⟨⟨fun _ => hx,hb⟩,hr⟩
    · rintro ⟨⟨hx,hb⟩,hr⟩
      exact ⟨hb,hx ⟨hslug,hnone⟩,hr⟩

theorem persistEdge_isSome {s t : Db} {e : EdgeUpsert} {id : Str}
    (h : persistEdge run_id s e = .ok t) (hid : (s.edges.get? id).isSome) :
    (t.edges.get? id).isSome := by
  obtain ⟨-,rfl⟩ | ⟨-,-,-,rfl⟩ := persistEdge_ok h
  · exact hid
  · rw [Table.get?_put]
    split
    · rfl
    · exact hid

/-- The edge phase goes through exactly when the inserted edges fit. -/
theorem persistEdges_ok_iff {db : Db} (known : Str → Option Str) {es : List EdgeUpsert}
    (hid : ∀ e ∈ es, (known e.label ≠ none → (db.edges.get? e.id).isSome) ∧
      (known e.label = none → IsSnake e.id))
    (hpair : es.Pairwise fun d e => known d.label = none → known e.label = none → d.id ≠ e.id) :
    (∃ t, persistEdges run_id es db = .ok t) ↔ EdgesFit db.edges es := by
  have hnew : ∀ {s : Db} {e : EdgeUpsert},
      (∀ id, (db.edges.get? id).isSome → (s.edges.get? id).isSome) →
      (known e.label ≠ none → (db.edges.get? e.id).isSome) → Inserts s.edges e →
      known e.label = none := by
    intro s e hs he hins
    by_contra hne
    have := hs _ (he hne)
    rw [hins.2] at this
    cases this
  refine foldlM_ok_iff (P:=fun s : Db => EdgeFits s.edges)
    (I:=fun s : Db => ∀ id, (db.edges.get? id).isSome → (s.edges.get? id).isSome) ?_ ?_
    hid hpair fun _ h => h
  · intro s e hs he
    exact persistEdge_ok_iff fun hins => (he.2 (hnew hs he.1 hins)).single
  · intro s x t hs hx ht
    refine ⟨fun id h => persistEdge_isSome ht (hs id h),fun before y hz => ?_⟩
    refine edgeFits_persistEdge (fun z hmem hinx hinz => ?_) ht
    exact (hz z hmem).2 (hnew hs hx.1 hinx) (hnew hs (hz z hmem).1.1 hinz)

theorem persistEdges_ok {es : List EdgeUpsert} {db db' : Db}
    (h : persistEdges run_id es db = .ok db') :
    db'.nodes = db.nodes ∧ db'.maps = db.maps ∧ db'.triples = db.triples := by
  refine foldlM_invariant
    (I:=fun s : Db => s.nodes = db.nodes ∧ s.maps = db.maps ∧ s.triples = db.triples)
    (fun s e _ t hs ht => ?_) ⟨rfl,rfl,rfl⟩ h
  obtain ⟨-,rfl⟩ | ⟨-,-,-,rfl⟩ := persistEdge_ok ht
  · exact hs
  · exact hs

end Edges

section Triples

variable {run_id : Str}

theorem persistTriples_total {ts : List TripleUpsert}
    (h : ∀ t ∈ ts, t.id = tripleId t.subject_node_id t.edge_id t.object_node_id) (db : Db) :
    ∃ db', persistTriples run_id ts db = .ok db' := by
  refine (foldlM_ok_iff (P:=fun _ _ _ => True) (I:=fun _ => True) (R:=fun _ _ => True)
    (fun s t _ ht => ?_) (fun s x t _ _ _ => ⟨trivial,fun _ _ _ => Iff.rfl⟩) h
    (List.pairwise_of_forall fun _ _ => trivial) trivial).mpr fun _ _ _ _ => trivial
  exact ⟨fun _ => trivial,fun _ => persistTriple_total ht s⟩

theorem persistTriples_ok {ts : List TripleUpsert} {db db' : Db}
    (h : persistTriples run_id ts db = .ok db') :
    db'.nodes = db.nodes ∧ db'.maps = db.maps ∧ db'.edges = db.edges := by
  refine foldlM_invariant
    (I:=fun s : Db => s.nodes = db.nodes ∧ s.maps = db.maps ∧ s.edges = db.edges)
    (fun s t _ u hs ht => ?_) ⟨rfl,rfl,rfl⟩ h
  obtain rfl | ⟨-,-,-,-,rfl⟩ := persistTriple_ok ht
  · exact hs
  · exact hs

end Triples

section Phases

variable {run_id : Str} {st : Staged} {db : Db}

theorem persist_none_iff : (persist run_id st db).2 = none ↔
    ∃ db₁ db₂ db₃, persistNodes run_id st.nodes db = .ok db₁ ∧
      persistEdges run_id st.edges db₁ = .ok db₂ ∧
      persistTriples run_id st.triples db₂ = .ok db₃ := by
  unfold persist
  cases h₁ : persistNodes run_id st.nodes db with
  | error v => simp
  | ok db₁ =>
    cases h₂ : persistEdges run_id st.edges db₁ with
    | error v => simp [h₂]
    | ok db₂ => cases h₃ : persistTriples run_id st.triples db₂ <;> simp [h₂,h₃]

/-- What holds before the persist phase and is kept by its parts holds after it. -/
theorem persist_invariant {I : Db → Prop} (hdb : I db)
    (hnodes : ∀ t, persistNodes run_id st.nodes db = .ok t → I t)
    (hedges : ∀ s t, I s → persistEdges run_id st.edges s = .ok t → I t)
    (htriples : ∀ s t, I s → persistTriples run_id st.triples s = .ok t → I t) :
    I (persist run_id st db).1 := by
  unfold persist
  split
  · exact hdb
  rename_i db₁ h₁
  have hi₁ := hnodes db₁ h₁
  split
  · exact hi₁
  rename_i db₂ h₂
  have hi₂ := hedges db₁ db₂ hi₁ h₂
  split
  · exact hi₂
  · rename_i db₃ h₃
    exact htriples db₂ db₃ hi₂ h₃

/-- The run reaches its persist phase with the rows of its debate's final payload. -/
def Persists (L : Lib) (i : RunInput) (result : DebateResult) (output : OntogenLLMOutput) :
    Prop :=
  i.is_enabled = true ∧ i.dry_run = false ∧ run_debate (i.setup L) = some result ∧
    llm_run_result L result.payload = some output

/-- A run leaves the tables as they are, or persists what its final payload stages. -/
theorem run_inner_cases (L : Lib) (i : RunInput) (db : Db) :
    (run_inner L i db).1 = db ∨ ∃ result output, Persists L i result output ∧
      (run_inner L i db).1 = (persist i.run_id (staged L i db result.outcome output) db).1 := by
  unfold run_inner
  split
  · exact .inl rfl
  rename_i henabled
  split
  · exact .inl rfl
  rename_i result hresult
  split
  · exact .inl rfl
  rename_i output houtput
  split
  · exact .inl rfl
  · rename_i hdry
    have hdry' : i.dry_run = false := by simpa using hdry
    have henabled' : i.is_enabled = true := by simpa [hdry'] using henabled
    exact .inr ⟨result,output,⟨henabled',hdry',hresult,houtput⟩,rfl⟩

end Phases

section Reachable

variable {L : Lib}

theorem nodesOk_persist {run_id : Str} {st : Staged} {db : Db} (h : NodesOk db.nodes) :
    NodesOk (persist run_id st db).1.nodes := by
  refine persist_invariant (I:=fun s => NodesOk s.nodes) h
    (fun t ht => (persistNodes_ok ht).1 h) (fun s t hs ht => ?_) fun s t hs ht => ?_
  · rw [(persistEdges_ok ht).1]
    exact hs
  · rw [(persistTriples_ok ht).1]
    exact hs

theorem nodesOk_review {db db' : Db} {r : Review} (h : NodesOk db.nodes)
    (hstep : review db r = some db') : NodesOk db'.nodes := by
  have hdb : (r.run db).toOption.getD db = db' := Option.some.inj hstep
  cases hrun : r.run db with
  | error e =>
    obtain rfl : db = db' := by simpa [hrun,Except.toOption] using hdb
    exact h
  | ok db₁ =>
    obtain rfl : db₁ = db' := by simpa [hrun,Except.toOption] using hdb
    cases r with
    | node id verdict =>
      obtain ⟨row,v,hrow,-,rfl⟩ := review_node_ok hrun
      obtain ⟨hmem,-⟩ := Table.get?_eq_some.mp hrow
      exact nodesOk_put h (h.slug row hmem) fun r hr hname => h.unique r hr row hmem hname
    | edge id verdict =>
      obtain ⟨row,v,-,-,rfl⟩ := review_edge_ok hrun
      exact h
    | triple id verdict =>
      obtain ⟨row,v,-,-,-,rfl⟩ := review_triple_ok hrun
      exact h

theorem nodesOk_reachable {db : Db} (h : Reachable (ontology L) db) : NodesOk db.nodes := by
  refine h.invariant (I:=fun s : Db => NodesOk s.nodes) ?_ ?_
  · rintro s rfl
    exact ⟨by simp [Db.empty,Table.empty],by simp [Db.empty,Table.empty]⟩
  · intro s a t hs ht
    cases a with
    | run i =>
      obtain ⟨-,rfl⟩ := ht
      rcases run_inner_cases L i s with h | ⟨result,output,-,h⟩
      · rw [h]
        exact hs
      · rw [h]
        exact nodesOk_persist hs
    | review r => exact nodesOk_review hs ht

/-- The persist phase of an accepted payload violates no constraint exactly when the names,
labels and new ids of what it stages fit the tables. -/
theorem persist_violates_none_iff {db : Db} (hr : Reachable (ontology L) db) {i : RunInput}
    (hits : HitsStored i db) {payload : Json} {output : OntogenLLMOutput}
    (h : Accepted L payload i.evidence output) (outcome : Outcome) :
    (persist i.run_id (staged L i db outcome output) db).2 = none ↔
      NodesFit db.nodes (staged L i db outcome output).nodes ∧
      EdgesFit db.edges (staged L i db outcome output).edges := by
  have hdb := nodesOk_reachable hr
  have hurns : ∀ n ∈ (staged L i db outcome output).nodes, n.dataset_urns ≠ [] := by
    intro n hn
    obtain ⟨p,hp,known,-,hres⟩ := staged_node hn
    rw [(resolveNode_some hres).1.2.2.2]
    exact (urns_of_urnErrors (semanticErrors_nil h.semanticErrors).2.2.2 hp).1
  have hnodes : (∃ t, persistNodes i.run_id (staged L i db outcome output).nodes db = .ok t) ↔
      NodesFit db.nodes (staged L i db outcome output).nodes :=
    persistNodes_ok_iff hdb (fun n hn => staged_node_id hits hn) (stagedNodes_pairwise _ _) hurns
  have hedges : ∀ e ∈ (staged L i db outcome output).edges,
      (get? e.label (edge_label_to_id db) ≠ none → (db.edges.get? e.id).isSome) ∧
      (get? e.label (edge_label_to_id db) = none → IsSnake e.id) := by
    intro e he
    rcases staged_edge_id he with ⟨id,hlabel,hsome⟩ | ⟨hlabel,hsnake⟩
    · exact ⟨fun _ => hsome,fun hnone => by simp [hlabel] at hnone⟩
    · exact ⟨fun hne => absurd hlabel hne,fun _ => hsnake⟩
  let known (label : Str) : Option Str := get? label (edge_label_to_id db)
  have hpair : (staged L i db outcome output).edges.Pairwise fun d e =>
      known d.label = none → known e.label = none → d.id ≠ e.id :=
    stagedEdges_pairwise (C:=i.context L db outcome) (existing_edge_ids db) output.edges
  rw [persist_none_iff]
  constructor
  · rintro ⟨db₁,db₂,db₃,h₁,h₂,-⟩
    have hsame := (persistNodes_ok h₁).2.1
    refine ⟨hnodes.mp ⟨db₁,h₁⟩,?_⟩
    rw [← hsame]
    exact (persistEdges_ok_iff known (by rwa [hsame]) hpair).mp ⟨db₂,h₂⟩
  · rintro ⟨hn,he⟩
    obtain ⟨db₁,h₁⟩ := hnodes.mpr hn
    have hsame := (persistNodes_ok h₁).2.1
    rw [← hsame] at he hedges
    obtain ⟨db₂,h₂⟩ : ∃ t, persistEdges i.run_id (staged L i db outcome output).edges db₁ =
        .ok t := (persistEdges_ok_iff known hedges hpair).mpr he
    obtain ⟨db₃,h₃⟩ : ∃ t, persistTriples i.run_id (staged L i db outcome output).triples db₂ =
        .ok t := persistTriples_total (fun t ht => staged_triple_id ht) db₂
    exact ⟨db₁,db₂,db₃,h₁,h₂,h₃⟩

end Reachable

def sampleRun : RunInput where
  dry_run := false
  is_enabled := true
  run_id := "run".toList
  evidence := ["urn".toList]
  max_turns := 1
  producer_max_iterations := 1
  canonical_hash _ := []
  review_errors _ := []
  sample_rag_anchors _ := some ()
  build_reviewer_prompt _ := some ()
  build_producer_revision_prompt _ _ := some ()
  producer _ _ := .message []
  reviewer _ _ := .message []
  search _ _ := none

theorem reachable_empty (L : Lib) : Reachable (ontology L) Db.empty := ⟨_,[],rfl,.refl⟩

theorem sampleRun_hits (db : Db) : HitsStored sampleRun db := nofun

def twinsPayload : Json :=
  obj [("nodes",.arr [obj [("name",str "Order"),("dataset_urns",.arr [str "urn"])],
    obj [("name",str "Order"),("dataset_urns",.arr [str "urn"])]])]

def twinsOutput : OntogenLLMOutput where
  nodes := [⟨none,"Order".toList,[],.fin 0,["urn".toList]⟩,
    ⟨none,"Order".toList,[],.fin 0,["urn".toList]⟩]
  edges := []
  triples := []

theorem twins_accepted : Accepted sampleLib twinsPayload ["urn".toList] twinsOutput := by
  refine ⟨⟨_,rfl⟩,?_⟩
  rfl

/-- The second node of a name gets a new id, and its row violates the unique name. -/
theorem twins_violate_unique_name :
    ¬ ∀ (L : Lib) (db : Db) (i : RunInput) (payload : Json) (output : OntogenLLMOutput)
      (outcome : Outcome), Reachable (ontology L) db → HitsStored i db →
      Accepted L payload i.evidence output →
      (persist i.run_id (staged L i db outcome output) db).2 = none := by
  intro hall
  have h := hall sampleLib .empty sampleRun twinsPayload twinsOutput .accept
    (reachable_empty _) (sampleRun_hits _) twins_accepted
  have hv : (persist sampleRun.run_id
      (staged sampleLib sampleRun .empty .accept twinsOutput) .empty).2 = some .unique_name := rfl
  rw [hv] at h
  cases h

theorem persist_violates_none_iff_sample :
    NodesFit Db.empty.nodes (staged sampleLib sampleRun .empty .accept crossedOutput).nodes ∧
    EdgesFit Db.empty.edges (staged sampleLib sampleRun .empty .accept crossedOutput).edges :=
  (persist_violates_none_iff (reachable_empty _) (sampleRun_hits _) crossed_accepted .accept).mp rfl

end Ontogen
end Dataspoke
