import Dataspoke.OntogenIntegrity

/-!
# What a run persists

Every row a run writes is traced back to a row of the final payload. The final payload goes
on to the persist phase with all its rows, so the rows written have no validation error
exactly as far as the payload has none.
-/

namespace Dataspoke
namespace Ontogen

open Python Pydantic Slug Fold Debate Transition

section Sources

variable (C : Context)

/-- The row is the one a proposal of the payload is written to. -/
def NodeSource (r : OntogenNode) (p : OntogenLLMNode) : Prop :=
  r.name = strip isspace p.name ∧ r.description = p.description ∧
    r.confidence_score = p.confidence_score

/-- The row maps a dataset of a proposal to the node it resolves to. -/
def MapSource (m : DatasetNodeMap) (p : OntogenLLMNode) : Prop :=
  m.dataset_urn ∈ p.dataset_urns ∧ m.confidence_score = p.confidence_score ∧
    ∃ known n, resolveNode C known p = some n ∧ m.node_id = n.id

def EdgeSource (r : OntogenEdge) (p : OntogenLLMEdge) : Prop :=
  r.label = strip isspace p.label ∧ r.confidence_score = p.confidence_score ∧
    r.semantics = if p.semantics = [] then none else some p.semantics

def TripleSource (node_id_remap edge_id_remap : List (Str × Str)) (r : OntogenTriple)
    (p : OntogenLLMTriple) : Prop :=
  r.subject_node_id = remapped node_id_remap p.subject_node_id ∧
  r.edge_id = remapped edge_id_remap p.edge_id ∧
  r.object_node_id = remapped node_id_remap p.object_node_id ∧
  r.confidence_score = p.confidence_score

/-- Every row of the second table is in the first or has a source in the list. -/
def Traced {ρ κ π : Type} {key : ρ → κ} (t t' : Table key) (Source : ρ → π → Prop)
    (sources : List π) : Prop :=
  ∀ r ∈ t'.rows, r ∈ t.rows ∨ ∃ x ∈ sources, Source r x

theorem Traced.refl {ρ κ π : Type} {key : ρ → κ} (t : Table key) (Source : ρ → π → Prop)
    (sources : List π) : Traced t t Source sources := fun _ hr => .inl hr

theorem Traced.put {ρ κ π : Type} [DecidableEq κ] {key : ρ → κ} {t t' : Table key}
    {Source : ρ → π → Prop} {sources : List π} (h : Traced t t' Source sources) {r : ρ}
    (hr : r ∈ t'.rows ∨ ∃ x ∈ sources, Source r x) : Traced t (t'.put r) Source sources := by
  intro r' hr'
  rcases Table.mem_put.mp hr' with rfl | ⟨hold,-⟩
  · exact hr.elim (h r') .inr
  · exact h r' hold

theorem Traced.mono {ρ κ π π' : Type} {key : ρ → κ} {t t' : Table key} {Source : ρ → π → Prop}
    {Source' : ρ → π' → Prop} {xs : List π} {ys : List π'} (h : Traced t t' Source xs)
    (hsrc : ∀ r, ∀ x ∈ xs, Source r x → ∃ y ∈ ys, Source' r y) : Traced t t' Source' ys :=
  fun r hr => (h r hr).imp_right fun ⟨x,hx,hs⟩ => hsrc r x hx hs

end Sources

section Writes

variable {run_id : Str} {db : Db}

def NodeWrittenFor (r : OntogenNode) (n : NodeUpsert) : Prop :=
  r.name = n.name ∧ r.description = n.description ∧ r.confidence_score = n.confidence_score

def MapWrittenFor (m : DatasetNodeMap) (n : NodeUpsert) : Prop :=
  m.node_id = n.id ∧ m.dataset_urn ∈ n.dataset_urns ∧ m.confidence_score = n.confidence_score

theorem writtenNode_traced (nodes : Table OntogenNode.id) (n : NodeUpsert) :
    writtenNode run_id (nodes.get? n.id) n ∈ nodes.rows ∨
      NodeWrittenFor (writtenNode run_id (nodes.get? n.id) n) n := by
  cases h : nodes.get? n.id with
  | none => exact .inr ⟨rfl,rfl,rfl⟩
  | some existing =>
    unfold writtenNode
    dsimp only
    split
    · exact .inr ⟨rfl,rfl,rfl⟩
    · exact .inl (Table.get?_eq_some.mp h).1

theorem traced_maps {s t : Db} {ns : List NodeUpsert} {n : NodeUpsert} (hn : n ∈ ns)
    (hs : Traced db.maps s.maps MapWrittenFor ns)
    (ht : ∀ k, t.maps.get? k = s.maps.get? k ∨ k.2 = n.id ∧ k.1 ∈ n.dataset_urns ∧
      ∃ row, t.maps.get? k = some row ∧ row.confidence_score = n.confidence_score ∧
        row.status = mapStatus n.confidence_score) :
    Traced db.maps t.maps MapWrittenFor ns := by
  intro m hm
  have hget := Table.mem_rows.mp hm
  rcases ht m.key with h | ⟨hid,hurn,row,hrow,hconf,-⟩
  · exact hs m (Table.mem_rows.mpr (h.symm.trans hget))
  · obtain rfl : row = m := Option.some.inj (hrow.symm.trans hget)
    exact .inr ⟨n,hn,hid,hurn,hconf⟩

/-- The node phase writes only rows of the staged nodes. -/
theorem persistNodes_traced {ns : List NodeUpsert} {t : Db}
    (h : persistNodes run_id ns db = .ok t) :
    Traced db.nodes t.nodes NodeWrittenFor ns ∧ Traced db.maps t.maps MapWrittenFor ns := by
  obtain ⟨db₁,h₁,h₂⟩ := bind_eq_ok.mp h
  have hloop := foldlM_invariant
    (I:=fun s : Db => Traced db.nodes s.nodes NodeWrittenFor ns ∧
      Traced db.maps s.maps MapWrittenFor ns)
    (fun s n hn t hs ht => ?_) ⟨.refl _ _ _,.refl _ _ _⟩ h₁
  · refine foldlM_invariant (I:=fun s : Db => Traced db.nodes s.nodes NodeWrittenFor ns ∧
      Traced db.maps s.maps MapWrittenFor ns) (fun s n hn t hs ht => ?_) hloop h₂
    obtain ⟨hsame,hmaps⟩ := persistMaps_ok ht
    refine ⟨by rw [hsame.1]; exact hs.1,traced_maps hn hs.2 fun k => ?_⟩
    exact (hmaps k).imp_right And.right
  · obtain ⟨-,rfl⟩ | ⟨-,hmaps⟩ | ⟨-,-,rfl⟩ := persistNode_ok ht
    · exact hs
    · obtain ⟨hsame,hmaps⟩ := upsert_dataset_node_maps_ok hmaps
      exact ⟨by rw [hsame.1]; exact hs.1,traced_maps hn hs.2 hmaps⟩
    · exact ⟨hs.1.put ((writtenNode_traced s.nodes n).imp_right fun h => ⟨n,hn,h⟩),hs.2⟩

theorem persistEdges_traced {es : List EdgeUpsert} {s t : Db}
    (h : persistEdges run_id es s = .ok t) :
    Traced s.edges t.edges (fun r e => r = e.row run_id) es := by
  refine foldlM_invariant
    (I:=fun u : Db => Traced s.edges u.edges (fun r e => r = e.row run_id) es)
    (fun u e he v hu hv => ?_) (.refl _ _ _) h
  obtain ⟨-,rfl⟩ | ⟨-,-,-,rfl⟩ := persistEdge_ok hv
  · exact hu
  · exact hu.put (.inr ⟨e,he,rfl⟩)

theorem persistTriples_traced {ts : List TripleUpsert} {s t : Db}
    (h : persistTriples run_id ts s = .ok t) :
    Traced s.triples t.triples (fun r x => r = x.row run_id) ts := by
  refine foldlM_invariant
    (I:=fun u : Db => Traced s.triples u.triples (fun r x => r = x.row run_id) ts)
    (fun u x hx v hu hv => ?_) (.refl _ _ _) h
  obtain rfl | ⟨-,-,-,-,rfl⟩ := persistTriple_ok hv
  · exact hu
  · exact hu.put (.inr ⟨x,hx,rfl⟩)

/-- The persist phase writes only rows of what is staged. -/
theorem persist_traced (run_id : Str) (st : Staged) (db : Db) :
    Traced db.nodes (persist run_id st db).1.nodes NodeWrittenFor st.nodes ∧
    Traced db.maps (persist run_id st db).1.maps MapWrittenFor st.nodes ∧
    Traced db.edges (persist run_id st db).1.edges (fun r e => r = e.row run_id) st.edges ∧
    Traced db.triples (persist run_id st db).1.triples (fun r x => r = x.row run_id)
      st.triples := by
  unfold persist
  split
  · exact ⟨.refl _ _ _,.refl _ _ _,.refl _ _ _,.refl _ _ _⟩
  rename_i db₁ h₁
  obtain ⟨hnodes,hmaps⟩ := persistNodes_traced h₁
  obtain ⟨-,hedges,htriples⟩ := persistNodes_ok h₁
  rw [← hedges,← htriples]
  split
  · exact ⟨hnodes,hmaps,.refl _ _ _,.refl _ _ _⟩
  rename_i db₂ h₂
  obtain ⟨hn₂,hm₂,ht₂⟩ := persistEdges_ok h₂
  rw [← hn₂] at hnodes
  rw [← hm₂] at hmaps
  rw [← ht₂]
  split
  · exact ⟨hnodes,hmaps,persistEdges_traced h₂,.refl _ _ _⟩
  · rename_i db₃ h₃
    obtain ⟨hn₃,hm₃,he₃⟩ := persistTriples_ok h₃
    rw [hn₃,hm₃,he₃]
    exact ⟨hnodes,hmaps,persistEdges_traced h₂,persistTriples_traced h₃⟩

end Writes

section Payload

variable {L : Lib} {i : RunInput} {db : Db} {outcome : Outcome} {output : OntogenLLMOutput}

/-- The remap tables of a run. -/
def nodeRemap (L : Lib) (i : RunInput) (db : Db) (outcome : Outcome)
    (output : OntogenLLMOutput) : List (Str × Str) :=
  remapOf (nodeHints (resolveNodes (i.context L db outcome) (existing_node_ids db) output.nodes))

def edgeRemap (L : Lib) (i : RunInput) (db : Db) (outcome : Outcome)
    (output : OntogenLLMOutput) : List (Str × Str) :=
  remapOf (edgeHints (resolveEdges (i.context L db outcome) (existing_edge_ids db) output.edges))

theorem staged_triple {t : TripleUpsert} (h : t ∈ (staged L i db outcome output).triples) :
    ∃ p ∈ output.triples, resolveTriple (i.context L db outcome)
      (nodeRemap L i db outcome output) (edgeRemap L i db outcome output) p = some t := by
  obtain ⟨⟨p,t'⟩,hmem,rfl⟩ := List.mem_filterMap.mp h
  obtain ⟨p',hp',he⟩ := List.mem_map.mp hmem
  obtain ⟨rfl,hres⟩ := Prod.mk.inj he
  exact ⟨p',hp',hres⟩

theorem resolveTriple_score {C : Context} {node_remap edge_remap : List (Str × Str)}
    {p : OntogenLLMTriple} {t : TripleUpsert}
    (h : resolveTriple C node_remap edge_remap p = some t) :
    t.confidence_score = p.confidence_score := by
  unfold resolveTriple at h
  dsimp only at h
  split at h
  · cases h
  split at h
  · cases h
  · cases h
    rfl

/-- The rows of the tables after the run were there before or have a source in `output`. -/
structure PersistedFrom (L : Lib) (i : RunInput) (db : Db) (outcome : Outcome)
    (output sources : OntogenLLMOutput) : Prop where
  nodes : Traced db.nodes (persist i.run_id (staged L i db outcome output) db).1.nodes
    NodeSource sources.nodes
  maps : Traced db.maps (persist i.run_id (staged L i db outcome output) db).1.maps
    (MapSource (i.context L db outcome)) sources.nodes
  edges : Traced db.edges (persist i.run_id (staged L i db outcome output) db).1.edges
    EdgeSource sources.edges
  triples : Traced db.triples (persist i.run_id (staged L i db outcome output) db).1.triples
    (TripleSource (nodeRemap L i db outcome output) (edgeRemap L i db outcome output))
    sources.triples

theorem persisted_from (L : Lib) (i : RunInput) (db : Db) (outcome : Outcome)
    (output : OntogenLLMOutput) : PersistedFrom L i db outcome output output := by
  obtain ⟨hnodes,hmaps,hedges,htriples⟩ :=
    persist_traced i.run_id (staged L i db outcome output) db
  refine ⟨hnodes.mono fun r n hn hr => ?_,hmaps.mono fun m n hn hm => ?_,
    hedges.mono fun r e he hr => ?_,htriples.mono fun r t ht hr => ?_⟩
  · obtain ⟨p,hp,known,-,hres⟩ := staged_node hn
    obtain ⟨⟨hname,hdesc,hconf,-⟩,-⟩ := resolveNode_some hres
    exact ⟨p,hp,hr.1.trans hname,hr.2.1.trans hdesc,hr.2.2.trans hconf⟩
  · obtain ⟨p,hp,known,-,hres⟩ := staged_node hn
    obtain ⟨⟨-,-,hconf,hurns⟩,-⟩ := resolveNode_some hres
    exact ⟨p,hp,by rw [← hurns]; exact hm.2.1,hm.2.2.trans hconf,known,n,hres,hm.1⟩
  · obtain ⟨p,hp,known,-,hres⟩ := staged_edge he
    obtain ⟨⟨hlabel,hconf,hsem⟩,-⟩ := resolveEdge_some hres
    rw [hr]
    exact ⟨p,hp,hlabel,hconf,hsem⟩
  · obtain ⟨p,hp,hres⟩ := staged_triple ht
    obtain ⟨hs,he,ho⟩ := resolveTriple_some _ hres
    rw [hr]
    exact ⟨p,hp,hs,he,ho,resolveTriple_score hres⟩

end Payload

def flagged (errors : List ValidationError) (c : Collection) (j : ℕ) : Bool :=
  errors.any fun e => pathIndex e.path = some (c,j)

def unflagged {α : Type} (errors : List ValidationError) (c : Collection) (rows : List α) :
    List α :=
  (rows.zipIdx.filter fun p => !flagged errors c p.2).map Prod.fst

def OntogenLLMOutput.unflagged (output : OntogenLLMOutput) (errors : List ValidationError) :
    OntogenLLMOutput where
  nodes := Ontogen.unflagged errors .nodes output.nodes
  edges := Ontogen.unflagged errors .edges output.edges
  triples := Ontogen.unflagged errors .triples output.triples

def OntogenLLMOutput.size (output : OntogenLLMOutput) : Collection → ℕ
  | .nodes => output.nodes.length
  | .edges => output.edges.length
  | .triples => output.triples.length

/-- The error is reported for a row of the output. -/
def Indexed (output : OntogenLLMOutput) (e : ValidationError) : Prop :=
  ∃ c j, pathIndex e.path = some (c,j) ∧ j < output.size c

theorem unflagged_nil {α : Type} (c : Collection) (rows : List α) : unflagged [] c rows = rows := by
  simp [unflagged,flagged]

theorem dropRows_nil {α : Type} (rows : List α) : dropRows [] rows = rows := by
  simp [dropRows]

theorem partition_clean_rows_nil (output : OntogenLLMOutput) :
    (partition_clean_rows output []).1 = output := by
  have hd : List.dedup ([] : List ℕ) = [] := rfl
  simp only [partition_clean_rows,List.any_nil,Bool.false_eq_true,if_false,List.filterMap_nil,hd,
    dropRows_nil]
  simp [dropRows_nil]

theorem mem_dupIdErrors {collection what : String} {e : ValidationError} {ids : List (Option Str)}
    {i : ℕ} {seen : List (Str × ℕ)} (h : e ∈ dupIdErrors collection what i seen ids) :
    ∃ j, j < i + ids.length ∧ e.path = field collection j ".id" := by
  fun_induction dupIdErrors collection what i seen ids with
  | case1 => cases h
  | case2 i seen ids ih =>
    obtain ⟨j,hj,he⟩ := ih h
    exact ⟨j,by simp only [List.length_cons]; omega,he⟩
  | case3 i seen id ids first _ ih =>
    rcases List.mem_cons.mp h with rfl | h
    · exact ⟨i,by simp only [List.length_cons]; omega,rfl⟩
    · obtain ⟨j,hj,he⟩ := ih h
      exact ⟨j,by simp only [List.length_cons]; omega,he⟩
  | case4 i seen id ids _ ih =>
    obtain ⟨j,hj,he⟩ := ih h
    exact ⟨j,by simp only [List.length_cons]; omega,he⟩

theorem mem_dupTripleErrors {e : ValidationError} {ts : List OntogenLLMTriple} {i : ℕ}
    {seen : List ((Str × Str × Str) × ℕ)} (h : e ∈ dupTripleErrors i seen ts) :
    ∃ j, j < i + ts.length ∧ e.path = field "triples" j "" := by
  fun_induction dupTripleErrors i seen ts with
  | case1 => cases h
  | case2 i seen t ts first _ ih =>
    rcases List.mem_cons.mp h with rfl | h
    · exact ⟨i,by simp only [List.length_cons]; omega,rfl⟩
    · obtain ⟨j,hj,he⟩ := ih h
      exact ⟨j,by simp only [List.length_cons]; omega,he⟩
  | case3 i seen t ts _ ih =>
    obtain ⟨j,hj,he⟩ := ih h
    exact ⟨j,by simp only [List.length_cons]; omega,he⟩

theorem mem_slugErrors {collection : String} {ids : List (Option Str)} {e : ValidationError}
    (h : e ∈ slugErrors collection ids) :
    ∃ j, j < ids.length ∧ e.path = field collection j ".id" := by
  obtain ⟨⟨id,j⟩,hmem,he⟩ := List.mem_flatMap.mp h
  refine ⟨j,List.snd_lt_of_mem_zipIdx hmem,?_⟩
  cases id with
  | none => cases he
  | some id =>
    dsimp only [Option.elim,check_slug] at he
    split at he
    · rw [List.mem_singleton.mp he]
    split at he
    · rw [List.mem_singleton.mp he]
    · cases he

theorem mem_confErrors {collection : String} {scores : List Number} {e : ValidationError}
    (h : e ∈ confErrors collection scores) :
    ∃ j, j < scores.length ∧ e.path = field collection j ".confidence_score" := by
  obtain ⟨⟨x,j⟩,hmem,he⟩ := List.mem_flatMap.mp h
  refine ⟨j,List.snd_lt_of_mem_zipIdx hmem,?_⟩
  dsimp only at he
  split at he
  · cases he
  · rw [List.mem_singleton.mp he]

theorem mem_tripleRefErrors {output : OntogenLLMOutput} {e : ValidationError}
    (h : e ∈ tripleRefErrors output) :
    ∃ j name, j < output.triples.length ∧ e.path = field "triples" j name := by
  obtain ⟨⟨t,j⟩,hmem,he⟩ := List.mem_flatMap.mp h
  have href : ∀ {name code collection ref ids}, e ∈ refErrors j name code collection ref ids →
      e.path = field "triples" j ("." ++ name) := by
    intro name code collection ref ids he
    unfold refErrors at he
    split at he
    · cases he
    · rw [List.mem_singleton.mp he]
  have hj := List.snd_lt_of_mem_zipIdx hmem
  rcases List.mem_append.mp he with he | he
  · rcases List.mem_append.mp he with he | he
    · exact ⟨j,_,hj,href he⟩
    · exact ⟨j,_,hj,href he⟩
  · exact ⟨j,_,hj,href he⟩

theorem mem_urnErrors {urns : List Str} {nodes : List OntogenLLMNode} {e : ValidationError}
    (h : e ∈ urnErrors urns nodes) :
    ∃ j rest, j < nodes.length ∧ e.path = field "nodes" j ".dataset_urns" ++ rest := by
  obtain ⟨⟨n,j⟩,hmem,he⟩ := List.mem_flatMap.mp h
  have hj := List.snd_lt_of_mem_zipIdx hmem
  dsimp only at he
  split at he
  · rw [List.mem_singleton.mp he]
    exact ⟨j,[],hj,rfl⟩
  · obtain ⟨⟨urn,k⟩,-,he⟩ := List.mem_flatMap.mp he
    dsimp only at he
    split at he
    · cases he
    · rw [List.mem_singleton.mp he]
      exact ⟨j,_,hj,rfl⟩

/-- Every error of the rules is reported for a row. -/
theorem semanticErrors_indexed {urns : List Str} {output : OntogenLLMOutput}
    {e : ValidationError} (h : e ∈ semanticErrors urns output) : Indexed output e := by
  have hpath : ∀ {c j name}, (name,c) ∈ [("nodes",Collection.nodes),("edges",.edges),
      ("triples",.triples)] → j < output.size c → ∀ {last rest},
      e.path = field name j last ++ rest → Indexed output e := by
    intro c j name hc hj last rest he
    refine ⟨c,j,?_,hj⟩
    rw [he]
    simp only [List.mem_cons,Prod.mk.injEq,List.not_mem_nil,or_false] at hc
    obtain ⟨rfl,rfl⟩ | ⟨rfl,rfl⟩ | ⟨rfl,rfl⟩ := hc <;> rfl
  have hpath' : ∀ {c j name}, (name,c) ∈ [("nodes",Collection.nodes),("edges",.edges),
      ("triples",.triples)] → j < output.size c → ∀ {last},
      e.path = field name j last → Indexed output e :=
    fun hc hj _ he => hpath hc hj (by rw [he,List.append_nil])
  simp only [semanticErrors,List.mem_append] at h
  obtain (((((((((h | h) | h) | h) | h) | h) | h) | h) | h) | h) := h
  · obtain ⟨j,hj,he⟩ := mem_slugErrors h
    exact hpath' (c:=.nodes) (by simp) (by simpa [OntogenLLMOutput.size] using hj) he
  · obtain ⟨j,hj,he⟩ := mem_slugErrors h
    exact hpath' (c:=.edges) (by simp) (by simpa [OntogenLLMOutput.size] using hj) he
  · obtain ⟨j,hj,he⟩ := mem_dupIdErrors h
    exact hpath' (c:=.nodes) (by simp) (by simpa [OntogenLLMOutput.size] using hj) he
  · obtain ⟨j,hj,he⟩ := mem_dupIdErrors h
    exact hpath' (c:=.edges) (by simp) (by simpa [OntogenLLMOutput.size] using hj) he
  · obtain ⟨j,name,hj,he⟩ := mem_tripleRefErrors h
    exact hpath' (c:=.triples) (by simp) hj he
  · obtain ⟨j,hj,he⟩ := mem_confErrors h
    exact hpath' (c:=.nodes) (by simp) (by simpa [OntogenLLMOutput.size] using hj) he
  · obtain ⟨j,hj,he⟩ := mem_confErrors h
    exact hpath' (c:=.edges) (by simp) (by simpa [OntogenLLMOutput.size] using hj) he
  · obtain ⟨j,hj,he⟩ := mem_confErrors h
    exact hpath' (c:=.triples) (by simp) (by simpa [OntogenLLMOutput.size] using hj) he
  · obtain ⟨j,rest,hj,he⟩ := mem_urnErrors h
    exact hpath (c:=.nodes) (by simp) hj he
  · obtain ⟨j,hj,he⟩ := mem_dupTripleErrors h
    exact hpath' (c:=.triples) (by simp) (by simpa [OntogenLLMOutput.size] using hj) he

section Contained

variable {L : Lib} {i : RunInput} {result : DebateResult} {output : OntogenLLMOutput}
  {errors : List ValidationError}

/-- What the run persists comes from rows without an error, and its map rows name datasets
of the evidence set. -/
structure PersistedUnflagged (L : Lib) (i : RunInput) (db : Db) (outcome : Outcome)
    (output : OntogenLLMOutput) (errors : List ValidationError) : Prop where
  rows : PersistedFrom L i db outcome output (output.unflagged errors)
  urns : ∀ m ∈ (persist i.run_id (staged L i db outcome output) db).1.maps.rows,
    m ∈ db.maps.rows ∨ m.dataset_urn ∈ i.evidence

/-- No row that goes on to the persist phase has an error, and what is persisted comes from
such rows. -/
def Contained (L : Lib) (i : RunInput) (outcome : Outcome) (output : OntogenLLMOutput)
    (errors : List ValidationError) : Prop :=
  (∀ c, ∀ j < output.size c, flagged errors c j = false) ∧
    ∀ db, PersistedUnflagged L i db outcome output errors

/-- The payload does not parse as the output model. -/
def Unparsed (L : Lib) (payload : Json) : Prop :=
  ∃ v, (outputSchema L).model_validate payload = some (v,none)

theorem llm_run_result_cases {payload : Json} (h : llm_run_result L payload = some output)
    (he : validate_ontogen_output L payload i.evidence = some errors) :
    (Unparsed L payload ∧ output = ⟨[],[],[]⟩) ∨ errors = semanticErrors i.evidence output := by
  obtain ⟨⟨v,parsed⟩,hv,hout⟩ := Option.map_eq_some_iff.mp h
  rw [validate_ontogen_output,hv] at he
  have hclean : output = parsed.getD ⟨[],[],[]⟩ := by
    rw [← hout]
    exact partition_clean_rows_nil _
  cases parsed with
  | none => exact .inl ⟨⟨v,hv⟩,hclean⟩
  | some parsed =>
    obtain rfl : output = parsed := hclean
    exact .inr (Option.some.inj he).symm

/-- A run contains its output exactly when the final payload has no validation error, or does
not parse. -/
theorem contained_iff (hp : Persists L i result output)
    (he : validate_ontogen_output L result.payload i.evidence = some errors) :
    Contained L i result.outcome output errors ↔ errors = [] ∨ Unparsed L result.payload := by
  have hcases := llm_run_result_cases hp.2.2.2 he
  constructor
  · rintro ⟨hclean,-⟩
    rcases hcases with ⟨hun,-⟩ | rfl
    · exact .inr hun
    refine .inl (List.eq_nil_iff_forall_not_mem.mpr fun e hmem => ?_)
    obtain ⟨c,j,hpath,hj⟩ := semanticErrors_indexed hmem
    have hflag : flagged (semanticErrors i.evidence output) c j = true :=
      List.any_eq_true.mpr ⟨e,hmem,by simp [hpath]⟩
    rw [hclean c j hj] at hflag
    cases hflag
  · intro hcond
    have hempty : ∀ errors : List ValidationError, (output = ⟨[],[],[]⟩ ∨ errors = []) →
        output.unflagged errors = output := by
      rintro errors (rfl | rfl)
      · rfl
      · simp [OntogenLLMOutput.unflagged,unflagged_nil]
    have hor : output = ⟨[],[],[]⟩ ∨ errors = [] ∧ semanticErrors i.evidence output = [] := by
      rcases hcases with ⟨-,hout⟩ | herr
      · exact .inl hout
      · rcases hcond with rfl | ⟨v,hv⟩
        · exact .inr ⟨rfl,herr.symm⟩
        · have hrun := hp.2.2.2
          rw [llm_run_result,hv] at hrun
          exact .inl (Option.some.inj hrun).symm
    refine ⟨fun c j hj => ?_,fun db => ⟨?_,fun m hm => ?_⟩⟩
    · rcases hor with rfl | ⟨rfl,-⟩
      · cases c <;> cases hj
      · rfl
    · rw [hempty errors (hor.imp_right And.left)]
      exact persisted_from L i db result.outcome output
    · rcases (persisted_from L i db result.outcome output).maps m hm with hold | ⟨p,hmem,hurn,-⟩
      · exact .inl hold
      · rcases hor with rfl | ⟨-,hsem⟩
        · cases hmem
        · exact .inr ((urns_of_urnErrors (semanticErrors_nil hsem).2.2.2 hmem).2 _ hurn)

end Contained

/-- A run whose producer names a dataset outside the evidence set and then has no iteration
and no turn left. -/
def strayRun : RunInput :=
  { sampleRun with
    producer := fun _ _ => .message [⟨"ontogen_validate".toList,[("payload".toList,
      obj [("nodes",.arr [obj [("name",str "Order"),("dataset_urns",.arr [str "other"])]])])]⟩] }

/-- The rejected payload is persisted with its dataset. -/
theorem stray_urn_persisted :
    ¬ ∀ (L : Lib) (i : RunInput) (db : Db) (result : DebateResult) (output : OntogenLLMOutput)
      (errors : List ValidationError), Persists L i result output →
      validate_ontogen_output L result.payload i.evidence = some errors →
      PersistedUnflagged L i db result.outcome output errors := by
  intro hall
  have h := hall sampleLib strayRun .empty _ _ _ ⟨rfl,rfl,rfl,rfl⟩ rfl
  rcases h.urns _ (.head _) with hold | hurn
  · cases hold
  · exact absurd hurn (by decide)

/-- A run whose producer names a dataset of the evidence set. -/
def orderRun : RunInput :=
  { sampleRun with
    producer := fun _ _ => .message [⟨"ontogen_validate".toList,[("payload".toList,
      obj [("nodes",.arr [obj [("name",str "Order"),("dataset_urns",.arr [str "urn"])]])])]⟩] }

theorem contained_iff_sample : ∃ (result : DebateResult) (output : OntogenLLMOutput),
    Persists sampleLib orderRun result output ∧ output.nodes.length = 1 ∧
      Contained sampleLib orderRun result.outcome output [] :=
  ⟨_,_,⟨rfl,rfl,rfl,rfl⟩,rfl,(contained_iff (i:=orderRun) ⟨rfl,rfl,rfl,rfl⟩ rfl).mpr (.inl rfl)⟩

end Ontogen
end Dataspoke
