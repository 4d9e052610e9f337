import Dataspoke.OntogenRun

/-!
# The references of staged triples

A triple names its nodes and its edge by the hints of their proposals. The remap table also
maps every final id to itself, so a later proposal can take a hint over.
-/

namespace Dataspoke
namespace Ontogen

open Python Pydantic Slug

/-- `validate_ontogen_output` finds no error in a payload that decodes to `output`. -/
def Accepted (L : Lib) (payload : Json) (urns : List Str) (output : OntogenLLMOutput) : Prop :=
  (∃ v, (outputSchema L).model_validate payload = some (v,some output)) ∧
    validate_ontogen_output L payload urns = some []

theorem Accepted.semanticErrors {L : Lib} {payload : Json} {urns : List Str}
    {output : OntogenLLMOutput} (h : Accepted L payload urns output) :
    Ontogen.semanticErrors urns output = [] := by
  obtain ⟨⟨v,hv⟩,herr⟩ := h
  rw [validate_ontogen_output,hv] at herr
  exact Option.some.inj herr

/-- A round of the resolution enters `key`, as its hint or as its final id. -/
def Enters (key : Str) (e : Str × Str) : Prop := e.1 = key ∨ e.2 = key

instance (key : Str) (e : Str × Str) : Decidable (Enters key e) := by
  unfold Enters
  infer_instance

/-- The last of the rounds that enter `key` has another final id than `x`. -/
def Overwritten (key x : Str) (rounds : List (Str × Str)) : Prop :=
  ∃ before e after, rounds = before ++ e::after ∧ Enters key e ∧ e.2 ≠ x ∧
    ∀ e' ∈ after, ¬ Enters key e'

theorem get?_remapOf_concat (key : Str) (rounds : List (Str × Str)) (e : Str × Str) :
    get? key (remapOf (rounds ++ [e])) =
      if Enters key e then some e.2 else get? key (remapOf rounds) := by
  simp only [remapOf,List.foldl_append,List.foldl_cons,List.foldl_nil,get?,Enters]
  by_cases h₁ : e.1 = key <;> by_cases h₂ : e.2 = key <;> simp [h₁,h₂]

theorem overwritten_concat {key x : Str} {rounds : List (Str × Str)} {e : Str × Str} :
    Overwritten key x (rounds ++ [e]) ↔
      if Enters key e then e.2 ≠ x else Overwritten key x rounds := by
  constructor
  · rintro ⟨before,e',after,heq,hent,hne,hafter⟩
    rcases List.eq_nil_or_concat' after with rfl | ⟨after,e'',rfl⟩
    · obtain ⟨-,he⟩ := List.append_inj' heq rfl
      obtain rfl := List.singleton_inj.mp he
      rw [if_pos hent]
      exact hne
    · rw [← List.cons_append,← List.append_assoc] at heq
      obtain ⟨hr,he⟩ := List.append_inj' heq rfl
      obtain rfl := List.singleton_inj.mp he
      rw [if_neg (hafter e (by simp))]
      exact ⟨before,e',after,hr,hent,hne,fun a ha => hafter a (by simp [ha])⟩
  · intro h
    split at h
    · exact ⟨rounds,e,[],rfl,‹_›,h,by simp⟩
    · obtain ⟨before,e',after,rfl,hent,hne,hafter⟩ := h
      refine ⟨before,e',after ++ [e],by simp,hent,hne,fun a ha => ?_⟩
      rcases List.mem_append.mp ha with ha | ha
      · exact hafter a ha
      · rw [List.mem_singleton.mp ha]
        assumption

/-- A hint keeps its final id exactly when no later round overwrites it. -/
theorem get?_remapOf_iff (key x : Str) (before after : List (Str × Str)) :
    get? key (remapOf (before ++ (key,x)::after)) = some x ↔ ¬ Overwritten key x after := by
  induction after using List.reverseRecOn with
  | nil =>
    rw [get?_remapOf_concat,if_pos (.inl rfl)]
    refine ⟨fun _ => ?_,fun _ => rfl⟩
    rintro ⟨b,e,a,h,-⟩
    simp at h
  | append_singleton after e ih =>
    rw [← List.cons_append,← List.append_assoc,get?_remapOf_concat,overwritten_concat]
    split
    · simp
    · exact ih

/-- A hint that was entered is in the table. -/
theorem get?_remapOf_ne_none (key x : Str) (before after : List (Str × Str)) :
    ∃ y, get? key (remapOf (before ++ (key,x)::after)) = some y := by
  induction after using List.reverseRecOn with
  | nil => exact ⟨x,by rw [get?_remapOf_concat,if_pos (.inl rfl)]⟩
  | append_singleton after e ih =>
    rw [← List.cons_append,← List.append_assoc,get?_remapOf_concat]
    split
    · exact ⟨_,rfl⟩
    · exact ih

theorem remapped_iff (key x : Str) (before after : List (Str × Str)) :
    remapped (remapOf (before ++ (key,x)::after)) key = x ↔ ¬ Overwritten key x after := by
  obtain ⟨y,hy⟩ := get?_remapOf_ne_none key x before after
  rw [← get?_remapOf_iff key x before after,remapped,hy]
  simp

section Hints

variable {P U : Type} (pid : P → Option Str) (name uid : U → Str)

/-- `x` is the final id of exactly the proposals that carry the hint. -/
def ResolvedTo (rounds : List (P × Option U)) (hint x : Str) : Prop :=
  (∃ r ∈ rounds, pid r.1 = some hint) ∧
    ∀ r ∈ rounds, pid r.1 = some hint → ∃ u, r.2 = some u ∧ x = uid u

/-- The proposal that carries the hint is staged, and no later one overwrites the hint. -/
def Keeps (rounds : List (P × Option U)) (hint : Str) : Prop :=
  ∀ before p staged after, rounds = before ++ (p,staged)::after → pid p = some hint →
    ∃ u, staged = some u ∧ ¬ Overwritten hint (uid u) (hints pid name uid after)

variable {pid name uid}

theorem hintId_some {hint : Str} (hne : hint ≠ []) (name : Str) :
    hintId (some hint) name = hint := by
  cases hint with
  | nil => exact absurd rfl hne
  | cons => rfl

theorem hints_split {before after : List (P × Option U)} {p : P} {u : U} {hint : Str}
    (hp : pid p = some hint) (hne : hint ≠ []) :
    hints pid name uid (before ++ (p,some u)::after) =
      hints pid name uid before ++ (hint,uid u)::hints pid name uid after := by
  simp [hints,hp,hintId_some hne]

theorem resolvedTo_iff_keeps {rounds : List (P × Option U)} {hint : Str} (hne : hint ≠ [])
    (hex : ∃ r ∈ rounds, pid r.1 = some hint) :
    ResolvedTo pid uid rounds hint (remapped (remapOf (hints pid name uid rounds)) hint) ↔
      Keeps pid name uid rounds hint := by
  constructor
  · rintro ⟨-,hall⟩ before p staged after rfl hp
    obtain ⟨u,rfl,hu⟩ := hall (p,staged) (by simp) hp
    refine ⟨u,rfl,?_⟩
    rw [hints_split hp hne] at hu
    exact (remapped_iff hint (uid u) _ _).mp hu
  · intro hkeep
    refine ⟨hex,fun r hr hp => ?_⟩
    obtain ⟨before,after,rfl⟩ := List.append_of_mem hr
    obtain ⟨u,hu,hover⟩ := hkeep before r.1 r.2 after rfl hp
    refine ⟨u,hu,?_⟩
    have hr' : r = (r.1,some u) := by rw [← hu]
    rw [hr',hints_split hp hne]
    exact (remapped_iff hint (uid u) _ _).mpr hover

end Hints

/-- The rules of the validator, read off its error list. -/
theorem semanticErrors_nil {urns : List Str} {output : OntogenLLMOutput}
    (h : semanticErrors urns output = []) :
    slugErrors "nodes" (output.nodes.map (·.id)) = [] ∧
    slugErrors "edges" (output.edges.map (·.id)) = [] ∧
    tripleRefErrors output = [] ∧ urnErrors urns output.nodes = [] := by
  simp only [semanticErrors,List.append_eq_nil_iff] at h
  tauto

theorem ne_nil_of_slugErrors {collection : String} {ids : List (Option Str)}
    (h : slugErrors collection ids = []) {id : Str} (hid : some id ∈ ids) : id ≠ [] := by
  rintro rfl
  obtain ⟨i,hi,hget⟩ := List.mem_iff_getElem.mp hid
  rw [slugErrors,List.flatMap_eq_nil_iff] at h
  have := h (some [],i) (List.mk_mem_zipIdx_iff_getElem?.mpr (by rw [← hget]; simp [hi]))
  revert this
  simp [check_slug,hasDouble,isSlug]

theorem refs_of_tripleRefErrors {output : OntogenLLMOutput} (h : tripleRefErrors output = [])
    {t : OntogenLLMTriple} (ht : t ∈ output.triples) :
    some t.subject_node_id ∈ output.nodes.map (·.id) ∧
    some t.edge_id ∈ output.edges.map (·.id) ∧
    some t.object_node_id ∈ output.nodes.map (·.id) := by
  obtain ⟨i,hi,hget⟩ := List.mem_iff_getElem.mp ht
  rw [tripleRefErrors,List.flatMap_eq_nil_iff] at h
  have hrow := h (t,i) (List.mk_mem_zipIdx_iff_getElem?.mpr (by rw [← hget]; simp [hi]))
  simp only [List.append_eq_nil_iff] at hrow
  obtain ⟨⟨hs,ho⟩,he⟩ := hrow
  have href : ∀ {name code collection ref ids},
      refErrors i name code collection ref ids = [] → some ref ∈ ids := by
    intro name code collection ref ids hnil
    by_contra hmem
    simp [refErrors,hmem] at hnil
  exact ⟨href hs,href he,href ho⟩

theorem urns_of_urnErrors {urns : List Str} {nodes : List OntogenLLMNode}
    (h : urnErrors urns nodes = []) {n : OntogenLLMNode} (hn : n ∈ nodes) :
    n.dataset_urns ≠ [] ∧ ∀ urn ∈ n.dataset_urns, urn ∈ urns := by
  obtain ⟨i,hi,hget⟩ := List.mem_iff_getElem.mp hn
  rw [urnErrors,List.flatMap_eq_nil_iff] at h
  have hrow := h (n,i) (List.mk_mem_zipIdx_iff_getElem?.mpr (by rw [← hget]; simp [hi]))
  dsimp only at hrow
  split at hrow
  · cases hrow
  rename_i hne
  refine ⟨hne,fun urn hurn => ?_⟩
  obtain ⟨j,hj,hget'⟩ := List.mem_iff_getElem.mp hurn
  rw [List.flatMap_eq_nil_iff] at hrow
  have hurn' := hrow (urn,j) (List.mk_mem_zipIdx_iff_getElem?.mpr (by rw [← hget']; simp [hj]))
  by_contra hmem
  simp [hmem] at hurn'

section Triples

variable (C : Context)

theorem resolveNodes_map_fst (known : List Str) (ps : List OntogenLLMNode) :
    (resolveNodes C known ps).map Prod.fst = ps := by
  induction ps generalizing known with
  | nil => rfl
  | cons p ps ih => simp [resolveNodes,ih]

theorem resolveEdges_map_fst (known : List Str) (ps : List OntogenLLMEdge) :
    (resolveEdges C known ps).map Prod.fst = ps := by
  induction ps generalizing known with
  | nil => rfl
  | cons p ps ih => simp [resolveEdges,ih]

theorem resolveTriple_some {node_remap edge_remap : List (Str × Str)} {t : OntogenLLMTriple}
    {row : TripleUpsert} (h : resolveTriple C node_remap edge_remap t = some row) :
    row.subject_node_id = remapped node_remap t.subject_node_id ∧
    row.edge_id = remapped edge_remap t.edge_id ∧
    row.object_node_id = remapped node_remap t.object_node_id := by
  unfold resolveTriple at h
  dsimp only at h
  split at h
  · cases h
  split at h
  · cases h
  · cases h
    exact ⟨rfl,rfl,rfl⟩

variable (nodes : List (OntogenLLMNode × Option NodeUpsert))
  (edges : List (OntogenLLMEdge × Option EdgeUpsert))

/-- The staged row has the final ids of exactly the proposals the triple names. -/
def TripleResolved (t : OntogenLLMTriple) (row : TripleUpsert) : Prop :=
  ResolvedTo OntogenLLMNode.id NodeUpsert.id nodes t.subject_node_id row.subject_node_id ∧
  ResolvedTo OntogenLLMEdge.id EdgeUpsert.id edges t.edge_id row.edge_id ∧
  ResolvedTo OntogenLLMNode.id NodeUpsert.id nodes t.object_node_id row.object_node_id

/-- The proposals the triple names are staged, and keep their hints to the end. -/
def TripleKept (t : OntogenLLMTriple) : Prop :=
  Keeps OntogenLLMNode.id NodeUpsert.name NodeUpsert.id nodes t.subject_node_id ∧
  Keeps OntogenLLMEdge.id EdgeUpsert.label EdgeUpsert.id edges t.edge_id ∧
  Keeps OntogenLLMNode.id NodeUpsert.name NodeUpsert.id nodes t.object_node_id

variable {nodes edges}

theorem exists_round {P U : Type} {pid : P → Option Str} {rounds : List (P × Option U)}
    {hint : Str} (h : some hint ∈ (rounds.map Prod.fst).map pid) :
    ∃ r ∈ rounds, pid r.1 = some hint := by
  simpa using h

/-- For an accepted payload, the staged triples are resolved to the proposals they name
exactly when these keep their hints. -/
theorem triples_resolved_iff {L : Lib} {payload : Json} {urns : List Str}
    {output : OntogenLLMOutput} (h : Accepted L payload urns output)
    (node_ids edge_ids : List Str) :
    let nodes := resolveNodes C node_ids output.nodes
    let edges := resolveEdges C edge_ids output.edges
    (∀ t row, (t,some row) ∈ resolveTriples C nodes edges output.triples →
      TripleResolved nodes edges t row) ↔
    ∀ t row, (t,some row) ∈ resolveTriples C nodes edges output.triples →
      TripleKept nodes edges t := by
  intro nodes edges
  have hnil := semanticErrors_nil h.semanticErrors
  have hiff : ∀ t row, (t,some row) ∈ resolveTriples C nodes edges output.triples →
      (TripleResolved nodes edges t row ↔ TripleKept nodes edges t) := by
    intro t row hrow
    obtain ⟨t,ht,hpair⟩ := List.mem_map.mp hrow
    obtain ⟨rfl,hres⟩ := Prod.mk.inj hpair
    obtain ⟨hs,he,ho⟩ := resolveTriple_some C hres
    obtain ⟨hsmem,hemem,homem⟩ := refs_of_tripleRefErrors hnil.2.2.1 ht
    have hnode : ∀ {hint}, some hint ∈ output.nodes.map (·.id) →
        (ResolvedTo OntogenLLMNode.id NodeUpsert.id nodes hint
          (remapped (remapOf (nodeHints nodes)) hint) ↔
        Keeps OntogenLLMNode.id NodeUpsert.name NodeUpsert.id nodes hint) := fun hmem =>
      resolvedTo_iff_keeps (ne_nil_of_slugErrors hnil.1 hmem)
        (exists_round (by rwa [resolveNodes_map_fst]))
    have hedge : ResolvedTo OntogenLLMEdge.id EdgeUpsert.id edges t.edge_id
          (remapped (remapOf (edgeHints edges)) t.edge_id) ↔
        Keeps OntogenLLMEdge.id EdgeUpsert.label EdgeUpsert.id edges t.edge_id :=
      resolvedTo_iff_keeps (ne_nil_of_slugErrors hnil.2.1 hemem)
        (exists_round (by rwa [resolveEdges_map_fst]))
    unfold TripleResolved TripleKept
    rw [hs,he,ho,hnode hsmem,hedge,hnode homem]
  constructor
  · exact fun hall t row hrow => (hiff t row hrow).mp (hall t row hrow)
  · exact fun hall t row hrow => (hiff t row hrow).mpr (hall t row hrow)

end Triples

def sampleLib : Lib := ⟨id,fun _ => none,fun _ => "",fun _ => []⟩

def str (s : String) : Json := .str s.toList

def obj (items : List (String × Json)) : Json := .obj (items.map fun kv => (kv.1.toList,kv.2))

def sampleRow (id name : String) : Json :=
  obj [("id",str id),("name",str name),("label",str name),("dataset_urns",.arr [str "urn"])]

/-- Two nodes, an edge and a triple over them; the hint of the first node is the slug of
the second. -/
def crossedPayload : Json :=
  obj [("nodes",.arr [sampleRow "b" "Alpha",sampleRow "c" "B"]),
    ("edges",.arr [sampleRow "has" "has"]),
    ("triples",.arr [obj [("subject_node_id",str "b"),("edge_id",str "has"),
      ("object_node_id",str "c")]])]

def sampleContext : Context := ⟨id,[],[],[],.accept,fun _ _ => none⟩

def crossedOutput : OntogenLLMOutput where
  nodes := [⟨some ['b'],"Alpha".toList,[],.fin 0,["urn".toList]⟩,
    ⟨some ['c'],['B'],[],.fin 0,["urn".toList]⟩]
  edges := [⟨some "has".toList,"has".toList,[],.fin 0⟩]
  triples := [⟨['b'],"has".toList,['c'],.fin 0⟩]

theorem crossed_accepted : Accepted sampleLib crossedPayload ["urn".toList] crossedOutput := by
  refine ⟨⟨_,rfl⟩,?_⟩
  rfl

/-- The triple whose subject carries the hint "b" of the node "Alpha" is staged with the
node "B" as its subject. -/
theorem triples_crossed :
    ¬ ∀ (C : Context) (L : Lib) (payload : Json) (urns : List Str) (output : OntogenLLMOutput),
      Accepted L payload urns output → ∀ node_ids edge_ids : List Str,
      let nodes := resolveNodes C node_ids output.nodes
      let edges := resolveEdges C edge_ids output.edges
      ∀ t row, (t,some row) ∈ resolveTriples C nodes edges output.triples →
        TripleResolved nodes edges t row := by
  intro hall
  have h := hall sampleContext sampleLib crossedPayload ["urn".toList] crossedOutput
    crossed_accepted [] [] ⟨['b'],"has".toList,['c'],.fin 0⟩
    ⟨"b__has__b".toList,['b'],"has".toList,['b'],.fin 0,
      status_for_outcome (.fin 0) .accept⟩ (.head _)
  obtain ⟨n,hn,hid⟩ := h.1.2 _ (.head _) rfl
  cases hn
  exact absurd hid (by decide)

/-- The same rows, where each hint is the slug of its own node. -/
def plainPayload : Json :=
  obj [("nodes",.arr [sampleRow "a" "A",sampleRow "b" "B"]),
    ("edges",.arr [sampleRow "has" "has"]),
    ("triples",.arr [obj [("subject_node_id",str "a"),("edge_id",str "has"),
      ("object_node_id",str "b")]])]

def plainOutput : OntogenLLMOutput where
  nodes := [⟨some ['a'],['A'],[],.fin 0,["urn".toList]⟩,
    ⟨some ['b'],['B'],[],.fin 0,["urn".toList]⟩]
  edges := [⟨some "has".toList,"has".toList,[],.fin 0⟩]
  triples := [⟨['a'],"has".toList,['b'],.fin 0⟩]

theorem plain_accepted : Accepted sampleLib plainPayload ["urn".toList] plainOutput := by
  refine ⟨⟨_,rfl⟩,?_⟩
  rfl

theorem triples_resolved_iff_sample :
    let nodes := resolveNodes sampleContext [] plainOutput.nodes
    let edges := resolveEdges sampleContext [] plainOutput.edges
    (resolveTriples sampleContext nodes edges plainOutput.triples).length = 1 ∧
      ∀ t row, (t,some row) ∈ resolveTriples sampleContext nodes edges plainOutput.triples →
        TripleKept nodes edges t := by
  intro nodes edges
  refine ⟨rfl,(triples_resolved_iff sampleContext plain_accepted [] []).mp fun t row hrow => ?_⟩
  obtain ⟨rfl,rfl⟩ : t = ⟨['a'],"has".toList,['b'],.fin 0⟩ ∧ row = ⟨"a__has__b".toList,['a'],
      "has".toList,['b'],.fin 0,status_for_outcome (.fin 0) .accept⟩ := by
    have hmem := List.mem_singleton.mp hrow
    exact ⟨congrArg Prod.fst hmem,Option.some.inj (congrArg Prod.snd hmem)⟩
  refine ⟨⟨⟨_,.head _,rfl⟩,?_⟩,⟨⟨_,.head _,rfl⟩,?_⟩,⟨_,.tail _ (.head _),rfl⟩,?_⟩
  case' refine_1 | refine_3 =>
    rintro r (_ | ⟨_,_ | ⟨_,⟨⟩⟩⟩) hr
  case refine_2 =>
    rintro r (_ | ⟨_,⟨⟩⟩) -
    exact ⟨_,rfl,rfl⟩
  case refine_1.head => exact ⟨_,rfl,rfl⟩
  case refine_1.tail.head => exact absurd hr (by decide)
  case refine_3.head => exact absurd hr (by decide)
  case refine_3.tail.head => exact ⟨_,rfl,rfl⟩

end Ontogen
end Dataspoke
