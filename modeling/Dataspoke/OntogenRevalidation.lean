import Dataspoke.OntogenPartition

/-!
# Validating the clean part again

`model_dump` writes an output so that it parses back to itself: ids are normalized once, and
every decoded field is accepted again.
-/

namespace Dataspoke
namespace Ontogen

open Python Pydantic Slug

section Dump

def dumpOptional (o : Option Str) : Json := o.elim .null .str

/-- `model_dump` of a node, without the rebuttal. -/
def OntogenLLMNode.model_dump (n : OntogenLLMNode) : Json :=
  .obj [("id".toList,dumpOptional n.id),("name".toList,.str n.name),
    ("description".toList,.str n.description),("confidence_score".toList,.num n.confidence_score),
    ("dataset_urns".toList,.arr (n.dataset_urns.map .str))]

def OntogenLLMEdge.model_dump (e : OntogenLLMEdge) : Json :=
  .obj [("id".toList,dumpOptional e.id),("label".toList,.str e.label),
    ("semantics".toList,.str e.semantics),("confidence_score".toList,.num e.confidence_score)]

def OntogenLLMTriple.model_dump (t : OntogenLLMTriple) : Json :=
  .obj [("subject_node_id".toList,.str t.subject_node_id),("edge_id".toList,.str t.edge_id),
    ("object_node_id".toList,.str t.object_node_id),
    ("confidence_score".toList,.num t.confidence_score)]

def OntogenLLMOutput.model_dump (output : OntogenLLMOutput) : Json :=
  .obj [("nodes".toList,.arr (output.nodes.map (·.model_dump))),
    ("edges".toList,.arr (output.edges.map (·.model_dump))),
    ("triples".toList,.arr (output.triples.map (·.model_dump)))]

variable {parse_float : Str → Option Number}

theorem stable_id (max : Option ℕ) : Stable (decodeOptional (decodeStr max)) dumpOptional :=
  stable_decodeOptional (stable_decodeStr max) fun _ => Json.noConfusion

theorem decodeScore_zero : decodeScore parse_float (.num (.fin 0)) = some (.fin 0) := rfl

theorem decodeNode_dump (n : OntogenLLMNode) : decodeNode parse_float n.model_dump = do
    let id ← decodeOptional (decodeStr (some 200)) (dumpOptional n.id)
    let name ← decodeName 200 (.str n.name)
    let description ← decodeStr (some 4000) (.str n.description)
    let score ← decodeScore parse_float (.num n.confidence_score)
    let urns ← decodeList (some 100) (decodeStr (some 1024)) (.arr (n.dataset_urns.map .str))
    return ⟨id,name,description,score,urns⟩ := rfl

theorem decodeEdge_dump (e : OntogenLLMEdge) : decodeEdge parse_float e.model_dump = do
    let id ← decodeOptional (decodeStr none) (dumpOptional e.id)
    let label ← decodeName 200 (.str e.label)
    let semantics ← decodeStr (some 4000) (.str e.semantics)
    let score ← decodeScore parse_float (.num e.confidence_score)
    return ⟨id,label,semantics,score⟩ := rfl

theorem decodeTriple_dump (t : OntogenLLMTriple) : decodeTriple parse_float t.model_dump = do
    let subject ← decodeStr (some 200) (.str t.subject_node_id)
    let edge ← decodeStr (some 200) (.str t.edge_id)
    let object ← decodeStr (some 200) (.str t.object_node_id)
    let score ← decodeScore parse_float (.num t.confidence_score)
    return ⟨subject,edge,object,score⟩ := rfl

theorem stable_decodeNode : Stable (decodeNode parse_float) (·.model_dump) := by
  intro v n h
  cases v with
  | obj items =>
    simp only [decodeNode,Option.bind_eq_bind,Option.bind_eq_some_iff] at h
    obtain ⟨id,hid,name,hname,description,hdescription,score,hscore,urns,hurns,-,-,hn⟩ := h
    obtain rfl := Option.some.inj hn
    have hid' := (stable_id _).optional rfl hid
    have hname' := (stable_decodeName _).required hname
    have hdescription' := (stable_decodeStr _).optional rfl hdescription
    have hscore' := (stable_decodeScore _).optional decodeScore_zero hscore
    have hurns' := (stable_decodeList _ (stable_decodeStr _)).optional rfl hurns
    simp only [decodeNode_dump,hid',hname',hdescription',hscore',hurns',Option.bind_eq_bind,
      Option.bind_some]
    rfl
  | _ => cases h

theorem stable_decodeEdge : Stable (decodeEdge parse_float) (·.model_dump) := by
  intro v e h
  cases v with
  | obj items =>
    simp only [decodeEdge,Option.bind_eq_bind,Option.bind_eq_some_iff] at h
    obtain ⟨id,hid,label,hlabel,semantics,hsemantics,score,hscore,-,-,he⟩ := h
    obtain rfl := Option.some.inj he
    have hid' := (stable_id _).optional rfl hid
    have hlabel' := (stable_decodeName _).required hlabel
    have hsemantics' := (stable_decodeStr _).optional rfl hsemantics
    have hscore' := (stable_decodeScore _).optional decodeScore_zero hscore
    simp only [decodeEdge_dump,hid',hlabel',hsemantics',hscore',Option.bind_eq_bind,
      Option.bind_some]
    rfl
  | _ => cases h

theorem stable_decodeTriple : Stable (decodeTriple parse_float) (·.model_dump) := by
  intro v t h
  cases v with
  | obj items =>
    simp only [decodeTriple,Option.bind_eq_bind,Option.bind_eq_some_iff] at h
    obtain ⟨subject,hsubject,edge,hedge,object,hobject,score,hscore,-,-,ht⟩ := h
    obtain rfl := Option.some.inj ht
    have hsubject' := (stable_decodeStr _).required hsubject
    have hedge' := (stable_decodeStr _).required hedge
    have hobject' := (stable_decodeStr _).required hobject
    have hscore' := (stable_decodeScore _).optional decodeScore_zero hscore
    simp only [decodeTriple_dump,hsubject',hedge',hobject',hscore',Option.bind_eq_bind,
      Option.bind_some]
    rfl
  | _ => cases h

theorem decodeOutput_dump (output : OntogenLLMOutput) :
    decodeOutput parse_float output.model_dump = do
      let nodes ← decodeList (some 500) (decodeNode parse_float)
        (.arr (output.nodes.map (·.model_dump)))
      let edges ← decodeList (some 500) (decodeEdge parse_float)
        (.arr (output.edges.map (·.model_dump)))
      let triples ← decodeList (some 500) (decodeTriple parse_float)
        (.arr (output.triples.map (·.model_dump)))
      return ⟨nodes,edges,triples⟩ := rfl

/-- Rows of a parsed list are accepted again. -/
theorem decodeList_sublist {α : Type} {decode : Json → Option α} {dump : α → Json} {key : String}
    {items : List (Str × Json)} {xs ys : List α} (h : Stable decode dump)
    (hxs : optional key [] (decodeList (some 500) decode) items = some xs) (hsub : ys.Sublist xs) :
    decodeList (some 500) decode (.arr (ys.map dump)) = some ys := by
  unfold Pydantic.optional at hxs
  split at hxs
  · obtain rfl := Option.some.inj hxs
    obtain rfl := List.sublist_nil.mp hsub
    rfl
  · obtain ⟨hmax,vs,-,hvs⟩ := decodeList_some hxs
    refine decodeList_dump ?_ fun y hy => ?_
    · exact decide_eq_true (hsub.length_le.trans (of_decide_eq_true hmax))
    · obtain ⟨v,-,hv⟩ := mem_mapM hvs (hsub.subset hy)
      exact h v y hv

/-- The rows of an output are rows of the other, in order. -/
structure OntogenLLMOutput.Within (output : OntogenLLMOutput) (whole : OntogenLLMOutput) : Prop where
  nodes : output.nodes.Sublist whole.nodes
  edges : output.edges.Sublist whole.edges
  triples : output.triples.Sublist whole.triples

/-- Any part of a parsed output parses as it is dumped. -/
theorem decodeOutput_within {v : Json} {output cleaned : OntogenLLMOutput}
    (h : decodeOutput parse_float v = some output) (hsub : cleaned.Within output) :
    decodeOutput parse_float cleaned.model_dump = some cleaned := by
  cases v with
  | obj items =>
    simp only [decodeOutput,Option.bind_eq_bind,Option.bind_eq_some_iff] at h
    obtain ⟨nodes,hnodes,edges,hedges,triples,htriples,houtput⟩ := h
    obtain rfl := Option.some.inj houtput
    rw [decodeOutput_dump,decodeList_sublist stable_decodeNode hnodes hsub.nodes,
      decodeList_sublist stable_decodeEdge hedges hsub.edges,
      decodeList_sublist stable_decodeTriple htriples hsub.triples]
    rfl
  | _ => cases h

end Dump

section Normalize

variable {nfkd : Str → Str}

theorem get?_overwrite (key : Str) (v : Json) (items : List (Str × Json)) (k : Str) :
    get? k (setItem key v items) = if k = key then (get? k items).map fun _ => v else get? k items := by
  induction items with
  | nil => simp [setItem,get?]
  | cons item items ih =>
    obtain ⟨k',w⟩ := item
    rw [setItem,List.map_cons] at *
    by_cases hkey : k' = key
    · subst hkey
      by_cases hk : k' = k
      · simp [get?,hk]
      · simpa [get?,hk] using ih
    · by_cases hk : k' = k
      · subst hk
        simp [get?,hkey]
      · simpa [get?,hkey,hk] using ih

theorem get?_mapField {key : String} {f : Json → Option Json} {values values' : List (Str × Json)}
    (h : mapField key f values = some values') (k : Str) :
    get? k values' = if k = key.toList then (get? k values).bind (mapRows f) else get? k values := by
  unfold mapField at h
  split at h
  · rename_i hnone
    obtain rfl := Option.some.inj h
    by_cases hk : k = key.toList
    · rw [if_pos hk,hk,hnone]
      rfl
    · rw [if_neg hk]
  · rename_i v hsome
    obtain ⟨w,hw,rfl⟩ := Option.map_eq_some_iff.mp h
    rw [get?_overwrite]
    by_cases hk : k = key.toList
    · rw [if_pos hk,if_pos hk,hk,hsome,Option.bind_some,hw]
      rfl
    · rw [if_neg hk,if_neg hk]

/-- An id after the before-validator: what the slug function returns, or no text. -/
def Normalized (nfkd : Str → Str) (id : Option Str) : Prop :=
  id = none ∨ id = some [] ∨ ∃ s, id = some (to_snake nfkd s)

theorem normalized_id {row : Json} {items : List (Str × Json)} {max : Option ℕ} {id : Option Str}
    (hrow : normalizeRow nfkd row = .obj items)
    (hid : Pydantic.optional "id" none (decodeOptional (decodeStr max)) items = some id) :
    Normalized nfkd id := by
  cases row with
  | obj items₀ =>
    cases horig : origId (.obj items₀) with
    | some orig =>
      simp only [normalizeRow,horig] at hrow
      obtain rfl := Json.obj.inj hrow
      have hget : get? "id".toList (setItem "id".toList (.str (to_snake nfkd orig)) items₀) =
          some (.str (to_snake nfkd orig)) := by
        rw [get?_overwrite,if_pos rfl]
        cases h : get? "id".toList items₀ with
        | none =>
          rw [origId,h] at horig
          cases horig
        | some v => rfl
      rw [Pydantic.optional,hget] at hid
      obtain ⟨s,hs,rfl⟩ := Option.map_eq_some_iff.mp hid
      have hs' := (Option.ite_none_right_eq_some.mp hs).2
      exact Or.inr (Or.inr ⟨orig,hs'.symm⟩)
    | none =>
      simp only [normalizeRow,horig] at hrow
      obtain rfl := Json.obj.inj hrow
      cases h : get? "id".toList items₀ with
      | none =>
        rw [Pydantic.optional,h] at hid
        exact Or.inl (Option.some.inj hid).symm
      | some v =>
        rw [Pydantic.optional,h] at hid
        cases v with
        | null => exact Or.inl (Option.some.inj hid).symm
        | str s =>
          cases s with
          | nil =>
            obtain ⟨s,hs,rfl⟩ := Option.map_eq_some_iff.mp hid
            have hs' := (Option.ite_none_right_eq_some.mp hs).2
            exact Or.inr (Or.inl hs'.symm)
          | cons c s =>
            rw [origId,h] at horig
            cases horig
        | _ => cases hid
  | _ => cases hrow

theorem normalized_node {parse_float : Str → Option Number} {row : Json} {n : OntogenLLMNode}
    (h : decodeNode parse_float (normalizeRow nfkd row) = some n) : Normalized nfkd n.id := by
  cases hrow : normalizeRow nfkd row with
  | obj items =>
    rw [hrow] at h
    simp only [decodeNode,Option.bind_eq_bind,Option.bind_eq_some_iff] at h
    obtain ⟨id,hid,_,_,_,_,_,_,_,_,_,_,hn⟩ := h
    obtain rfl := Option.some.inj hn
    exact normalized_id hrow hid
  | _ =>
    rw [hrow] at h
    cases h

theorem normalized_edge {parse_float : Str → Option Number} {row : Json} {e : OntogenLLMEdge}
    (h : decodeEdge parse_float (normalizeRow nfkd row) = some e) : Normalized nfkd e.id := by
  cases hrow : normalizeRow nfkd row with
  | obj items =>
    rw [hrow] at h
    simp only [decodeEdge,Option.bind_eq_bind,Option.bind_eq_some_iff] at h
    obtain ⟨id,hid,_,_,_,_,_,_,_,_,he⟩ := h
    obtain rfl := Option.some.inj he
    exact normalized_id hrow hid
  | _ =>
    rw [hrow] at h
    cases h

/-- The rows of a collection, decoded after the before-validator. -/
theorem rows_normalized {α : Type} {decode : Json → Option α} {key : String} {id : α → Option Str}
    {values values' : List (Str × Json)} {rows : List α}
    (hid : ∀ row x, decode (normalizeRow nfkd row) = some x → Normalized nfkd (id x))
    (hmap : get? key.toList values' = (get? key.toList values).bind
      (mapRows (some ∘ normalizeRow nfkd)))
    (hrows : Pydantic.optional key [] (decodeList (some 500) decode) values' = some rows) :
    ∀ x ∈ rows, Normalized nfkd (id x) := by
  intro x hx
  unfold Pydantic.optional at hrows
  split at hrows
  · obtain rfl := Option.some.inj hrows
    cases hx
  · rename_i v hv
    obtain ⟨-,vs,rfl,hvs⟩ := decodeList_some hrows
    rw [hv] at hmap
    obtain ⟨w,hw,hwrows⟩ := Option.bind_eq_some_iff.mp hmap.symm
    obtain ⟨v,hmem,hdecode⟩ := mem_mapM hvs hx
    cases w with
    | arr ws =>
      obtain ⟨us,hus,he⟩ := Option.map_eq_some_iff.mp hwrows
      obtain rfl := Json.arr.inj he
      have hmapM : ws.mapM (some ∘ normalizeRow nfkd) = some (ws.map (normalizeRow nfkd)) :=
        List.mapM_pure
      have hus' : us = ws.map (normalizeRow nfkd) := Option.some.inj (hus.symm.trans hmapM)
      rw [hus'] at hmem
      obtain ⟨row,-,rfl⟩ := List.mem_map.mp hmem
      exact hid row x hdecode
    | _ => cases hwrows

theorem ids_normalized {parse_float : Str → Option Number} {payload v : Json}
    {output : OntogenLLMOutput} (hnorm : normalize_ids nfkd payload = some v)
    (h : decodeOutput parse_float v = some output) :
    (∀ n ∈ output.nodes, Normalized nfkd n.id) ∧ ∀ e ∈ output.edges, Normalized nfkd e.id := by
  cases payload with
  | obj values =>
    simp only [normalize_ids,Option.bind_eq_bind,Option.bind_eq_some_iff] at hnorm
    obtain ⟨nodes,-,edges,-,-,-,values₁,h₁,values₂,h₂,values₃,h₃,hv⟩ := hnorm
    obtain rfl := Option.some.inj hv
    simp only [decodeOutput,Option.bind_eq_bind,Option.bind_eq_some_iff] at h
    obtain ⟨ns,hns,es,hes,ts,-,houtput⟩ := h
    obtain rfl := Option.some.inj houtput
    have hnodes : get? "nodes".toList values₃ =
        (get? "nodes".toList values).bind (mapRows (some ∘ normalizeRow nfkd)) := by
      rw [get?_mapField h₃,if_neg (by decide),get?_mapField h₂,if_neg (by decide),
        get?_mapField h₁,if_pos rfl]
    have hedges : get? "edges".toList values₃ =
        (get? "edges".toList values).bind (mapRows (some ∘ normalizeRow nfkd)) := by
      rw [get?_mapField h₃,if_neg (by decide),get?_mapField h₂,if_pos rfl,
        get?_mapField h₁,if_neg (by decide)]
    exact ⟨rows_normalized (fun _ _ => normalized_node) hnodes hns,
      rows_normalized (fun _ _ => normalized_edge) hedges hes⟩
  | _ =>
    obtain rfl := Option.some.inj hnorm
    cases h

/-- The id is left by the before-validator. -/
def Fixed (nfkd : Str → Str) (id : Option Str) : Prop :=
  ∀ s, id = some s → s ≠ [] → to_snake nfkd s = s

theorem Normalized.fixed (hascii : ∀ s : Str, (∀ c ∈ s, c.toNat < 128) → nfkd s = s)
    {id : Option Str} (h : Normalized nfkd id) : Fixed nfkd id := by
  intro s hid hne
  rcases h with h | h | ⟨t,h⟩
  · rw [hid] at h
    cases h
  · rw [hid] at h
    exact absurd (Option.some.inj h) hne
  · rw [hid] at h
    rw [Option.some.inj h]
    exact to_snake_to_snake hascii t

theorem normalizeRow_node {n : OntogenLLMNode} (h : Fixed nfkd n.id) :
    normalizeRow nfkd n.model_dump = n.model_dump := by
  obtain ⟨id,name,description,score,urns⟩ := n
  rcases id with _ | _ | ⟨c,s⟩
  · rfl
  · rfl
  · show Json.obj (setItem _ (.str (to_snake nfkd (c::s))) _) = _
    rw [h _ rfl (List.cons_ne_nil c s)]
    rfl

theorem normalizeRow_edge {e : OntogenLLMEdge} (h : Fixed nfkd e.id) :
    normalizeRow nfkd e.model_dump = e.model_dump := by
  obtain ⟨id,label,semantics,score⟩ := e
  rcases id with _ | _ | ⟨c,s⟩
  · rfl
  · rfl
  · show Json.obj (setItem _ (.str (to_snake nfkd (c::s))) _) = _
    rw [h _ rfl (List.cons_ne_nil c s)]
    rfl

/-- A triple is left where the ids to remap are. -/
theorem normalizeTriple_dump {nodeIds edgeIds : List Str} (t : OntogenLLMTriple)
    (hn : ∀ s ∈ nodeIds, to_snake nfkd s = s) (he : ∀ s ∈ edgeIds, to_snake nfkd s = s) :
    normalizeTriple nfkd nodeIds edgeIds t.model_dump = some t.model_dump := by
  have href : ∀ {origs : List Str} {key : String} {items : List (Str × Json)} {s : Str},
      (∀ s ∈ origs, to_snake nfkd s = s) → get? key.toList items = some (.str s) →
      setItem key.toList (.str s) items = items → remapRef nfkd origs key items = some items := by
    intro origs key items s horigs hget hset
    rw [remapRef,hget]
    dsimp only
    by_cases hs : s ∈ origs
    · rw [if_pos hs,horigs s hs,hset]
    · rw [if_neg hs]
  simp only [OntogenLLMTriple.model_dump,normalizeTriple,Option.bind_eq_bind]
  rw [href (s:=t.subject_node_id) hn rfl rfl,Option.bind_some,
    href (s:=t.edge_id) he rfl rfl,Option.bind_some,
    href (s:=t.object_node_id) hn rfl rfl,Option.bind_some]
  rfl

theorem iterOr_arr {key : String} {values : List (Str × Json)} {l : List Json}
    (h : get? key.toList values = some (.arr l)) : iterOr key values = some l := by
  rw [iterOr,h]
  cases l <;> rfl

theorem mapField_arr {key : String} {f : Json → Option Json} {values : List (Str × Json)}
    {l : List Json} (h : get? key.toList values = some (.arr l))
    (hset : setItem key.toList (.arr l) values = values) (hf : ∀ x ∈ l, f x = some x) :
    mapField key f values = some values := by
  have hmapM : l.mapM f = some l := by
    clear h hset
    induction l with
    | nil => rfl
    | cons x l ih =>
      rw [List.mapM_cons,hf x List.mem_cons_self,ih fun y hy => hf y (List.mem_cons_of_mem _ hy)]
      rfl
  rw [mapField,h]
  show ((l.mapM f).map _).map _ = _
  rw [hmapM]
  exact congrArg some hset

theorem origId_dump {o : Option Str} {items : List (Str × Json)} {s : Str}
    (h : origId (.obj (("id".toList,dumpOptional o)::items)) = some s) : o = some s ∧ s ≠ [] := by
  rcases o with _ | _ | ⟨c,t⟩
  · cases h
  · cases h
  · obtain rfl := Option.some.inj h
    exact ⟨rfl,List.cons_ne_nil c t⟩

/-- The ids that a dump gives to remap. -/
theorem origIds_fixed {α : Type} {rows : List α} {dump : α → Json} {id : α → Option Str}
    (hdump : ∀ x, ∃ items, dump x = .obj (("id".toList,dumpOptional (id x))::items))
    (h : ∀ x ∈ rows, Fixed nfkd (id x)) :
    ∀ s ∈ (rows.map dump).filterMap origId, to_snake nfkd s = s := by
  intro s hs
  obtain ⟨v,hv,horig⟩ := List.mem_filterMap.mp hs
  obtain ⟨x,hx,rfl⟩ := List.mem_map.mp hv
  obtain ⟨items,hitems⟩ := hdump x
  rw [hitems] at horig
  obtain ⟨hid,hne⟩ := origId_dump horig
  exact h x hx s hid hne

/-- The before-validator leaves a dump with such ids. -/
theorem normalize_ids_dump {output : OntogenLLMOutput} (hn : ∀ n ∈ output.nodes, Fixed nfkd n.id)
    (he : ∀ e ∈ output.edges, Fixed nfkd e.id) :
    normalize_ids nfkd output.model_dump = some output.model_dump := by
  have hnodes : ∀ x ∈ output.nodes.map (·.model_dump), (some ∘ normalizeRow nfkd) x = some x := by
    intro x hx
    obtain ⟨n,hmem,rfl⟩ := List.mem_map.mp hx
    exact congrArg some (normalizeRow_node (hn n hmem))
  have hedges : ∀ x ∈ output.edges.map (·.model_dump), (some ∘ normalizeRow nfkd) x = some x := by
    intro x hx
    obtain ⟨e,hmem,rfl⟩ := List.mem_map.mp hx
    exact congrArg some (normalizeRow_edge (he e hmem))
  have htriples : ∀ x ∈ output.triples.map (·.model_dump),
      normalizeTriple nfkd ((output.nodes.map (·.model_dump)).filterMap origId)
        ((output.edges.map (·.model_dump)).filterMap origId) x = some x := by
    intro x hx
    obtain ⟨t,-,rfl⟩ := List.mem_map.mp hx
    exact normalizeTriple_dump t (origIds_fixed (fun n => ⟨_,rfl⟩) hn)
      (origIds_fixed (fun e => ⟨_,rfl⟩) he)
  simp only [OntogenLLMOutput.model_dump,normalize_ids,Option.bind_eq_bind]
  rw [iterOr_arr (l:=output.nodes.map (·.model_dump)) rfl,Option.bind_some,
    iterOr_arr (l:=output.edges.map (·.model_dump)) rfl,Option.bind_some,
    iterOr_arr (l:=output.triples.map (·.model_dump)) rfl,Option.bind_some,
    mapField_arr (l:=output.nodes.map (·.model_dump)) rfl rfl hnodes,Option.bind_some,
    mapField_arr (l:=output.edges.map (·.model_dump)) rfl rfl hedges,Option.bind_some,
    mapField_arr (l:=output.triples.map (·.model_dump)) rfl rfl htriples,Option.bind_some]
  rfl

end Normalize

section Cleaned

variable {L : Lib} {payload v : Json} {urns : List Str} {output : OntogenLLMOutput}
  {errors : List ValidationError}

theorem errors_of_parsed (hparse : (outputSchema L).model_validate payload = some (v,some output)) :
    validate_ontogen_output L payload urns = some (semanticErrors urns output) := by
  rw [validate_ontogen_output,hparse]
  rfl

/-- The output that `partition_clean_rows` leaves is the part of the payload that validates: its
dump parses back to it without an error, no reference of it dangles, and the count is of the
rows that are gone. -/
structure Cleaned (L : Lib) (urns : List Str) (output cleaned : OntogenLLMOutput) (dropped : ℕ) :
    Prop where
  parsed : (outputSchema L).model_validate cleaned.model_dump =
    some (cleaned.model_dump,some cleaned)
  valid : ∀ payload v, (outputSchema L).model_validate payload = some (v,some cleaned) →
    validate_ontogen_output L payload urns = some []
  within : cleaned.Within output
  dropped_eq : cleaned.nodes.length + cleaned.edges.length + cleaned.triples.length + dropped =
    output.nodes.length + output.edges.length + output.triples.length
  refs : ∀ t ∈ cleaned.triples, some t.subject_node_id ∈ cleaned.nodes.map (·.id) ∧
    some t.edge_id ∈ cleaned.edges.map (·.id) ∧
    some t.object_node_id ∈ cleaned.nodes.map (·.id)

theorem partition_within (urns : List Str) (output : OntogenLLMOutput) :
    (partition_clean_rows output (semanticErrors urns output)).1.Within output := by
  rw [partition_semantic]
  exact ⟨dropRows_sublist _ _,dropRows_sublist _ _,dropRows_sublist _ _⟩

/-- A part of a parsed payload parses as it is dumped. -/
theorem parsed_within (hascii : ∀ s : Str, (∀ c ∈ s, c.toNat < 128) → L.nfkd s = s)
    (hparse : (outputSchema L).model_validate payload = some (v,some output))
    {cleaned : OntogenLLMOutput} (hwithin : cleaned.Within output) :
    (outputSchema L).model_validate cleaned.model_dump =
      some (cleaned.model_dump,some cleaned) := by
  obtain ⟨w,hw,hpair⟩ := Option.map_eq_some_iff.mp hparse
  have hdecode : decodeOutput L.parse_float w = some output := (Prod.mk.inj hpair).2
  obtain ⟨hnodes,hedges⟩ := ids_normalized hw hdecode
  have hnorm : normalize_ids L.nfkd cleaned.model_dump = some cleaned.model_dump :=
    normalize_ids_dump (fun n hn => (hnodes n (hwithin.nodes.subset hn)).fixed hascii)
      fun e he => (hedges e (hwithin.edges.subset he)).fixed hascii
  have hdump := decodeOutput_within hdecode hwithin
  show (normalize_ids L.nfkd cleaned.model_dump).map
    (fun v => (v,decodeOutput L.parse_float v)) = _
  rw [hnorm,Option.map_some,hdump]

/-- The clean part of a parsed payload validates again. -/
theorem partition_cleaned (hascii : ∀ s : Str, (∀ c ∈ s, c.toNat < 128) → L.nfkd s = s)
    (hparse : (outputSchema L).model_validate payload = some (v,some output))
    (herr : validate_ontogen_output L payload urns = some errors) :
    Cleaned L urns output (partition_clean_rows output errors).1
      (partition_clean_rows output errors).2 := by
  obtain rfl : errors = semanticErrors urns output :=
    Option.some.inj (herr.symm.trans (errors_of_parsed hparse))
  have hwithin := partition_within urns output
  refine ⟨parsed_within hascii hparse hwithin,?_,hwithin,partition_count urns output,
    fun t ht => partition_refs ht⟩
  intro payload v hpayload
  rw [errors_of_parsed hpayload,semanticErrors_partition]

def danglingPayload : Json :=
  obj [("nodes",.arr [obj [("id",str "a"),("name",str "A"),("dataset_urns",.arr [str "urn"])],
      obj [("id",str "b"),("name",str "B"),("dataset_urns",.arr [str "other"])]]),
    ("edges",.arr [obj [("id",str "has"),("label",str "has")]]),
    ("triples",.arr [obj [("subject_node_id",str "a"),("edge_id",str "has"),
      ("object_node_id",str "b")]])]

def danglingOutput : OntogenLLMOutput where
  nodes := [⟨some ['a'],['A'],[],.fin 0,["urn".toList]⟩,⟨some ['b'],['B'],[],.fin 0,["other".toList]⟩]
  edges := [⟨some "has".toList,"has".toList,[],.fin 0⟩]
  triples := [⟨['a'],"has".toList,['b'],.fin 0⟩]

/-- The node is dropped and the triple with it. -/
theorem partition_cleaned_sample :
    Cleaned sampleLib ["urn".toList] danglingOutput
      (partition_clean_rows danglingOutput (semanticErrors ["urn".toList] danglingOutput)).1
      (partition_clean_rows danglingOutput (semanticErrors ["urn".toList] danglingOutput)).2 ∧
    (partition_clean_rows danglingOutput (semanticErrors ["urn".toList] danglingOutput)).2 = 2 := by
  have hparse : ∃ v, (outputSchema sampleLib).model_validate danglingPayload =
      some (v,some danglingOutput) := ⟨_,rfl⟩
  obtain ⟨v,hparse⟩ := hparse
  exact ⟨partition_cleaned (fun _ _ => rfl) hparse (errors_of_parsed hparse),by decide +kernel⟩

end Cleaned

end Ontogen
end Dataspoke
