import Dataspoke.OntogenIntegrity

/-!
# The ids of triples

The id of a triple joins three ids by the double underscore. What `make_snake_id` returns has no
underscore that could be taken for a part of one.
-/

namespace Dataspoke
namespace Ontogen

open Python Slug Fold Debate Transition

/-- No underscore at either end, and no two in a row. -/
structure Whole (s : Str) : Prop extends IsSnake s where
  head : s.head? ≠ some '_'

theorem whole_make_snake_id (nfkd : Str → Str) (name : Str) (existing : List Str) :
    Whole (make_snake_id nfkd name existing) :=
  ⟨(make_snake_id_spec nfkd name existing).2,make_snake_id_head nfkd name existing⟩

theorem hasDouble_separator (x y : Str) : hasDouble (x ++ '_' :: '_' :: y) = true := by
  have hmiddle : hasDouble ('_' :: '_' :: y) = true := rfl
  rw [hasDouble_append,hmiddle,Bool.or_true,Bool.true_or]

/-- The first separator of a text is behind a whole id. -/
theorem prefix_of_separator {p s x y : Str} (hp : Whole p)
    (h : p ++ '_' :: '_' :: x = s ++ '_' :: '_' :: y) : p <+: s := by
  rcases List.append_eq_append_iff.mp h with ⟨e,hs,-⟩ | ⟨e,hps,hrest⟩
  · exact ⟨e,hs.symm⟩
  · cases e with
    | nil =>
      rw [List.append_nil] at hps
      exact hps ▸ List.prefix_rfl
    | cons c e =>
      simp only [List.cons_append,List.cons.injEq] at hrest
      obtain ⟨rfl,hrest⟩ := hrest
      cases e with
      | nil =>
        refine absurd ?_ hp.last
        rw [hps,List.getLast?_concat]
      | cons c e =>
        simp only [List.cons_append,List.cons.injEq] at hrest
        obtain ⟨rfl,-⟩ := hrest
        have hdouble := hasDouble_separator s e
        rw [← hps,hp.single] at hdouble
        cases hdouble

/-- In front of a whole id at the end of a text there is one separator. -/
theorem eq_nil_of_separator {q e o : Str} (hq : Whole q)
    (h : '_' :: '_' :: q = e ++ '_' :: '_' :: o) : e = [] := by
  cases e with
  | nil => rfl
  | cons c e =>
    exfalso
    simp only [List.cons_append,List.cons.injEq] at h
    cases e with
    | nil =>
      simp only [List.nil_append,List.cons.injEq] at h
      exact hq.head (by rw [h.2.2]; rfl)
    | cons d e =>
      simp only [List.cons_append,List.cons.injEq] at h
      have hdouble := hasDouble_separator e o
      rw [← h.2.2,hq.single] at hdouble
      cases hdouble

theorem tripleId_eq (subject edge object : Str) :
    tripleId subject edge object = subject ++ '_' :: '_' :: (edge ++ '_' :: '_' :: object) := by
  have hseparator : "__".toList = ['_','_'] := by decide
  unfold tripleId
  rw [hseparator]
  simp only [List.append_assoc,List.cons_append,List.nil_append]

/-- Whole ids are read back from the id of their triple, whatever ids it is compared with. -/
theorem tripleId_whole {p q r s e o : Str} (hp : Whole p) (hq : Whole q) (hr : Whole r)
    (h : tripleId s e o = tripleId p q r) : s = p ∧ e = q ∧ o = r := by
  rw [tripleId_eq,tripleId_eq] at h
  obtain ⟨s',rfl⟩ := prefix_of_separator hp h.symm
  rw [List.append_assoc,List.append_cancel_left_eq] at h
  cases s' with
  | nil =>
    simp only [List.nil_append,List.cons.injEq,true_and] at h
    obtain ⟨e',rfl⟩ := prefix_of_separator hq h.symm
    rw [List.append_assoc,List.append_cancel_left_eq] at h
    obtain rfl := eq_nil_of_separator hr h.symm
    simp only [List.nil_append,List.cons.injEq,true_and] at h
    exact ⟨List.append_nil p,List.append_nil q,h⟩
  | cons c s' =>
    exfalso
    simp only [List.cons_append,List.cons.injEq] at h
    cases s' with
    | nil =>
      simp only [List.nil_append,List.cons.injEq] at h
      refine hq.head ?_
      rw [← List.head?_append_of_ne_nil q hq.ne_nil,← h.2.2]
      rfl
    | cons d s' =>
      simp only [List.cons_append,List.cons.injEq] at h
      -- a separator behind `q` would leave another one within `r`
      obtain ⟨s'',rfl⟩ := prefix_of_separator hq h.2.2.symm
      have hrest := h.2.2
      rw [List.append_assoc,List.append_cancel_left_eq] at hrest
      obtain rfl := eq_nil_of_separator hr hrest.symm
      simp only [List.nil_append,List.cons.injEq,true_and] at hrest
      have hdouble := hasDouble_separator e o
      rw [hrest,hr.single] at hdouble
      cases hdouble

section Stored

variable {L : Lib} {i : RunInput} {db : Db} {run_id : Str} {outcome : Outcome}
  {output : OntogenLLMOutput}

/-- The ids of the stored nodes and edges are whole, and the triples are made of such. -/
structure WholeIds (db : Db) : Prop where
  nodes : ∀ r ∈ db.nodes.rows, Whole r.id
  edges : ∀ r ∈ db.edges.rows, Whole r.id
  triples : ∀ r ∈ db.triples.rows, r.id = tripleId r.subject_node_id r.edge_id r.object_node_id ∧
    Whole r.subject_node_id ∧ Whole r.edge_id ∧ Whole r.object_node_id

theorem WholeIds.node (h : WholeIds db) {id : Str} (hid : (db.nodes.get? id).isSome) :
    Whole id := by
  obtain ⟨row,hrow⟩ := Option.isSome_iff_exists.mp hid
  obtain ⟨hmem,rfl⟩ := Table.get?_eq_some.mp hrow
  exact h.nodes row hmem

theorem WholeIds.edge (h : WholeIds db) {id : Str} (hid : (db.edges.get? id).isSome) :
    Whole id := by
  obtain ⟨row,hrow⟩ := Option.isSome_iff_exists.mp hid
  obtain ⟨hmem,rfl⟩ := Table.get?_eq_some.mp hrow
  exact h.edges row hmem

theorem resolveNode_whole {C : Context} {known : List Str} {p : OntogenLLMNode} {n : NodeUpsert}
    (h : resolveNode C known p = some n) (hnew : n.is_reuse = false) : Whole n.id := by
  unfold resolveNode at h
  dsimp only at h
  split at h
  · cases h
  · obtain rfl := Option.some.inj h
    rw [Option.isSome_eq_false_iff,Option.isNone_iff_eq_none] at hnew
    dsimp only
    rw [hnew]
    exact whole_make_snake_id _ _ _

theorem resolveEdge_whole {C : Context} {known : List Str} {p : OntogenLLMEdge} {e : EdgeUpsert}
    (h : resolveEdge C known p = some e) (hnew : get? e.label C.edge_label_to_id = none) :
    Whole e.id := by
  unfold resolveEdge at h
  dsimp only at h
  split at h
  · cases h
  · obtain rfl := Option.some.inj h
    dsimp only at hnew ⊢
    rw [hnew]
    exact whole_make_snake_id _ _ _

/-- What is stored under a staged node has a whole id. -/
theorem persistNodes_whole (hdb : WholeIds db) {t : Db}
    (h : persistNodes run_id (staged L i db outcome output).nodes db = .ok t) : WholeIds t := by
  have hnew : ∀ n ∈ (staged L i db outcome output).nodes, n.is_reuse = false → Whole n.id := by
    intro n hn hreuse
    obtain ⟨p,-,known,-,hres⟩ := staged_node hn
    exact resolveNode_whole hres hreuse
  obtain ⟨-,hedges,htriples⟩ := persistNodes_ok h
  refine ⟨?_,by rw [hedges]; exact hdb.edges,by rw [htriples]; exact hdb.triples⟩
  obtain ⟨db₁,h₁,h₂⟩ := bind_eq_ok.mp h
  have hloop : ∀ r ∈ db₁.nodes.rows, Whole r.id := by
    refine foldlM_invariant (I:=fun s : Db => ∀ r ∈ s.nodes.rows, Whole r.id)
      (fun s n hn u hs hu => ?_) hdb.nodes h₁
    obtain ⟨-,rfl⟩ | ⟨-,hmaps⟩ | ⟨-,hreuse,rfl⟩ := persistNode_ok hu
    · exact hs
    · rw [(upsert_dataset_node_maps_ok hmaps).1.1]
      exact hs
    · intro r hr
      rcases Table.mem_put.mp hr with rfl | ⟨hr,-⟩
      · rw [(writtenNode_spec run_id s.nodes n).1]
        exact hnew n hn hreuse
      · exact hs r hr
  refine foldlM_invariant (I:=fun s : Db => ∀ r ∈ s.nodes.rows, Whole r.id)
    (fun s n _ u hs hu => ?_) hloop h₂
  rw [(persistMaps_ok hu).1.1]
  exact hs

theorem persistEdges_whole {s t : Db} (hs : WholeIds s)
    (hedges : ∀ e ∈ (staged L i db outcome output).edges, Whole e.id)
    (h : persistEdges run_id (staged L i db outcome output).edges s = .ok t) : WholeIds t := by
  obtain ⟨hnodes,-,htriples⟩ := persistEdges_ok h
  refine ⟨by rw [hnodes]; exact hs.nodes,?_,by rw [htriples]; exact hs.triples⟩
  refine foldlM_invariant (I:=fun u : Db => ∀ r ∈ u.edges.rows, Whole r.id)
    (fun u e he v hu hv => ?_) hs.edges h
  obtain ⟨-,rfl⟩ | ⟨-,-,-,rfl⟩ := persistEdge_ok hv
  · exact hu
  · intro r hr
    rcases Table.mem_put.mp hr with rfl | ⟨hr,-⟩
    · exact hedges e he
    · exact hu r hr

theorem persistTriples_whole {s t : Db} (hs : WholeIds s)
    (h : persistTriples run_id (staged L i db outcome output).triples s = .ok t) : WholeIds t := by
  refine foldlM_invariant (I:=fun u : Db => WholeIds u) (fun u x hx v hu hv => ?_) hs h
  obtain rfl | ⟨hsubject,hedge,hobject,-,rfl⟩ := persistTriple_ok hv
  · exact hu
  · refine ⟨hu.nodes,hu.edges,fun r hr => ?_⟩
    rcases Table.mem_put.mp hr with rfl | ⟨hr,-⟩
    · exact ⟨staged_triple_id hx,hu.node hsubject,hu.edge hedge,hu.node hobject⟩
    · exact hu.triples r hr

theorem wholeIds_run (hdb : WholeIds db) : WholeIds (run_inner L i db).1 := by
  rcases run_inner_cases L i db with h | ⟨result,output,-,h⟩
  · rw [h]
    exact hdb
  · rw [h]
    have hedges : ∀ e ∈ (staged L i db result.outcome output).edges, Whole e.id := by
      intro e he
      rcases staged_edge_id he with ⟨id,-,hsome⟩ | ⟨hnone,-⟩
      · exact hdb.edge hsome
      · obtain ⟨p,-,known,-,hres⟩ := staged_edge he
        exact resolveEdge_whole hres hnone
    apply persist_invariant (I:=WholeIds) hdb
    · exact fun t ht => persistNodes_whole hdb ht
    · exact fun s t hs ht => persistEdges_whole hs hedges ht
    · exact fun s t hs ht => persistTriples_whole hs ht

theorem wholeIds_review {db' : Db} {r : Review} (h : WholeIds db)
    (hstep : review db r = some db') : WholeIds db' := by
  have hdb : (r.run db).toOption.getD db = db' := Option.some.inj hstep
  cases hrun : r.run db with
  | error e =>
    obtain rfl : db = db' := by simpa [hrun,Except.toOption] using hdb
    exact h
  | ok db₁ =>
    obtain rfl : db₁ = db' := by simpa [hrun,Except.toOption] using hdb
    cases r with
    | node id verdict =>
      obtain ⟨row,v,hrow,-,rfl⟩ := review_node_ok hrun
      refine ⟨fun r hr => ?_,h.edges,h.triples⟩
      rcases Table.mem_put.mp hr with rfl | ⟨hr,-⟩
      · exact h.nodes row (Table.get?_eq_some.mp hrow).1
      · exact h.nodes r hr
    | edge id verdict =>
      obtain ⟨row,v,hrow,-,rfl⟩ := review_edge_ok hrun
      refine ⟨h.nodes,fun r hr => ?_,h.triples⟩
      rcases Table.mem_put.mp hr with rfl | ⟨hr,-⟩
      · exact h.edges row (Table.get?_eq_some.mp hrow).1
      · exact h.edges r hr
    | triple id verdict =>
      obtain ⟨row,v,hrow,-,-,rfl⟩ := review_triple_ok hrun
      refine ⟨h.nodes,h.edges,fun r hr => ?_⟩
      rcases Table.mem_put.mp hr with rfl | ⟨hr,-⟩
      · exact h.triples row (Table.get?_eq_some.mp hrow).1
      · exact h.triples r hr

theorem wholeIds_reachable (h : Reachable (ontology L) db) : WholeIds db := by
  refine h.invariant (I:=WholeIds) ?_ ?_
  · rintro s rfl
    constructor <;> simp [Db.empty,Table.empty]
  · intro s a t hs ht
    cases a with
    | run i =>
      obtain ⟨-,rfl⟩ := ht
      exact wholeIds_run hs
    | review r => exact wholeIds_review hs ht

/-- The ids that `make_snake_id` can return. -/
def Produced (nfkd : Str → Str) (id : Str) : Prop :=
  ∃ name existing, id = make_snake_id nfkd name existing

/-- Different combinations of ids have different triple ids, and in the tables that runs and
reviews leave the id of a stored triple stands for its own combination only. -/
theorem triple_ids_injective (L : Lib) :
    (∀ s e o s' e' o', Produced L.nfkd s → Produced L.nfkd e → Produced L.nfkd o →
      Produced L.nfkd s' → Produced L.nfkd e' → Produced L.nfkd o' →
        tripleId s e o = tripleId s' e' o' → s = s' ∧ e = e' ∧ o = o') ∧
    ∀ db, Reachable (ontology L) db → ∀ row ∈ db.triples.rows, ∀ s e o,
      tripleId s e o = row.id →
        s = row.subject_node_id ∧ e = row.edge_id ∧ o = row.object_node_id := by
  constructor
  · rintro s e o s' e' o' - - - ⟨_,_,rfl⟩ ⟨_,_,rfl⟩ ⟨_,_,rfl⟩ h
    exact tripleId_whole (whole_make_snake_id ..) (whole_make_snake_id ..)
      (whole_make_snake_id ..) h
  · intro db hdb row hrow s e o h
    obtain ⟨hid,hsubject,hedge,hobject⟩ := (wholeIds_reachable hdb).triples row hrow
    exact tripleId_whole hsubject hedge hobject (h.trans hid)

end Stored

def crossingRun : RunInput :=
  { sampleRun with
    producer := fun _ _ => .message [⟨"ontogen_validate".toList,[("payload".toList,
      crossedPayload)]⟩] }

def crossedDb : Db := (run_inner sampleLib crossingRun .empty).1

def crossedTriple : OntogenTriple :=
  ⟨"b__has__b".toList,['b'],"has".toList,['b'],.fin 0,.llm_pending,some "run".toList⟩

theorem triple_ids_injective_sample : (make_snake_id id "Alpha".toList [] = "alpha".toList ∧
      "has".toList = "has".toList ∧ make_snake_id id "B".toList [] = ['b']) ∧
    (['b'] = crossedTriple.subject_node_id ∧ "has".toList = crossedTriple.edge_id ∧
      ['b'] = crossedTriple.object_node_id) := by
  have halpha : Produced id "alpha".toList := ⟨"Alpha".toList,[],by decide +kernel⟩
  have hhas : Produced id "has".toList := ⟨"has".toList,[],by decide +kernel⟩
  have hb : Produced id ['b'] := ⟨"B".toList,[],by decide +kernel⟩
  constructor
  · exact (triple_ids_injective sampleLib).1 _ _ _ _ _ _ ⟨_,_,rfl⟩ hhas ⟨_,_,rfl⟩ halpha hhas hb
      (by decide +kernel)
  · have hstep : (ontology sampleLib).step .empty (.run crossingRun) crossedDb := ⟨nofun,rfl⟩
    have hreachable : Reachable (ontology sampleLib) crossedDb := ⟨_,_,rfl,.step .refl hstep⟩
    have hrow : crossedTriple ∈ crossedDb.triples.rows := by decide +kernel
    exact (triple_ids_injective sampleLib).2 crossedDb hreachable crossedTriple hrow _ _ _
      (by decide)

end Ontogen
end Dataspoke
