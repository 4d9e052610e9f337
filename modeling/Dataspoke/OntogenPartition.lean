import Dataspoke.OntogenContainment
import Mathlib.Data.List.Dedup

/-!
# The clean part of a payload

`partition_clean_rows` drops the rows that the validator reports and the triples that refer to
them. What is left has no error: a row keeps what it says of itself, and a triple that is left
refers to rows that are left.
-/

namespace Dataspoke
namespace Ontogen

open Python Pydantic Slug

section Dropped

variable {α : Type} {bad : List ℕ} {rows : List α}

theorem mem_dropRows {x : α} : x ∈ dropRows bad rows ↔ ∃ j, rows[j]? = some x ∧ j ∉ bad := by
  simp [dropRows,List.mk_mem_zipIdx_iff_getElem?]

theorem dropRows_sublist (bad : List ℕ) (rows : List α) : (dropRows bad rows).Sublist rows := by
  have h : (rows.zipIdx.filter fun p => p.2 ∉ bad).Sublist rows.zipIdx := List.filter_sublist
  have hmap := h.map Prod.fst
  rwa [List.zipIdx_map_fst] at hmap

theorem zipIdx_pairwise (rows : List α) : rows.zipIdx.Pairwise fun p q => p.2 < q.2 := by
  rw [← List.pairwise_map (f:=Prod.snd) (R:=fun a b : ℕ => a < b),List.zipIdx_map_snd]
  exact List.pairwise_lt_range'

/-- What holds of two rows whenever the later one is left. -/
theorem dropRows_pairwise {R : α → α → Prop}
    (h : ∀ i j x y, rows[i]? = some x → rows[j]? = some y → i < j → j ∉ bad → R x y) :
    (dropRows bad rows).Pairwise R := by
  have hleft := (zipIdx_pairwise rows).sublist
    (List.filter_sublist (p:=fun p : α × ℕ => decide (p.2 ∉ bad)))
  refine List.pairwise_map.mpr (hleft.imp_of_mem ?_)
  intro p q hp hq hlt
  have hp' := List.mem_zipIdx_iff_getElem?.mp (List.mem_filter.mp hp).1
  have hq' := List.mem_zipIdx_iff_getElem?.mp (List.mem_filter.mp hq).1
  exact h p.2 q.2 p.1 q.1 hp' hq' hlt (of_decide_eq_true (List.mem_filter.mp hq).2)

theorem length_dropRows (hn : bad.Nodup) (hlt : ∀ j ∈ bad, j < rows.length) :
    (dropRows bad rows).length + bad.length = rows.length := by
  have hleft : (dropRows bad rows).length =
      ((List.range' 0 rows.length).filter fun j => decide (j ∉ bad)).length := by
    rw [dropRows,List.length_map,← List.zipIdx_map_snd 0 rows,List.filter_map,List.length_map]
    rfl
  have hbad : bad.Perm ((List.range' 0 rows.length).filter fun j => decide (j ∈ bad)) := by
    have hrange : (List.range' 0 rows.length).Nodup := List.nodup_range'
    refine (List.perm_ext_iff_of_nodup hn (hrange.filter _)).mpr fun j => ?_
    rw [List.mem_filter,List.mem_range'_1,decide_eq_true_eq]
    exact ⟨fun hj => ⟨⟨Nat.zero_le j,by simpa using hlt j hj⟩,hj⟩,fun hj => hj.2⟩
  have hsum := List.length_eq_length_filter_add (l:=List.range' 0 rows.length)
    fun j => decide (j ∈ bad)
  rw [List.length_range'] at hsum
  rw [hleft,hbad.length_eq]
  simp only [decide_not] at *
  omega

end Dropped

/-- A slug as the two slug rules have it. -/
def CleanId (id : Str) : Prop := hasDouble id = false ∧ isSlug id = true

def InRange (x : Number) : Prop := ((Number.fin 0).le x && x.le (.fin 1)) = true

theorem check_slug_eq_nil {path : List Piece} {id : Str} : check_slug path id = [] ↔ CleanId id := by
  unfold check_slug CleanId
  cases hasDouble id <;> cases isSlug id <;> simp

theorem slugErrors_nil {collection : String} {ids : List (Option Str)}
    (h : ∀ id, some id ∈ ids → CleanId id) : slugErrors collection ids = [] := by
  refine List.flatMap_eq_nil_iff.mpr ?_
  rintro ⟨id,j⟩ hmem
  cases id with
  | none => rfl
  | some id => exact check_slug_eq_nil.mpr (h id (List.mem_of_getElem?
      (List.mem_zipIdx_iff_getElem?.mp hmem)))

theorem dupIdErrors_nil {collection what : String} {i : ℕ} {seen : List (Str × ℕ)}
    {ids : List (Option Str)} (hseen : ∀ id, some id ∈ ids → get? id seen = none)
    (hn : ids.Pairwise fun x y => x = none ∨ x ≠ y) : dupIdErrors collection what i seen ids = [] := by
  fun_induction dupIdErrors collection what i seen ids with
  | case1 => rfl
  | case2 i seen ids ih =>
    exact ih (fun id hid => hseen id (List.mem_cons_of_mem _ hid)) (List.pairwise_cons.mp hn).2
  | case3 i seen id ids first hget =>
    rw [hseen id List.mem_cons_self] at hget
    cases hget
  | case4 i seen id ids hget ih =>
    obtain ⟨hid,hn⟩ := List.pairwise_cons.mp hn
    refine ih (fun id' hid' => ?_) hn
    have hne : id ≠ id' := fun he => (hid _ hid').elim (Option.some_ne_none id) fun h => h (congrArg some he)
    rw [get?,if_neg hne]
    exact hseen id' (List.mem_cons_of_mem _ hid')

theorem confErrors_nil {collection : String} {scores : List Number}
    (h : ∀ x ∈ scores, InRange x) : confErrors collection scores = [] := by
  refine List.flatMap_eq_nil_iff.mpr ?_
  rintro ⟨x,j⟩ hmem
  exact if_pos (h x (List.mem_of_getElem? (List.mem_zipIdx_iff_getElem?.mp hmem)))

theorem urnErrors_nil {urns : List Str} {nodes : List OntogenLLMNode}
    (h : ∀ n ∈ nodes, n.dataset_urns ≠ [] ∧ ∀ urn ∈ n.dataset_urns, urn ∈ urns) :
    urnErrors urns nodes = [] := by
  refine List.flatMap_eq_nil_iff.mpr ?_
  rintro ⟨n,i⟩ hmem
  obtain ⟨hne,hurns⟩ := h n (List.mem_of_getElem? (List.mem_zipIdx_iff_getElem?.mp hmem))
  dsimp only
  rw [if_neg hne]
  refine List.flatMap_eq_nil_iff.mpr ?_
  rintro ⟨urn,j⟩ hurn
  exact if_pos (hurns urn (List.mem_of_getElem? (List.mem_zipIdx_iff_getElem?.mp hurn)))

theorem tripleRefErrors_nil {output : OntogenLLMOutput}
    (h : ∀ t ∈ output.triples, some t.subject_node_id ∈ output.nodes.map (·.id) ∧
      some t.edge_id ∈ output.edges.map (·.id) ∧
      some t.object_node_id ∈ output.nodes.map (·.id)) : tripleRefErrors output = [] := by
  refine List.flatMap_eq_nil_iff.mpr ?_
  rintro ⟨t,i⟩ hmem
  obtain ⟨hs,he,ho⟩ := h t (List.mem_of_getElem? (List.mem_zipIdx_iff_getElem?.mp hmem))
  simp only [refErrors,if_pos hs,if_pos he,if_pos ho,List.append_nil]

theorem dupTripleErrors_nil {i : ℕ} {seen : List ((Str × Str × Str) × ℕ)}
    {ts : List OntogenLLMTriple} (hseen : ∀ t ∈ ts, ∀ s ∈ seen, s.1 ≠ tripleKey t)
    (hn : ts.Pairwise fun t t' => tripleKey t ≠ tripleKey t') : dupTripleErrors i seen ts = [] := by
  fun_induction dupTripleErrors i seen ts with
  | case1 => rfl
  | case2 i seen t ts first hfind =>
    have hkey := hseen t List.mem_cons_self first (List.mem_of_find?_eq_some hfind)
    exact absurd (by simpa using List.find?_some hfind) hkey
  | case3 i seen t ts hfind ih =>
    obtain ⟨ht,hn⟩ := List.pairwise_cons.mp hn
    refine ih (fun t' ht' s hs => ?_) hn
    rcases List.mem_cons.mp hs with rfl | hs
    · exact ht t' ht'
    · exact hseen t' (List.mem_cons_of_mem _ ht') s hs

theorem dupIdErrors_mem {collection what : String} {i j : ℕ} {seen : List (Str × ℕ)}
    {ids : List (Option Str)} {id : Str} (hj : ids[j]? = some (some id))
    (h : (get? id seen).isSome ∨ ∃ k < j, ids[k]? = some (some id)) :
    ∃ e ∈ dupIdErrors collection what i seen ids, e.path = field collection (i+j) ".id" := by
  have hshift : ∀ i j : ℕ, i + (j+1) = i+1+j := fun i j => by omega
  fun_induction dupIdErrors collection what i seen ids generalizing j with
  | case1 => cases hj
  | case2 i seen ids ih =>
    cases j with
    | zero => cases hj
    | succ j =>
      rw [Nat.exists_lt_succ_left] at h
      rw [hshift i j]
      exact ih hj (by simpa using h)
  | case3 i seen id' ids first hget ih =>
    cases j with
    | zero => exact ⟨_,List.mem_cons_self,rfl⟩
    | succ j =>
      have hseen : id' = id → (get? id seen).isSome := by
        rintro rfl
        exact Option.isSome_iff_exists.mpr ⟨_,hget⟩
      rw [Nat.exists_lt_succ_left] at h
      have h' : (get? id seen).isSome ∨ id' = id ∨ ∃ k < j, ids[k]? = some (some id) := by
        simpa using h
      obtain ⟨e,he,hpath⟩ := ih hj (h'.elim Or.inl fun h => h.imp_left hseen)
      exact ⟨e,List.mem_cons_of_mem _ he,by rw [hpath,hshift i j]⟩
  | case4 i seen id' ids hget ih =>
    cases j with
    | zero =>
      cases hj
      simp [hget] at h
    | succ j =>
      rw [Nat.exists_lt_succ_left] at h
      have h' : (get? id seen).isSome ∨ id' = id ∨ ∃ k < j, ids[k]? = some (some id) := by
        simpa using h
      rw [hshift i j]
      refine ih hj ?_
      rw [get?]
      by_cases hid : id' = id
      · rw [if_pos hid]
        exact Or.inl rfl
      · rw [if_neg hid]
        exact h'.imp_right fun h => h.resolve_left hid

theorem dupTripleErrors_mem {i j : ℕ} {seen : List ((Str × Str × Str) × ℕ)}
    {ts : List OntogenLLMTriple} {key : Str × Str × Str} (hj : ts[j]?.map tripleKey = some key)
    (h : (∃ s ∈ seen, s.1 = key) ∨ ∃ k < j, ts[k]?.map tripleKey = some key) :
    ∃ e ∈ dupTripleErrors i seen ts, e.path = field "triples" (i+j) "" := by
  have hshift : ∀ i j : ℕ, i + (j+1) = i+1+j := fun i j => by omega
  fun_induction dupTripleErrors i seen ts generalizing j with
  | case1 => cases hj
  | case2 i seen t ts first hfind ih =>
    cases j with
    | zero => exact ⟨_,List.mem_cons_self,rfl⟩
    | succ j =>
      have hfirst : first.1 = tripleKey t := by simpa using List.find?_some hfind
      have hseen : tripleKey t = key → ∃ s ∈ seen, s.1 = key := fun hkey =>
        ⟨first,List.mem_of_find?_eq_some hfind,hfirst.trans hkey⟩
      rw [Nat.exists_lt_succ_left] at h
      have h' : (∃ s ∈ seen, s.1 = key) ∨ tripleKey t = key ∨
          ∃ k < j, ts[k]?.map tripleKey = some key := by simpa using h
      obtain ⟨e,he,hpath⟩ := ih hj (h'.elim Or.inl fun h => h.imp_left hseen)
      exact ⟨e,List.mem_cons_of_mem _ he,by rw [hpath,hshift i j]⟩
  | case3 i seen t ts hfind ih =>
    have hnone : ∀ s ∈ seen, s.1 ≠ tripleKey t := by simpa using List.find?_eq_none.mp hfind
    cases j with
    | zero =>
      have hkey : tripleKey t = key := by simpa using hj
      rcases h with ⟨s,hs,hs'⟩ | ⟨k,hk,-⟩
      · exact absurd (hs'.trans hkey.symm) (hnone s hs)
      · omega
    | succ j =>
      rw [Nat.exists_lt_succ_left] at h
      have h' : (∃ s ∈ seen, s.1 = key) ∨ tripleKey t = key ∨
          ∃ k < j, ts[k]?.map tripleKey = some key := by simpa using h
      rw [hshift i j]
      refine ih hj ?_
      rw [List.exists_mem_cons_iff,or_assoc]
      exact or_left_comm.mp h'

section Clean

variable {urns : List Str} {output : OntogenLLMOutput} {errors : List ValidationError}

/-- The indices that the errors name in a collection. -/
def badIndices (errors : List ValidationError) (c : Collection) : List ℕ :=
  (errors.filterMap fun e =>
    (pathIndex e.path).bind fun p => if p.1 = c then some p.2 else none).dedup

theorem mem_badIndices {c : Collection} {j : ℕ} :
    j ∈ badIndices errors c ↔ ∃ e ∈ errors, pathIndex e.path = some (c,j) := by
  rw [badIndices,List.mem_dedup,List.mem_filterMap]
  refine exists_congr fun e => and_congr_right fun _ => ?_
  cases pathIndex e.path with
  | none => simp
  | some p =>
    obtain ⟨c',j'⟩ := p
    by_cases hc : c' = c
    · simp [hc]
    · simp [hc]

def badNodeIds (output : OntogenLLMOutput) (errors : List ValidationError) : List (Option Str) :=
  (badIndices errors .nodes).filterMap fun i => output.nodes[i]?.map (·.id)

def badEdgeIds (output : OntogenLLMOutput) (errors : List ValidationError) : List (Option Str) :=
  (badIndices errors .edges).filterMap fun i => output.edges[i]?.map (·.id)

/-- The triples without an error that refer to a dropped row. -/
def cascaded (output : OntogenLLMOutput) (errors : List ValidationError) : List ℕ :=
  output.triples.zipIdx.filterMap fun (t,i) =>
    if i ∉ badIndices errors .triples ∧ (some t.subject_node_id ∈ badNodeIds output errors ∨
      some t.object_node_id ∈ badNodeIds output errors ∨
      some t.edge_id ∈ badEdgeIds output errors)
    then some i else none

def badTriples (output : OntogenLLMOutput) (errors : List ValidationError) : List ℕ :=
  badIndices errors .triples ++ cascaded output errors

theorem partition_clean_rows_eq (h : ∀ e ∈ errors, e.code ≠ "SCHEMA") :
    partition_clean_rows output errors =
      (⟨dropRows (badIndices errors .nodes) output.nodes,
        dropRows (badIndices errors .edges) output.edges,
        dropRows (badTriples output errors) output.triples⟩,
        (badIndices errors .nodes).length + (badIndices errors .edges).length +
          (badTriples output errors).length) := by
  have hno : ¬ errors.any (fun e => e.code = "SCHEMA") = true := by simpa using h
  exact if_neg hno

theorem mem_cascaded {i : ℕ} : i ∈ cascaded output errors ↔ ∃ t, output.triples[i]? = some t ∧
    i ∉ badIndices errors .triples ∧ (some t.subject_node_id ∈ badNodeIds output errors ∨
      some t.object_node_id ∈ badNodeIds output errors ∨
      some t.edge_id ∈ badEdgeIds output errors) := by
  rw [cascaded,List.mem_filterMap]
  constructor
  · rintro ⟨⟨t,j⟩,hmem,h⟩
    obtain ⟨hbad,hj⟩ := Option.ite_none_right_eq_some.mp h
    obtain rfl := Option.some.inj hj
    exact ⟨t,List.mem_zipIdx_iff_getElem?.mp hmem,hbad⟩
  · rintro ⟨t,hget,hbad⟩
    exact ⟨(t,i),List.mem_zipIdx_iff_getElem?.mpr hget,if_pos hbad⟩

theorem nodup_cascaded : (cascaded output errors).Nodup := by
  refine List.pairwise_filterMap.mpr ((zipIdx_pairwise output.triples).imp ?_)
  intro p q hlt i hi j hj
  have hi' := Option.some.inj (Option.ite_none_right_eq_some.mp hi).2
  have hj' := Option.some.inj (Option.ite_none_right_eq_some.mp hj).2
  omega

theorem nodup_badTriples : (badTriples output errors).Nodup := by
  refine List.nodup_append.mpr ⟨List.nodup_dedup _,nodup_cascaded,?_⟩
  rintro i hi j hj rfl
  obtain ⟨t,-,hnot,-⟩ := mem_cascaded.mp hj
  exact hnot hi

def Collection.name : Collection → String
  | .nodes => "nodes"
  | .edges => "edges"
  | .triples => "triples"

theorem pathIndex_field (c : Collection) (j : ℕ) (last : String) (rest : List Piece) :
    pathIndex (field c.name j last ++ rest) = some (c,j) := by
  cases c <;> rfl

theorem pathIndex_of_field {c : Collection} {j : ℕ} {last : String} {e : ValidationError}
    (h : e.path = field c.name j last) : pathIndex e.path = some (c,j) := by
  rw [h,← List.append_nil (field c.name j last)]
  exact pathIndex_field c j last []

/-- A rule that looks at one row at a time says nothing of a row that no error names. -/
theorem rule_nil {α : Type} {c : Collection} {rows : List α} {f : α × ℕ → List ValidationError}
    (hsub : ∀ e ∈ rows.zipIdx.flatMap f, e ∈ errors)
    (hpath : ∀ x j, ∀ e ∈ f (x,j), pathIndex e.path = some (c,j)) {j : ℕ} {x : α}
    (hget : rows[j]? = some x) (hbad : j ∉ badIndices errors c) : f (x,j) = [] := by
  refine List.eq_nil_iff_forall_not_mem.mpr fun e he => hbad (mem_badIndices.mpr ⟨e,?_,?_⟩)
  · have hmem : (x,j) ∈ rows.zipIdx := List.mk_mem_zipIdx_iff_getElem?.mpr hget
    exact hsub e (List.mem_flatMap.mpr ⟨_,hmem,he⟩)
  · exact hpath x j e he

theorem check_slug_path {path : List Piece} {id : Str} {e : ValidationError}
    (h : e ∈ check_slug path id) : e.path = path := by
  unfold check_slug at h
  split at h
  · rw [List.mem_singleton.mp h]
  split at h
  · rw [List.mem_singleton.mp h]
  · cases h

theorem cleanId_of_unnamed {c : Collection} {ids : List (Option Str)}
    (hsub : ∀ e ∈ slugErrors c.name ids, e ∈ errors) {j : ℕ} {id : Str}
    (hget : ids[j]? = some (some id)) (hbad : j ∉ badIndices errors c) : CleanId id := by
  refine check_slug_eq_nil.mp (rule_nil hsub (fun x j e he => ?_) hget hbad)
  cases x with
  | none => cases he
  | some id => exact pathIndex_of_field (check_slug_path he)

theorem inRange_of_unnamed {c : Collection} {scores : List Number}
    (hsub : ∀ e ∈ confErrors c.name scores, e ∈ errors) {j : ℕ} {x : Number}
    (hget : scores[j]? = some x) (hbad : j ∉ badIndices errors c) : InRange x := by
  have hnil := rule_nil hsub (fun x j e he => ?_) hget hbad
  · by_contra h
    exact List.cons_ne_nil _ _ ((if_neg h).symm.trans hnil)
  · dsimp only at he
    split at he
    · cases he
    · rw [List.mem_singleton.mp he]
      exact pathIndex_of_field rfl

theorem urns_of_unnamed {nodes : List OntogenLLMNode}
    (hsub : ∀ e ∈ urnErrors urns nodes, e ∈ errors) {j : ℕ} {n : OntogenLLMNode}
    (hget : nodes[j]? = some n) (hbad : j ∉ badIndices errors .nodes) :
    n.dataset_urns ≠ [] ∧ ∀ urn ∈ n.dataset_urns, urn ∈ urns := by
  have hnil := rule_nil hsub (fun n j e he => ?_) hget hbad
  · dsimp only at hnil
    split at hnil
    · cases hnil
    rename_i hne
    refine ⟨hne,fun urn hurn => ?_⟩
    obtain ⟨k,hk⟩ := List.mem_iff_getElem?.mp hurn
    have hrow := List.flatMap_eq_nil_iff.mp hnil (urn,k) (List.mk_mem_zipIdx_iff_getElem?.mpr hk)
    by_contra h
    exact List.cons_ne_nil _ _ ((if_neg h).symm.trans hrow)
  · dsimp only at he
    split at he
    · rw [List.mem_singleton.mp he]
      exact pathIndex_of_field (c:=.nodes) rfl
    · obtain ⟨⟨urn,k⟩,-,he⟩ := List.mem_flatMap.mp he
      dsimp only at he
      split at he
      · cases he
      · rw [List.mem_singleton.mp he]
        exact pathIndex_field .nodes j _ _

theorem refs_of_unnamed (hsub : ∀ e ∈ tripleRefErrors output, e ∈ errors) {j : ℕ}
    {t : OntogenLLMTriple} (hget : output.triples[j]? = some t)
    (hbad : j ∉ badIndices errors .triples) :
    some t.subject_node_id ∈ output.nodes.map (·.id) ∧
      some t.edge_id ∈ output.edges.map (·.id) ∧
      some t.object_node_id ∈ output.nodes.map (·.id) := by
  have href : ∀ {name code collection ref ids},
      refErrors j name code collection ref ids = [] → some ref ∈ ids := by
    intro name code collection ref ids hnil
    by_contra h
    exact List.cons_ne_nil _ _ ((if_neg h).symm.trans hnil)
  have hpath : ∀ {j name code collection ref ids e}, e ∈ refErrors j name code collection ref ids →
      pathIndex e.path = some (.triples,j) := by
    intro j name code collection ref ids e he
    unfold refErrors at he
    split at he
    · cases he
    · rw [List.mem_singleton.mp he]
      exact pathIndex_of_field (c:=.triples) rfl
  have hnil := rule_nil hsub (fun t j e he => ?_) hget hbad
  · obtain ⟨hnil,hedge⟩ := List.append_eq_nil_iff.mp hnil
    obtain ⟨hsubject,hobject⟩ := List.append_eq_nil_iff.mp hnil
    exact ⟨href hsubject,href hedge,href hobject⟩
  · rcases List.mem_append.mp he with he | he
    · rcases List.mem_append.mp he with he | he
      · exact hpath he
      · exact hpath he
    · exact hpath he

/-- No two rows that are left share an id. -/
theorem ids_pairwise {c : Collection} {what : String} {α : Type} {rows : List α}
    (id : α → Option Str) (hsub : ∀ e ∈ dupIdErrors c.name what 0 [] (rows.map id), e ∈ errors) :
    ((dropRows (badIndices errors c) rows).map id).Pairwise fun x y => x = none ∨ x ≠ y := by
  refine List.pairwise_map.mpr (dropRows_pairwise fun i j x y hx hy hlt hj => ?_)
  cases hid : id x with
  | none => exact Or.inl rfl
  | some s =>
    refine Or.inr fun hsame => hj ?_
    have hi' : (rows.map id)[i]? = some (some s) := by rw [List.getElem?_map,hx,Option.map_some,hid]
    have hj' : (rows.map id)[j]? = some (some s) := by
      rw [List.getElem?_map,hy,Option.map_some,← hsame]
    have hdup : ∃ e ∈ dupIdErrors c.name what 0 [] (rows.map id),
        e.path = field c.name (0+j) ".id" := dupIdErrors_mem hj' (Or.inr ⟨i,hlt,hi'⟩)
    obtain ⟨e,he,hpath⟩ := hdup
    rw [Nat.zero_add] at hpath
    exact mem_badIndices.mpr ⟨e,hsub e he,pathIndex_of_field hpath⟩

theorem keys_pairwise (hsub : ∀ e ∈ dupTripleErrors 0 [] output.triples, e ∈ errors) :
    (dropRows (badTriples output errors) output.triples).Pairwise
      fun t t' => tripleKey t ≠ tripleKey t' := by
  refine dropRows_pairwise fun i j t t' ht ht' hlt hj hsame => hj (List.mem_append_left _ ?_)
  have hi' : output.triples[i]?.map tripleKey = some (tripleKey t') := by
    rw [ht,Option.map_some,hsame]
  have hj' : output.triples[j]?.map tripleKey = some (tripleKey t') := by rw [ht',Option.map_some]
  have hdup : ∃ e ∈ dupTripleErrors 0 [] output.triples,
      e.path = field "triples" (0+j) "" := dupTripleErrors_mem hj' (Or.inr ⟨i,hlt,hi'⟩)
  obtain ⟨e,he,hpath⟩ := hdup
  rw [Nat.zero_add] at hpath
  exact mem_badIndices.mpr ⟨e,hsub e he,pathIndex_of_field (c:=.triples) hpath⟩

/-- A row that a triple refers to by an id that no dropped row has is left. -/
theorem ref_left {α : Type} {bad : List ℕ} {rows : List α} {id : α → Option Str} {ref : Str}
    (href : some ref ∈ rows.map id) (hbad : some ref ∉ bad.filterMap fun i => rows[i]?.map id) :
    some ref ∈ (dropRows bad rows).map id := by
  obtain ⟨x,hx,hid⟩ := List.mem_map.mp href
  obtain ⟨i,hi⟩ := List.mem_iff_getElem?.mp hx
  refine List.mem_map.mpr ⟨x,mem_dropRows.mpr ⟨i,hi,fun hmem => hbad ?_⟩,hid⟩
  exact List.mem_filterMap.mpr ⟨i,hmem,by rw [hi,Option.map_some,hid]⟩

theorem slugErrors_code {collection : String} {ids : List (Option Str)} {e : ValidationError}
    (h : e ∈ slugErrors collection ids) : e.code ≠ "SCHEMA" := by
  obtain ⟨⟨id,j⟩,-,he⟩ := List.mem_flatMap.mp h
  cases id with
  | none => cases he
  | some id =>
    dsimp only [Option.elim,check_slug] at he
    split at he
    · rw [List.mem_singleton.mp he]
      simp
    split at he
    · rw [List.mem_singleton.mp he]
      simp
    · cases he

theorem dupIdErrors_code {collection what : String} {i : ℕ} {seen : List (Str × ℕ)}
    {ids : List (Option Str)} {e : ValidationError}
    (h : e ∈ dupIdErrors collection what i seen ids) : e.code ≠ "SCHEMA" := by
  fun_induction dupIdErrors collection what i seen ids with
  | case1 => cases h
  | case2 i seen ids ih => exact ih h
  | case3 i seen id ids first hget ih =>
    rcases List.mem_cons.mp h with rfl | h
    · simp
    · exact ih h
  | case4 i seen id ids hget ih => exact ih h

theorem dupTripleErrors_code {i : ℕ} {seen : List ((Str × Str × Str) × ℕ)}
    {ts : List OntogenLLMTriple} {e : ValidationError} (h : e ∈ dupTripleErrors i seen ts) :
    e.code ≠ "SCHEMA" := by
  fun_induction dupTripleErrors i seen ts with
  | case1 => cases h
  | case2 i seen t ts first hfind ih =>
    rcases List.mem_cons.mp h with rfl | h
    · simp
    · exact ih h
  | case3 i seen t ts hfind ih => exact ih h

theorem tripleRefErrors_code {e : ValidationError} (h : e ∈ tripleRefErrors output) :
    e.code ≠ "SCHEMA" := by
  have href : ∀ {j name code collection ref ids}, code ≠ "SCHEMA" →
      e ∈ refErrors j name code collection ref ids → e.code ≠ "SCHEMA" := by
    intro j name code collection ref ids hcode he
    unfold refErrors at he
    split at he
    · cases he
    · rw [List.mem_singleton.mp he]
      exact hcode
  obtain ⟨⟨t,j⟩,-,he⟩ := List.mem_flatMap.mp h
  rcases List.mem_append.mp he with he | he
  · rcases List.mem_append.mp he with he | he
    · exact href (by simp) he
    · exact href (by simp) he
  · exact href (by simp) he

theorem confErrors_code {collection : String} {scores : List Number} {e : ValidationError}
    (h : e ∈ confErrors collection scores) : e.code ≠ "SCHEMA" := by
  obtain ⟨⟨x,j⟩,-,he⟩ := List.mem_flatMap.mp h
  dsimp only at he
  split at he
  · cases he
  · rw [List.mem_singleton.mp he]
    simp

theorem urnErrors_code {nodes : List OntogenLLMNode} {e : ValidationError}
    (h : e ∈ urnErrors urns nodes) : e.code ≠ "SCHEMA" := by
  obtain ⟨⟨n,j⟩,-,he⟩ := List.mem_flatMap.mp h
  dsimp only at he
  split at he
  · rw [List.mem_singleton.mp he]
    simp
  · obtain ⟨⟨urn,k⟩,-,he⟩ := List.mem_flatMap.mp he
    dsimp only at he
    split at he
    · cases he
    · rw [List.mem_singleton.mp he]
      simp

theorem semanticErrors_code {e : ValidationError} (h : e ∈ semanticErrors urns output) :
    e.code ≠ "SCHEMA" := by
  simp only [semanticErrors,List.mem_append] at h
  rcases h with ((((((((h | h) | h) | h) | h) | h) | h) | h) | h) | h
  · exact slugErrors_code h
  · exact slugErrors_code h
  · exact dupIdErrors_code h
  · exact dupIdErrors_code h
  · exact tripleRefErrors_code h
  · exact confErrors_code h
  · exact confErrors_code h
  · exact confErrors_code h
  · exact urnErrors_code h
  · exact dupTripleErrors_code h

/-- The rows that are left, and how many are not. -/
theorem partition_semantic (urns : List Str) (output : OntogenLLMOutput) :
    partition_clean_rows output (semanticErrors urns output) =
      (⟨dropRows (badIndices (semanticErrors urns output) .nodes) output.nodes,
        dropRows (badIndices (semanticErrors urns output) .edges) output.edges,
        dropRows (badTriples output (semanticErrors urns output)) output.triples⟩,
        (badIndices (semanticErrors urns output) .nodes).length +
          (badIndices (semanticErrors urns output) .edges).length +
          (badTriples output (semanticErrors urns output)).length) :=
  partition_clean_rows_eq fun _ => semanticErrors_code

/-- The triples that are left refer to rows that are left. -/
theorem partition_refs {t : OntogenLLMTriple}
    (ht : t ∈ (partition_clean_rows output (semanticErrors urns output)).1.triples) :
    let cleaned := (partition_clean_rows output (semanticErrors urns output)).1
    some t.subject_node_id ∈ cleaned.nodes.map (·.id) ∧
      some t.edge_id ∈ cleaned.edges.map (·.id) ∧
      some t.object_node_id ∈ cleaned.nodes.map (·.id) := by
  rw [partition_semantic] at ht ⊢
  obtain ⟨j,hget,hj⟩ := mem_dropRows.mp ht
  have hsub : ∀ e ∈ tripleRefErrors output, e ∈ semanticErrors urns output := by
    intro e he
    simp only [semanticErrors,List.mem_append]
    tauto
  have hnamed : j ∉ badIndices (semanticErrors urns output) .triples :=
    fun h => hj (List.mem_append_left _ h)
  have hcascade : ¬ (_ ∨ _ ∨ _) := fun h =>
    hj (List.mem_append_right _ (mem_cascaded.mpr ⟨t,hget,hnamed,h⟩))
  rw [not_or,not_or] at hcascade
  obtain ⟨hs,he,ho⟩ := refs_of_unnamed hsub hget hnamed
  exact ⟨ref_left hs hcascade.1,ref_left he hcascade.2.2,ref_left ho hcascade.2.1⟩

theorem forall_left {α β : Type} {bad : List ℕ} {rows : List α} {g : α → β} {P : β → Prop}
    (h : ∀ j x, (rows.map g)[j]? = some x → j ∉ bad → P x) :
    ∀ x ∈ (dropRows bad rows).map g, P x := by
  intro x hx
  obtain ⟨y,hy,rfl⟩ := List.mem_map.mp hx
  obtain ⟨j,hget,hj⟩ := mem_dropRows.mp hy
  exact h j (g y) (by rw [List.getElem?_map,hget,Option.map_some]) hj

/-- What is left passes the rules. -/
theorem left_clean (herr : errors = semanticErrors urns output)
    (hrefs : ∀ t ∈ dropRows (badTriples output errors) output.triples,
      some t.subject_node_id ∈ (dropRows (badIndices errors .nodes) output.nodes).map (·.id) ∧
      some t.edge_id ∈ (dropRows (badIndices errors .edges) output.edges).map (·.id) ∧
      some t.object_node_id ∈ (dropRows (badIndices errors .nodes) output.nodes).map (·.id)) :
    semanticErrors urns ⟨dropRows (badIndices errors .nodes) output.nodes,
      dropRows (badIndices errors .edges) output.edges,
      dropRows (badTriples output errors) output.triples⟩ = [] := by
  have hin : ∀ {l}, l ∈ [slugErrors "nodes" (output.nodes.map (·.id)),
      slugErrors "edges" (output.edges.map (·.id)),
      dupIdErrors "nodes" "node" 0 [] (output.nodes.map (·.id)),
      dupIdErrors "edges" "edge" 0 [] (output.edges.map (·.id)),
      confErrors "nodes" (output.nodes.map (·.confidence_score)),
      confErrors "edges" (output.edges.map (·.confidence_score)),
      confErrors "triples" (output.triples.map (·.confidence_score)),
      urnErrors urns output.nodes,dupTripleErrors 0 [] output.triples] →
      ∀ e ∈ l, e ∈ errors := by
    intro l hl e he
    simp only [List.mem_cons,List.not_mem_nil,or_false] at hl
    rw [herr]
    simp only [semanticErrors,List.mem_append]
    rcases hl with rfl | rfl | rfl | rfl | rfl | rfl | rfl | rfl | rfl <;> tauto
  have hnodeIds : slugErrors "nodes"
      ((dropRows (badIndices errors .nodes) output.nodes).map (·.id)) = [] :=
    slugErrors_nil fun id hid =>
      forall_left (P:=fun x => ∀ id, x = some id → CleanId id) (fun j x hget hj id hx =>
        cleanId_of_unnamed (c:=.nodes) (hin (.head _)) (hx ▸ hget) hj) _ hid id rfl
  have hedgeIds : slugErrors "edges"
      ((dropRows (badIndices errors .edges) output.edges).map (·.id)) = [] :=
    slugErrors_nil fun id hid =>
      forall_left (P:=fun x => ∀ id, x = some id → CleanId id) (fun j x hget hj id hx =>
        cleanId_of_unnamed (c:=.edges) (hin (.tail _ (.head _))) (hx ▸ hget) hj) _ hid id rfl
  have hnodeSub : ∀ e ∈ dupIdErrors Collection.nodes.name "node" 0 [] (output.nodes.map (·.id)),
      e ∈ errors := hin (by simp [Collection.name])
  have hedgeSub : ∀ e ∈ dupIdErrors Collection.edges.name "edge" 0 [] (output.edges.map (·.id)),
      e ∈ errors := hin (by simp [Collection.name])
  have hnodeDup : dupIdErrors "nodes" "node" 0 []
      ((dropRows (badIndices errors .nodes) output.nodes).map (·.id)) = [] :=
    dupIdErrors_nil (fun _ _ => rfl) (ids_pairwise _ hnodeSub)
  have hedgeDup : dupIdErrors "edges" "edge" 0 []
      ((dropRows (badIndices errors .edges) output.edges).map (·.id)) = [] :=
    dupIdErrors_nil (fun _ _ => rfl) (ids_pairwise _ hedgeSub)
  have hnodeConf : confErrors "nodes"
      ((dropRows (badIndices errors .nodes) output.nodes).map (·.confidence_score)) = [] :=
    confErrors_nil (forall_left fun j x hget hj =>
      inRange_of_unnamed (c:=.nodes) (hin (by simp [Collection.name])) hget hj)
  have hedgeConf : confErrors "edges"
      ((dropRows (badIndices errors .edges) output.edges).map (·.confidence_score)) = [] :=
    confErrors_nil (forall_left fun j x hget hj =>
      inRange_of_unnamed (c:=.edges) (hin (by simp [Collection.name])) hget hj)
  have htripleConf : confErrors "triples"
      ((dropRows (badTriples output errors) output.triples).map (·.confidence_score)) = [] :=
    confErrors_nil (forall_left fun j x hget hj =>
      inRange_of_unnamed (c:=.triples) (hin (by simp [Collection.name])) hget
        fun h => hj (List.mem_append_left _ h))
  have hurns : urnErrors urns (dropRows (badIndices errors .nodes) output.nodes) = [] :=
    urnErrors_nil fun n hn => by
      obtain ⟨j,hget,hj⟩ := mem_dropRows.mp hn
      exact urns_of_unnamed (hin (by simp)) hget hj
  have hdup : dupTripleErrors 0 [] (dropRows (badTriples output errors) output.triples) = [] :=
    dupTripleErrors_nil (fun _ _ _ hs => absurd hs List.not_mem_nil) (keys_pairwise (hin (by simp)))
  have href : tripleRefErrors ⟨dropRows (badIndices errors .nodes) output.nodes,
      dropRows (badIndices errors .edges) output.edges,
      dropRows (badTriples output errors) output.triples⟩ = [] := tripleRefErrors_nil hrefs
  simp only [semanticErrors,hnodeIds,hedgeIds,hnodeDup,hedgeDup,href,hnodeConf,hedgeConf,
    htripleConf,hurns,hdup,List.append_nil]

theorem semanticErrors_partition (urns : List Str) (output : OntogenLLMOutput) :
    semanticErrors urns (partition_clean_rows output (semanticErrors urns output)).1 = [] := by
  have hrefs := @partition_refs urns output
  rw [partition_semantic] at hrefs ⊢
  exact left_clean rfl fun t ht => hrefs ht

theorem badIndices_lt {c : Collection} {j : ℕ}
    (h : j ∈ badIndices (semanticErrors urns output) c) : j < output.size c := by
  obtain ⟨e,he,hpath⟩ := mem_badIndices.mp h
  obtain ⟨c',j',hpath',hj⟩ := semanticErrors_indexed he
  rw [hpath] at hpath'
  obtain ⟨rfl,rfl⟩ := Prod.mk.inj (Option.some.inj hpath')
  exact hj

theorem badTriples_lt {j : ℕ} (h : j ∈ badTriples output (semanticErrors urns output)) :
    j < output.triples.length := by
  rcases List.mem_append.mp h with h | h
  · exact badIndices_lt h
  · obtain ⟨t,hget,-⟩ := mem_cascaded.mp h
    exact (List.getElem?_eq_some_iff.mp hget).1

/-- The count is the number of rows that are gone. -/
theorem partition_count (urns : List Str) (output : OntogenLLMOutput) :
    let r := partition_clean_rows output (semanticErrors urns output)
    r.1.nodes.length + r.1.edges.length + r.1.triples.length + r.2 =
      output.nodes.length + output.edges.length + output.triples.length := by
  rw [partition_semantic]
  generalize herr : semanticErrors urns output = errors
  have hlt : ∀ c, ∀ j ∈ badIndices errors c, j < output.size c := by
    intro c j hj
    rw [← herr] at hj
    exact badIndices_lt hj
  have htlt : ∀ j ∈ badTriples output errors, j < output.triples.length := by
    intro j hj
    rw [← herr] at hj
    exact badTriples_lt hj
  have hnodes : (dropRows (badIndices errors .nodes) output.nodes).length +
      (badIndices errors .nodes).length = output.nodes.length :=
    length_dropRows (List.nodup_dedup _) (hlt .nodes)
  have hedges : (dropRows (badIndices errors .edges) output.edges).length +
      (badIndices errors .edges).length = output.edges.length :=
    length_dropRows (List.nodup_dedup _) (hlt .edges)
  have htriples := length_dropRows nodup_badTriples htlt
  dsimp only
  omega

end Clean

end Ontogen
end Dataspoke
