import Dataspoke.OntogenRun
import Dataspoke.MetagenRun

/-!
# Payloads that no schema has seen

What `_sample_rag_anchors`, `_extract_rebuttals` and the validators read of a proposal, and the
shapes they can read. The searches for anchors only feed the prompts.
-/

namespace Dataspoke
namespace Ontogen

open Python Pydantic

/-- `(items.get(key) or "").strip()`; `none` where it raises. -/
def textOf (key : String) (items : List (Str × Json)) : Option Str :=
  match get? key.toList items with
  | none => some []
  | some v =>
    if !truthy v then some []
    else match v with
    | .str s => some (strip isspace s)
    | _ => none

/-- One round of the loops over the nodes and the edges. -/
def anchorTexts (first second : String) : Json → Option Unit
  | .obj items => do
    let _ ← textOf first items
    let _ ← textOf second items
    return ()
  | _ => none

/-- The number that a key is equal to. -/
def numeric : Json → Option Number
  | .bool b => some (.fin (if b then 1 else 0))
  | .num .nan => none
  | .num x => some x
  | _ => none

/-- Whether two hashable values are one key of a dict. -/
def sameKey : Json → Json → Bool
  | .null, .null => true
  | .str s, .str t => s = t
  | v, w => (numeric v).any fun x => numeric w = some x

def hashable : Json → Bool
  | .arr _ | .obj _ => false
  | _ => true

/-- The entry of one row in `node_by_id` or `edge_by_id`; `none` where it raises. -/
def idEntry : Json → Option (Option (Json × List (Str × Json)))
  | .obj items =>
    match get? "id".toList items with
    | none => some none
    | some id =>
      if !truthy id then some none else if hashable id then some (some (id,items)) else none
  | _ => none

/-- `by_id.get(triple.get(key, ""), {})`, where the last row of an id counts. -/
def rowOf (by_id : List (Json × List (Str × Json))) (key : String)
    (triple : List (Str × Json)) : Option (List (Str × Json)) :=
  let id := (get? key.toList triple).getD (.str [])
  if hashable id then
    some (((by_id.reverse.find? fun entry => sameKey entry.1 id).map Prod.snd).getD [])
  else none

/-- One round of the loop over the triples. -/
def anchorTriple (node_by_id edge_by_id : List (Json × List (Str × Json))) : Json → Option Unit
  | .obj triple => do
    let subj ← rowOf node_by_id "subject_node_id" triple
    let edge_obj ← rowOf edge_by_id "edge_id" triple
    let obj ← rowOf node_by_id "object_node_id" triple
    let _ ← textOf "name" subj
    let _ ← textOf "description" subj
    let _ ← textOf "label" edge_obj
    let _ ← textOf "semantics" edge_obj
    let _ ← textOf "name" obj
    let _ ← textOf "description" obj
    return ()
  | _ => none

/-- `_sample_rag_anchors`; `none` where it raises. -/
def sample_rag_anchors : Json → Option Unit
  | .obj payload => do
    let nodes ← iterOr "nodes" payload
    let _ ← nodes.mapM (anchorTexts "name" "description")
    let edges ← iterOr "edges" payload
    let _ ← edges.mapM (anchorTexts "label" "semantics")
    let node_by_id ← nodes.mapM idEntry
    let edge_by_id ← edges.mapM idEntry
    let triples ← iterOr "triples" payload
    let _ ← triples.mapM (anchorTriple (node_by_id.filterMap id) (edge_by_id.filterMap id))
    return ()
  | _ => none

section Shapes

def Iterable (key : String) (items : List (Str × Json)) : Prop :=
  ∀ v, get? key.toList items = some v → v ≠ .bool true ∧ ∀ x, v = .num x → x = .fin 0

def Texty (key : String) (items : List (Str × Json)) : Prop :=
  ∀ v, get? key.toList items = some v → truthy v = true → ∃ s, v = .str s

def Scalar (key : String) (items : List (Str × Json)) : Prop :=
  ∀ v, get? key.toList items = some v → hashable v = true

/-- The value is a list of dicts with the property, or false. -/
def Rows (key : String) (P : List (Str × Json) → Prop) (items : List (Str × Json)) : Prop :=
  ∀ v, get? key.toList items = some v → truthy v = true → ∃ xs, v = .arr xs ∧
    ∀ x ∈ xs, ∃ row, x = .obj row ∧ P row

/-- The id is neither a list nor a dict with anything in it. -/
def IdScalar (items : List (Str × Json)) : Prop :=
  ∀ v, get? "id".toList items = some v → truthy v = true → hashable v = true

/-- A dict whose three collections can be iterated. -/
def Rebuttable (payload : Json) : Prop := ∃ items, payload = .obj items ∧
  Iterable "nodes" items ∧ Iterable "edges" items ∧ Iterable "triples" items

/-- A dict with lists of nodes, edges and triples that have texts for texts and scalars for
ids. -/
def Samplable (payload : Json) : Prop := ∃ items, payload = .obj items ∧
  Rows "nodes" (fun row => Texty "name" row ∧ Texty "description" row ∧ IdScalar row) items ∧
  Rows "edges" (fun row => Texty "label" row ∧ Texty "semantics" row ∧ IdScalar row) items ∧
  Rows "triples" (fun row => Scalar "subject_node_id" row ∧ Scalar "edge_id" row ∧
    Scalar "object_node_id" row) items

/-- What the before-validator can read: collections that can be iterated, and triples in a list
whose references are scalars. -/
def Normalizable (payload : Json) : Prop := ∀ items, payload = .obj items →
  Iterable "nodes" items ∧ Iterable "edges" items ∧ Iterable "triples" items ∧
  ∀ xs, get? "triples".toList items = some (.arr xs) → ∀ row, .obj row ∈ xs →
    Scalar "subject_node_id" row ∧ Scalar "edge_id" row ∧ Scalar "object_node_id" row

theorem mapM_isSome {α β : Type} {f : α → Option β} {xs : List α} :
    (xs.mapM f).isSome ↔ ∀ x ∈ xs, (f x).isSome := by
  induction xs with
  | nil => simp
  | cons x xs ih =>
    rw [List.mapM_cons,List.forall_mem_cons,← ih]
    cases f x with
    | none => simp
    | some y => cases xs.mapM f <;> simp

theorem iterOr_isSome {key : String} {items : List (Str × Json)} :
    (iterOr key items).isSome ↔ Iterable key items := by
  rw [iterOr,Iterable]
  cases get? key.toList items with
  | none => simp
  | some v =>
    cases v with
    | null => simp [truthy]
    | bool b => cases b <;> simp [truthy]
    | num x => by_cases hx : x = .fin 0 <;> simp [truthy,hx]
    | _ =>
      simp only [Option.some.injEq]
      split <;> simp

theorem textOf_isSome {key : String} {items : List (Str × Json)} :
    (textOf key items).isSome ↔ Texty key items := by
  rw [textOf,Texty]
  cases get? key.toList items with
  | none => simp
  | some v =>
    by_cases hv : truthy v = true
    · cases v <;> simp [hv]
    · simp [hv]

theorem anchorTexts_isSome {first second : String} {row : Json} :
    (anchorTexts first second row).isSome ↔
      ∃ items, row = .obj items ∧ Texty first items ∧ Texty second items := by
  cases row with
  | obj items =>
    simp only [anchorTexts,Json.obj.injEq,exists_eq_left',← textOf_isSome]
    cases textOf first items with
    | none => simp
    | some s => cases textOf second items <;> simp
  | _ => simp [anchorTexts]

theorem idEntry_isSome {row : Json} :
    (idEntry row).isSome ↔ ∃ items, row = .obj items ∧ IdScalar items := by
  cases row with
  | obj items =>
    simp only [idEntry,Json.obj.injEq,exists_eq_left',IdScalar]
    cases get? "id".toList items with
    | none => simp
    | some v =>
      cases hv : truthy v with
      | false => simp [hv]
      | true => cases hh : hashable v <;> simp [hv,hh]
  | _ => simp [idEntry]

theorem rowOf_isSome {by_id : List (Json × List (Str × Json))} {key : String}
    {triple : List (Str × Json)} : (rowOf by_id key triple).isSome ↔ Scalar key triple := by
  rw [rowOf,Scalar]
  cases get? key.toList triple with
  | none => simp [hashable]
  | some v => cases hv : hashable v <;> simp [hv]

/-- A loop over a collection goes through exactly its rows. -/
theorem forRows_isSome {β : Type} (key : String) (items : List (Str × Json))
    {f : Json → Option β} {P : List (Str × Json) → Prop}
    (hf : ∀ x, (f x).isSome ↔ ∃ row, x = .obj row ∧ P row) :
    (∃ xs, iterOr key items = some xs ∧ ∀ x ∈ xs, (f x).isSome) ↔ Rows key P items := by
  have hstr : ∀ s, (f (.str s)).isSome = false := by
    intro s
    have := hf (.str s)
    simpa using this
  rw [iterOr,Rows]
  cases get? key.toList items with
  | none => simp
  | some v =>
    cases hv : truthy v with
    | false => simp [hv]
    | true =>
      simp only [Option.some.injEq,forall_eq',hv,forall_const]
      cases v with
      | arr xs => simp [hf]
      | str s =>
        obtain ⟨c,s,rfl⟩ : ∃ c s', s = c::s' := by
          cases s with
          | nil => simp [truthy] at hv
          | cons c s => exact ⟨c,s,rfl⟩
        simp [hstr]
      | obj row =>
        obtain ⟨kv,row,rfl⟩ : ∃ kv row', row = kv::row' := by
          cases row with
          | nil => simp [truthy] at hv
          | cons kv row => exact ⟨kv,row,rfl⟩
        simp [hstr]
      | _ => simp

theorem rowOf_mem {by_id : List (Json × List (Str × Json))} {key : String}
    {triple row : List (Str × Json)} (h : rowOf by_id key triple = some row) :
    row = [] ∨ ∃ id, (id,row) ∈ by_id := by
  simp only [rowOf] at h
  split at h
  · rw [← Option.some.inj h]
    cases hfind : by_id.reverse.find? fun entry => sameKey entry.1
        ((get? key.toList triple).getD (.str [])) with
    | none => exact .inl rfl
    | some entry => exact .inr ⟨entry.1,by simpa using List.mem_of_find?_eq_some hfind⟩
  · cases h

/-- The rows of a dict by id have the texts. -/
def HaveTexts (first second : String) (by_id : List (Json × List (Str × Json))) : Prop :=
  ∀ entry ∈ by_id, Texty first entry.2 ∧ Texty second entry.2

theorem haveTexts_nil {first second : String} : HaveTexts first second [] :=
  fun _ h => nomatch h

theorem rowOf_texts {by_id : List (Json × List (Str × Json))} {key first second : String}
    {triple row : List (Str × Json)} (htexts : HaveTexts first second by_id)
    (h : rowOf by_id key triple = some row) :
    (textOf first row).isSome ∧ (textOf second row).isSome := by
  rcases rowOf_mem h with rfl | ⟨id,hmem⟩
  · exact ⟨rfl,rfl⟩
  · exact ⟨textOf_isSome.mpr (htexts _ hmem).1,textOf_isSome.mpr (htexts _ hmem).2⟩

theorem anchorTriple_isSome {node_by_id edge_by_id : List (Json × List (Str × Json))}
    (hnodes : HaveTexts "name" "description" node_by_id)
    (hedges : HaveTexts "label" "semantics" edge_by_id) (x : Json) :
    (anchorTriple node_by_id edge_by_id x).isSome ↔ ∃ triple, x = .obj triple ∧
      Scalar "subject_node_id" triple ∧ Scalar "edge_id" triple ∧
        Scalar "object_node_id" triple := by
  cases x with
  | obj triple =>
    simp only [Json.obj.injEq,exists_eq_left']
    rw [← @rowOf_isSome node_by_id "subject_node_id",← @rowOf_isSome edge_by_id "edge_id",
      ← @rowOf_isSome node_by_id "object_node_id",anchorTriple]
    cases hs : rowOf node_by_id "subject_node_id" triple with
    | none => simp
    | some subj =>
      cases he : rowOf edge_by_id "edge_id" triple with
      | none => simp
      | some edge =>
        cases ho : rowOf node_by_id "object_node_id" triple with
        | none => simp
        | some obj =>
          obtain ⟨h₁,h₂⟩ := rowOf_texts hnodes hs
          obtain ⟨h₃,h₄⟩ := rowOf_texts hedges he
          obtain ⟨h₅,h₆⟩ := rowOf_texts hnodes ho
          obtain ⟨_,h₁⟩ := Option.isSome_iff_exists.mp h₁
          obtain ⟨_,h₂⟩ := Option.isSome_iff_exists.mp h₂
          obtain ⟨_,h₃⟩ := Option.isSome_iff_exists.mp h₃
          obtain ⟨_,h₄⟩ := Option.isSome_iff_exists.mp h₄
          obtain ⟨_,h₅⟩ := Option.isSome_iff_exists.mp h₅
          obtain ⟨_,h₆⟩ := Option.isSome_iff_exists.mp h₆
          simp [h₁,h₂,h₃,h₄,h₅,h₆]
  | _ => simp [anchorTriple]

/-- The rows that become entries of a dict by id. -/
theorem idEntries_texts {rows : List Json} {entries : List (Option (Json × List (Str × Json)))}
    {first second : String} (h : rows.mapM idEntry = some entries)
    (hrows : ∀ x ∈ rows, (anchorTexts first second x).isSome) :
    HaveTexts first second (entries.filterMap id) := by
  induction rows generalizing entries with
  | nil =>
    obtain rfl := Option.some.inj h
    exact nofun
  | cons x rows ih =>
    rw [List.mapM_cons] at h
    obtain ⟨e,he,h⟩ := Option.bind_eq_some_iff.mp h
    obtain ⟨es,hes,h⟩ := Option.bind_eq_some_iff.mp h
    obtain rfl := Option.some.inj h
    obtain ⟨hx,hrows⟩ := List.forall_mem_cons.mp hrows
    have hes' := ih hes hrows
    cases e with
    | none => exact hes'
    | some entry =>
      refine List.forall_mem_cons.mpr ⟨?_,hes'⟩
      obtain ⟨items,rfl,htexts⟩ := anchorTexts_isSome.mp hx
      rw [idEntry] at he
      split at he
      · cases he
      · split at he
        · cases he
        · split at he
          · cases he
            exact htexts
          · cases he

theorem row_isSome (first second : String) (x : Json) :
    ((anchorTexts first second x).bind fun _ => idEntry x).isSome ↔
      ∃ row, x = .obj row ∧ Texty first row ∧ Texty second row ∧ IdScalar row := by
  have hrow := @anchorTexts_isSome first second x
  have hid := @idEntry_isSome x
  have hboth : ((anchorTexts first second x).bind fun _ => idEntry x).isSome ↔
      (anchorTexts first second x).isSome ∧ (idEntry x).isSome := by
    cases anchorTexts first second x <;> simp
  rw [hboth,hrow,hid]
  constructor
  · rintro ⟨⟨row,rfl,h₁,h₂⟩,row',he,h₃⟩
    exact ⟨row,rfl,h₁,h₂,Json.obj.inj he ▸ h₃⟩
  · rintro ⟨row,rfl,h₁,h₂,h₃⟩
    exact ⟨⟨row,rfl,h₁,h₂⟩,row,rfl,h₃⟩

theorem rows_isSome {first second : String} {rows : List Json} :
    (∀ x ∈ rows, ((anchorTexts first second x).bind fun _ => idEntry x).isSome) ↔
      (rows.mapM (anchorTexts first second)).isSome ∧ (rows.mapM idEntry).isSome := by
  rw [mapM_isSome,mapM_isSome,← forall₂_and]
  refine forall₂_congr fun x _ => ?_
  cases anchorTexts first second x <;> simp

/-- What the sampling of anchors gets through. -/
theorem sample_rag_anchors_isSome (payload : Json) :
    (sample_rag_anchors payload).isSome ↔ Samplable payload := by
  cases payload with
  | obj items =>
    have hn := forRows_isSome "nodes" items (row_isSome "name" "description")
    have he := forRows_isSome "edges" items (row_isSome "label" "semantics")
    have ht := forRows_isSome "triples" items (anchorTriple_isSome haveTexts_nil haveTexts_nil)
    rw [Samplable]
    simp only [Json.obj.injEq,exists_eq_left',← hn,← he,← ht,rows_isSome]
    rw [sample_rag_anchors]
    cases iterOr "nodes" items with
    | none => simp
    | some nodes =>
      cases hn₁ : nodes.mapM (anchorTexts "name" "description") with
      | none => simp [hn₁]
      | some ns =>
        cases iterOr "edges" items with
        | none => simp
        | some edges =>
          cases he₁ : edges.mapM (anchorTexts "label" "semantics") with
          | none => simp [he₁,hn₁]
          | some es =>
            cases hn₂ : nodes.mapM idEntry with
            | none => simp [he₁,hn₁,hn₂]
            | some node_by_id =>
              cases he₂ : edges.mapM idEntry with
              | none => simp [he₁,hn₁,hn₂,he₂]
              | some edge_by_id =>
                cases iterOr "triples" items with
                | none => simp [he₁,hn₁,hn₂,he₂]
                | some triples =>
                  have hns := idEntries_texts hn₂ (mapM_isSome.mp (by rw [hn₁]; rfl))
                  have hes := idEntries_texts he₂ (mapM_isSome.mp (by rw [he₁]; rfl))
                  have hsame : (triples.mapM (anchorTriple (node_by_id.filterMap id)
                      (edge_by_id.filterMap id))).isSome ↔
                        ∀ x ∈ triples, (anchorTriple [] [] x).isSome := by
                    rw [mapM_isSome]
                    refine forall₂_congr fun x _ => ?_
                    rw [anchorTriple_isSome hns hes,anchorTriple_isSome haveTexts_nil haveTexts_nil]
                  simp only [Option.bind_eq_bind,Option.bind_some,hn₁,he₁,hn₂,he₂,Option.some.injEq,
                    exists_eq_left',Option.isSome_some,true_and]
                  rw [← hsame]
                  cases triples.mapM (anchorTriple (node_by_id.filterMap id)
                    (edge_by_id.filterMap id)) <;> simp
  | _ => simp [sample_rag_anchors,Samplable]

theorem extract_rebuttals_isSome (payload : Json) :
    (extract_rebuttals payload).isSome ↔ Rebuttable payload := by
  cases payload with
  | obj items =>
    simp only [Rebuttable,Json.obj.injEq,exists_eq_left',← iterOr_isSome,extract_rebuttals]
    cases iterOr "nodes" items with
    | none => simp
    | some nodes =>
      cases iterOr "edges" items with
      | none => simp
      | some edges => cases iterOr "triples" items <;> simp
  | _ => simp [extract_rebuttals,Rebuttable]

theorem Samplable.isObject {payload : Json} (h : Samplable payload) :
    ∃ items, payload = .obj items :=
  h.imp fun _ h => h.1

theorem get?_setItem_of_ne {key k : Str} (h : k ≠ key) (v : Json) (items : List (Str × Json)) :
    get? k (Ontogen.setItem key v items) = get? k items := by
  induction items with
  | nil => rfl
  | cons kv items ih =>
    rw [Ontogen.setItem,List.map_cons,← Ontogen.setItem,get?,get?,ih]
    by_cases hk : kv.1 = key
    · rw [if_pos hk]
      simp [hk,Ne.symm h]
    · rw [if_neg hk]

variable (nfkd : Str → Str)

theorem remapRef_isSome {origs : List Str} {key : String} {items : List (Str × Json)} :
    (remapRef nfkd origs key items).isSome ↔ Scalar key items := by
  rw [remapRef,Scalar]
  cases get? key.toList items with
  | none => simp
  | some v => cases v <;> simp [hashable]

theorem get?_remapRef {origs : List Str} {key : String} {items items' : List (Str × Json)}
    (h : remapRef nfkd origs key items = some items') {k : Str} (hk : k ≠ key.toList) :
    get? k items' = get? k items := by
  rw [remapRef] at h
  split at h
  · rw [← Option.some.inj h]
    split
    · exact get?_setItem_of_ne hk _ _
    · rfl
  · cases h
  · cases h
  · rw [Option.some.inj h]

theorem normalizeTriple_isSome {nodeIds edgeIds : List Str} {row : List (Str × Json)} :
    (normalizeTriple nfkd nodeIds edgeIds (.obj row)).isSome ↔
      Scalar "subject_node_id" row ∧ Scalar "edge_id" row ∧ Scalar "object_node_id" row := by
  rw [normalizeTriple,← @remapRef_isSome nfkd nodeIds "subject_node_id"]
  cases hs : remapRef nfkd nodeIds "subject_node_id" row with
  | none => simp
  | some row₁ =>
    have hkeep₁ : ∀ key : String, key.toList ≠ "subject_node_id".toList →
        (Scalar key row₁ ↔ Scalar key row) := fun key hk => by
      rw [Scalar,get?_remapRef nfkd hs hk,Scalar]
    simp only [Option.bind_eq_bind,Option.bind_some,Option.isSome_some,true_and]
    rw [← hkeep₁ "edge_id" (by decide),← hkeep₁ "object_node_id" (by decide),
      ← @remapRef_isSome nfkd edgeIds "edge_id"]
    cases he : remapRef nfkd edgeIds "edge_id" row₁ with
    | none => simp
    | some row₂ =>
      have hkeep₂ : Scalar "object_node_id" row₂ ↔ Scalar "object_node_id" row₁ := by
        rw [Scalar,get?_remapRef nfkd he (by decide),Scalar]
      rw [← hkeep₂,← @remapRef_isSome nfkd nodeIds "object_node_id"]
      cases ho : remapRef nfkd nodeIds "object_node_id" row₂ <;> simp [ho]

/-- The ids of nodes and edges are changed without raising. -/
theorem mapField_some {key : String} {f : Json → Json} {values : List (Str × Json)} :
    ∃ values', mapField key (some ∘ f) values = some values' ∧
      ∀ k, k ≠ key.toList → get? k values' = get? k values := by
  rw [mapField]
  cases get? key.toList values with
  | none => exact ⟨values,rfl,fun _ _ => rfl⟩
  | some v =>
    obtain ⟨w,hw⟩ : ∃ w, mapRows (some ∘ f) v = some w := by
      cases v with
      | arr xs =>
        have hxs : (xs.mapM (some ∘ f)).isSome := mapM_isSome.mpr fun _ _ => rfl
        obtain ⟨ys,hys⟩ := Option.isSome_iff_exists.mp hxs
        exact ⟨.arr ys,by rw [mapRows,hys]; rfl⟩
      | _ => exact ⟨_,rfl⟩
    dsimp only
    rw [hw]
    exact ⟨_,rfl,fun k hk => get?_setItem_of_ne hk _ _⟩

theorem mapField_isSome {key : String} {f : Json → Option Json} {values : List (Str × Json)} :
    (mapField key f values).isSome ↔
      ∀ xs, get? key.toList values = some (.arr xs) → ∀ x ∈ xs, (f x).isSome := by
  rw [mapField]
  cases get? key.toList values with
  | none => simp
  | some v =>
    cases v with
    | arr xs =>
      have hxs := @mapM_isSome _ _ f xs
      simp only [Option.some.injEq,Json.arr.injEq,forall_eq',← hxs,mapRows]
      cases xs.mapM f <;> simp
    | _ => simp [mapRows]

theorem normalizeTriples_isSome {nodeIds edgeIds : List Str} {xs : List Json} :
    (∀ x ∈ xs, (normalizeTriple nfkd nodeIds edgeIds x).isSome) ↔ ∀ row, .obj row ∈ xs →
      Scalar "subject_node_id" row ∧ Scalar "edge_id" row ∧ Scalar "object_node_id" row := by
  constructor
  · exact fun h row hrow => (normalizeTriple_isSome nfkd).mp (h _ hrow)
  · intro h x hx
    cases x with
    | obj row => exact (normalizeTriple_isSome nfkd).mpr (h row hx)
    | _ => rfl

theorem normalize_ids_isSome (payload : Json) :
    (normalize_ids nfkd payload).isSome ↔ Normalizable payload := by
  cases payload with
  | obj values =>
    simp only [Normalizable,Json.obj.injEq,forall_eq',← iterOr_isSome,normalize_ids]
    cases iterOr "nodes" values with
    | none => simp
    | some nodes =>
      cases iterOr "edges" values with
      | none => simp
      | some edges =>
        cases iterOr "triples" values with
        | none => simp
        | some triples =>
          obtain ⟨values₁,h₁,hkeep₁⟩ := @mapField_some "nodes" (normalizeRow nfkd) values
          obtain ⟨values₂,h₂,hkeep₂⟩ := @mapField_some "edges" (normalizeRow nfkd) values₁
          have hkeep : get? "triples".toList values₂ = get? "triples".toList values := by
            rw [hkeep₂ _ (by decide),hkeep₁ _ (by decide)]
          have hmap := @mapField_isSome "triples"
            (normalizeTriple nfkd (nodes.filterMap origId) (edges.filterMap origId)) values₂
          simp only [hkeep,normalizeTriples_isSome] at hmap
          simp only [Option.bind_eq_bind,Option.bind_some,h₁,h₂,Option.isSome_some,true_and,← hmap]
          cases mapField "triples" (normalizeTriple nfkd (nodes.filterMap origId)
            (edges.filterMap origId)) values₂ <;> simp
  | _ => simp [normalize_ids,Normalizable]

end Shapes

end Ontogen

namespace Metagen

open Python Pydantic

/-- One round of the loop over the candidates: a text is asked for its beginning. -/
def anchorCandidate : Json → Option Unit
  | .obj cand => do
    let _ ← Ontogen.textOf "value" cand
    match (get? "item_id".toList cand).getD (.str []) with
    | .str _ => return ()
    | _ => none
  | _ => none

/-- `_sample_rag_anchors`; `none` where it raises. -/
def sample_rag_anchors : Json → Option Unit
  | .obj payload => do
    let candidates ← Ontogen.iterOr "candidates" payload
    let _ ← candidates.mapM anchorCandidate
    return ()
  | _ => none

/-- A dict with a list of candidates that have a text for a value and for an item id. -/
def Samplable (payload : Json) : Prop := ∃ items, payload = .obj items ∧
  Ontogen.Rows "candidates" (fun cand => Ontogen.Texty "value" cand ∧
    ∀ v, get? "item_id".toList cand = some v → ∃ s, v = .str s) items

theorem anchorCandidate_isSome (x : Json) : (anchorCandidate x).isSome ↔
    ∃ cand, x = .obj cand ∧ Ontogen.Texty "value" cand ∧
      ∀ v, get? "item_id".toList cand = some v → ∃ s, v = .str s := by
  cases x with
  | obj cand =>
    simp only [anchorCandidate,Json.obj.injEq,exists_eq_left',← Ontogen.textOf_isSome]
    cases Ontogen.textOf "value" cand with
    | none => simp
    | some s =>
      cases get? "item_id".toList cand with
      | none => simp
      | some v => cases v <;> simp
  | _ => simp [anchorCandidate]

theorem sample_rag_anchors_isSome (payload : Json) :
    (sample_rag_anchors payload).isSome ↔ Samplable payload := by
  cases payload with
  | obj items =>
    have hc := Ontogen.forRows_isSome "candidates" items anchorCandidate_isSome
    simp only [Samplable,Json.obj.injEq,exists_eq_left',← hc,sample_rag_anchors]
    cases Ontogen.iterOr "candidates" items with
    | none => simp
    | some candidates =>
      have hall := @Ontogen.mapM_isSome _ _ anchorCandidate candidates
      simp only [Option.bind_eq_bind,Option.bind_some,Option.some.injEq,exists_eq_left',← hall]
      cases candidates.mapM anchorCandidate <;> simp
  | _ => simp [sample_rag_anchors,Samplable]

theorem Samplable.isObject {payload : Json} (h : Samplable payload) :
    ∃ items, payload = .obj items :=
  h.imp fun _ h => h.1

end Metagen
end Dataspoke
