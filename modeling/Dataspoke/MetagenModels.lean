import Dataspoke.Debate

/-!
# The output of the metadata producer

`MetagenLLMOutput` and `validate_metagen_output`, which checks it against the datasets in
scope, their boundaries, their columns and the items that are approved already.
-/

namespace Dataspoke
namespace Metagen

open Python Pydantic Debate

/-- What the models take from libraries: the reading of numeric strings, and pydantic's
report on a payload it refuses. -/
structure Lib where
  parse_float : Str → Option Number
  schema_message : Json → String
  schema_errors : Json → List ValidationError

structure MetagenLLMCandidate where
  dataset_urn : Str
  item_id : Str
  value : Str
  confidence_score : Number

structure MetagenLLMOutput where
  candidates : List MetagenLLMCandidate

def decodeCandidate (parse_float : Str → Option Number) : Json → Option MetagenLLMCandidate
  | .obj items => do
    let dataset_urn ← required "dataset_urn" (decodeStr none) items
    let item_id ← required "item_id" (decodeStr none) items
    let value ← required "value" (decodeStr none) items
    let score ← required "confidence_score" (decodeScore parse_float) items
    return ⟨dataset_urn,item_id,value,score⟩
  | _ => none

def decodeOutput (parse_float : Str → Option Number) : Json → Option MetagenLLMOutput
  | .obj items => do
    let candidates ←
      required "candidates" (decodeList none (decodeCandidate parse_float)) items
    return ⟨candidates⟩
  | _ => none

def outputSchema (L : Lib) : Schema MetagenLLMOutput where
  decode := decodeOutput L.parse_float

def datasetDescription : Str := "dataset.description".toList

def columnDescription : Str := "column.description".toList

/-- `s[len(prefix):]` where `s` starts with it. -/
def dropText (text : Str) (s : Str) : Option Str :=
  if text.isPrefixOf s then some (s.drop text.length) else none

/-- `$` matches at the end, and before a newline at the end. -/
def atEnd (s : Str) : Bool := s = [] || s = ['\n']

/-- `_ITEM_ID_RE.match(item_id)`. -/
def isItemId (item_id : Str) : Bool :=
  ((dropText datasetDescription item_id).any atEnd) ||
    (dropText "column.".toList item_id).any fun s =>
      s.takeWhile (· ≠ '.') ≠ [] &&
        (dropText ".description".toList (s.dropWhile (· ≠ '.'))).any atEnd

def kindOf (item_id : Str) : Str :=
  if item_id = datasetDescription then datasetDescription else columnDescription

/-- `item_id[len("column."):-len(".description")]` of a column item. -/
def fieldPathOf (item_id : Str) : Option Str :=
  if item_id = datasetDescription then none
  else some ((item_id.take (item_id.length - ".description".length)).drop "column.".length)

section Rules

def VALUE_MAX_BYTES : ℕ := 16 * 1024

/-- `len(value.encode("utf-8"))`. -/
def utf8Length (value : Str) : ℕ := (value.map fun c => c.utf8Size).sum

/-- What the rules are checked against, as dicts over the datasets. -/
structure Rules where
  in_scope_urns : List Str
  boundary_allowed : List (Str × List Str)
  schema_field_paths : List (Str × List Str)
  approved_item_ids : List (Str × Str)

def path (i : ℕ) (field : String) : List Piece :=
  [.text "candidates[",.num i,.text "]",.text field]

/-- `{values!r}` of a list of strings. -/
def reprList (values : List Str) : List Piece :=
  .text "["::((values.map fun v => [Piece.repr v]).intersperse [.text ", "]).flatten ++ [.text "]"]

variable (R : Rules)

def itemErrors (i : ℕ) (cand : MetagenLLMCandidate) : List ValidationError :=
  let known_paths := (get? cand.dataset_urn R.schema_field_paths).getD []
  let unknown := match fieldPathOf cand.item_id with
    | some field_path =>
      if known_paths ≠ [] ∧ field_path ∉ known_paths then
        [⟨path i ".item_id","UNKNOWN_FIELD_PATH",[.text "field_path ",.repr field_path,
          .text " not found in dataset schemaMetadata for ",.repr cand.dataset_urn]⟩]
      else []
    | none => []
  let allowed := (get? cand.dataset_urn R.boundary_allowed).getD []
  let kind := kindOf cand.item_id
  unknown ++ if kind ∈ allowed then []
    else [⟨path i ".item_id","KIND_NOT_ALLOWED",[.text "kind ",.repr kind,
      .text " not in boundary.allowed "] ++ reprList allowed ++
      [.text " for ",.repr cand.dataset_urn]⟩]

def valueErrors (i : ℕ) (cand : MetagenLLMCandidate) : List ValidationError :=
  (if strip isspace cand.value = [] then
    [⟨path i ".value","EMPTY_VALUE",[.text "value must be non-empty Markdown"]⟩]
  else if VALUE_MAX_BYTES < utf8Length cand.value then
    [⟨path i ".value","VALUE_TOO_LARGE",[.text "value exceeds 16 KiB limit"]⟩]
  else []) ++
  if (Number.fin 0).le cand.confidence_score && cand.confidence_score.le (.fin 1) then []
  else [⟨path i ".confidence_score","CONF_OUT_OF_RANGE",
    [.text "confidence_score ",.float cand.confidence_score,.text " out of [0.0, 1.0]"]⟩]

def key (cand : MetagenLLMCandidate) : Str × Str := (cand.dataset_urn,cand.item_id)

/-- DUP_ITEM and ITEM_ALREADY_APPROVED; `seen` are the keys before with their indices. -/
def keyErrors (i : ℕ) (seen : List ((Str × Str) × ℕ)) (cand : MetagenLLMCandidate) :
    List ValidationError :=
  let dup := match seen.find? fun s => s.1 = key cand with
    | some first => [⟨path i "","DUP_ITEM",[.text "duplicate (dataset_urn, item_id) (",
        .repr cand.dataset_urn,.text ", ",.repr cand.item_id,.text ") (first at index ",
        .num first.2,.text ")"]⟩]
    | none => []
  dup ++ if key cand ∈ R.approved_item_ids then
      [⟨path i "","ITEM_ALREADY_APPROVED",[.text "item (",.repr cand.dataset_urn,.text ", ",
        .repr cand.item_id,.text ") already has an approved candidate — generation skips approved items"]⟩]
    else []

/-- The semantic rules on the candidates from index `i` on. -/
def candidateErrors : (i : ℕ) → (seen : List ((Str × Str) × ℕ)) → List MetagenLLMCandidate →
    List ValidationError
  | _, _, [] => []
  | i, seen, cand::cands =>
    if cand.dataset_urn ∉ R.in_scope_urns then
      ⟨path i ".dataset_urn","OUT_OF_SCOPE_URN",[.text "dataset_urn ",.repr cand.dataset_urn,
        .text " not in run's in-scope set"]⟩ :: candidateErrors (i+1) seen cands
    else if !isItemId cand.item_id then
      ⟨path i ".item_id","INVALID_ITEM_ID",[.text "item_id ",.repr cand.item_id,.text
        " must match ^dataset\\.description$ or ^column\\.[^.]+\\.description$"]⟩ ::
        candidateErrors (i+1) seen cands
    else
      let seen' := if seen.any fun s => s.1 = key cand then seen else (key cand,i)::seen
      itemErrors R i cand ++ valueErrors i cand ++ keyErrors R i seen cand ++
        candidateErrors (i+1) seen' cands

end Rules

/-- `none` where the validation raises, which without a before-validator it never does. -/
def validate_metagen_output (L : Lib) (R : Rules) (payload : Json) :
    Option (List ValidationError) :=
  ((outputSchema L).model_validate payload).map fun
    | (payload,none) => [⟨[],"SCHEMA",[.text (L.schema_message payload)]⟩]
    | (_,some output) => candidateErrors R 0 [] output.candidates

/-- The `metagen_validate` tool; its `payload` argument is a dict. -/
def validate_tool (L : Lib) (R : Rules) : ToolLoop.Tool where
  name := "metagen_validate".toList
  ainvoke args := match get? "payload".toList args with
    | some (.obj items) =>
      (validate_metagen_output L R (.obj items)).elim (.error "TypeError") .ok
    | _ => .error "ValidationError"

def ISSUES : List String := ["value_too_generic","value_factually_wrong",
  "value_redundant_with_approved","confidence_miscalibrated","style_inconsistent",
  "out_of_scope"]

def reviewSchema : Schema ReviewOutput where
  decode := decodeReview
    (decodeItemVerdict ["dataset_description","column_description"] ISSUES true)

/-- The `metagen_review` tool, whose arguments are a `MetagenReviewOutput`. -/
def review_tool : ToolLoop.Tool where
  name := "metagen_review".toList
  ainvoke args := match reviewSchema.decode (.obj args) with
    | some _ => .ok []
    | none => .error "ValidationError"

section Scope

/-- What the rules ask of one candidate. -/
structure InScope (R : Rules) (cand : MetagenLLMCandidate) : Prop where
  dataset : cand.dataset_urn ∈ R.in_scope_urns
  item_id : isItemId cand.item_id = true
  field_path : ∀ p, fieldPathOf cand.item_id = some p →
    (get? cand.dataset_urn R.schema_field_paths).getD [] = [] ∨
      p ∈ (get? cand.dataset_urn R.schema_field_paths).getD []
  kind : kindOf cand.item_id ∈ (get? cand.dataset_urn R.boundary_allowed).getD []
  value : strip isspace cand.value ≠ [] ∧ utf8Length cand.value ≤ VALUE_MAX_BYTES
  score : (Number.fin 0).le cand.confidence_score = true ∧
    cand.confidence_score.le (.fin 1) = true
  unapproved : key cand ∉ R.approved_item_ids

/-- Every candidate is in scope, and no two are for the same item. -/
def OutputInScope (R : Rules) (output : MetagenLLMOutput) : Prop :=
  (∀ cand ∈ output.candidates, InScope R cand) ∧ (output.candidates.map key).Nodup

variable {R : Rules}

theorem itemErrors_eq_nil {i : ℕ} {cand : MetagenLLMCandidate} : itemErrors R i cand = [] ↔
    (∀ p, fieldPathOf cand.item_id = some p →
      (get? cand.dataset_urn R.schema_field_paths).getD [] = [] ∨
        p ∈ (get? cand.dataset_urn R.schema_field_paths).getD []) ∧
    kindOf cand.item_id ∈ (get? cand.dataset_urn R.boundary_allowed).getD [] := by
  unfold itemErrors
  dsimp only
  rw [List.append_eq_nil_iff]
  refine and_congr ?_ (by split <;> simp_all)
  cases fieldPathOf cand.item_id with
  | none => simp
  | some p =>
    dsimp only
    split
    · rename_i h
      simp [h.1,h.2]
    · rename_i h
      simpa [or_iff_not_imp_left] using h

theorem valueErrors_eq_nil {i : ℕ} {cand : MetagenLLMCandidate} : valueErrors i cand = [] ↔
    (strip isspace cand.value ≠ [] ∧ utf8Length cand.value ≤ VALUE_MAX_BYTES) ∧
    ((Number.fin 0).le cand.confidence_score = true ∧
      cand.confidence_score.le (.fin 1) = true) := by
  unfold valueErrors
  rw [List.append_eq_nil_iff]
  refine and_congr ?_ (by split <;> simp_all)
  split
  · simp_all
  split
  · simp_all
  · simp_all

theorem keyErrors_eq_nil {i : ℕ} {seen : List ((Str × Str) × ℕ)} {cand : MetagenLLMCandidate} :
    keyErrors R i seen cand = [] ↔
      key cand ∉ seen.map Prod.fst ∧ key cand ∉ R.approved_item_ids := by
  unfold keyErrors
  dsimp only
  rw [List.append_eq_nil_iff]
  refine and_congr ?_ (by split <;> simp_all)
  split
  · rename_i first hfirst
    have hmem := List.mem_of_find?_eq_some hfirst
    have hkey : first.1 = key cand := by simpa using List.find?_some hfirst
    simp only [List.cons_ne_nil,List.mem_map,not_exists,false_iff]
    exact fun h => h first ⟨hmem,hkey⟩
  · rename_i hnone
    have hnone : ∀ s ∈ seen, s.1 ≠ key cand := by simpa using hnone
    simpa using fun n h => hnone _ h rfl

theorem candidateErrors_eq_nil {i : ℕ} {seen : List ((Str × Str) × ℕ)}
    {cands : List MetagenLLMCandidate} : candidateErrors R i seen cands = [] ↔
      (∀ cand ∈ cands, InScope R cand) ∧ (cands.map key).Nodup ∧
        ∀ cand ∈ cands, key cand ∉ seen.map Prod.fst := by
  fun_induction candidateErrors R i seen cands with
  | case1 => simp
  | case2 i seen cand cands hout ih =>
    simp only [List.cons_ne_nil,false_iff]
    exact fun h => hout (h.1 cand (by simp)).dataset
  | case3 i seen cand cands _ hid ih =>
    simp only [List.cons_ne_nil,false_iff]
    intro h
    simp [(h.1 cand (by simp)).item_id] at hid
  | case4 i seen cand cands hurn hid seen' ih =>
    rw [List.append_eq_nil_iff,List.append_eq_nil_iff,List.append_eq_nil_iff,itemErrors_eq_nil,
      valueErrors_eq_nil,keyErrors_eq_nil,ih]
    have hseen : key cand ∉ seen.map Prod.fst → seen' = (key cand,i)::seen := by
      intro h
      refine if_neg ?_
      simpa using fun n hn => h (List.mem_map.mpr ⟨_,hn,rfl⟩)
    simp only [List.map_cons,List.nodup_cons,List.forall_mem_cons]
    constructor
    · rintro ⟨⟨⟨⟨hfield,hkind⟩,hvalue,hscore⟩,hfresh,happ⟩,hall,hnodup,hrest⟩
      rw [hseen hfresh] at hrest
      simp only [List.map_cons,List.mem_cons,not_or] at hrest
      refine ⟨⟨⟨not_not.mp hurn,by simpa using hid,hfield,hkind,hvalue,hscore,happ⟩,hall⟩,
        ⟨?_,hnodup⟩,hfresh,fun c hc => (hrest c hc).2⟩
      simp only [List.mem_map,not_exists,not_and]
      exact fun c hc he => (hrest c hc).1 he
    · rintro ⟨⟨hcand,hall⟩,⟨hne,hnodup⟩,hfresh,hrest⟩
      refine ⟨⟨⟨⟨hcand.field_path,hcand.kind⟩,hcand.value,hcand.score⟩,hfresh,hcand.unapproved⟩,
        hall,hnodup,fun c hc => ?_⟩
      rw [hseen hfresh]
      simp only [List.map_cons,List.mem_cons,not_or]
      refine ⟨fun he => hne (List.mem_map.mpr ⟨c,hc,he⟩),hrest c hc⟩

/-- The validator accepts a payload exactly when it parses to an output in scope. -/
theorem validate_accepts_iff {L : Lib} {payload : Json} :
    validate_metagen_output L R payload = some [] ↔
      ∃ output, (outputSchema L).decode payload = some output ∧ OutputInScope R output := by
  have hval : (outputSchema L).model_validate payload =
      some (payload,(outputSchema L).decode payload) := rfl
  rw [validate_metagen_output,hval]
  cases (outputSchema L).decode payload with
  | none => simp
  | some output =>
    simp only [Option.map_some,Option.some.injEq,candidateErrors_eq_nil,List.map_nil,
      List.not_mem_nil,not_false_eq_true,implies_true,and_true,exists_eq_left']
    rfl

end Scope

end Metagen
end Dataspoke
