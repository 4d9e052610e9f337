import Dataspoke.PagedReads
import Dataspoke.SweepTablesAgain

/-!
# Reads of the estate

The paged reads of the DataHub client: the attributes of all datasets by a scroll, the ingestion
sources and the execution requests of one by an offset. Every element of a scrolled page is remote
text and checked; a row of the other two has the fields of its schema.
-/

namespace Dataspoke
namespace Ingestion

open Python PagedReads

def _SCROLL_MAX_PAGES : ℕ := 100

def field (key : String) : Json → Json
  | .obj items => (get? key.toList items).getD .null
  | _ => .null

def elements : Json → List Json
  | .arr xs => xs
  | _ => []

/-- A text that is not empty. -/
def text? : Json → Option Str
  | .str (c::cs) => some (c::cs)
  | _ => none

/-- `urns.append(urn)` where it is not `in seen`. -/
def appendNew (urns : List Str) (urn : Str) : List Str := if urn ∈ urns then urns else urns ++ [urn]

def _association_urns (container : Json) (list_key entity_key : String) : List Str :=
  ((elements (field list_key container)).filterMap fun association =>
    text? (field "urn" (field entity_key association))).foldl appendNew []

def _sibling_is_primary (container : Json) : Bool :=
  match field "isPrimary" container with
  | .bool is_primary => is_primary
  | _ => true

/-- One hit of a page, where it is readable. -/
def readHit (hit : Json) : Option (Str × DatasetAttributeRead) :=
  let entity := field "entity" hit
  (text? (field "urn" entity)).map fun urn =>
    (urn,⟨_association_urns (field "tags" entity) "tags" "tag",
      _association_urns (field "glossaryTerms" entity) "terms" "term",
      _sibling_is_primary (field "siblings" entity)⟩)

/-- One hit of the read of the ingestion instants; `isInt` tells which numbers are ints. -/
def readInstant (isInt : Number → Bool) (hit : Json) : Option (Str × Json) :=
  let entity := field "entity" hit
  match text? (field "urn" entity), field "lastIngested" entity with
  | some urn, .num x => if isInt x && Number.lt (.fin 0) x then some (urn,.num x) else none
  | _, _ => none

variable {σ V : Type*}

/-- `result[urn] = …` for the readable hits of a page. -/
def collect (read : Json → Option (Str × V)) (result : List (Str × V)) (hits : List Json) :
    List (Str × V) :=
  (hits.filterMap read).foldl (fun result hit => setItem hit.1 hit.2 result) result

/-- What `execute_graphql` answers with a cursor; `none` where it raises. -/
abbrev Gms (σ : Type*) := Option Str → σ → σ × Option Json

/-- One answer, its container and its cursor checked. -/
def replied (gms : Gms σ) (scroll_id : Option Str) (s : σ) : σ × Reply Json Str :=
  match gms scroll_id s with
  | (s,none) => (s,.raised)
  | (s,some raw) =>
    match field "scrollAcrossEntities" raw with
    | .obj items => (s,.page (elements (field "searchResults" (.obj items)))
        (text? (field "nextScrollId" (.obj items))))
    | _ => (s,.unreadable)

def get_dataset_attributes (gms : Gms σ) (s : σ) : Option (List (Str × DatasetAttributeRead)) :=
  (scroll (replied gms) (collect readHit) _SCROLL_MAX_PAGES none s []).2

def get_last_ingested (isInt : Number → Bool) (gms : Gms σ) (s : σ) : Option (List (Str × Json)) :=
  (scroll (replied gms) (collect (readInstant isInt)) _SCROLL_MAX_PAGES none s []).2

/-- The last readable hit of a dataset. -/
def lastHit (read : Json → Option (Str × V)) (hits : List Json) (urn : Str) : Option V :=
  ((hits.filterMap read).reverse.find? (·.1 = urn)).map Prod.snd

variable {read : Json → Option (Str × V)}

theorem get?_foldl_setItem (hits : List (Str × V)) (result : List (Str × V)) (urn : Str) :
    get? urn (hits.foldl (fun result hit => setItem hit.1 hit.2 result) result) =
      ((hits.reverse.find? (·.1 = urn)).map Prod.snd).or (get? urn result) := by
  induction hits using List.reverseRecOn with
  | nil => rfl
  | append_singleton hits hit ih =>
    rw [List.foldl_append,List.foldl_cons,List.foldl_nil,get?_setItem,ih,List.reverse_append,
      List.reverse_singleton,List.singleton_append,List.find?_cons]
    by_cases hu : urn = hit.1
    · simp [hu]
    · simp [hu,Ne.symm hu]

theorem foldl_collect (pages : List (List Json)) (result : List (Str × V)) :
    pages.foldl (collect read) result = collect read result pages.flatten := by
  induction pages generalizing result with
  | nil => rfl
  | cons hits pages ih =>
    rw [List.foldl_cons,ih,List.flatten_cons]
    unfold collect
    rw [List.filterMap_append,List.foldl_append]

theorem get?_collect (hits : List Json) (urn : Str) :
    get? urn (collect read [] hits) = lastHit read hits urn := by
  rw [collect,get?_foldl_setItem]
  exact Option.or_none

theorem collect_keys (hits : List Json) : ((collect read [] hits).map Prod.fst).Nodup := by
  have hfold : ∀ (items : List (Str × V)) (result : List (Str × V)), (result.map Prod.fst).Nodup →
      ((items.foldl (fun result hit => setItem hit.1 hit.2 result) result).map Prod.fst).Nodup := by
    intro items
    induction items with
    | nil => exact fun _ hn => hn
    | cons item items ih =>
      refine fun result hn => ih _ ?_
      rw [keys_setItem]
      split
      · exact hn
      · rename_i hnew
        rw [← List.concat_eq_append]
        exact hn.concat hnew
  exact hfold _ [] List.nodup_nil

/-- Each dataset that is named has the attributes of its last hit, and the other rows are left
alone. -/
def Refreshed (now : ℕ) (db : Registry.Db) (hits : List Json) (db' : Registry.Db) : Prop :=
  ∀ urn, db'.get? urn =
    match if Registry.datasetUrnRe urn then lastHit readHit hits urn else none with
    | none => db.get? urn
    | some v => some (Registry.attributedRow now (attributeRecord (urn,v)) (db.get? urn))

theorem find?_reverse_eq_some {α κ : Type*} [DecidableEq κ] (key : α → κ) {l : List α}
    (hn : (l.map key).Nodup) {k : κ} {a : α} :
    l.reverse.find? (fun x => key x = k) = some a ↔ a ∈ l ∧ key a = k := by
  constructor
  · intro h
    exact ⟨List.mem_reverse.mp (List.mem_of_find?_eq_some h),by simpa using List.find?_some h⟩
  · rintro ⟨hmem,rfl⟩
    cases hfound : l.reverse.find? (fun x => key x = key a) with
    | none =>
      have hnone := List.find?_eq_none.mp hfound a (List.mem_reverse.mpr hmem)
      exact absurd (decide_eq_true rfl) hnone
    | some found =>
      have hkey : key found = key a := by
        simpa using List.find?_some hfound
      have hin := List.mem_reverse.mp (List.mem_of_find?_eq_some hfound)
      rw [List.inj_on_of_nodup_map hn hin hmem hkey]

theorem lastRecord_map {items : List (Str × DatasetAttributeRead)}
    (hn : (items.map Prod.fst).Nodup) (urn : Str) :
    Registry.lastRecord ((items.map attributeRecord).filter (Registry.datasetUrnRe ·.dataset_urn))
        urn =
      if Registry.datasetUrnRe urn then (get? urn items).map fun v => attributeRecord (urn,v)
      else none := by
  have hurns : (((items.map attributeRecord).filter (Registry.datasetUrnRe ·.dataset_urn)).map
      (·.dataset_urn)).Nodup := by
    refine List.Nodup.sublist (List.filter_sublist.map _) ?_
    rw [List.map_map]
    exact hn
  refine Option.ext fun record => ?_
  rw [Registry.lastRecord,find?_reverse_eq_some _ hurns,List.mem_filter,List.mem_map,Option.ite_none_right_eq_some,
    Option.map_eq_some_iff]
  constructor
  · rintro ⟨⟨⟨item,hitem,rfl⟩,hre⟩,rfl⟩
    exact ⟨hre,item.2,(get?_eq_some_iff hn).mpr hitem,rfl⟩
  · rintro ⟨hre,v,hv,rfl⟩
    exact ⟨⟨⟨(urn,v),mem_of_get? hv,rfl⟩,hre⟩,rfl⟩

theorem sync_refreshed {now : ℕ} {estate : Estate} {db : Registry.Db} {hits : List Json}
    (h : estate.attributes = some (collect readHit [] hits)) :
    Refreshed now db hits (sync_dataset_attributes now estate db).1 := by
  intro urn
  rw [sync_dataset_attributes,h]
  dsimp only
  rw [Registry.upsert_dataset_attributes_fst,Registry.foldl_upsertAttributes_get?,
    lastRecord_map (collect_keys hits),get?_collect]
  cases Registry.datasetUrnRe urn with
  | false => rfl
  | true =>
    cases lastHit readHit hits urn with
    | none => rfl
    | some v => rfl

/-- A dataset of DataHub with the aspects that are read, where it has them. -/
structure Dataset where
  urn : Str
  urn_ne : urn ≠ []
  tags : Option (List Str)
  terms : Option (List Str)
  siblings : Option (Bool × List Str)

def urnObject (urn : Str) : Json := .obj [("urn".toList,.str urn)]

def associations (list_key entity_key : String) : Option (List Str) → Json
  | none => .null
  | some urns => .obj [(list_key.toList,.arr (urns.map fun u =>
      .obj [(entity_key.toList,urnObject u)]))]

def siblingProperties : Option (Bool × List Str) → Json
  | none => .null
  | some (is_primary,urns) => .obj [("isPrimary".toList,.bool is_primary),
      ("siblings".toList,.arr (urns.map urnObject))]

def Dataset.hit (d : Dataset) : Json :=
  .obj [("entity".toList,.obj [("urn".toList,.str d.urn),
    ("tags".toList,associations "tags" "tag" d.tags),
    ("glossaryTerms".toList,associations "terms" "term" d.terms),
    ("siblings".toList,siblingProperties d.siblings)])]

/-- The URNs of an aspect, each once. -/
def distinctUrns (urns : Option (List Str)) : List Str :=
  ((urns.getD []).filter (· ≠ [])).foldl appendNew []

def Dataset.attributes (d : Dataset) : DatasetAttributeRead :=
  ⟨distinctUrns d.tags,distinctUrns d.terms,(d.siblings.map Prod.fst).getD true⟩

theorem text?_str (s : Str) : text? (.str s) = if s ≠ [] then some s else none := by
  cases s <;> rfl

theorem association_urns_associations (list_key entity_key : String) (urns : Option (List Str)) :
    _association_urns (associations list_key entity_key urns) list_key entity_key =
      distinctUrns urns := by
  cases urns with
  | none => rfl
  | some urns =>
    have hfield : ∀ (key : String) (v : Json), field key (.obj [(key.toList,v)]) = v := by
      intro key v
      simp [field,get?]
    unfold _association_urns associations distinctUrns
    rw [hfield]
    refine congrArg (List.foldl appendNew []) ?_
    change (urns.map _).filterMap _ = urns.filter _
    rw [List.filterMap_map,← List.filterMap_eq_filter]
    refine List.filterMap_congr fun u _ => ?_
    dsimp only [Function.comp]
    rw [hfield,urnObject,hfield,text?_str]
    simp [Option.guard]

theorem readHit_hit (d : Dataset) : readHit d.hit = some (d.urn,d.attributes) := by
  have hurn : text? (.str d.urn) = some d.urn := by
    rw [text?_str,if_pos d.urn_ne]
  have hprimary : _sibling_is_primary (siblingProperties d.siblings) =
      (d.siblings.map Prod.fst).getD true := by
    cases d.siblings with
    | none => rfl
    | some siblings => rfl
  have hhit : readHit d.hit = (text? (.str d.urn)).map fun urn =>
      (urn,⟨_association_urns (associations "tags" "tag" d.tags) "tags" "tag",
        _association_urns (associations "terms" "term" d.terms) "terms" "term",
        _sibling_is_primary (siblingProperties d.siblings)⟩) := rfl
  rw [hhit,hurn,association_urns_associations,association_urns_associations,hprimary]
  rfl

section Hits

variable {datasets : List Dataset} (hn : (datasets.map (·.urn)).Nodup)
include hn

theorem filterMap_hits : (datasets.map Dataset.hit).filterMap readHit =
      datasets.map (fun d => (d.urn,d.attributes)) ∧
    ((datasets.map fun d => (d.urn,d.attributes)).map Prod.fst).Nodup := by
  constructor
  · rw [List.filterMap_map]
    refine (List.filterMap_congr fun d _ => ?_).trans
      (congrFun List.filterMap_eq_map' datasets)
    exact readHit_hit d
  · rw [List.map_map]
    exact hn

theorem lastHit_of_mem {d : Dataset} (hd : d ∈ datasets) :
    lastHit readHit (datasets.map Dataset.hit) d.urn = some d.attributes := by
  obtain ⟨heq,hkeys⟩ := filterMap_hits hn
  rw [lastHit,heq,(find?_reverse_eq_some Prod.fst hkeys (k := d.urn)
    (a := (d.urn,d.attributes))).mpr ⟨List.mem_map.mpr ⟨d,hd,rfl⟩,rfl⟩]
  rfl

theorem lastHit_of_not_mem {urn : Str} (hurn : urn ∉ datasets.map (·.urn)) :
    lastHit readHit (datasets.map Dataset.hit) urn = none := by
  obtain ⟨heq,hkeys⟩ := filterMap_hits hn
  rw [lastHit,heq,Option.map_eq_none_iff,List.find?_eq_none]
  rintro item hitem hkey
  obtain ⟨d,hd,rfl⟩ := List.mem_map.mp (List.mem_reverse.mp hitem)
  exact hurn (List.mem_map.mpr ⟨d,hd,of_decide_eq_true hkey⟩)

end Hits

/-- An estate that is served in any pages, the first of which are read: their datasets have their
attributes in the registry, and the other rows stay. -/
theorem attribute_sync_estate {gms : Gms σ} {s : σ} {pages : List (List Dataset)}
    (hs : Serves (replied gms) (pages.map (·.map Dataset.hit)) none s)
    (hn : (pages.flatten.map (·.urn)).Nodup) (now : ℕ) (estate : Estate) (db : Registry.Db) :
    let datasets := (pages.take _SCROLL_MAX_PAGES).flatten
    let estate := { estate with attributes := get_dataset_attributes gms s }
    let db' := (sync_dataset_attributes now estate db).1
    (∀ d ∈ datasets, Registry.datasetUrnRe d.urn = true → db'.get? d.urn =
      some (Registry.attributedRow now (attributeRecord (d.urn,d.attributes)) (db.get? d.urn))) ∧
    ∀ urn, urn ∉ datasets.map (·.urn) ∨ Registry.datasetUrnRe urn = false →
      db'.get? urn = db.get? urn := by
  intro datasets estate db'
  have hdatasets : (datasets.map (·.urn)).Nodup := by
    refine hn.sublist (List.Sublist.map _ ?_)
    have hsplit : pages.flatten = datasets ++ (pages.drop _SCROLL_MAX_PAGES).flatten := by
      rw [← List.flatten_append,List.take_append_drop]
    rw [hsplit]
    exact List.sublist_append_left _ _
  have hattributes : estate.attributes =
      some (collect readHit [] (datasets.map Dataset.hit)) := by
    change get_dataset_attributes gms s = _
    rw [get_dataset_attributes,scroll_serves hs,foldl_collect,← List.map_take,← List.map_flatten]
  have hrefreshed : Refreshed now db (datasets.map Dataset.hit) _ := sync_refreshed hattributes
  constructor
  · intro d hd hre
    rw [hrefreshed d.urn,hre,lastHit_of_mem hdatasets hd]
    rfl
  · rintro urn (hurn | hmalformed)
    · rw [hrefreshed urn,lastHit_of_not_mem hdatasets hurn,ite_self]
    · rw [hrefreshed urn,hmalformed]
      rfl

def sampleDatasets : List Dataset :=
  [⟨"urn:li:dataset:(a)".toList,by decide,some ["t".toList,"t".toList],none,none⟩,
    ⟨"urn:li:dataset:(b)".toList,by decide,none,none,some (false,[])⟩]

def sampleGms : Gms Unit := fun scroll_id s =>
  (s,some (.obj [("scrollAcrossEntities".toList,.obj [
    ("nextScrollId".toList,if scroll_id = none then .str ['1'] else .null),
    ("searchResults".toList,.arr (((if scroll_id = none then sampleDatasets.take 1
      else sampleDatasets.drop 1)).map Dataset.hit))])]))

theorem attribute_sync_estate_sample :
    let estate := { sampleEstate with attributes := get_dataset_attributes sampleGms () }
    let db' := (sync_dataset_attributes 7 estate (Table.empty _)).1
    (db'.get? "urn:li:dataset:(a)".toList).map (·.tag_urns) = some ["t".toList] ∧
    (db'.get? "urn:li:dataset:(b)".toList).map (·.is_primary) = some false := by
  have hserves : Serves (replied sampleGms)
      ([sampleDatasets.take 1,sampleDatasets.drop 1].map (·.map Dataset.hit)) none () :=
    ⟨(),['1'],rfl,by decide,(),rfl⟩
  have hsync := (attribute_sync_estate hserves (by decide) 7 sampleEstate (Table.empty _)).1
  constructor
  · exact congrArg _ (hsync _ (.head _) (by decide))
  · exact congrArg _ (hsync _ (.tail _ (.head _)) (by decide))

theorem readInstant_positive {isInt : Number → Bool} {hit : Json} {item : Str × Json}
    (h : readInstant isInt hit = some item) :
    ∃ x, item.2 = .num x ∧ isInt x = true ∧ Number.lt (.fin 0) x = true := by
  unfold readInstant at h
  dsimp only at h
  split at h
  · rename_i urn x _ _
    obtain ⟨hvalid,heq⟩ := Option.ite_none_right_eq_some.mp h
    obtain rfl := Option.some.inj heq
    exact ⟨x,rfl,Bool.and_eq_true_iff.mp hvalid⟩
  · cases h

theorem lastHit_positive {isInt : Number → Bool} {hits : List Json} {urn : Str} {v : Json}
    (h : lastHit (readInstant isInt) hits urn = some v) :
    ∃ x, v = .num x ∧ isInt x = true ∧ Number.lt (.fin 0) x = true := by
  obtain ⟨item,hitem,rfl⟩ := Option.map_eq_some_iff.mp h
  have hmem := List.mem_reverse.mp (List.mem_of_find?_eq_some hitem)
  obtain ⟨hit,-,hhit⟩ := List.mem_filterMap.mp hmem
  exact readInstant_positive hhit

theorem replied_ne_raised {gms : Gms σ} (h : ∀ scroll_id s, (gms scroll_id s).2 ≠ none)
    (scroll_id : Option Str) (s : σ) : (replied gms scroll_id s).2 ≠ .raised := by
  have hanswer := h scroll_id s
  rw [replied]
  split
  · rename_i s' hnone
    rw [hnone] at hanswer
    exact absurd rfl hanswer
  · split
    · intro heq
      cases heq
    · intro heq
      cases heq

/-- Both reads return where GMS answers, and they are its pages up to the last one or to
`_SCROLL_MAX_PAGES`: a dataset that none of them names in a readable hit keeps its row, and the
instants that are read are positive. -/
theorem estate_reads_bounded (gms : Gms σ) (s : σ) (isInt : Number → Bool) (now : ℕ)
    (estate : Estate) (db : Registry.Db) :
    let estate := { estate with attributes := get_dataset_attributes gms s }
    ((∀ scroll_id s, (gms scroll_id s).2 ≠ none) →
      (∃ items, get_dataset_attributes gms s = some items) ∧
        ∃ items, get_last_ingested isInt gms s = some items) ∧
    (∀ items, get_dataset_attributes gms s = some items →
      ∃ pages, pages.length ≤ _SCROLL_MAX_PAGES ∧
        Answers (replied gms) _SCROLL_MAX_PAGES pages none s ∧
        Refreshed now db pages.flatten (sync_dataset_attributes now estate db).1) ∧
    (get_dataset_attributes gms s = none → (sync_dataset_attributes now estate db).1 = db) ∧
    ∀ items, get_last_ingested isInt gms s = some items →
      ∃ pages, pages.length ≤ _SCROLL_MAX_PAGES ∧
        Answers (replied gms) _SCROLL_MAX_PAGES pages none s ∧
        (∀ urn, get? urn items = lastHit (readInstant isInt) pages.flatten urn) ∧
        ∀ urn v, get? urn items = some v →
          ∃ x, v = .num x ∧ isInt x = true ∧ Number.lt (.fin 0) x = true := by
  intro estate
  have hread : estate.attributes = get_dataset_attributes gms s := rfl
  refine ⟨fun hgms => ?_,fun items hresult => ?_,fun hresult => ?_,fun items hresult => ?_⟩
  · have hserve := replied_ne_raised hgms
    exact ⟨scroll_returns hserve _ _ _ _,scroll_returns hserve _ _ _ _⟩
  · obtain ⟨pages,hanswers,heq⟩ := scroll_answers _ _ _ _ hresult
    refine ⟨pages,hanswers.length_le,hanswers,sync_refreshed ?_⟩
    rw [hread,hresult,heq,foldl_collect]
  · rw [sync_dataset_attributes,hread,hresult]
  · obtain ⟨pages,hanswers,heq⟩ := scroll_answers _ _ _ _ hresult
    have hget : ∀ urn, get? urn items = lastHit (readInstant isInt) pages.flatten urn := by
      intro urn
      rw [heq,foldl_collect,get?_collect]
    exact ⟨pages,hanswers.length_le,hanswers,hget,fun urn v hv => lastHit_positive (hget urn ▸ hv)⟩

structure SourceRow where
  urn : Option Str
  name : Option Str
  type : Option Str
  /-- The interval and the time zone. -/
  schedule : Option (Option Str × Option Str)
  /-- The recipe and the executor. -/
  config : Option (Option Str × Option Str)

structure RequestResult where
  status : Option Str
  startTimeMs : Json
  durationMs : Json

structure RequestRow where
  urn : Option Str
  requestedAt : Json
  result : Option RequestResult

def _SYSTEM_SOURCE_TYPES : List Str := ["datahub-gc".toList,"datahub-documents".toList]

/-- A source of a page, unless its type is reserved. -/
def managedSource (row : SourceRow) : Option ManagedSource :=
  if row.type.any (· ∈ _SYSTEM_SOURCE_TYPES) then none
  else some ⟨some (row.urn.getD []),some (row.name.getD []),
    some ((row.config.bind Prod.fst).getD []),row.schedule.map fun schedule => schedule.1.getD [],
    row.config.bind Prod.snd⟩

/-- A request of a page, where it has a result. -/
def executionRequest (row : RequestRow) : Option ExecutionRequest :=
  row.result.map fun result =>
    ⟨row.urn.getD [],result.status.getD [],result.startTimeMs,result.durationMs,row.requestedAt⟩

def list_ingestion_sources (serve : ℕ → σ → σ × Option (List SourceRow × ℕ)) (fuel : ℕ) (s : σ) :
    σ × Reading ManagedSource := readAll serve managedSource fuel 0 s []

def list_execution_requests (serve : ℕ → σ → σ × Option (List RequestRow × ℕ)) (fuel : ℕ) (s : σ) :
    σ × Reading ExecutionRequest := readAll serve executionRequest fuel 0 s []

/-- What a listing is to be: it ends, however short the pages are, and has in order and once what
was there when it began, and nothing that is not there when it ends. -/
def Lists {α β : Type*} (list : ℕ → σ → σ × Reading β) (items : σ → List α)
    (keep : α → Option β) (T : ℕ) : Prop :=
  (∀ s, (list (T+1) s).2 ≠ .running) ∧
  ∀ fuel s s' kept, list fuel s = (s',.read kept) →
    ∃ all, items s <+: all ∧ all <+: items s' ∧ kept = all.filterMap keep

theorem readAll_lists {α β : Type*} {serve : ℕ → σ → σ × Option (List α × ℕ)} {items : σ → List α}
    (hs : Honest serve items) (keep : α → Option β) {T : ℕ} (hT : ∀ s, (items s).length ≤ T) :
    Lists (fun fuel s => readAll serve keep fuel 0 s []) items keep T := by
  refine ⟨fun s => readAll_ends (T := T) ?_ (Nat.succ_pos T) (by omega) s [],fun fuel s s' kept h => ?_⟩
  · intro start s page total hserve
    rw [(hs.page start s page total hserve).2.1]
    exact hT s
  · exact readAll_honest hs (Nat.zero_le _) rfl h

/-- Both listings, of servers whose lists are only appended to. -/
theorem listings_complete {sources : ℕ → σ → σ × Option (List SourceRow × ℕ)}
    {requests : ℕ → σ → σ × Option (List RequestRow × ℕ)} {sourcesOf : σ → List SourceRow}
    {requestsOf : σ → List RequestRow} (hsources : Honest sources sourcesOf)
    (hrequests : Honest requests requestsOf) {T : ℕ} (hT : ∀ s, (sourcesOf s).length ≤ T)
    (hT' : ∀ s, (requestsOf s).length ≤ T) :
    Lists (list_ingestion_sources sources) sourcesOf managedSource T ∧
    Lists (list_execution_requests requests) requestsOf executionRequest T :=
  ⟨readAll_lists hsources managedSource hT,readAll_lists hrequests executionRequest hT'⟩

/-- A server of one list, in pages of one row. -/
def serveOne {α : Type} (rows : List α) (start : ℕ) (s : Unit) : Unit × Option (List α × ℕ) :=
  (s,some ((rows.drop start).take 1,rows.length))

theorem serveOne_honest {α : Type} (rows : List α) : Honest (serveOne rows) fun _ => rows where
  grows _ _ := List.prefix_refl _
  page start _ _ _ h := by
    cases h
    refine ⟨List.take_prefix _ _,rfl,fun hmore hnil => ?_⟩
    have hlength := congrArg List.length hnil
    rw [List.length_take,List.length_drop,List.length_nil] at hlength
    omega

def sampleRows : List SourceRow :=
  [⟨none,none,some "datahub-gc".toList,none,none⟩,⟨some ['u'],none,none,some (none,none),none⟩]

def sampleRequests : List RequestRow :=
  [⟨some ['r'],.null,none⟩,⟨some ['s'],.null,some ⟨some "SUCCESS".toList,.null,.null⟩⟩]

theorem listings_complete_sample :
    Lists (list_ingestion_sources (serveOne sampleRows)) (fun _ => sampleRows) managedSource 2 ∧
    Lists (list_execution_requests (serveOne sampleRequests)) (fun _ => sampleRequests)
      executionRequest 2 ∧
    (list_execution_requests (serveOne sampleRequests) 3 ()).2 =
      .read [⟨['s'],"SUCCESS".toList,.null,.null,.null⟩] := by
  obtain ⟨hsources,hrequests⟩ := listings_complete (serveOne_honest sampleRows)
    (serveOne_honest sampleRequests) (T:=2) (fun _ => le_rfl) fun _ => le_rfl
  exact ⟨hsources,hrequests,rfl⟩

end Ingestion
end Dataspoke
