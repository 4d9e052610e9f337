import Dataspoke.MetagenReview
import Dataspoke.MetagenRun

/-!
# Item ids

An item id is written by the enumeration of the items and read in four places: by the
validator, by the budget, and where a description is emitted and cleared.
-/

namespace Dataspoke
namespace Metagen

open Python Pydantic Debate

def columnItem (field_path : Str) : Str := "column.".toList ++ field_path ++ ".description".toList

theorem columnItem_eq (p : Str) :
    columnItem p = "column.".toList ++ p ++ ".description".toList := by
  delta columnItem
  exact Eq.refl _

theorem dropText_eq_some {text s rest : Str} : dropText text s = some rest ↔ s = text ++ rest := by
  rw [dropText]
  split_ifs with h
  · obtain ⟨t,rfl⟩ := List.isPrefixOf_iff_prefix.mp h
    simp [eq_comm]
  · constructor
    · exact nofun
    · rintro rfl
      exact absurd (List.isPrefixOf_iff_prefix.mpr (List.prefix_append _ _)) h

theorem atEnd_iff {s : Str} : atEnd s = true ↔ s = [] ∨ s = ['\n'] := by simp [atEnd]

theorem takeWhile_dot {p : Str} (rest : Str) (hp : '.' ∉ p) :
    (p ++ '.' :: rest).takeWhile (· ≠ '.') = p ∧
      (p ++ '.' :: rest).dropWhile (· ≠ '.') = '.' :: rest := by
  have hplain : ∀ c ∈ p, decide (c ≠ '.') = true := by
    intro c hc
    simpa using fun he : c = '.' => hp (he ▸ hc)
  rw [List.takeWhile_append_of_pos hplain,List.dropWhile_append_of_pos hplain]
  simp

/-- An accepted id is the dataset's or a column's, with a line break at the end or without. -/
theorem isItemId_iff {item_id : Str} : isItemId item_id = true ↔
    ∃ stem nl, item_id = stem ++ nl ∧ (nl = [] ∨ nl = ['\n']) ∧
      (stem = datasetDescription ∨ ∃ p, p ≠ [] ∧ '.' ∉ p ∧ stem = columnItem p) := by
  obtain ⟨rest,hdot⟩ : ∃ rest, ".description".toList = '.' :: rest :=
    ⟨"description".toList,by decide⟩
  unfold isItemId columnItem
  rw [Bool.or_eq_true,Option.any_eq_true,Option.any_eq_true,hdot]
  generalize "column.".toList = column
  constructor
  · rintro (⟨nl,hdrop,hend⟩ | ⟨s,hdrop,hs⟩)
    · exact ⟨datasetDescription,nl,dropText_eq_some.mp hdrop,atEnd_iff.mp hend,.inl rfl⟩
    · rw [Bool.and_eq_true,decide_eq_true_eq,Option.any_eq_true] at hs
      obtain ⟨hne,nl,hrest,hend⟩ := hs
      refine ⟨column ++ s.takeWhile (· ≠ '.') ++ '.' :: rest,nl,?_,atEnd_iff.mp hend,
        .inr ⟨s.takeWhile (· ≠ '.'),hne,fun hmem => ?_,rfl⟩⟩
      · rw [dropText_eq_some.mp hdrop,List.append_assoc,List.append_assoc,
          ← dropText_eq_some.mp hrest,List.takeWhile_append_dropWhile]
      · simpa using List.mem_takeWhile_imp hmem
  · rintro ⟨stem,nl,rfl,hnl,rfl | ⟨p,hne,hp,rfl⟩⟩
    · exact .inl ⟨nl,dropText_eq_some.mpr rfl,atEnd_iff.mpr hnl⟩
    · refine .inr ⟨p ++ '.' :: (rest ++ nl),dropText_eq_some.mpr (by simp),?_⟩
      obtain ⟨htake,hdrop⟩ := takeWhile_dot (rest ++ nl) hp
      rw [Bool.and_eq_true,decide_eq_true_eq,htake,hdrop,Option.any_eq_true]
      exact ⟨hne,nl,dropText_eq_some.mpr rfl,atEnd_iff.mpr hnl⟩

theorem columnItem_ne_dataset (p nl : Str) : columnItem p ++ nl ≠ datasetDescription := by
  intro h
  have hcolumn : "column.".toList.head? = some 'c' := by decide
  have hdataset : datasetDescription.head? = some 'd' := by decide
  have hhead := congrArg List.head? h
  rw [columnItem_eq,List.append_assoc,List.append_assoc,
    List.head?_append_of_ne_nil _ (by decide),hcolumn,hdataset] at hhead
  exact absurd hhead (by decide)

theorem kindOf_column (p nl : Str) : kindOf (columnItem p ++ nl) = columnDescription :=
  if_neg (columnItem_ne_dataset p nl)

/-- The slice of a column id: what follows moves into it. -/
theorem fieldPathOf_column (p nl : Str) : fieldPathOf (columnItem p ++ nl) =
    some ((p ++ ".description".toList ++ nl).take (p.length + nl.length)) := by
  have hcolumn : "column.".toList.length = 7 := by decide
  have hdescription : ".description".toList.length = 12 := by decide
  have hlength : "column.".length = 7 ∧ ".description".length = 12 := by decide
  rw [fieldPathOf,if_neg (columnItem_ne_dataset p nl),hlength.1,hlength.2,columnItem_eq]
  generalize "column.".toList = column at *
  generalize ".description".toList = description at *
  have hassoc : column ++ p ++ description ++ nl = column ++ (p ++ description ++ nl) := by simp
  have htake : (column ++ (p ++ description ++ nl)).length - 12 =
      column.length + (p.length + nl.length) := by
    simp only [List.length_append]
    omega
  rw [hassoc,htake,List.take_length_add_append,← hcolumn,List.drop_left]

theorem fieldPathOf_columnItem (p : Str) : fieldPathOf (columnItem p) = some p := by
  have h := fieldPathOf_column p []
  rw [List.append_nil,List.append_nil,List.length_nil,Nat.add_zero,List.take_left] at h
  exact h

/-- Before a line break the slice keeps the dot. -/
theorem fieldPathOf_columnItem_newline (p : Str) :
    fieldPathOf (columnItem p ++ ['\n']) = some (p ++ ['.']) := by
  have hdot : ".description".toList = ['.'] ++ "description".toList := by decide
  rw [fieldPathOf_column,hdot,List.append_assoc,← List.append_assoc,List.append_assoc,
    List.length_singleton]
  have hlen : p.length + 1 = (p ++ ['.']).length := by simp
  rw [hlen,← List.append_assoc,← List.append_assoc,List.append_assoc,List.take_left]

theorem targetOf_columnItem (p : Str) : targetOf (columnItem p) = some (.field p) := by
  have hpre : "column.".toList.isPrefixOf (columnItem p) = true := by
    rw [List.isPrefixOf_iff_prefix,columnItem_eq,List.append_assoc]
    exact List.prefix_append _ _
  have hsuf : ".description".toList.isSuffixOf (columnItem p) = true := by
    rw [List.isSuffixOf_iff_suffix,columnItem_eq]
    exact List.suffix_append _ _
  have hne : columnItem p ≠ datasetDescription := by
    have h := columnItem_ne_dataset p []
    rwa [List.append_nil] at h
  rw [targetOf,if_neg hne,if_pos (by rw [hpre,hsuf]; rfl),fieldPathOf_columnItem]
  rfl

/-- An id with a line break at its end is no target of a write to DataHub. -/
theorem targetOf_newline (stem : Str) : targetOf (stem ++ ['\n']) = none := by
  have hne : stem ++ ['\n'] ≠ datasetDescription := by
    intro h
    have hlast := congrArg List.getLast? h
    rw [List.getLast?_concat] at hlast
    exact absurd hlast (by decide)
  have hsuf : ".description".toList.isSuffixOf (stem ++ ['\n']) ≠ true := by
    rw [Ne,List.isSuffixOf_iff_suffix]
    rintro ⟨t,ht⟩
    have hlast := congrArg List.getLast? ht
    rw [List.getLast?_concat,List.getLast?_append_of_ne_nil _ (by decide)] at hlast
    exact absurd hlast (by decide)
  rw [targetOf,if_neg hne,if_neg]
  rw [Bool.and_eq_true]
  exact fun h => hsuf h.2

theorem getLast?_columnItem (p : Str) : (columnItem p).getLast? = some 'n' := by
  have hlast : ".description".toList.getLast? = some 'n' := by decide
  rw [columnItem_eq,List.getLast?_append_of_ne_nil _ (by decide),hlast]

theorem columnItem_ne_newline {p stem : Str} : columnItem p ≠ stem ++ ['\n'] := by
  intro h
  have hlast := congrArg List.getLast? h
  rw [getLast?_columnItem,List.getLast?_concat] at hlast
  exact absurd hlast (by decide)

theorem columnItem_inj {p q : Str} (h : columnItem p = columnItem q) : p = q := by
  have hpath := congrArg fieldPathOf h
  rw [fieldPathOf_columnItem,fieldPathOf_columnItem] at hpath
  exact Option.some.inj hpath

/-- The id of a column is accepted exactly if its path has no dot. -/
theorem isItemId_columnItem (p : Str) : isItemId (columnItem p) = true ↔ p ≠ [] ∧ '.' ∉ p := by
  rw [isItemId_iff]
  constructor
  · rintro ⟨stem,nl,h,rfl | rfl,hstem⟩
    · rw [List.append_nil] at h
      rcases hstem with rfl | ⟨q,hne,hdot,rfl⟩
      · exact absurd h (by simpa using columnItem_ne_dataset p [])
      · obtain rfl := columnItem_inj h
        exact ⟨hne,hdot⟩
    · exact absurd h columnItem_ne_newline
  · rintro ⟨hne,hdot⟩
    exact ⟨columnItem p,[],by simp,.inl rfl,.inr ⟨p,hne,hdot,rfl⟩⟩

/-- What the id is about, by the slices of the validator. -/
def meaning (item_id : Str) : Target :=
  match fieldPathOf item_id with
  | none => .dataset
  | some field_path => .field field_path

/-- The validator, the budget's item row and the writes to DataHub read the id alike. -/
structure OneMeaning (item_id : Str) : Prop where
  budget : ∀ urn, (itemOf urn item_id).kind = kindOf item_id ∧
    (itemOf urn item_id).field_path = fieldPathOf item_id
  datahub : targetOf item_id = some (meaning item_id)

/-- The meanings of the ids that are accepted. -/
theorem meaning_of_isItemId {item_id : Str} (h : isItemId item_id = true) :
    (item_id = datasetDescription ∧ meaning item_id = .dataset) ∨
    (item_id = datasetDescription ++ ['\n'] ∧ meaning item_id = .field ['.']) ∨
    ∃ p, p ≠ [] ∧ '.' ∉ p ∧ ((item_id = columnItem p ∧ meaning item_id = .field p) ∨
      item_id = columnItem p ++ ['\n'] ∧ meaning item_id = .field (p ++ ['.'])) := by
  obtain ⟨stem,nl,rfl,hnl,hstem⟩ := isItemId_iff.mp h
  rcases hstem with rfl | ⟨p,hne,hdot,rfl⟩
  · rcases hnl with rfl | rfl
    · exact .inl ⟨List.append_nil _,by decide⟩
    · exact .inr (.inl ⟨rfl,by decide⟩)
  · refine .inr (.inr ⟨p,hne,hdot,?_⟩)
    rcases hnl with rfl | rfl
    · left
      rw [List.append_nil,meaning,fieldPathOf_columnItem]
      exact ⟨rfl,rfl⟩
    · right
      rw [meaning,fieldPathOf_columnItem_newline]
      exact ⟨rfl,rfl⟩

theorem ne_concat_dot {p q : Str} (hp : '.' ∉ p) : p ≠ q ++ ['.'] := by
  rintro rfl
  simp at hp

theorem meaning_inj {a b : Str} (ha : isItemId a = true) (hb : isItemId b = true)
    (h : meaning a = meaning b) : a = b := by
  have hdot : ∀ p : Str, p ≠ [] → ['.'] ≠ p ++ ['.'] := by
    intro p hp he
    have hlen := congrArg List.length he
    rw [List.length_append] at hlen
    exact hp (List.eq_nil_of_length_eq_zero (by simpa using hlen))
  rcases meaning_of_isItemId ha with ⟨rfl,hma⟩ | ⟨rfl,hma⟩ | ⟨p,hp,hpd,⟨rfl,hma⟩ | ⟨rfl,hma⟩⟩ <;>
    rcases meaning_of_isItemId hb with ⟨rfl,hmb⟩ | ⟨rfl,hmb⟩ | ⟨q,hq,hqd,⟨rfl,hmb⟩ | ⟨rfl,hmb⟩⟩ <;>
      replace h := hma.symm.trans (h.trans hmb)
  · rfl
  · cases h
  · cases h
  · cases h
  · cases h
  · rfl
  · exact absurd (Target.field.inj h).symm (ne_concat_dot (q:=[]) hqd)
  · exact absurd (Target.field.inj h) (hdot q hq)
  · cases h
  · exact absurd (Target.field.inj h) (ne_concat_dot (q:=[]) hpd)
  · rw [Target.field.inj h]
  · exact absurd (Target.field.inj h) (ne_concat_dot hpd)
  · cases h
  · exact absurd (Target.field.inj h).symm (hdot p hp)
  · exact absurd (Target.field.inj h).symm (ne_concat_dot hqd)
  · rw [List.append_cancel_right (Target.field.inj h)]

/-- An accepted id means one thing to all of its readers, and no other accepted id means it,
exactly if it does not end with a line break. -/
theorem item_id_meaning_iff (item_id : Str) (h : isItemId item_id = true) :
    (OneMeaning item_id ∧ ∀ other, isItemId other = true → other ≠ item_id →
      meaning other ≠ meaning item_id) ↔ item_id.getLast? ≠ some '\n' := by
  constructor
  · rintro ⟨hone,-⟩ hlast
    obtain ⟨stem,rfl⟩ : ∃ stem, item_id = stem ++ ['\n'] := by
      obtain ⟨stem,rfl⟩ := List.getLast?_eq_some_iff.mp hlast
      exact ⟨stem,rfl⟩
    have htarget := hone.datahub
    rw [targetOf_newline] at htarget
    cases htarget
  · intro hlast
    refine ⟨⟨fun _ => ⟨rfl,rfl⟩,?_⟩,fun other ho hne hm => hne (meaning_inj ho h hm)⟩
    rcases meaning_of_isItemId h with ⟨rfl,hm⟩ | ⟨rfl,-⟩ | ⟨p,-,-,⟨rfl,hm⟩ | ⟨rfl,-⟩⟩
    · rw [hm]
      rfl
    · exact absurd List.getLast?_concat hlast
    · rw [hm,targetOf_columnItem]
    · exact absurd List.getLast?_concat hlast

theorem item_id_meaning_column : OneMeaning (columnItem ['a']) :=
  ((item_id_meaning_iff _ ((isItemId_columnItem ['a']).mpr (by decide))).mpr
    (by rw [getLast?_columnItem]; decide)).1

/-- With a line break at its end the id of the dataset is accepted as that of a column, and
nothing is ever written for it. -/
theorem newline_id_read_apart : ¬ ∀ item_id, isItemId item_id = true → OneMeaning item_id := by
  intro hall
  have hid : isItemId (datasetDescription ++ ['\n']) = true := by decide
  have htarget := (hall _ hid).datahub
  rw [targetOf_newline] at htarget
  cases htarget

section Writable

/-- A proposal for one of the items. -/
structure ItemProposal (urn : Str) (items : List Str) (cand : MetagenLLMCandidate) : Prop where
  dataset : cand.dataset_urn = urn
  item : cand.item_id ∈ items
  value : strip isspace cand.value ≠ [] ∧ utf8Length cand.value ≤ VALUE_MAX_BYTES
  score : (Number.fin 0).le cand.confidence_score = true ∧
    cand.confidence_score.le (.fin 1) = true

variable (i : RunInput) (urn : Str) (db : Db) (boundary : MetagenBoundary)

def RunInput.targets : List Str :=
  enumerate_target_items urn boundary (i.field_paths urn) (approved_item_ids db urn)

/-- Every set of proposals for the items, without duplicates, validates. -/
def Coverable : Prop :=
  ∀ (L : Lib) (payload : Json) (output : MetagenLLMOutput),
    (outputSchema L).decode payload = some output →
    (∀ cand ∈ output.candidates, ItemProposal urn (i.targets urn db boundary) cand) →
    (output.candidates.map key).Nodup →
    validate_metagen_output L (i.rules urn db boundary) payload = some []

variable {i urn db boundary}

theorem mem_targets {item_id : Str} : item_id ∈ i.targets urn db boundary ↔
    ((datasetDescription ∈ boundary.allowed ∧ item_id = datasetDescription) ∨
      columnDescription ∈ boundary.allowed ∧
        ∃ p ∈ i.field_paths urn, p ≠ [] ∧ item_id = columnItem p) ∧
    (urn,item_id) ∉ approved_item_ids db urn := by
  have hcolumns : item_id ∈ ((i.field_paths urn).filter (· ≠ [])).map columnItem ↔
      ∃ p ∈ i.field_paths urn, p ≠ [] ∧ item_id = columnItem p := by
    simp only [List.mem_map,List.mem_filter,decide_eq_true_eq,and_assoc]
    constructor
    · rintro ⟨p,hp,hne,he⟩
      exact ⟨p,hp,hne,he.symm⟩
    · rintro ⟨p,hp,hne,he⟩
      exact ⟨p,hp,hne,he.symm⟩
  have htargets : i.targets urn db boundary =
      ((if datasetDescription ∈ boundary.allowed then [datasetDescription] else []) ++
        if columnDescription ∈ boundary.allowed then
          ((i.field_paths urn).filter (· ≠ [])).map columnItem else []).filter fun item_id =>
            (urn,item_id) ∉ approved_item_ids db urn := by
    delta columnItem
    exact Eq.refl _
  rw [htargets,List.mem_filter,List.mem_append,decide_eq_true_eq,← hcolumns]
  by_cases hd : datasetDescription ∈ boundary.allowed <;>
    by_cases hc : columnDescription ∈ boundary.allowed <;> simp [hd,hc]

/-- A proposal for an item with an accepted id is in scope. -/
theorem ItemProposal.inScope {cand : MetagenLLMCandidate}
    (h : ItemProposal urn (i.targets urn db boundary) cand)
    (hid : isItemId cand.item_id = true) : InScope (i.rules urn db boundary) cand := by
  obtain ⟨hitem,hfresh⟩ := mem_targets.mp h.item
  have hpaths : (get? cand.dataset_urn (i.rules urn db boundary).schema_field_paths).getD [] =
      (i.field_paths urn).filter (· ≠ []) := by
    rw [h.dataset]
    simp [RunInput.rules,get?]
  have hallowed : (get? cand.dataset_urn (i.rules urn db boundary).boundary_allowed).getD [] =
      boundary.allowed := by
    rw [h.dataset]
    simp [RunInput.rules,get?]
  constructor
  case dataset => exact List.mem_singleton.mpr h.dataset
  case item_id => exact hid
  case field_path =>
    intro p hp
    rw [hpaths]
    rcases hitem with ⟨-,hitem⟩ | ⟨-,q,hq,hne,hitem⟩
    · rw [hitem] at hp
      cases hp
    · rw [hitem,fieldPathOf_columnItem,Option.some_inj] at hp
      right
      rw [← hp,List.mem_filter,decide_eq_true_eq]
      exact ⟨hq,hne⟩
  case kind =>
    rw [hallowed]
    rcases hitem with ⟨hd,hitem⟩ | ⟨hc,q,-,-,hitem⟩
    · rw [hitem]
      exact hd
    · have hkind := kindOf_column q []
      rw [List.append_nil] at hkind
      rw [hitem,hkind]
      exact hc
  case value => exact h.value
  case score => exact h.score
  case unapproved =>
    rw [key,h.dataset]
    exact hfresh

def payloadOf (urn item_id : Str) : Json :=
  .obj [("candidates".toList,.arr [.obj [("dataset_urn".toList,.str urn),
    ("item_id".toList,.str item_id),("value".toList,.str ['x']),
    ("confidence_score".toList,.num (.fin 1))]])]

theorem decode_payloadOf (L : Lib) (urn item_id : Str) :
    (outputSchema L).decode (payloadOf urn item_id) =
      some ⟨[⟨urn,item_id,['x'],.fin 1⟩]⟩ := by rfl

/-- A column that is asked for and has a dot in its path cannot be proposed. -/
theorem no_dot_of_coverable (h : Coverable i urn db boundary) {p : Str}
    (hitem : columnItem p ∈ i.targets urn db boundary) : '.' ∉ p := by
  have hproposal : ItemProposal urn (i.targets urn db boundary) ⟨urn,columnItem p,['x'],.fin 1⟩ :=
    ⟨rfl,hitem,show strip isspace ['x'] ≠ [] ∧ utf8Length ['x'] ≤ VALUE_MAX_BYTES by decide,
      show (Number.fin 0).le (.fin 1) = true ∧ (Number.fin 1).le (.fin 1) = true by
        decide +kernel⟩
  have hvalid := h ⟨fun _ => none,fun _ => "",fun _ => []⟩ _ _ (decode_payloadOf _ urn _)
    (by simpa using hproposal) (List.nodup_singleton _)
  obtain ⟨output,houtput,hscope⟩ := validate_accepts_iff.mp hvalid
  rw [decode_payloadOf,Option.some_inj] at houtput
  subst houtput
  exact ((isItemId_columnItem p).mp (hscope.1 _ (.head _)).item_id).2

/-- Every item that is asked for can be written exactly if no column that is asked for has a
dot in its path. -/
theorem coverable_iff (i : RunInput) (urn : Str) (db : Db) (boundary : MetagenBoundary) :
    Coverable i urn db boundary ↔ (columnDescription ∈ boundary.allowed →
      ∀ p ∈ i.field_paths urn, p ≠ [] → (urn,columnItem p) ∉ approved_item_ids db urn →
        '.' ∉ p) := by
  constructor
  · intro h hallowed p hp hne hfresh
    exact no_dot_of_coverable h (mem_targets.mpr ⟨.inr ⟨hallowed,p,hp,hne,rfl⟩,hfresh⟩)
  · intro h L payload output houtput hproposals hnodup
    refine validate_accepts_iff.mpr ⟨output,houtput,fun cand hcand => ?_,hnodup⟩
    have hproposal := hproposals cand hcand
    obtain ⟨hitem,hfresh⟩ := mem_targets.mp hproposal.item
    refine hproposal.inScope ?_
    rcases hitem with ⟨-,hitem⟩ | ⟨hc,p,hp,hne,hitem⟩
    · rw [hitem]
      rfl
    · rw [hitem] at hfresh ⊢
      exact (isItemId_columnItem p).mpr ⟨hne,h hc p hp hne hfresh⟩

def nestedRun : RunInput := { sampleRun "urn" with field_paths := fun _ => [['a','.','b']] }

theorem nested_column_refused :
    ¬ ∀ i urn db boundary, Coverable i urn db boundary := by
  intro hall
  have hitem : columnItem ['a','.','b'] ∈
      nestedRun.targets "urn".toList sampleDb ⟨"urn".toList,true,[columnDescription]⟩ :=
    mem_targets.mpr ⟨.inr ⟨.head _,_,.head _,by decide,rfl⟩,by decide⟩
  exact no_dot_of_coverable (hall _ _ _ _) hitem (by decide)

end Writable

end Metagen
end Dataspoke
