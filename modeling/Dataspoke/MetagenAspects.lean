import Dataspoke.MetagenReview

/-!
# Editable aspects

`_emit_to_datahub` and `_clear_datahub_aspect` on whole aspects, with the audit stamps that
stand beside the descriptions. An aspect is written as a whole.
-/

namespace Dataspoke
namespace Metagen

open Python

section Aspects

structure AuditStamp where
  time : ℕ
  actor : Str
  deriving DecidableEq

/-- What an aspect carries besides its content. -/
structure Attributes where
  created : AuditStamp
  lastModified : AuditStamp
  deleted : Option AuditStamp
  deriving DecidableEq

structure PropertiesAspect where
  content : EditableDatasetProperties
  attributes : Attributes

structure SchemaAspect where
  editableSchemaFieldInfo : List EditableSchemaFieldInfo
  attributes : Attributes

structure Aspects where
  properties : Option PropertiesAspect
  schema : Option SchemaAspect

-- The attributes that the SDK gives an aspect built without them.
variable (defaults : Attributes)

def emit_to_datahub (item_id value : Str) (a : Aspects) : Aspects :=
  match targetOf item_id with
  | some .dataset =>
    match a.properties with
    | some existing => { a with
      properties := some
        { existing with content := { existing.content with description := some value } } }
    | none => { a with properties := some ⟨⟨none,some value⟩,defaults⟩ }
  | some (.field field_path) =>
    let field_infos := match a.schema with
      | some existing =>
        (setDescription field_path (some value) existing.editableSchemaFieldInfo).getD
          (existing.editableSchemaFieldInfo ++ [⟨field_path,some value,[],[]⟩])
      | none => [⟨field_path,some value,[],[]⟩]
    { a with schema := some ⟨field_infos,defaults⟩ }
  | none => a

def clear_datahub_aspect (item_id : Str) (a : Aspects) : Aspects :=
  match targetOf item_id with
  | some .dataset =>
    match a.properties with
    | some existing => { a with
      properties := some
        { existing with content := { existing.content with description := none } } }
    | none => a
  | some (.field field_path) =>
    match a.schema with
    | some existing =>
      match setDescription field_path none existing.editableSchemaFieldInfo with
      | some field_infos => { a with schema := some ⟨field_infos,defaults⟩ }
      | none => a
    | none => a
  | none => a

end Aspects

section Entries

variable {path : Str} {value : Option Str} {infos infos' : List EditableSchemaFieldInfo}

/-- The first entry of the field has the description now; the rest is as it was. -/
def Redescribed (path : Str) (value : Option Str)
    (infos infos' : List EditableSchemaFieldInfo) : Prop :=
  ∃ before fi after, infos = before ++ fi::after ∧ (∀ e ∈ before, e.fieldPath ≠ path) ∧
    fi.fieldPath = path ∧ infos' = before ++ { fi with description := value }::after

def NoEntry (path : Str) (infos : List EditableSchemaFieldInfo) : Prop :=
  ∀ e ∈ infos, e.fieldPath ≠ path

theorem setDescription_some (h : setDescription path value infos = some infos') :
    Redescribed path value infos infos' := by
  induction infos generalizing infos' with
  | nil => cases h
  | cons e rest ih =>
    rw [setDescription] at h
    by_cases he : e.fieldPath = path
    · rw [if_pos he] at h
      exact ⟨[],e,rest,rfl,fun _ hb => absurd hb List.not_mem_nil,he,(Option.some.inj h).symm⟩
    · rw [if_neg he] at h
      obtain ⟨rest',hrest,rfl⟩ := Option.map_eq_some_iff.mp h
      obtain ⟨before,fi,after,rfl,hbefore,hfi,rfl⟩ := ih hrest
      exact ⟨e::before,fi,after,rfl,List.forall_mem_cons.mpr ⟨he,hbefore⟩,hfi,rfl⟩

theorem setDescription_none (h : setDescription path value infos = none) : NoEntry path infos := by
  induction infos with
  | nil => exact nofun
  | cons e rest ih =>
    rw [setDescription] at h
    by_cases he : e.fieldPath = path
    · rw [if_pos he] at h
      cases h
    · rw [if_neg he] at h
      exact List.forall_mem_cons.mpr ⟨he,ih (Option.map_eq_none_iff.mp h)⟩

/-- The description, tags and terms that a field has, none where it has no entry. -/
def fieldView (infos : List EditableSchemaFieldInfo) (path : Str) :
    Option Str × List Str × List Str :=
  match infos.find? fun fi => fi.fieldPath = path with
  | some fi => (fi.description,fi.globalTags,fi.glossaryTerms)
  | none => (none,[],[])

theorem fieldView_cons (fi : EditableSchemaFieldInfo) (rest : List EditableSchemaFieldInfo)
    (path : Str) : fieldView (fi::rest) path =
      if fi.fieldPath = path then (fi.description,fi.globalTags,fi.glossaryTerms)
      else fieldView rest path := by
  by_cases h : fi.fieldPath = path <;> simp [fieldView,h]

/-- An entry without anything reads like no entry. -/
theorem fieldView_append_empty (infos : List EditableSchemaFieldInfo) (path p : Str) :
    fieldView (infos ++ [⟨path,none,[],[]⟩]) p = fieldView infos p := by
  induction infos with
  | nil =>
    rw [List.nil_append,fieldView_cons]
    by_cases h : path = p <;> simp [fieldView,h]
  | cons fi rest ih => rw [List.cons_append,fieldView_cons,fieldView_cons,ih]

theorem setDescription_append {fi : EditableSchemaFieldInfo} (h : NoEntry path infos)
    (hfi : fi.fieldPath = path) : setDescription path value (infos ++ [fi]) =
      some (infos ++ [{ fi with description := value }]) := by
  induction infos with
  | nil =>
    rw [List.nil_append,setDescription,if_pos hfi]
    rfl
  | cons e rest ih =>
    obtain ⟨he,hrest⟩ := List.forall_mem_cons.mp h
    rw [List.cons_append,setDescription,if_neg he,ih hrest]
    rfl

/-- Of two descriptions set one after the other the second stays. -/
theorem setDescription_twice {v : Option Str} (h : setDescription path v infos = some infos') :
    setDescription path value infos' = setDescription path value infos := by
  induction infos generalizing infos' with
  | nil => cases h
  | cons e rest ih =>
    rw [setDescription] at h
    by_cases he : e.fieldPath = path
    · rw [if_pos he] at h
      rw [← Option.some.inj h,setDescription,setDescription,if_pos he,if_pos he]
    · rw [if_neg he] at h
      obtain ⟨rest',hrest,rfl⟩ := Option.map_eq_some_iff.mp h
      rw [setDescription,setDescription,if_neg he,if_neg he,ih hrest]

theorem noEntry_iff : NoEntry path infos ↔ setDescription path value infos = none := by
  constructor
  · intro h
    induction infos with
    | nil => rfl
    | cons e rest ih =>
      obtain ⟨he,hrest⟩ := List.forall_mem_cons.mp h
      rw [setDescription,if_neg he,ih hrest]
      rfl
  · exact setDescription_none

end Entries

section Frames

/-- The entries of a schema aspect; an absent one has none. -/
def Aspects.infos (a : Aspects) : List EditableSchemaFieldInfo :=
  a.schema.elim [] (·.editableSchemaFieldInfo)

/-- An emit sets the description of its item, and nothing else changes. -/
def EmitsOnly (value : Str) (a a' : Aspects) : Target → Prop
  | .dataset => a'.schema = a.schema ∧ ∃ p, a'.properties = some p ∧
      p.content.description = some value ∧ (a.properties = none → p.content.name = none) ∧
      ∀ e ∈ a.properties, p.content.name = e.content.name ∧ p.attributes = e.attributes
  | .field path => a'.properties = a.properties ∧ ∃ s, a'.schema = some s ∧
      (Redescribed path (some value) a.infos s.editableSchemaFieldInfo ∨
        NoEntry path a.infos ∧
          s.editableSchemaFieldInfo = a.infos ++ [⟨path,some value,[],[]⟩]) ∧
      ∀ e ∈ a.schema, s.attributes = e.attributes

/-- A clear removes the description of its item, and nothing else changes. -/
def ClearsOnly (a a' : Aspects) : Target → Prop
  | .dataset => a'.schema = a.schema ∧ a'.properties = a.properties.map fun e =>
      { e with content := { e.content with description := none } }
  | .field path => a'.properties = a.properties ∧ (a.schema = none → a'.schema = none) ∧
      ∀ e ∈ a.schema, ∃ s, a'.schema = some s ∧ s.attributes = e.attributes ∧
        (Redescribed path none e.editableSchemaFieldInfo s.editableSchemaFieldInfo ∨
          NoEntry path e.editableSchemaFieldInfo ∧
            s.editableSchemaFieldInfo = e.editableSchemaFieldInfo)

/-- The same descriptions, tags and terms, and the same name. -/
structure Alike (a b : Aspects) : Prop where
  fields : ∀ path, fieldView a.infos path = fieldView b.infos path
  description : a.properties.bind (·.content.description) =
    b.properties.bind (·.content.description)
  name : a.properties.bind (·.content.name) = b.properties.bind (·.content.name)

variable (defaults : Attributes)

/-- The law of one item on the aspects of a dataset. -/
structure TouchesOne (item_id value : Str) (a : Aspects) (target : Target) : Prop where
  emit : EmitsOnly value a (emit_to_datahub defaults item_id value a) target
  clear : ClearsOnly a (clear_datahub_aspect defaults item_id a) target
  undone : Alike
    (clear_datahub_aspect defaults item_id (emit_to_datahub defaults item_id value a))
    (clear_datahub_aspect defaults item_id a)

variable {defaults} {item_id value path : Str} {a : Aspects}

theorem emit_dataset (ht : targetOf item_id = some .dataset) :
    EmitsOnly value a (emit_to_datahub defaults item_id value a) .dataset := by
  rw [emit_to_datahub,ht]
  cases hp : a.properties with
  | none => exact ⟨rfl,_,rfl,rfl,fun _ => rfl,fun e he => by rw [hp] at he; cases he⟩
  | some existing =>
    refine ⟨rfl,_,rfl,rfl,fun h => (by rw [hp] at h; cases h),fun e he => ?_⟩
    rw [hp] at he
    cases he
    exact ⟨rfl,rfl⟩

theorem clear_dataset (ht : targetOf item_id = some .dataset) :
    ClearsOnly a (clear_datahub_aspect defaults item_id a) .dataset := by
  rw [clear_datahub_aspect,ht]
  cases hp : a.properties with
  | none => exact ⟨rfl,by rw [hp]; rfl⟩
  | some existing => exact ⟨rfl,by rw [hp]; rfl⟩

theorem undone_dataset (ht : targetOf item_id = some .dataset) :
    Alike (clear_datahub_aspect defaults item_id (emit_to_datahub defaults item_id value a))
      (clear_datahub_aspect defaults item_id a) := by
  rw [emit_to_datahub,ht]
  cases hp : a.properties with
  | none =>
    simp only [clear_datahub_aspect,ht,hp]
    exact ⟨fun _ => rfl,by rw [hp]; rfl,by rw [hp]; rfl⟩
  | some existing =>
    simp only [clear_datahub_aspect,ht,hp]
    exact ⟨fun _ => rfl,rfl,rfl⟩

/-- The entries that an emit for a column writes. -/
theorem emit_field_infos (ht : targetOf item_id = some (.field path)) :
    (emit_to_datahub defaults item_id value a).schema =
      some ⟨(setDescription path (some value) a.infos).getD
        (a.infos ++ [⟨path,some value,[],[]⟩]),defaults⟩ := by
  rw [emit_to_datahub,ht,Aspects.infos]
  cases a.schema <;> rfl

theorem emit_field (ht : targetOf item_id = some (.field path)) :
    EmitsOnly value a (emit_to_datahub defaults item_id value a) (.field path) ↔
      ∀ e ∈ a.schema, e.attributes = defaults := by
  have hproperties : (emit_to_datahub defaults item_id value a).properties = a.properties := by
    rw [emit_to_datahub,ht]
  constructor
  · rintro ⟨-,s,hs,-,hattributes⟩ e he
    rw [emit_field_infos ht] at hs
    rw [← hattributes e he,← Option.some.inj hs]
  · intro h
    refine ⟨hproperties,_,emit_field_infos ht,?_,fun e he => (h e he).symm⟩
    cases hset : setDescription path (some value) a.infos with
    | none => exact .inr ⟨setDescription_none hset,rfl⟩
    | some infos => exact .inl (setDescription_some hset)

/-- A clear for a column with default attributes. -/
theorem clear_field (ht : targetOf item_id = some (.field path))
    (h : ∀ e ∈ a.schema, e.attributes = defaults) :
    ClearsOnly a (clear_datahub_aspect defaults item_id a) (.field path) := by
  rw [clear_datahub_aspect,ht]
  cases hs : a.schema with
  | none => exact ⟨rfl,fun _ => hs,fun e he => by rw [hs] at he; cases he⟩
  | some existing =>
    dsimp only
    cases hset : setDescription path none existing.editableSchemaFieldInfo with
    | none =>
      refine ⟨rfl,fun h => (by rw [hs] at h; cases h),fun e he => ?_⟩
      rw [hs] at he
      cases he
      exact ⟨existing,hs,rfl,.inr ⟨setDescription_none hset,rfl⟩⟩
    | some infos =>
      refine ⟨rfl,fun h => (by rw [hs] at h; cases h),fun e he => ?_⟩
      rw [hs] at he
      cases he
      exact ⟨_,rfl,(h existing hs).symm,.inl (setDescription_some hset)⟩

theorem clear_field_infos (ht : targetOf item_id = some (.field path)) :
    (clear_datahub_aspect defaults item_id a).infos =
      (setDescription path none a.infos).getD a.infos := by
  rw [clear_datahub_aspect,ht]
  cases hs : a.schema with
  | none => simp [Aspects.infos,hs,setDescription]
  | some existing =>
    cases hset : setDescription path none existing.editableSchemaFieldInfo with
    | none => simp [Aspects.infos,hs,hset]
    | some infos => simp [Aspects.infos,hs,hset]

theorem undone_field (ht : targetOf item_id = some (.field path)) :
    Alike (clear_datahub_aspect defaults item_id (emit_to_datahub defaults item_id value a))
      (clear_datahub_aspect defaults item_id a) := by
  have hclear : ∀ b : Aspects,
      (clear_datahub_aspect defaults item_id b).properties = b.properties := by
    intro b
    rw [clear_datahub_aspect,ht]
    cases b.schema with
    | none => rfl
    | some existing =>
      dsimp only
      cases setDescription path none existing.editableSchemaFieldInfo <;> rfl
  have hemit : (emit_to_datahub defaults item_id value a).properties = a.properties := by
    rw [emit_to_datahub,ht]
  have hinfos : (emit_to_datahub defaults item_id value a).infos =
      (setDescription path (some value) a.infos).getD
        (a.infos ++ [⟨path,some value,[],[]⟩]) := by
    rw [Aspects.infos,emit_field_infos ht]
    rfl
  refine ⟨fun p => ?_,by rw [hclear,hclear,hemit],by rw [hclear,hclear,hemit]⟩
  rw [clear_field_infos ht,clear_field_infos ht,hinfos]
  cases hset : setDescription path (some value) a.infos with
  | some infos =>
    rw [Option.getD_some,setDescription_twice hset]
    cases hclr : setDescription path none a.infos with
    | none =>
      have hnone : setDescription path (some value) a.infos = none :=
        noEntry_iff.mp (setDescription_none hclr)
      rw [hset] at hnone
      cases hnone
    | some cleared => rfl
  | none =>
    have hno := setDescription_none hset
    rw [Option.getD_none,setDescription_append hno rfl,noEntry_iff.mp hno,Option.getD_some,
      Option.getD_none]
    exact fieldView_append_empty _ _ _

/-- Emitting and clearing touch one description only exactly if the item is not a column's, or
the schema aspect has no attributes but the defaults. -/
theorem touches_one_iff (defaults : Attributes) (item_id value : Str) (a : Aspects) :
    (∀ target, targetOf item_id = some target → TouchesOne defaults item_id value a target) ↔
      ∀ path, targetOf item_id = some (.field path) → ∀ e ∈ a.schema, e.attributes = defaults := by
  constructor
  · intro h path ht
    exact (emit_field ht).mp (h _ ht).emit
  · intro h target ht
    cases target with
    | dataset => exact ⟨emit_dataset ht,clear_dataset ht,undone_dataset ht⟩
    | field path =>
      exact ⟨(emit_field ht).mpr (h path ht),clear_field ht (h path ht),undone_field ht⟩

/-- The attributes of an aspect that the SDK builds from its entries alone. -/
def sdkDefaults : Attributes :=
  let stamp : AuditStamp := ⟨0,"urn:li:corpuser:unknown".toList⟩
  ⟨stamp,stamp,none⟩

/-- The stamps of an edited aspect are lost when a column's description is emitted. -/
theorem emit_drops_stamps : ¬ ∀ item_id value a target,
    targetOf item_id = some target → TouchesOne sdkDefaults item_id value a target := by
  intro h
  have ht : targetOf "column.a.description".toList = some (.field ['a']) := rfl
  let edited : Attributes :=
    { sdkDefaults with created := { sdkDefaults.created with time := 1 } }
  have hemit := (emit_field ht).mp
    (h "column.a.description".toList ['v'] ⟨none,some ⟨[],edited⟩⟩ _ ht).emit
  have htime := congrArg (fun x => x.created.time) (hemit _ rfl)
  exact absurd htime Nat.one_ne_zero

end Frames

end Metagen
end Dataspoke
