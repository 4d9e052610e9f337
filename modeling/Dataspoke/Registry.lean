import Dataspoke.Python
import Dataspoke.Table
import Dataspoke.Transition
import Mathlib.Data.List.Dedup
import Mathlib.Data.List.Perm.Basic
import Mathlib.Data.List.Perm.Lattice

/-!
# The dataset registry

The local mirror of the datasets that DataHub holds, and the four operations that write it.
A `set` of URNs is a list without duplicates, and an instant a natural number.
-/

namespace Dataspoke
namespace Registry

open Python Transition

structure DatasetRegistry where
  dataset_urn : Str
  datahub_registered : Bool
  origin : Option Str
  platform_urn : Option Str
  tag_urns : List Str
  glossary_term_urns : List Str
  is_primary : Bool
  attrs_synced_at : Option ℕ
  created_at : ℕ
  updated_at : ℕ
  deriving DecidableEq

abbrev Db := Table DatasetRegistry.dataset_urn

/-- A row with the column defaults. -/
def DatasetRegistry.new (now : ℕ) (dataset_urn : Str) (datahub_registered : Bool) :
    DatasetRegistry :=
  ⟨dataset_urn,datahub_registered,none,none,[],[],true,none,now,now⟩

def DatasetRegistry.setRegistered (now : ℕ) (b : Bool) (row : DatasetRegistry) :
    DatasetRegistry :=
  { row with datahub_registered := b, updated_at := now }

/-- The flag of the dataset's row, if it has one. -/
def flag? (db : Db) (urn : Str) : Option Bool := (db.get? urn).map (·.datahub_registered)

def Registered (db : Db) (urn : Str) : Prop := flag? db urn = some true

section Operations

variable (now : ℕ)

/-- `ensure_dataset_registered`: `found` is the flag that its lookup read, `aspect` whether
DataHub has properties of the dataset. A row that another transaction inserted after the
lookup makes the insertion fail, and its flag is read instead. The error is the
`PreconditionFailedError`. -/
def ensure_dataset_registered (db : Db) (dataset_urn : Str) (found : Option Bool)
    (aspect require_in_datahub : Bool) : Db × Except String Bool :=
  let inserted : Db × Bool :=
    match found with
    | some registered => (db,registered)
    | none =>
      match db.get? dataset_urn with
      | none => (db.put (.new now dataset_urn aspect),aspect)
      | some row => (db,row.datahub_registered)
  (inserted.1,
    if require_in_datahub && !inserted.2 then .error "DATASET_NOT_IN_DATAHUB"
    else .ok inserted.2)

def mark_registered (db : Db) (dataset_urn : Str) : Db :=
  match db.get? dataset_urn with
  | none => db
  | some row => if row.datahub_registered then db else db.put (row.setRegistered now true)

def mark_unregistered (db : Db) (dataset_urn : Str) : Db :=
  match db.get? dataset_urn with
  | none => db
  | some row => if row.datahub_registered then db.put (row.setRegistered now false) else db

structure ReconcileCounts where
  inserted : ℕ
  marked_true : ℕ
  marked_false : ℕ
  unchanged : ℕ
  deriving DecidableEq

/-- Step A of `reconcile_registry` for one enumerated URN. -/
def registerUrn (existing_rows : Db) (s : Db × ReconcileCounts) (urn : Str) :
    Db × ReconcileCounts :=
  match existing_rows.get? urn with
  | none => (s.1.put (.new now urn true),{ s.2 with inserted := s.2.inserted+1 })
  | some row =>
    if row.datahub_registered then (s.1,{ s.2 with unchanged := s.2.unchanged+1 })
    else (s.1.put (row.setRegistered now true),{ s.2 with marked_true := s.2.marked_true+1 })

/-- Step B of `reconcile_registry` for one row that was not enumerated. -/
def deregisterRow (s : Db × ReconcileCounts) (row : DatasetRegistry) : Db × ReconcileCounts :=
  if row.datahub_registered then
    (s.1.put (row.setRegistered now false),{ s.2 with marked_false := s.2.marked_false+1 })
  else s

/-- `reconcile_registry` on the set of the enumerated URNs. -/
def reconcile_registry (db : Db) (enumerated_urns : List Str) : Db × ReconcileCounts :=
  let a := enumerated_urns.dedup.foldl (registerUrn now db) (db,⟨0,0,0,0⟩)
  if enumerated_urns.isEmpty then a
  else (db.rows.filter (·.dataset_urn ∉ enumerated_urns)).foldl (deregisterRow now) a

structure DatasetAttributes where
  dataset_urn : Str
  origin : Option Str
  platform_urn : Option Str
  tag_urns : List Str
  glossary_term_urns : List Str
  is_primary : Bool

/-- `DATASET_URN_RE.match`, where `.` matches all but a newline. -/
def datasetUrnRe (urn : Str) : Bool :=
  let lead := "urn:li:dataset:(".toList
  let body := (urn.drop lead.length).dropLast
  lead.isPrefixOf urn && (urn.drop lead.length).getLast? == some ')' && !body.isEmpty &&
    body.all (· ≠ '\n')

/-- `INSERT … ON CONFLICT (dataset_urn) DO UPDATE` of one record. -/
def upsertAttributes (db : Db) (record : DatasetAttributes) : Db :=
  match db.get? record.dataset_urn with
  | none => db.put
      ⟨record.dataset_urn,false,record.origin,record.platform_urn,record.tag_urns,
        record.glossary_term_urns,record.is_primary,some now,now,now⟩
  | some row => db.put
      { row with
        origin := record.origin, platform_urn := record.platform_urn
        tag_urns := record.tag_urns, glossary_term_urns := record.glossary_term_urns
        is_primary := record.is_primary, attrs_synced_at := some now, updated_at := now }

def attributeChunk : ℕ := 500

/-- The statements that a payload is sent in, one for each chunk. -/
def executeChunks (db : Db) (payload : List DatasetAttributes) : Db :=
  (slices attributeChunk payload).foldl (fun db chunk => chunk.foldl (upsertAttributes now) db)
    db

def upsert_dataset_attributes (db : Db) (records : List DatasetAttributes)
    (synced_at : Option ℕ) : Db × ℕ :=
  let records := records.filter (datasetUrnRe ·.dataset_urn)
  if records.isEmpty then (db,0)
  else (executeChunks (synced_at.getD now) db records,records.length)

/-- The rows that `sync_with_datahub` selects. -/
def selected (dataset_urns : Option (List Str)) (row : DatasetRegistry) : Bool :=
  match dataset_urns with
  | none => true
  | some dataset_urns => row.dataset_urn ∈ dataset_urns

structure SyncCounts where
  checked : ℕ
  flipped_true : ℕ
  flipped_false : ℕ
  unchanged : ℕ
  not_found : ℕ
  deriving DecidableEq

def syncRow (datahub_urn_set : List Str) (s : Db × SyncCounts) (row : DatasetRegistry) :
    Db × SyncCounts :=
  if row.dataset_urn ∈ datahub_urn_set ∧ row.datahub_registered = false then
    (mark_registered now s.1 row.dataset_urn,{ s.2 with flipped_true := s.2.flipped_true+1 })
  else if row.dataset_urn ∉ datahub_urn_set ∧ row.datahub_registered = true then
    (mark_unregistered now s.1 row.dataset_urn,{ s.2 with flipped_false := s.2.flipped_false+1 })
  else (s.1,{ s.2 with unchanged := s.2.unchanged+1 })

/-- `sync_with_datahub`, where `enumerate_datasets` returns `enumerated`. -/
def sync_with_datahub (db : Db) (enumerated : List Str) (dataset_urns : Option (List Str)) :
    Db × SyncCounts :=
  if dataset_urns = some [] then (db,⟨0,0,0,0,0⟩)
  else
    let rows := db.rows.filter (selected dataset_urns)
    let not_found :=
      ((dataset_urns.getD []).filter fun urn => ∀ row ∈ rows, row.dataset_urn ≠ urn).dedup.length
    rows.foldl (syncRow now enumerated) (db,⟨rows.length,0,0,0,not_found⟩)

end Operations

section Reconcile

variable {now : ℕ}

def enumeratedRow (now : ℕ) (db : Db) (urn : Str) : DatasetRegistry :=
  match db.get? urn with
  | none => .new now urn true
  | some row => if row.datahub_registered then row else row.setRegistered now true

def absentRow (now : ℕ) (row : DatasetRegistry) : DatasetRegistry :=
  if row.datahub_registered then row.setRegistered now false else row

@[simp] theorem enumeratedRow_urn (db : Db) (urn : Str) :
    (enumeratedRow now db urn).dataset_urn = urn := by
  rw [enumeratedRow]
  cases h : db.get? urn with
  | none => rfl
  | some row =>
    have hurn := (Table.get?_eq_some.mp h).2
    by_cases hr : row.datahub_registered <;> simpa [hr,DatasetRegistry.setRegistered] using hurn

@[simp] theorem enumeratedRow_registered (db : Db) (urn : Str) :
    (enumeratedRow now db urn).datahub_registered = true := by
  rw [enumeratedRow]
  cases db.get? urn with
  | none => rfl
  | some row => by_cases hr : row.datahub_registered <;> simp [hr,DatasetRegistry.setRegistered]

@[simp] theorem absentRow_urn (row : DatasetRegistry) :
    (absentRow now row).dataset_urn = row.dataset_urn := by
  rw [absentRow]
  split <;> rfl

@[simp] theorem absentRow_registered (row : DatasetRegistry) :
    (absentRow now row).datahub_registered = false := by
  rw [absentRow]
  by_cases hr : row.datahub_registered
  · rw [if_pos hr]
    rfl
  · rw [if_neg hr]
    simpa using hr

theorem registerUrn_get? {db : Db} (s : Db × ReconcileCounts) (urn : Str)
    (h : s.1.get? urn = db.get? urn) (u : Str) :
    (registerUrn now db s urn).1.get? u =
      if urn = u then some (enumeratedRow now db urn) else s.1.get? u := by
  have hurn := @enumeratedRow_urn now db urn
  rw [registerUrn,enumeratedRow] at *
  cases he : db.get? urn with
  | none => simp [Table.get?_put,DatasetRegistry.new]
  | some row =>
    simp only [he] at hurn ⊢
    by_cases hr : row.datahub_registered
    · simp only [hr,if_true]
      by_cases hu : urn = u
      · rw [if_pos hu,← hu,h,he]
      · rw [if_neg hu]
    · simp only [hr,Bool.false_eq_true,if_false] at hurn ⊢
      rw [Table.get?_put,hurn]

theorem foldl_registerUrn_counts (db : Db) (urns : List Str) (s : Db × ReconcileCounts) :
    (urns.foldl (registerUrn now db) s).2 =
      ⟨s.2.inserted+urns.countP (flag? db · == none),
        s.2.marked_true+urns.countP (flag? db · == some false),
        s.2.marked_false,s.2.unchanged+urns.countP (flag? db · == some true)⟩ := by
  induction urns generalizing s with
  | nil => simp
  | cons urn urns ih =>
    rw [List.foldl_cons,ih,registerUrn]
    cases he : db.get? urn with
    | none => simp [flag?,he,Nat.add_assoc,Nat.add_comm 1]
    | some row =>
      by_cases hr : row.datahub_registered <;>
        simp [flag?,he,hr,Nat.add_assoc,Nat.add_comm 1]

theorem deregisterRow_get? (s : Db × ReconcileCounts) (row : DatasetRegistry)
    (h : s.1.get? row.dataset_urn = some row) (u : Str) :
    (deregisterRow now s row).1.get? u =
      if row.dataset_urn = u then some (absentRow now row) else s.1.get? u := by
  rw [deregisterRow,absentRow]
  by_cases hr : row.datahub_registered
  · simp [hr,Table.get?_put,DatasetRegistry.setRegistered]
  · simp only [hr,Bool.false_eq_true,if_false]
    by_cases hu : row.dataset_urn = u
    · rw [if_pos hu,← hu,h]
    · rw [if_neg hu]

theorem foldl_deregisterRow_counts (rows : List DatasetRegistry) (s : Db × ReconcileCounts) :
    (rows.foldl (deregisterRow now) s).2 =
      { s.2 with marked_false := s.2.marked_false+rows.countP (·.datahub_registered) } := by
  induction rows generalizing s with
  | nil => simp
  | cons row rows ih =>
    rw [List.foldl_cons,ih,deregisterRow]
    by_cases hr : row.datahub_registered <;>
      simp [hr,Nat.add_assoc,Nat.add_comm 1]

theorem foldl_registerUrn_get? (db : Db) (urns : List Str) (u : Str) :
    (urns.dedup.foldl (registerUrn now db) (db,⟨0,0,0,0⟩)).1.get? u =
      if u ∈ urns then some (enumeratedRow now db u) else db.get? u := by
  have hn : (urns.dedup.map id).Nodup := by simpa using urns.nodup_dedup
  have h := Table.get?_foldl (f:=registerUrn now db) (k:=id) (g:=enumeratedRow now db)
    (o:=fun urn => db.get? urn) registerUrn_get? urns.dedup hn (db,⟨0,0,0,0⟩) (fun _ _ => rfl)
  by_cases hu : u ∈ urns
  · rw [if_pos hu]
    exact h.1 u (List.mem_dedup.mpr hu)
  · rw [if_neg hu]
    exact h.2 u (by simpa using hu)

theorem reconcile_registry_get? (db : Db) {urns : List Str} (hne : urns ≠ []) (u : Str) :
    (reconcile_registry now db urns).1.get? u =
      if u ∈ urns then some (enumeratedRow now db u) else (db.get? u).map (absentRow now) := by
  have ha := @foldl_registerUrn_get? now db urns
  rw [reconcile_registry,if_neg (by simpa using hne)]
  have hs : ∀ row ∈ db.rows, decide (row.dataset_urn ∉ urns) = true →
      (urns.dedup.foldl (registerUrn now db) (db,⟨0,0,0,0⟩)).1.get? row.dataset_urn =
        some row := by
    intro row hrow hne
    rw [ha,if_neg (by simpa using hne)]
    exact Table.mem_rows.mp hrow
  rw [Table.get?_foldl_rows (g:=absentRow now) deregisterRow_get? _ _ hs,ha]
  cases hrow : db.get? u with
  | none => simp
  | some row =>
    have hurn := (Table.get?_eq_some.mp hrow).2
    by_cases hu : u ∈ urns <;> simp [hu,hurn]

theorem reconcile_registry_nil (db : Db) : reconcile_registry now db [] = (db,⟨0,0,0,0⟩) := rfl

/-- The registered set after a reconcile is the set that was enumerated. -/
theorem reconcile_registry_registered (db : Db) {urns : List Str} (hne : urns ≠ []) (u : Str) :
    Registered (reconcile_registry now db urns).1 u ↔ u ∈ urns := by
  rw [Registered,flag?,reconcile_registry_get? db hne]
  by_cases hu : u ∈ urns
  · simp [hu]
  · cases db.get? u <;> simp [hu]

end Reconcile

section Sync

variable {now : ℕ}

def syncedRow (now : ℕ) (enumerated : List Str) (row : DatasetRegistry) : DatasetRegistry :=
  if row.datahub_registered = decide (row.dataset_urn ∈ enumerated) then row
  else row.setRegistered now (decide (row.dataset_urn ∈ enumerated))

@[simp] theorem syncedRow_registered (enumerated : List Str) (row : DatasetRegistry) :
    (syncedRow now enumerated row).datahub_registered =
      decide (row.dataset_urn ∈ enumerated) := by
  rw [syncedRow]
  split
  · assumption
  · rfl

theorem syncRow_get? {enumerated : List Str} (s : Db × SyncCounts) (row : DatasetRegistry)
    (h : s.1.get? row.dataset_urn = some row) (u : Str) :
    (syncRow now enumerated s row).1.get? u =
      if row.dataset_urn = u then some (syncedRow now enumerated row) else s.1.get? u := by
  have hself : s.1.get? u = if row.dataset_urn = u then some row else s.1.get? u := by
    by_cases hu : row.dataset_urn = u
    · rw [if_pos hu,← hu,h]
    · rw [if_neg hu]
  by_cases hin : row.dataset_urn ∈ enumerated <;> by_cases hr : row.datahub_registered
  · simpa [syncRow,syncedRow,hin,hr] using hself
  · simp [syncRow,syncedRow,mark_registered,h,hin,hr,Table.get?_put,DatasetRegistry.setRegistered]
  · simp [syncRow,syncedRow,mark_unregistered,h,hin,hr,Table.get?_put,
      DatasetRegistry.setRegistered]
  · simpa [syncRow,syncedRow,hin,hr] using hself

theorem foldl_syncRow_counts (enumerated : List Str) (rows : List DatasetRegistry)
    (s : Db × SyncCounts) :
    (rows.foldl (syncRow now enumerated) s).2 =
      { s.2 with
        flipped_true := s.2.flipped_true+
          rows.countP fun row => row.dataset_urn ∈ enumerated && !row.datahub_registered
        flipped_false := s.2.flipped_false+
          rows.countP fun row => row.dataset_urn ∉ enumerated && row.datahub_registered
        unchanged := s.2.unchanged+
          rows.countP fun row => row.datahub_registered == decide (row.dataset_urn ∈ enumerated) }
    := by
  induction rows generalizing s with
  | nil => simp
  | cons row rows ih =>
    rw [List.foldl_cons,ih,syncRow]
    by_cases hin : row.dataset_urn ∈ enumerated <;> by_cases hr : row.datahub_registered <;>
      simp [hin,hr,Nat.add_assoc,Nat.add_comm 1]

/-- An empty selection needs no case of its own. -/
theorem sync_with_datahub_eq (db : Db) (enumerated : List Str) (sel : Option (List Str)) :
    sync_with_datahub now db enumerated sel =
      (db.rows.filter (selected sel)).foldl (syncRow now enumerated)
        (db,⟨db.rows.countP (selected sel),0,0,0,
          ((sel.getD []).filter fun u => (db.get? u).isNone).dedup.length⟩) := by
  have hnone : ∀ u ∈ sel.getD [], (decide (∀ row ∈ db.rows.filter (selected sel),
      row.dataset_urn ≠ u)) = (db.get? u).isNone := by
    intro u hu
    rw [Bool.eq_iff_iff,decide_eq_true_iff,Option.isNone_iff_eq_none,Table.get?_eq_none]
    constructor
    · intro h row hrow he
      refine h row (List.mem_filter.mpr ⟨hrow,?_⟩) he
      cases sel with
      | none => rfl
      | some l => simpa [selected,he] using hu
    · intro h row hrow
      exact h row (List.mem_filter.mp hrow).1
  by_cases hsel : sel = some []
  · have hno : selected (some []) = fun _ => false := by
      funext row
      simp [selected]
    subst hsel
    simp [sync_with_datahub,hno]
  · simp only [sync_with_datahub]
    rw [if_neg hsel,List.filter_congr hnone,← List.countP_eq_length_filter]

theorem sync_with_datahub_get? (db : Db) (enumerated : List Str) (sel : Option (List Str))
    (u : Str) :
    (sync_with_datahub now db enumerated sel).1.get? u =
      if (db.get? u).any (selected sel) then (db.get? u).map (syncedRow now enumerated)
      else db.get? u := by
  have hrows : ∀ row ∈ db.rows, selected sel row = true →
      db.get? row.dataset_urn = some row := fun row hrow _ => Table.mem_rows.mp hrow
  rw [sync_with_datahub_eq]
  exact Table.get?_foldl_rows syncRow_get? (selected sel) (db,_) hrows u

theorem sync_with_datahub_flag? (db : Db) (enumerated : List Str) (sel : Option (List Str))
    (u : Str) :
    flag? (sync_with_datahub now db enumerated sel).1 u =
      if (db.get? u).any (selected sel) then some (decide (u ∈ enumerated)) else flag? db u := by
  rw [flag?,sync_with_datahub_get?,flag?]
  cases hrow : db.get? u with
  | none => simp
  | some row =>
    have hurn := (Table.get?_eq_some.mp hrow).2
    by_cases hs : selected sel row <;> simp [hs,hurn]

theorem sync_with_datahub_snd (db : Db) (enumerated : List Str) (sel : Option (List Str)) :
    (sync_with_datahub now db enumerated sel).2 =
      ⟨db.rows.countP (selected sel),
        db.rows.countP fun row =>
          decide (row.dataset_urn ∈ enumerated) && !row.datahub_registered && selected sel row,
        db.rows.countP fun row =>
          decide (row.dataset_urn ∉ enumerated) && row.datahub_registered && selected sel row,
        db.rows.countP fun row =>
          row.datahub_registered == decide (row.dataset_urn ∈ enumerated) && selected sel row,
        ((sel.getD []).filter fun u => (db.get? u).isNone).dedup.length⟩ := by
  rw [sync_with_datahub_eq,foldl_syncRow_counts]
  simp only [List.countP_filter,Nat.zero_add]

end Sync

section Attributes

variable {now : ℕ}

theorem upsertAttributes_get?_of_ne {db : Db} {record : DatasetAttributes} {u : Str}
    (hu : record.dataset_urn ≠ u) : (upsertAttributes now db record).get? u = db.get? u := by
  rw [upsertAttributes]
  cases hrow : db.get? record.dataset_urn with
  | none => simp [Table.get?_put,hu]
  | some row => simp [Table.get?_put,(Table.get?_eq_some.mp hrow).2,hu]

theorem upsertAttributes_flag? (db : Db) (record : DatasetAttributes) (u : Str) :
    flag? (upsertAttributes now db record) u =
      if record.dataset_urn = u then some ((flag? db u).getD false) else flag? db u := by
  by_cases hu : record.dataset_urn = u
  · subst hu
    rw [if_pos rfl,flag?,flag?,upsertAttributes]
    cases hrow : db.get? record.dataset_urn with
    | none => simp
    | some row => simp [(Table.get?_eq_some.mp hrow).2]
  · rw [if_neg hu,flag?,flag?,upsertAttributes_get?_of_ne hu]

theorem executeChunks_eq (db : Db) (payload : List DatasetAttributes) :
    executeChunks now db payload = payload.foldl (upsertAttributes now) db := by
  rw [executeChunks,← List.foldl_flatten,flatten_slices (by decide)]

theorem foldl_upsertAttributes_get?_of_ne {db : Db} {records : List DatasetAttributes} {u : Str}
    (hu : ∀ record ∈ records, record.dataset_urn ≠ u) :
    (records.foldl (upsertAttributes now) db).get? u = db.get? u := by
  induction records generalizing db with
  | nil => rfl
  | cons record records ih =>
    rw [List.forall_mem_cons] at hu
    rw [List.foldl_cons,ih hu.2,upsertAttributes_get?_of_ne hu.1]

theorem foldl_upsertAttributes_flag? (db : Db) (records : List DatasetAttributes) (u : Str) :
    flag? (records.foldl (upsertAttributes now) db) u =
      if u ∈ records.map (·.dataset_urn) then some ((flag? db u).getD false) else flag? db u := by
  induction records generalizing db with
  | nil => simp
  | cons record records ih =>
    rw [List.foldl_cons,ih,upsertAttributes_flag?]
    by_cases hr : record.dataset_urn = u
    · simp [hr]
    · simp [hr,Ne.symm hr]

theorem upsert_dataset_attributes_fst (db : Db) (records : List DatasetAttributes)
    (synced_at : Option ℕ) :
    (upsert_dataset_attributes now db records synced_at).1 =
      (records.filter (datasetUrnRe ·.dataset_urn)).foldl
        (upsertAttributes (synced_at.getD now)) db := by
  rw [upsert_dataset_attributes]
  by_cases he : records.filter (datasetUrnRe ·.dataset_urn) = []
  · simp [he]
  · simp [he,executeChunks_eq]

end Attributes

section Run

/-- An operation with what it reads from DataHub, or from the table before it writes. -/
inductive Op
  | reconcile (enumerated_urns : List Str)
  | sync (enumerated : List Str) (dataset_urns : Option (List Str))
  | attributes (records : List DatasetAttributes) (synced_at : Option ℕ)
  | ensure (dataset_urn : Str) (found : Option Bool) (aspect require_in_datahub : Bool)

inductive Result
  | reconciled (counts : ReconcileCounts)
  | synced (counts : SyncCounts)
  | refreshed (n : ℕ)
  | ensured (registered : Except String Bool)

def apply (db : Db) : ℕ × Op → Db × Result
  | (now,.reconcile urns) => (reconcile_registry now db urns).map id .reconciled
  | (now,.sync enumerated sel) => (sync_with_datahub now db enumerated sel).map id .synced
  | (now,.attributes records synced_at) =>
    (upsert_dataset_attributes now db records synced_at).map id .refreshed
  | (now,.ensure urn found aspect require) =>
    (ensure_dataset_registered now db urn found aspect require).map id .ensured

/-- The registry under any sequence of operations. -/
def system : System Db (ℕ × Op) := ofFun (fun _ => True) fun db a => some (apply db a).1

/-- How many rows of `db'` are new. -/
def added (db db' : Db) : ℕ := db'.rows.countP fun row => (db.get? row.dataset_urn).isNone

/-- How many rows of `db` had the other flag and have `b` in `db'`. -/
def turned (b : Bool) (db db' : Db) : ℕ :=
  db.rows.countP fun row => row.datahub_registered == !b && flag? db' row.dataset_urn == some b

/-- What `reconcile_registry` is to store and to return. -/
structure ReconcileLaw (db : Db) (urns : List Str) (r : Db × ReconcileCounts) : Prop where
  exact_set : urns ≠ [] → ∀ u, Registered r.1 u ↔ u ∈ urns
  empty_set : urns = [] → ∀ u, Registered db u → Registered r.1 u
  inserted : r.2.inserted = added db r.1
  marked_true : r.2.marked_true = turned true db r.1
  marked_false : r.2.marked_false = turned false db r.1
  unchanged : r.2.unchanged = urns.dedup.countP (flag? db · == some true)

/-- What `sync_with_datahub` is to store and to return. -/
structure SyncLaw (db : Db) (enumerated : List Str) (sel : Option (List Str))
    (r : Db × SyncCounts) : Prop where
  empty_set : enumerated = [] → ∀ u, Registered db u → Registered r.1 u
  checked : r.2.checked = db.rows.countP (selected sel)
  flipped_true : r.2.flipped_true = turned true db r.1
  flipped_false : r.2.flipped_false = turned false db r.1
  unchanged : r.2.unchanged =
    db.rows.countP fun row => flag? r.1 row.dataset_urn == some row.datahub_registered && selected sel row
  not_found : r.2.not_found = ((sel.getD []).filter fun u => (db.get? u).isNone).dedup.length

/-- What `upsert_dataset_attributes` is to leave alone. -/
structure AttributesLaw (db : Db) (records : List DatasetAttributes) (db' : Db) : Prop where
  flag : ∀ u b, flag? db u = some b → flag? db' u = some b
  new : ∀ u, flag? db u = none → ¬ Registered db' u
  frame : ∀ u ∉ records.map (·.dataset_urn), db'.get? u = db.get? u

/-- What an operation is to do: none deletes a row. -/
def Lawful (db : Db) (a : ℕ × Op) : Prop :=
  (∀ u, db.get? u ≠ none → (apply db a).1.get? u ≠ none) ∧
    match a with
    | (now,.reconcile urns) => ReconcileLaw db urns (reconcile_registry now db urns)
    | (now,.sync enumerated sel) =>
      SyncLaw db enumerated sel (sync_with_datahub now db enumerated sel)
    | (now,.attributes records synced_at) =>
      AttributesLaw db records (upsert_dataset_attributes now db records synced_at).1
    | (_,.ensure ..) => True

/-- No empty enumeration meets a registered row that the sync selects. -/
def Guard (db : Db) : ℕ × Op → Prop
  | (_,.sync [] sel) => ∀ row ∈ db.rows, selected sel row = true → row.datahub_registered = false
  | _ => True

theorem flag?_row {db : Db} {row : DatasetRegistry} (h : row ∈ db.rows) :
    flag? db row.dataset_urn = some row.datahub_registered := by
  rw [flag?,Table.mem_rows.mp h]
  rfl

variable {now : ℕ} {db : Db}

theorem reconcile_registry_counts {urns : List Str} (hne : urns ≠ []) :
    (reconcile_registry now db urns).2 =
      ⟨urns.dedup.countP (flag? db · == none),urns.dedup.countP (flag? db · == some false),
        db.rows.countP fun row => row.datahub_registered && decide (row.dataset_urn ∉ urns),
        urns.dedup.countP (flag? db · == some true)⟩ := by
  rw [reconcile_registry,if_neg (by simpa using hne),foldl_deregisterRow_counts,
    foldl_registerUrn_counts]
  simp only [List.countP_filter,Nat.zero_add]

theorem reconcile_registry_flag? {urns : List Str} (hne : urns ≠ []) (u : Str) :
    flag? (reconcile_registry now db urns).1 u =
      if u ∈ urns then some true else (flag? db u).map fun _ => false := by
  rw [flag?,reconcile_registry_get? db hne,flag?]
  by_cases hu : u ∈ urns
  · simp [hu]
  · cases db.get? u <;> simp [hu]

theorem flag?_eq_none {u : Str} : flag? db u = none ↔ db.get? u = none := by
  simp [flag?]

theorem flag?_eq_some {u : Str} {b : Bool} :
    flag? db u = some b ↔ ∃ row ∈ db.rows, row.dataset_urn = u ∧ row.datahub_registered = b := by
  simp only [flag?,Option.map_eq_some_iff,Table.get?_eq_some,and_assoc]

theorem turned_self (b : Bool) : turned b db db = 0 := by
  rw [turned,List.countP_eq_zero]
  intro row hrow
  cases hr : row.datahub_registered <;> cases b <;> simp [flag?_row hrow,hr]

theorem added_self : added db db = 0 := by
  rw [added,List.countP_eq_zero]
  intro row hrow
  simp [Table.mem_rows.mp hrow]

/-- Where a reconcile turns flags on. -/
theorem reconcile_marked_true {urns : List Str} (hne : urns ≠ []) :
    turned true db (reconcile_registry now db urns).1 =
      urns.dedup.countP (flag? db · == some false) := by
  apply Table.countP_rows urns.nodup_dedup
  · intro row hrow h
    simp only [Bool.not_true,Bool.and_eq_true,beq_iff_eq,reconcile_registry_flag? hne] at h
    by_cases hin : row.dataset_urn ∈ urns
    · simp [hin,flag?_row hrow,h.1]
    · simp [hin] at h
  · intro u hu h
    obtain ⟨row,hrow,rfl,hr⟩ := flag?_eq_some.mp (by simpa using h)
    rw [List.mem_dedup] at hu
    exact ⟨row,hrow,rfl,by simp [hr,reconcile_registry_flag? hne,hu]⟩

/-- Where a reconcile adds rows. -/
theorem reconcile_inserted {urns : List Str} (hne : urns ≠ []) :
    added db (reconcile_registry now db urns).1 =
      urns.dedup.countP (flag? db · == none) := by
  have hflag := @reconcile_registry_flag? now db _ hne
  apply Table.countP_rows urns.nodup_dedup
  · intro row hrow h
    have hno : flag? db row.dataset_urn = none := flag?_eq_none.mpr (by simpa using h)
    have hrow' := flag?_row hrow
    rw [hflag,hno] at hrow'
    by_cases hin : row.dataset_urn ∈ urns
    · simp [hin,hno]
    · simp [hin] at hrow'
  · intro u hu h
    rw [List.mem_dedup] at hu
    have hno : flag? db u = none := by simpa using h
    obtain ⟨row,hrow,rfl,-⟩ := flag?_eq_some.mp ((hflag u).trans (if_pos hu))
    exact ⟨row,hrow,rfl,by simpa using flag?_eq_none.mp hno⟩

theorem reconcile_lawful (urns : List Str) :
    ReconcileLaw db urns (reconcile_registry now db urns) := by
  by_cases hne : urns = []
  · subst hne
    rw [reconcile_registry_nil]
    exact ⟨fun h => absurd rfl h,fun _ _ h => h,added_self.symm,(turned_self _).symm,
      (turned_self _).symm,rfl⟩
  have hcounts := @reconcile_registry_counts now db _ hne
  constructor
  case exact_set => exact fun _ => reconcile_registry_registered db hne
  case empty_set => exact fun he => absurd he hne
  case inserted => rw [hcounts,reconcile_inserted hne]
  case marked_true => rw [hcounts,reconcile_marked_true hne]
  case marked_false =>
    rw [hcounts,turned]
    refine List.countP_congr fun row hrow => ?_
    simp [reconcile_registry_flag? hne,flag?_row hrow]
  case unchanged => rw [hcounts]

theorem sync_flag?_row (enumerated : List Str) (sel : Option (List Str)) {row : DatasetRegistry}
    (hrow : row ∈ db.rows) :
    flag? (sync_with_datahub now db enumerated sel).1 row.dataset_urn =
      if selected sel row then some (decide (row.dataset_urn ∈ enumerated))
      else some row.datahub_registered := by
  rw [sync_with_datahub_flag?,flag?_row hrow,Table.mem_rows.mp hrow]
  rfl

/-- A sync keeps every flag up on an empty enumeration just where the guard holds. -/
theorem sync_empty_iff (enumerated : List Str) (sel : Option (List Str)) :
    (enumerated = [] → ∀ u, Registered db u →
        Registered (sync_with_datahub now db enumerated sel).1 u) ↔
      Guard db (now,.sync enumerated sel) := by
  cases enumerated with
  | cons => simp [Guard]
  | nil =>
    constructor
    · intro h row hrow hs
      by_contra hr
      have hup : Registered db row.dataset_urn := by
        rw [Registered,flag?_row hrow]
        simpa using hr
      have hflag := h rfl _ hup
      rw [Registered,sync_flag?_row _ _ hrow,if_pos hs] at hflag
      simp at hflag
    · intro h _ u hu
      obtain ⟨row,hrow,rfl,hr⟩ := flag?_eq_some.mp hu
      have hs : selected sel row = false := by
        by_contra hs
        rw [h row hrow (by simpa using hs)] at hr
        cases hr
      rw [Registered,sync_flag?_row _ _ hrow,hs,hr]
      rfl

theorem sync_lawful_iff (enumerated : List Str) (sel : Option (List Str)) :
    SyncLaw db enumerated sel (sync_with_datahub now db enumerated sel) ↔
      Guard db (now,.sync enumerated sel) := by
  rw [← sync_empty_iff]
  refine ⟨fun h => h.empty_set,fun h => ?_⟩
  have hcounts := @sync_with_datahub_snd now db enumerated sel
  constructor
  case empty_set => exact h
  case checked => rw [hcounts]
  case not_found => rw [hcounts]
  all_goals
    rw [hcounts]
    try rw [turned]
    refine List.countP_congr fun row hrow => ?_
    rw [sync_flag?_row _ _ hrow]
    by_cases hs : selected sel row <;> by_cases hin : row.dataset_urn ∈ enumerated <;>
      cases hr : row.datahub_registered <;> simp [hs,hin]

theorem attributes_lawful (records : List DatasetAttributes) (synced_at : Option ℕ) :
    AttributesLaw db records (upsert_dataset_attributes now db records synced_at).1 := by
  rw [upsert_dataset_attributes_fst]
  constructor
  case flag =>
    intro u b hu
    rw [foldl_upsertAttributes_flag?,hu]
    simp
  case new =>
    intro u hu
    rw [Registered,foldl_upsertAttributes_flag?,hu]
    split <;> simp
  case frame =>
    intro u hu
    refine foldl_upsertAttributes_get?_of_ne fun record hr he => hu ?_
    rw [← he]
    exact List.mem_map_of_mem (List.mem_filter.mp hr).1

/-- No operation deletes a row. -/
theorem apply_kept (a : ℕ × Op) {u : Str} (hu : flag? db u ≠ none) :
    flag? (apply db a).1 u ≠ none := by
  obtain ⟨now,op⟩ := a
  obtain ⟨b,hb⟩ := Option.ne_none_iff_exists'.mp hu
  cases op with
  | reconcile urns =>
    by_cases hne : urns = []
    · subst hne
      exact hu
    · simp only [apply,Prod.map_fst,id,reconcile_registry_flag? hne,hb]
      split <;> simp
  | sync enumerated sel =>
    simp only [apply,Prod.map_fst,id,sync_with_datahub_flag?,hb]
    split <;> simp
  | attributes records synced_at =>
    simp [apply,(attributes_lawful records synced_at).flag u b hb]
  | ensure urn found aspect require =>
    cases found with
    | some registered => exact hu
    | none =>
      cases hrow : db.get? urn with
      | some row => simpa [apply,ensure_dataset_registered,hrow] using hu
      | none =>
        simp only [apply,ensure_dataset_registered,hrow,Prod.map_fst,id,flag?,Table.get?_put]
        split
        · simp
        · exact hu

theorem lawful_iff (db : Db) (a : ℕ × Op) : Lawful db a ↔ Guard db a := by
  have hkept : ∀ u, db.get? u ≠ none → (apply db a).1.get? u ≠ none := fun u hu he =>
    apply_kept a (fun hf => hu (flag?_eq_none.mp hf)) (flag?_eq_none.mpr he)
  obtain ⟨now,op⟩ := a
  refine (and_iff_right hkept).trans ?_
  cases op with
  | reconcile urns => simpa [Guard] using reconcile_lawful urns
  | sync enumerated sel => exact sync_lawful_iff enumerated sel
  | attributes records synced_at => simpa [Guard] using attributes_lawful records synced_at
  | ensure => simp [Guard]

theorem run_kept {db db' : Db} {h : List (Db × (ℕ × Op))} (hr : Run system db h db') :
    ∀ p ∈ h, ∀ u, flag? p.1 u ≠ none → flag? db' u ≠ none := by
  induction hr with
  | refl => simp
  | @step h s t a hr ht ih =>
    cases ht
    intro p hp u hu
    apply apply_kept
    rcases List.mem_cons.mp hp with rfl | hp
    · exact hu
    · exact ih p hp u hu

/-- The operations of a run do what they are to do just where no sync meets an empty
enumeration with a registered row selected; a dataset keeps its row to the end of the run. -/
theorem registry_authority {db db' : Db} {h : List (Db × (ℕ × Op))} (hr : Run system db h db') :
    (Meets Lawful h ↔ Meets Guard h) ∧
      ∀ p ∈ h, ∀ u, flag? p.1 u ≠ none → flag? db' u ≠ none := by
  have hiff : Meets Lawful h ↔ Meets Guard h := by simp only [Meets,lawful_iff]
  exact ⟨hiff,run_kept hr⟩

end Run

def warehouse : Str := "urn:li:dataset:(w)".toList

def sampleOps : List (ℕ × Op) :=
  [(1,.reconcile [warehouse]),(2,.sync [] (some [])),(3,.sync [warehouse] none),
    (4,.attributes [⟨warehouse,none,none,[],[],true⟩] none)]

theorem registry_authority_sample : ∃ h db', Run system (Table.empty _) h db' ∧
    (Meets Lawful h ∧ ∀ p ∈ h, ∀ u, flag? p.1 u ≠ none → flag? db' u ≠ none) ∧
    h.length = 4 := by
  have hr := run_of_replay (i:=fun _ => True) (f:=fun db a => some (apply db a).1)
    (l:=sampleOps) (.refl (s:=Table.empty _)) rfl
  have h := registry_authority hr
  refine ⟨_,_,hr,⟨h.1.mpr ?_,h.2⟩,rfl⟩
  simp only [meets_cons,meets_nil,and_true]
  refine ⟨trivial,trivial,fun row _ hs => ?_,trivial⟩
  simp [selected] at hs

/-- A sync with an empty enumeration deregisters what a reconcile registered. -/
theorem sync_deregisters : ¬ ∀ (db db' : Db) (h : List (Db × (ℕ × Op))),
    Run system db h db' → Meets Lawful h := by
  intro hall
  have hr := run_of_replay (i:=fun _ => True) (f:=fun db a => some (apply db a).1)
    (l:=[(1,.reconcile [warehouse]),(2,.sync [] none)]) (.refl (s:=Table.empty _)) rfl
  have hg := (lawful_iff _ _).mp (hall _ _ _ hr _ List.mem_cons_self)
  exact Bool.noConfusion (hg (.new 1 warehouse true) (List.mem_singleton.mpr rfl) rfl)

end Registry
end Dataspoke
