import Dataspoke.IngestionModels
import Dataspoke.Registry

/-!
# The ingestion tables

Rows of `ingestion_source`, `ingestion_source_dataset` and `events`. `uuid4()` is a number
that was not issued before, and an instant a number of microseconds.
-/

namespace Dataspoke
namespace Ingestion

open Python

structure IngestionSource where
  id : ℕ
  mode : Mode
  name : Str
  platform : Str
  recipe : Items
  schedule : Option Str
  schedule_tier : Option Str
  datahub_source_urn : Option Str
  parent_source_id : Option ℕ
  status : Str
  created_at : ℕ
  updated_at : ℕ

inductive Derivation
  | emitted | pipeline_name | matched
  deriving DecidableEq

structure IngestionSourceDataset where
  source_id : ℕ
  dataset_urn : Str
  derivation : Derivation
  first_seen_at : ℕ
  last_seen_at : ℕ
  deriving DecidableEq

abbrev IngestionSourceDataset.key (row : IngestionSourceDataset) : ℕ × Str :=
  (row.source_id,row.dataset_urn)

abbrev Mappings := Table IngestionSourceDataset.key

structure EventDetail where
  execution_request_urn : Option Str
  dataset_urn : Option Str
  operation_type : Option Str
  duration_ms : Json
  source : Option Str

structure Event where
  entity_type : Str
  entity_id : ℕ
  event_type : Str
  status : Str
  detail : EventDetail
  occurred_at : ℤ

/-- Only the sweep links a row to a parent, and it does so on managed rows with a URN. -/
def IngestionSource.Linked (row : IngestionSource) : Prop :=
  row.parent_source_id ≠ none →
    row.mode = .DATAHUB_MANAGED ∧ ∃ urn, row.datahub_source_urn = some urn ∧ urn ≠ []

/-- The source rows, and the first id that `uuid4()` has not issued. -/
structure Sources where
  table : Table IngestionSource.id
  next_id : ℕ
  fresh : ∀ row ∈ table.rows, row.id < next_id
  linked : ∀ row ∈ table.rows, row.Linked

namespace Sources

abbrev rows (s : Sources) : List IngestionSource := s.table.rows

def insert (s : Sources) (mk : ℕ → IngestionSource) (hid : ∀ n, (mk n).id = n)
    (hlink : ∀ n, (mk n).Linked) : Sources where
  table := s.table.put (mk s.next_id)
  next_id := s.next_id+1
  fresh := by
    intro row hrow
    rcases Table.mem_put.mp hrow with rfl | ⟨h,-⟩
    · rw [hid]
      exact Nat.lt_succ_self _
    · exact Nat.lt_succ_of_lt (s.fresh row h)
  linked := by
    intro row hrow
    rcases Table.mem_put.mp hrow with rfl | ⟨h,-⟩
    · exact hlink _
    · exact s.linked row h

def update (s : Sources) (id : ℕ) (f : IngestionSource → IngestionSource)
    (hf : ∀ row, (f row).id = row.id)
    (hlink : ∀ row ∈ s.rows, row.id = id → row.Linked → (f row).Linked) : Sources where
  table := s.table.modify (fun row => row.id = id) f hf
  next_id := s.next_id
  fresh := by
    intro row hrow
    obtain ⟨r,hr,rfl⟩ := Table.mem_modify.mp hrow
    split
    · rw [hf]
      exact s.fresh r hr
    · exact s.fresh r hr
  linked := by
    intro row hrow
    obtain ⟨r,hr,rfl⟩ := Table.mem_modify.mp hrow
    split
    · rename_i hid
      exact hlink r hr (by simpa using hid) (s.linked r hr)
    · exact s.linked r hr

/-- The ids that the cascade has reached from the rows that satisfy `p`, after `n` rounds. -/
def cascade (s : Sources) (p : IngestionSource → Bool) : ℕ → List ℕ
  | 0 => (s.rows.filter p).map (·.id)
  | n+1 =>
    (s.rows.filter fun row => row.id ∈ s.cascade p n ||
      row.parent_source_id.any (· ∈ s.cascade p n)).map (·.id)

/-- `DELETE` of the rows that satisfy `p`, with `ON DELETE CASCADE` on the parent link. -/
def delete (s : Sources) (p : IngestionSource → Bool) : Sources where
  table := s.table.remove fun row => row.id ∈ s.cascade p s.rows.length
  next_id := s.next_id
  fresh := fun row hrow => s.fresh row (Table.mem_remove.mp hrow).1
  linked := fun row hrow => s.linked row (Table.mem_remove.mp hrow).1

theorem ext_id {s : Sources} {row row' : IngestionSource} (h : row ∈ s.rows)
    (h' : row' ∈ s.rows) (hid : row.id = row'.id) : row = row' :=
  Table.eq_of_key_eq h h' hid

theorem mem_insert {s : Sources} {mk : ℕ → IngestionSource} {hid : ∀ n, (mk n).id = n}
    {hlink : ∀ n, (mk n).Linked} {row : IngestionSource} :
    row ∈ (s.insert mk hid hlink).rows ↔ row = mk s.next_id ∨ row ∈ s.rows := by
  show row ∈ (s.table.put (mk s.next_id)).rows ↔ _
  rw [Table.mem_put]
  constructor
  · exact fun h => h.imp_right And.left
  · rintro (h | h)
    · exact .inl h
    · refine .inr ⟨h,?_⟩
      rw [hid]
      exact Nat.ne_of_lt (s.fresh row h)

theorem mem_update {s : Sources} {id : ℕ} {f : IngestionSource → IngestionSource}
    {hf : ∀ row, (f row).id = row.id}
    {hlink : ∀ row ∈ s.rows, row.id = id → row.Linked → (f row).Linked}
    {row : IngestionSource} : row ∈ (s.update id f hf hlink).rows ↔
      row ∈ s.rows ∧ row.id ≠ id ∨ ∃ r ∈ s.rows, r.id = id ∧ f r = row := by
  show row ∈ (s.table.modify (fun row => row.id = id) f hf).rows ↔ _
  rw [Table.mem_modify]
  constructor
  · rintro ⟨r,hr,rfl⟩
    by_cases hid : r.id = id
    · exact .inr ⟨r,hr,hid,by simp [hid]⟩
    · exact .inl ⟨by simpa [hid] using hr,by simp [hid]⟩
  · rintro (⟨hr,hid⟩ | ⟨r,hr,hid,rfl⟩)
    · exact ⟨row,hr,by simp [hid]⟩
    · exact ⟨r,hr,by simp [hid]⟩

/-- The cascade reaches nothing outside a set that is closed under the parent link. -/
theorem cascade_subset {s : Sources} {p Q : IngestionSource → Prop} [DecidablePred p]
    (hp : ∀ row ∈ s.rows, p row → Q row)
    (hQ : ∀ row ∈ s.rows, ∀ parent ∈ s.rows, row.parent_source_id = some parent.id →
      Q parent → Q row) (n : ℕ) :
    ∀ row ∈ s.rows, row.id ∈ s.cascade (fun row => decide (p row)) n → Q row := by
  induction n with
  | zero =>
    intro row hrow h
    obtain ⟨r,hr,hid⟩ := List.mem_map.mp h
    rw [List.mem_filter,decide_eq_true_iff] at hr
    rw [← ext_id hr.1 hrow hid]
    exact hp r hr.1 hr.2
  | succ n ih =>
    intro row hrow h
    obtain ⟨r,hr,hid⟩ := List.mem_map.mp h
    rw [List.mem_filter,Bool.or_eq_true,decide_eq_true_iff,Option.any_eq_true] at hr
    rw [← ext_id hr.1 hrow hid]
    rcases hr.2 with hin | ⟨parent,hparent,hin⟩
    · exact ih r hr.1 hin
    · rw [decide_eq_true_iff] at hin
      have hmem : ∃ q ∈ s.rows, q.id = parent := by
        cases n with
        | zero =>
          obtain ⟨q,hq,he⟩ := List.mem_map.mp hin
          exact ⟨q,(List.mem_filter.mp hq).1,he⟩
        | succ n =>
          obtain ⟨q,hq,he⟩ := List.mem_map.mp hin
          exact ⟨q,(List.mem_filter.mp hq).1,he⟩
      obtain ⟨q,hq,rfl⟩ := hmem
      exact hQ r hr.1 q hq hparent (ih q hq hin)

theorem cascade_of_mem {s : Sources} {p : IngestionSource → Bool} {row : IngestionSource}
    (hrow : row ∈ s.rows) (hp : p row = true) (n : ℕ) : row.id ∈ s.cascade p n := by
  induction n with
  | zero => exact List.mem_map.mpr ⟨row,List.mem_filter.mpr ⟨hrow,hp⟩,rfl⟩
  | succ n ih => exact List.mem_map.mpr ⟨row,List.mem_filter.mpr ⟨hrow,by simp [ih]⟩,rfl⟩

/-- Where `p` is closed under the parent link, a `DELETE` removes just the rows that satisfy
it. -/
theorem mem_delete {s : Sources} {p : IngestionSource → Prop} [DecidablePred p]
    (hp : ∀ row ∈ s.rows, ∀ parent ∈ s.rows, row.parent_source_id = some parent.id →
      p parent → p row) {row : IngestionSource} :
    row ∈ (s.delete fun row => decide (p row)).rows ↔ row ∈ s.rows ∧ ¬ p row := by
  refine Table.mem_remove.trans (and_congr_right fun hrow => ?_)
  rw [decide_eq_false_iff_not,not_iff_not]
  constructor
  · exact cascade_subset (fun _ _ h => h) hp _ row hrow
  · exact fun h => cascade_of_mem hrow (decide_eq_true h) _

end Sources

/-- `_SweepSource`: what the later steps of a sweep read of a source row. -/
structure SweepSource where
  id : ℕ
  mode : Mode
  parent_source_id : Option ℕ
  datahub_source_urn : Option Str
  recipe : Items

def IngestionSource.snapshot (row : IngestionSource) : SweepSource where
  id := row.id
  mode := row.mode
  parent_source_id := row.parent_source_id
  datahub_source_urn := row.datahub_source_urn
  recipe := row.recipe

@[simp] theorem IngestionSource.snapshot_recipe (row : IngestionSource) :
    row.snapshot.recipe = row.recipe := rfl

@[simp] theorem IngestionSource.snapshot_id (row : IngestionSource) :
    row.snapshot.id = row.id := rfl

namespace Sources

def snapshot (s : Sources) : List SweepSource := s.rows.map IngestionSource.snapshot

theorem snapshot_ids (s : Sources) : s.snapshot.map SweepSource.id = s.rows.map IngestionSource.id := by
  rw [snapshot,List.map_map]
  rfl

theorem snapshot_nodup (s : Sources) : (s.snapshot.map SweepSource.id).Nodup := by
  rw [snapshot_ids]
  exact s.table.nodup

theorem mem_snapshot {s : Sources} {src : SweepSource} :
    src ∈ s.snapshot ↔ ∃ row ∈ s.rows, row.snapshot = src :=
  List.mem_map

end Sources

/-- The tables that the sweep writes. -/
structure Db where
  sources : Sources
  mappings : Mappings
  events : List Event
  registry : Registry.Db

end Ingestion
end Dataspoke
