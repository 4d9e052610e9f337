import Dataspoke.Measurers

/-!
# Freshness and the feed of the owner

The verdict of the freshness measurer on a dataset against the event feed of the source that owns
it.
-/

namespace Dataspoke
namespace Metrics

open Python DatasetScope GroupMax
open Ingestion (IngestionSource)
open Ingestion.Lookup (Least resolved reverse_lookup_batch first)
open Ingestion.Feed (EventRecord FullFeed fullFeed_iff Observed Completed Casts
  latest_ingestion_complete_by_source latest_ingestion_observed_by_dataset)

section Owners

/-- Every parent is there and has none itself. -/
def Rooted (db : Ingestion.Lookup.Tables) : Prop :=
  ∀ source ∈ db.sources.rows, ∀ p, source.parent_source_id = some p →
    ∃ parent, db.sources.get? p = some parent ∧ parent.parent_source_id = none

/-- A source that a mapping of the dataset of least rank resolves to. -/
def Owns (timestamp : ℤ → ℚ) (db : Ingestion.Lookup.Tables) (urn : Str) (source : IngestionSource) :
    Prop :=
  ∃ pair, Least timestamp db urn pair ∧ resolved db pair.2 = source

variable {timestamp : ℤ → ℚ} {db : Ingestion.Lookup.Tables} {urn : Str} {source : IngestionSource}

theorem Owns.regular (h : Owns timestamp db urn source) (hrooted : Rooted db) :
    source ∈ db.sources.rows ∧ source.parent_source_id = none := by
  obtain ⟨pair,hpair,rfl⟩ := h
  have hrow := (Table.get?_eq_some.mp (Ingestion.Lookup.mem_join.mp
    (Ingestion.Lookup.mem_covering.mp hpair.1).1).2).1
  rw [resolved]
  cases hp : pair.2.parent_source_id with
  | none => exact ⟨hrow,hp⟩
  | some p =>
    obtain ⟨parent,hparent,hnone⟩ := hrooted _ hrow p hp
    dsimp only
    rw [hparent]
    exact ⟨(Table.get?_eq_some.mp hparent).1,hnone⟩

variable (q : Ingestion.Lookup.Replies db) {urns : List Str}

end Owners

section Feeds

variable (E : Estate)

/-- The instants of the records in the feed of a source, whole or for a dataset. -/
def feedTimes (source : IngestionSource) (dataset_urn : Option Str) (p : EventRecord → Prop) :
    Set ℤ :=
  {t | ∃ records, FullFeed E.plan.toReads (Uuid.str source.id) dataset_urn records ∧
    ∃ record ∈ records, p record ∧ record.occurred_at = t}

def observations (source : IngestionSource) (urn : Str) : Set ℤ :=
  feedTimes E source (some urn) (Observed E.plan.text urn)

def completions (source : IngestionSource) : Set ℤ :=
  feedTimes E source none (Completed E.plan.text)

/-- The observations of the dataset, and the completed runs if there are none. -/
def evidenceTimes (source : IngestionSource) (urn : Str) : Set ℤ :=
  {t | t ∈ observations E source urn ∨ observations E source urn = ∅ ∧ t ∈ completions E source}

/-- The verdict is what the feed of the source says of the dataset. -/
structure JudgedBy (window_sec now : ℤ) (v : DatasetVerdict) (source : IngestionSource) : Prop where
  met : v.met = true ↔ ∃ t ∈ evidenceTimes E source v.urn, now-window_sec*1000000 ≤ t
  newest : ∃ o, Greatest (evidenceTimes E source v.urn) o ∧ v.evidence_at = o.map Int.toNat
  tier : get? "evidence_tier".toList v.detail = some (.str "observation".toList) ↔
    (observations E source v.urn).Nonempty

variable {E}

variable {source : IngestionSource} {urn : Str}

end Feeds

section Sample

open Ingestion.Feed (sourceRow completion storedPlan)

end Sample

end Metrics
end Dataspoke
