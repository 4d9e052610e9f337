import Dataspoke.ToolLoop

/-!
# The producer/reviewer debate

`run_debate`, which the ontology and the metadata generation share but for their schemas and
tools. The sampling of anchors and the prompts only feed the model, so of these only whether
they raise is kept.
-/

namespace Dataspoke
namespace Debate

open Python Pydantic ToolLoop

structure ReviewItemVerdict where
  item_kind : Str
  dataset_urn : Option Str
  item_id : Str
  verdict : Str
  issues : List Str
  comment : Str

structure ReviewOutput where
  overall_verdict : Str
  item_verdicts : List ReviewItemVerdict
  summary : Str

def VERDICTS : List String := ["accept","revise","reject"]

/-- `suggested_revision: dict | None`. -/
def decodeRevision : Json → Option Unit
  | .null | .obj _ => some ()
  | _ => none

/-- An item verdict over the given kinds and issues; `withDataset` when it names its dataset. -/
def decodeItemVerdict (kinds issues : List String) (withDataset : Bool) :
    Json → Option ReviewItemVerdict
  | .obj items => do
    let item_kind ← required "item_kind" (decodeLiteral kinds) items
    let dataset_urn ← if withDataset then (required "dataset_urn" (decodeStr none) items).map some
      else some none
    let item_id ← required "item_id" (decodeStr none) items
    let verdict ← required "verdict" (decodeLiteral VERDICTS) items
    let issues ← required "issues" (decodeList none (decodeLiteral issues)) items
    let _ ← optional "suggested_revision" () decodeRevision items
    let comment ← required "comment" (decodeStr none) items
    return ⟨item_kind,dataset_urn,item_id,verdict,issues,comment⟩
  | _ => none

def decodeReview (item : Json → Option ReviewItemVerdict) : Json → Option ReviewOutput
  | .obj items => do
    let overall_verdict ← required "overall_verdict" (decodeLiteral VERDICTS) items
    let item_verdicts ← required "item_verdicts" (decodeList none item) items
    let summary ← required "summary" (decodeStr none) items
    return ⟨overall_verdict,item_verdicts,summary⟩
  | _ => none

inductive Outcome
  | accept | turns_exhausted | cycle_detected
  deriving DecidableEq

inductive Actor
  | producer | reviewer
  deriving DecidableEq

structure DebateHistoryEntry where
  turn : ℕ
  actor : Actor
  candidate_hash : Option Str := none
  verdict : Option Str := none
  rebuttals : Option (List Str) := none
  comment_summary : Option Str := none
  item_verdicts_count : Option ℕ := none

structure Transcript where
  turns_completed : ℕ
  outcome : Outcome
  final_reviewer_verdict : Json
  history : List DebateHistoryEntry
  producer_iterations : ℕ
  producer_errors_dropped : ℕ

structure DebateResult where
  payload : Json
  transcript : Transcript
  outcome : Outcome

/-- What a debate is run with. `producer` and `reviewer` are the replies of the model, by
turn and iteration. -/
structure Setup (α : Type) where
  schema : Schema α
  schema_errors : Json → List ValidationError
  validate_tool : Tool
  review : Schema ReviewOutput
  review_errors : Json → List ValidationError
  review_tool : Tool
  producer_max_iterations : ℕ
  max_turns : ℕ
  canonical_hash : Json → Str
  /-- `none` where it raises; only the ontology collects rebuttals. -/
  extract_rebuttals : Json → Option (Option (List Str))
  sample_rag_anchors : Json → Option Unit
  build_reviewer_prompt : Json → Option Unit
  build_producer_revision_prompt : Json → Json → Option Unit
  producer : ℕ → ℕ → Reply
  reviewer : ℕ → ℕ → Reply

structure State where
  producer_hashes : List Str := []
  history : List DebateHistoryEntry := []
  last_producer_payload : Json := .obj []
  last_reviewer_payload : Json := .obj []
  producer_trace_iterations : ℕ := 1
  producer_trace_errors : ℕ := 0
  turns_completed : ℕ := 0

/-- `last_reviewer_payload.get("overall_verdict", "")`; raises on anything but a dict. -/
def reviewerVerdict : Json → Option Json
  | .obj items => some ((get? "overall_verdict".toList items).getD (.str []))
  | _ => none

/-- `DebateResult(...)`, which takes a dict as its payload only. -/
def finish (s : State) (outcome : Outcome) (verdict : Json) : Option DebateResult :=
  match s.last_producer_payload with
  | .obj _ => some {
      payload := s.last_producer_payload
      transcript := ⟨s.turns_completed,outcome,verdict,s.history,s.producer_trace_iterations,
        s.producer_trace_errors⟩
      outcome := outcome }
  | _ => none

variable {α : Type} (D : Setup α)

def producerTurn (turn : ℕ) : Option LoopResult :=
  complete_with_tools D.schema D.schema_errors D.validate_tool D.producer_max_iterations
    (D.producer turn)

def reviewerTurn (turn : ℕ) : Option LoopResult :=
  complete_with_tools D.review D.review_errors D.review_tool 1 (D.reviewer turn)

/-- `ReviewOutput.model_validate(payload)`, with a request to revise where it raises. -/
def reviewOutput (payload : Json) : ReviewOutput :=
  match D.review.model_validate payload with
  | some (_,some review) => review
  | _ => ⟨"revise".toList,[],"reviewer output could not be parsed".toList⟩

/-- The producer's half of a turn pair: it ends the debate, or leaves the state and the hash
of the candidate to the reviewer. -/
def producerHalf (producer_turn : ℕ) (s : State) :
    Option (DebateResult ⊕ (State × Str)) := do
  let loop_result ← producerTurn D producer_turn
  let candidate_hash := D.canonical_hash loop_result.payload
  let producer_rebuttals ← D.extract_rebuttals loop_result.payload
  let s' := { s with
    last_producer_payload := loop_result.payload
    producer_trace_iterations := loop_result.trace.iterations
    producer_trace_errors := (loop_result.trace.errors_per_iter.map List.length).sum
    history := s.history ++ [{
      turn := producer_turn
      actor := .producer
      candidate_hash := some (candidate_hash.take 16)
      rebuttals := producer_rebuttals }]
    turns_completed := producer_turn + 1 }
  if candidate_hash ∈ s.producer_hashes then
    let verdict ← reviewerVerdict s'.last_reviewer_payload
    let result ← finish s' .cycle_detected verdict
    return .inl result
  else
    let s' := { s' with producer_hashes := s'.producer_hashes ++ [candidate_hash] }
    if s'.turns_completed ≥ D.max_turns then
      let verdict ← reviewerVerdict s'.last_reviewer_payload
      let result ← finish s' .turns_exhausted verdict
      return .inl result
    else return .inr (s',candidate_hash)

def reviewerHalf (reviewer_turn : ℕ) (s : State) : Option (DebateResult ⊕ State) := do
  D.sample_rag_anchors s.last_producer_payload
  D.build_reviewer_prompt s.last_producer_payload
  let reviewer_result ← reviewerTurn D reviewer_turn
  let review_output := reviewOutput D reviewer_result.payload
  let s' := { s with
    last_reviewer_payload := reviewer_result.payload
    history := s.history ++ [{
      turn := reviewer_turn
      actor := .reviewer
      verdict := some review_output.overall_verdict
      comment_summary := if review_output.summary = [] then none
        else some (review_output.summary.take 120)
      item_verdicts_count := some review_output.item_verdicts.length }]
    turns_completed := reviewer_turn + 1 }
  if review_output.overall_verdict = "accept".toList then
    let result ← finish s' .accept (.str "accept".toList)
    return .inl result
  else if s'.turns_completed ≥ D.max_turns then
    let result ← finish s' .turns_exhausted (.str review_output.overall_verdict)
    return .inl result
  else
    D.build_producer_revision_prompt s'.last_producer_payload s'.last_reviewer_payload
    return .inr s'

/-- The turn pairs from `turn_pair` on, of which `remaining` are left. -/
def turnPairs : (remaining turn_pair : ℕ) → State → Option DebateResult
  | 0, _, s => do
    let verdict ← reviewerVerdict s.last_reviewer_payload
    finish s .turns_exhausted verdict
  | remaining+1, turn_pair, s => do
    match ← producerHalf D (turn_pair * 2) s with
    | .inl result => return result
    | .inr (s,_) =>
      match ← reviewerHalf D (turn_pair * 2 + 1) s with
      | .inl result => return result
      | .inr s => turnPairs remaining (turn_pair+1) s

/-- `run_debate`; `none` when an exception leaves it. -/
def run_debate : Option DebateResult :=
  turnPairs D (D.max_turns / 2 + D.max_turns % 2) 0 {}

end Debate
end Dataspoke
