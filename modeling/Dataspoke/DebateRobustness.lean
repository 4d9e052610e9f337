import Dataspoke.DebateAnchors
import Dataspoke.DebateProtocol

/-!
# Debates over answers of any shape

Which answers of the producer and the reviewer a debate gets through: where the payload of an
exhausted tool loop, which no schema has seen, is read as what it need not be.
-/

namespace Dataspoke

open Python Pydantic ToolLoop

namespace ToolLoop

variable {α : Type} (S : Schema α) (schema_errors : Json → List ValidationError)
  (tool_obj : Tool)

def Reply.calls : Reply → List ToolCall
  | .message tool_calls => tool_calls
  | _ => []

/-- Whether a call ends the loop, with a payload or by raising. -/
def settles (call : ToolCall) : Bool :=
  match toolCall S schema_errors tool_obj call with
  | .failure _ _ => false
  | _ => true

/-- The first call that ends the loop raises. -/
def RaisesFirst (calls : List ToolCall) : Prop :=
  ∃ call, calls.find? (settles S schema_errors tool_obj) = some call ∧
    toolCall S schema_errors tool_obj call = .raised

variable {S schema_errors tool_obj}

theorem raisesFirst_append {calls rest : List ToolCall} :
    RaisesFirst S schema_errors tool_obj (calls ++ rest) ↔
      RaisesFirst S schema_errors tool_obj calls ∨
        calls.find? (settles S schema_errors tool_obj) = none ∧
          RaisesFirst S schema_errors tool_obj rest := by
  rw [RaisesFirst,RaisesFirst,List.find?_append]
  cases calls.find? (settles S schema_errors tool_obj) with
  | none => simp [RaisesFirst]
  | some call => simp

/-- How the calls of a message go, by the first that ends the loop. -/
theorem toolCalls_cases (calls : List ToolCall) (s : CallState) :
    RaisesFirst S schema_errors tool_obj calls ∧
        toolCalls S schema_errors tool_obj calls s = none ∨
      ¬ RaisesFirst S schema_errors tool_obj calls ∧
        calls.find? (settles S schema_errors tool_obj) ≠ none ∧
        (∃ payload s', toolCalls S schema_errors tool_obj calls s = some (some payload,s')) ∨
      calls.find? (settles S schema_errors tool_obj) = none ∧
        ∃ s', toolCalls S schema_errors tool_obj calls s = some (none,s') := by
  induction calls generalizing s with
  | nil => exact .inr (.inr ⟨rfl,s,rfl⟩)
  | cons call calls ih =>
    rw [toolCalls,RaisesFirst,List.find?_cons]
    cases hcall : toolCall S schema_errors tool_obj call with
    | raised => exact .inl ⟨⟨call,by simp [settles,hcall],hcall⟩,rfl⟩
    | success payload =>
      have hs : settles S schema_errors tool_obj call = true := by rw [settles,hcall]
      refine .inr (.inl ⟨?_,by simp [hs],payload,_,rfl⟩)
      rw [hs]
      rintro ⟨call',hcall',hraised⟩
      obtain rfl := Option.some.inj hcall'
      cases hcall.symm.trans hraised
    | failure payload errors =>
      have hs : settles S schema_errors tool_obj call = false := by rw [settles,hcall]
      rw [hs]
      exact ih _

/-- A loop without a failing model call is left by an exception only where a call raises. -/
theorem iterations_eq_none_iff {replies : ℕ → Reply} (hreplies : ∀ n, replies n ≠ .fatal)
    (remaining iteration : ℕ) (last_payload : Json) (errors_per_iter : List (List ValidationError))
    (last_iter_errors : List ValidationError) :
    iterations S schema_errors tool_obj replies remaining iteration last_payload errors_per_iter
        last_iter_errors = none ↔
      RaisesFirst S schema_errors tool_obj
        ((List.range' iteration remaining).flatMap fun n => (replies n).calls) := by
  induction remaining generalizing iteration last_payload errors_per_iter last_iter_errors with
  | zero => simp [iterations,RaisesFirst]
  | succ remaining ih =>
    rw [List.range'_succ,List.flatMap_cons,raisesFirst_append,iterations]
    cases hr : replies iteration with
    | fatal => exact absurd hr (hreplies iteration)
    | recoverable exc =>
      rw [ih]
      simp [Reply.calls,RaisesFirst]
    | message calls =>
      cases calls with
      | nil =>
        rw [ih]
        simp [Reply.calls,RaisesFirst]
      | cons call calls =>
        rw [Reply.calls]
        rcases @toolCalls_cases _ S schema_errors tool_obj (call::calls) ⟨last_payload,[]⟩ with
          ⟨hraise,h⟩ | ⟨hraise,hfind,payload,s',h⟩ | ⟨hfind,s',h⟩
        · simp [h,hraise]
        · simp [h,hraise,hfind]
        · have hraise : ¬ RaisesFirst S schema_errors tool_obj (call::calls) := by
            rintro ⟨c,hc,-⟩
            cases hfind.symm.trans hc
          simp only [h,ih,hraise,hfind,false_or,true_and]

theorem complete_with_tools_eq_none_iff {replies : ℕ → Reply} (hreplies : ∀ n, replies n ≠ .fatal)
    (max_iterations : ℕ) :
    complete_with_tools S schema_errors tool_obj max_iterations replies = none ↔
      RaisesFirst S schema_errors tool_obj
        ((List.range' 1 max_iterations).flatMap fun n => (replies n).calls) :=
  iterations_eq_none_iff hreplies ..

/-- `args.get("payload", args)`. -/
def candidatePayload (call : ToolCall) : Json :=
  (get? "payload".toList call.args).getD (.obj call.args)

/-- A call raises where the validators of the schema do. -/
theorem toolCall_raised_iff {call : ToolCall} :
    toolCall S schema_errors tool_obj call = .raised ↔ callName call = tool_obj.name ∧
      S.before (candidatePayload call) = none := by
  rw [candidatePayload]
  by_cases hname : callName call = tool_obj.name
  · rw [toolCall,if_neg (not_not.mpr hname)]
    simp only [Schema.model_validate]
    cases hb : S.before ((get? "payload".toList call.args).getD (.obj call.args)) with
    | none => simp [hname]
    | some payload =>
      simp only [Option.map_some]
      split
      next h => cases h
      next => simp
      next =>
        split <;> simp
  · simp [toolCall,hname]

end ToolLoop

namespace Debate

section Survives

variable {α : Type} (D : Setup α)

def IsObject (v : Json) : Prop := ∃ items, v = .obj items

def producerCalls (i : ℕ) : List ToolCall :=
  (List.range' 1 D.producer_max_iterations).flatMap fun n => (D.producer (i * 2) n).calls

/-- The answers before turn pair `i` let the debate come there. -/
structure Reached (i : ℕ) : Prop where
  turn : i * 2 < D.max_turns
  undecided : ∀ k < i, verdictAt D k ≠ some "accept".toList
  fresh : Fresh D i

/-- Proposal `i` ends the debate. -/
def Ends (i : ℕ) : Prop := Repeats D i ∨ D.max_turns ≤ i * 2 + 1

/-- The payloads that the validators, the collection of rebuttals and the sampling of anchors
can read. -/
structure Readable where
  validatable : Json → Prop
  rebuttable : Json → Prop
  samplable : Json → Prop

/-- What the answers of turn pair `i` must be like: what is read of a proposal, and of the
review before a proposal that ends the debate. -/
structure Survives (R : Readable) (i : ℕ) : Prop where
  validated : ∀ call, (producerCalls D i).find?
      (settles D.schema D.schema_errors D.validate_tool) = some call →
    callName call = D.validate_tool.name → R.validatable (candidatePayload call)
  payload : ∀ payload, payloadAt D i = some payload →
    IsObject payload ∧ R.rebuttable payload ∧ (¬ Ends D i → R.samplable payload)
  review : Ends D i → ∀ k answer, i = k + 1 → reviewAt D k = some answer → IsObject answer

/-- What surrounds a debate does not fail, and its helpers read just what they can. -/
structure Plain (R : Readable) : Prop where
  producer : ∀ turn n, D.producer turn n ≠ .fatal
  reviewer : ∀ turn n, D.reviewer turn n ≠ .fatal
  before : D.review.before = some
  validators : ∀ payload, (D.schema.before payload).isSome ↔ R.validatable payload
  rebuttals : ∀ payload, (D.extract_rebuttals payload).isSome ↔ R.rebuttable payload
  anchors : ∀ payload, (D.sample_rag_anchors payload).isSome ↔ R.samplable payload
  object : ∀ payload, R.samplable payload → IsObject payload
  reviewer_prompt : ∀ payload, D.build_reviewer_prompt payload = some ()
  revision_prompt : ∀ payload answer, D.build_producer_revision_prompt payload answer = some ()

variable {D} {R : Readable}

theorem finish_isSome {s : State} {outcome : Outcome} {verdict : Json} :
    (finish s outcome verdict).isSome ↔ IsObject s.last_producer_payload := by
  rw [finish,IsObject]
  cases s.last_producer_payload <;> simp

theorem reviewerVerdict_isSome {answer : Json} :
    (reviewerVerdict answer).isSome ↔ IsObject answer := by
  rw [IsObject]
  cases answer <;> simp [reviewerVerdict]

theorem finish_answer_isSome {β : Type} {s : State} {outcome : Outcome} {answer : Json} :
    (do
      let verdict ← reviewerVerdict answer
      let result ← finish s outcome verdict
      pure (.inl result) : Option (DebateResult ⊕ β)).isSome ↔
      IsObject s.last_producer_payload ∧ IsObject answer := by
  rw [← @reviewerVerdict_isSome answer]
  cases reviewerVerdict answer with
  | none => simp
  | some verdict =>
    rw [← @finish_isSome s outcome verdict]
    cases hf : finish s outcome verdict <;> simp [hf]

theorem Plain.payloadAt (hD : Plain D R) (i : ℕ) : (payloadAt D i).isSome ↔
    ∀ call, (producerCalls D i).find?
        (settles D.schema D.schema_errors D.validate_tool) = some call →
      callName call = D.validate_tool.name → R.validatable (candidatePayload call) := by
  rw [Debate.payloadAt,Option.isSome_map,producerTurn,Option.isSome_iff_ne_none,Ne,
    complete_with_tools_eq_none_iff (hD.producer (i * 2)),RaisesFirst,not_exists]
  refine forall_congr' fun call => ?_
  rw [not_and,toolCall_raised_iff,← hD.validators,Option.isSome_iff_ne_none,not_and]
  rfl

theorem Plain.reviewAt (hD : Plain D R) (i : ℕ) : (reviewAt D i).isSome := by
  rw [Debate.reviewAt,Option.isSome_map,reviewerTurn,Option.isSome_iff_ne_none,Ne,
    complete_with_tools_eq_none_iff (hD.reviewer (i * 2 + 1))]
  rintro ⟨call,-,hraised⟩
  have hnone := (toolCall_raised_iff.mp hraised).2
  rw [hD.before] at hnone
  cases hnone

theorem producerHalf_isSome (hD : Plain D R) {i : ℕ} {s : State}
    (hs : Inv D i s) : (producerHalf D (i * 2) s).isSome ↔
      ∃ payload, payloadAt D i = some payload ∧ R.rebuttable payload ∧
        (Ends D i → IsObject payload ∧ IsObject s.last_reviewer_payload) := by
  rw [producerHalf,Debate.payloadAt]
  cases hloop : producerTurn D (i * 2) with
  | none => simp
  | some result =>
    have hpayload : Debate.payloadAt D i = some result.payload := by
      rw [Debate.payloadAt,hloop]
      rfl
    have hhash : hashAt D i = some (D.canonical_hash result.payload) := by
      rw [hashAt,hpayload]
      rfl
    have hrepeats : D.canonical_hash result.payload ∈ s.producer_hashes ↔ Repeats D i := by
      rw [hs.mem_hashes,Repeats,hhash]
    simp only [Option.map_some,Option.some.injEq,exists_eq_left',Option.bind_eq_bind,
      Option.bind_some,← hD.rebuttals]
    cases D.extract_rebuttals result.payload with
    | none => simp
    | some rebuttals =>
      simp only [Option.bind_some,Option.isSome_some,true_and]
      by_cases hr : Repeats D i
      · have hends : Ends D i := .inl hr
        rw [if_pos (hrepeats.mpr hr)]
        exact finish_answer_isSome.trans ⟨fun h _ => h,fun h => h hends⟩
      · rw [if_neg (hrepeats.not.mpr hr)]
        by_cases hmax : i * 2 + 1 ≥ D.max_turns
        · have hends : Ends D i := .inr hmax
          rw [if_pos hmax]
          exact finish_answer_isSome.trans ⟨fun h _ => h,fun h => h hends⟩
        · have hends : ¬ Ends D i := fun h => h.elim hr hmax
          rw [if_neg hmax]
          simp [hends]

theorem reviewerHalf_isSome (hD : Plain D R) {i : ℕ} {s : State} :
    (reviewerHalf D (i * 2 + 1) s).isSome ↔ R.samplable s.last_producer_payload := by
  have hanchors := hD.anchors s.last_producer_payload
  have hreview := hD.reviewAt i
  rw [Debate.reviewAt,Option.isSome_map] at hreview
  obtain ⟨result,hresult⟩ := Option.isSome_iff_exists.mp hreview
  cases ha : D.sample_rag_anchors s.last_producer_payload with
  | none =>
    rw [ha] at hanchors
    refine iff_of_false ?_ (hanchors.not.mp (by simp))
    simp [reviewerHalf,ha]
  | some u =>
    rw [ha] at hanchors
    have hs := hanchors.mp rfl
    have hfin : ∀ (hashes history) (answer : Json) (iterations errors turns : ℕ) (outcome : Outcome)
        (verdict : Json), ∃ r, finish ⟨hashes,history,s.last_producer_payload,answer,iterations,
          errors,turns⟩ outcome verdict = some r := fun _ _ _ _ _ _ _ _ =>
      Option.isSome_iff_exists.mp (finish_isSome.mpr (hD.object _ hs))
    refine iff_of_true ?_ hs
    rw [reviewerHalf,ha,hD.reviewer_prompt,hresult]
    simp only [Option.bind_eq_bind,Option.bind_some]
    split
    · obtain ⟨r,hr⟩ := hfin ..
      rw [hr]
      rfl
    · split
      · obtain ⟨r,hr⟩ := hfin ..
        rw [hr]
        rfl
      · rw [hD.revision_prompt]
        rfl

theorem Inv.reached {i : ℕ} {s : State} (h : Inv D i s) : Reached D i :=
  ⟨h.turn,h.undecided,h.fresh⟩

/-- No turn pair comes after the last proposal. -/
theorem EndsProposed.not_reached {i k : ℕ} {r : DebateResult} (h : EndsProposed D i r)
    (hk : i < k) : ¬ Reached D k := by
  intro hr
  have hturn := hr.turn
  rcases h.outcome with ⟨⟨a,ha,he⟩,-⟩ | ⟨-,hmax,-⟩
  · exact hr.fresh a i ha hk he
  · omega

theorem EndsReviewed.not_reached {i k : ℕ} {r : DebateResult} (h : EndsReviewed D i r)
    (hk : i < k) : ¬ Reached D k := by
  intro hr
  have hturn := hr.turn
  obtain ⟨e,v,-,-,-,hv,hout⟩ := h.last
  rcases hout with ⟨rfl,-⟩ | ⟨-,hmax,-⟩
  · exact hr.undecided i hk hv
  · omega

theorem Inv.answer_isObject {i : ℕ} {s : State} (hs : Inv D i s) :
    IsObject s.last_reviewer_payload ↔
      ∀ k answer, i = k + 1 → Debate.reviewAt D k = some answer → IsObject answer := by
  have hreview := hs.review
  cases i with
  | zero =>
    obtain ⟨hanswer,-⟩ := Prod.mk.inj (Option.some.inj hreview)
    exact iff_of_true ⟨[],hanswer.symm⟩ nofun
  | succ i =>
    obtain ⟨answer,hanswer,hp⟩ := Option.map_eq_some_iff.mp hreview
    obtain ⟨rfl,-⟩ := Prod.mk.inj hp
    constructor
    · rintro h k answer hk ha
      rw [← Nat.succ_injective hk,hanswer] at ha
      rwa [← Option.some.inj ha]
    · exact fun h => h i _ rfl hanswer

/-- The answers of a turn pair are as they must be if its halves go through. -/
theorem survives_iff (hD : Plain D R) {i : ℕ} {s : State} (hs : Inv D i s) :
    Survives D R i ↔ (producerHalf D (i * 2) s).isSome ∧
      ∀ payload, Debate.payloadAt D i = some payload → ¬ Ends D i → R.samplable payload := by
  rw [producerHalf_isSome hD hs,hs.answer_isObject]
  constructor
  · intro h
    obtain ⟨payload,hp⟩ := Option.isSome_iff_exists.mp ((hD.payloadAt i).mpr h.validated)
    obtain ⟨hobj,hreb,hsamp⟩ := h.payload payload hp
    refine ⟨⟨payload,hp,hreb,fun he => ⟨hobj,h.review he⟩⟩,fun payload' hp' => ?_⟩
    rw [← Option.some.inj (hp.symm.trans hp')]
    exact hsamp
  · rintro ⟨⟨payload,hp,hreb,hends⟩,hsamp⟩
    constructor
    case validated => exact (hD.payloadAt i).mp (Option.isSome_iff_exists.mpr ⟨payload,hp⟩)
    case payload =>
      intro payload' hp'
      obtain rfl := Option.some.inj (hp.symm.trans hp')
      refine ⟨?_,hreb,hsamp _ hp⟩
      by_cases he : Ends D i
      · exact (hends he).1
      · exact hD.object _ (hsamp _ hp he)
    case review => exact fun he => (hends he).2

/-- The loop goes through if the answers of the turn pairs it comes to are as they must be. -/
theorem turnPairs_isSome (hD : Plain D R) {remaining i : ℕ} {s : State}
    (hs : Inv D i s) (hpairs : remaining + i = D.max_turns / 2 + D.max_turns % 2) :
    (turnPairs D remaining i s).isSome ↔
      ∀ k, i ≤ k → Reached D k → Survives D R k := by
  induction remaining generalizing i s with
  | zero =>
    have hturn := hs.turn
    omega
  | succ remaining ih =>
    have hi := survives_iff hD hs
    -- the pairs after the first, where the debate ends with it
    have last : (∀ k, i < k → ¬ Reached D k) → Survives D R i →
        ∀ k, i ≤ k → Reached D k → Survives D R k := by
      intro hnot hsurv k hk hr
      rcases Nat.eq_or_lt_of_le hk with rfl | hk
      · exact hsurv
      · exact absurd hr (hnot k hk)
    rw [turnPairs]
    cases hp : producerHalf D (i * 2) s with
    | none =>
      rw [hp] at hi
      refine iff_of_false (by simp) fun h => ?_
      exact absurd (hi.mp (h i le_rfl hs.reached)).1 (by simp)
    | some res =>
      rw [hp] at hi
      obtain ⟨hended,hmid⟩ := producerHalf_ok hs hp
      rcases res with r | ⟨s',hash⟩
      · have hr := hended r rfl
        have hends : Ends D i := hr.outcome.imp And.left fun h => h.2.1
        refine iff_of_true rfl (last (fun k hk => hr.not_reached hk) (hi.mpr ⟨rfl,?_⟩))
        exact fun _ _ hne => absurd hends hne
      · have hm := hmid s' hash rfl
        have hne : ¬ Ends D i := by
          rintro (⟨a,ha,he⟩ | hmax)
          · exact hm.fresh a i ha (Nat.lt_succ_self i) he
          · have := hm.turn
            omega
        have hsamp : Survives D R i ↔ R.samplable s'.last_producer_payload := by
          rw [hi]
          constructor
          · exact fun h => h.2 _ hm.payload hne
          · refine fun h => ⟨rfl,fun payload hpay _ => ?_⟩
            rwa [← Option.some.inj (hm.payload.symm.trans hpay)]
        rw [← reviewerHalf_isSome hD (i:=i)] at hsamp
        simp only [Option.bind_eq_bind,Option.bind_some]
        cases hv : reviewerHalf D (i * 2 + 1) s' with
        | none =>
          rw [hv] at hsamp
          refine iff_of_false (by simp) fun h => ?_
          exact absurd (hsamp.mp (h i le_rfl hs.reached)) (by simp)
        | some res' =>
          rw [hv] at hsamp
          obtain ⟨hended',hnext⟩ := reviewerHalf_ok hm hv
          have hsurv := hsamp.mpr rfl
          rcases res' with r | s''
          · exact iff_of_true rfl (last (fun k hk => (hended' r rfl).not_reached hk) hsurv)
          · simp only [Option.bind_some]
            rw [ih (hnext s'' rfl) (by omega)]
            constructor
            · intro h k hk hr
              rcases Nat.eq_or_lt_of_le hk with rfl | hk
              · exact hsurv
              · exact h k hk hr
            · exact fun h k hk hr => h k (by omega) hr

theorem run_debate_isSome (hD : Plain D R) : (run_debate D).isSome ↔
    ∀ k, Reached D k → Survives D R k := by
  rw [run_debate]
  by_cases hmax : 1 ≤ D.max_turns
  · rw [turnPairs_isSome hD (inv_start hmax) (Nat.add_zero _)]
    simp
  · obtain hzero : D.max_turns = 0 := by omega
    rw [hzero]
    refine iff_of_true rfl fun k hk => ?_
    have := hk.turn
    omega

end Survives

/-- What the helpers of the ontology debate can read. -/
def ontogenReadable : Readable :=
  ⟨Ontogen.Normalizable,Ontogen.Rebuttable,Ontogen.Samplable⟩

/-- The ontology debate over its own sampling; the prompts dump any value. -/
def ontogenSetup (L : Ontogen.Lib) (i : Ontogen.RunInput) : Setup Ontogen.OntogenLLMOutput :=
  { i.setup L with
    sample_rag_anchors := Ontogen.sample_rag_anchors
    build_reviewer_prompt := fun _ => some ()
    build_producer_revision_prompt := fun _ _ => some () }

/-- What the helpers of the metadata debate can read: its schema has no validator of its own,
and it collects no rebuttals. -/
def metagenReadable : Readable := ⟨fun _ => True,fun _ => True,Metagen.Samplable⟩

def metagenSetup (L : Metagen.Lib) (i : Metagen.RunInput) (urn : Str) (R : Metagen.Rules) :
    Setup Metagen.MetagenLLMOutput :=
  { i.setup L urn R with
    sample_rag_anchors := Metagen.sample_rag_anchors
    build_reviewer_prompt := fun _ => some ()
    build_producer_revision_prompt := fun _ _ => some () }

/-- No call of the model fails with an exception that bubbles up. -/
def Answers (replies : ℕ → ℕ → Reply) : Prop := ∀ turn n, replies turn n ≠ .fatal

theorem ontogenSetup_plain {L : Ontogen.Lib} {i : Ontogen.RunInput} (hp : Answers i.producer)
    (hr : Answers i.reviewer) : Plain (ontogenSetup L i) ontogenReadable where
  producer := hp
  reviewer := hr
  before := rfl
  validators := Ontogen.normalize_ids_isSome L.nfkd
  rebuttals := Ontogen.extract_rebuttals_isSome
  anchors := Ontogen.sample_rag_anchors_isSome
  object := fun _ h => Ontogen.Samplable.isObject h
  reviewer_prompt := fun _ => rfl
  revision_prompt := fun _ _ => rfl

theorem metagenSetup_plain {L : Metagen.Lib} {i : Metagen.RunInput} {urn : Str}
    {R : Metagen.Rules} (hp : Answers (i.producer urn)) (hr : Answers (i.reviewer urn)) :
    Plain (metagenSetup L i urn R) metagenReadable where
  producer := hp
  reviewer := hr
  before := rfl
  validators := fun _ => iff_of_true rfl trivial
  rebuttals := fun _ => iff_of_true rfl trivial
  anchors := Metagen.sample_rag_anchors_isSome
  object := fun _ h => Metagen.Samplable.isObject h
  reviewer_prompt := fun _ => rfl
  revision_prompt := fun _ _ => rfl

/-- A debate whose model calls go through returns exactly if it can read the answers of every
turn pair it comes to. -/
theorem debates_return {L : Ontogen.Lib} {i : Ontogen.RunInput} (hp : Answers i.producer)
    (hr : Answers i.reviewer) {L' : Metagen.Lib} {i' : Metagen.RunInput} {urn : Str}
    (R : Metagen.Rules) (hp' : Answers (i'.producer urn)) (hr' : Answers (i'.reviewer urn)) :
    ((run_debate (ontogenSetup L i)).isSome ↔ ∀ k, Reached (ontogenSetup L i) k →
      Survives (ontogenSetup L i) ontogenReadable k) ∧
    ((run_debate (metagenSetup L' i' urn R)).isSome ↔
      ∀ k, Reached (metagenSetup L' i' urn R) k →
        Survives (metagenSetup L' i' urn R) metagenReadable k) :=
  ⟨run_debate_isSome (ontogenSetup_plain hp hr),run_debate_isSome (metagenSetup_plain hp' hr')⟩

theorem sample_answers {calls : List ToolCall} : Answers fun _ _ => .message calls :=
  fun _ _ => nofun

theorem debates_return_sample :
    (∀ k, Reached (ontogenSetup Ontogen.sampleLib Ontogen.sampleRun) k →
      Survives (ontogenSetup Ontogen.sampleLib Ontogen.sampleRun) ontogenReadable k) ∧
    ∀ k, Reached (metagenSetup Metagen.sampleLib (Metagen.sampleRun "urn") "urn".toList
        sampleRules) k →
      Survives (metagenSetup Metagen.sampleLib (Metagen.sampleRun "urn") "urn".toList
        sampleRules) metagenReadable k := by
  have h := @debates_return Ontogen.sampleLib Ontogen.sampleRun sample_answers sample_answers
    Metagen.sampleLib (Metagen.sampleRun "urn") "urn".toList sampleRules sample_answers
    sample_answers
  exact ⟨h.1.mp rfl,h.2.mp rfl⟩

def listPayloadRun : Metagen.RunInput :=
  { Metagen.sampleRun "urn" with
    producer := fun _ _ _ =>
      .message [⟨"metagen_validate".toList,[("payload".toList,.arr [])]⟩] }

theorem list_payload_raises :
    Answers (listPayloadRun.producer "urn".toList) ∧ Answers (listPayloadRun.reviewer "urn".toList) ∧
      run_debate (metagenSetup Metagen.sampleLib listPayloadRun "urn".toList sampleRules) = none :=
  ⟨sample_answers,sample_answers,rfl⟩

end Debate

end Dataspoke
