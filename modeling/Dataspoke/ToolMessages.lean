import Dataspoke.ToolLoop

/-!
# The messages of the tool loop

`LLMClient.complete_with_tools` with the messages that it sends back to the model and the
answers of its tools.
-/

namespace Dataspoke
namespace ToolMessages

open Python Pydantic
open ToolLoop (callName withPayload iterationError LoopTrace LoopResult)

structure ToolCall extends ToolLoop.ToolCall where
  id : Str

/-- A message; of the content of a tool message, its errors. -/
inductive Message
  | system (content : Str)
  | human (content : Str)
  | ai (content : Str) (tool_calls : List ToolCall)
  | tool (tool_call_id : Str) (errors : List ValidationError)

/-- What one call of the model brings: one of `_RECOVERABLE_EXCEPTIONS`, an exception that
bubbles up, or a message. -/
inductive Reply
  | recoverable (exc : String)
  | fatal
  | message (content : Str) (tool_calls : List ToolCall)

structure ToolResult where
  ok : Bool
  errors : List ValidationError

/-- How the invocation of a tool ends. -/
inductive Invocation
  | recoverable (exc : String)
  | fatal
  | result (r : ToolResult)

structure Tool where
  name : Str
  ainvoke : List (Str × Json) → Invocation

variable {α : Type} (S : Schema α) (schema_errors : Json → List ValidationError)
  (success_tool_name : Str) (tool_obj : Tool)

def wrongTool (name : Str) : ValidationError :=
  ⟨[],"WRONG_TOOL",[.text "called ",.text (String.ofList name),
    .text " but only ",.text (String.ofList success_tool_name),.text " is permitted"]⟩

def noToolCall : ValidationError :=
  ⟨[],"NO_TOOL_CALL",[.text "must call ",.text (String.ofList success_tool_name),
    .text " before returning"]⟩

structure LoopState where
  messages : List Message
  last_payload : Json
  iter_errors : List ValidationError
  errors_per_iter : List (List ValidationError)
  last_iter_errors : List ValidationError

/-- The errors of a tool call, in its iteration and in the message that answers it. -/
def LoopState.fail (s : LoopState) (call : ToolCall) (errors : List ValidationError) : LoopState :=
  { s with
    iter_errors := s.iter_errors ++ errors
    messages := s.messages ++ [.tool call.id errors] }

def LoopState.submit (s : LoopState) (payload : Json) : LoopState :=
  { s with last_payload := payload }

/-- Where a step of the loop leads: an exception, the end with a payload, or on. -/
inductive Step
  | raised
  | success (payload : Json) (s : LoopState)
  | next (s : LoopState)

def ToolCall.candidate_payload (call : ToolCall) : Json :=
  (get? "payload".toList call.args).getD (.obj call.args)

def toolCall (call : ToolCall) (s : LoopState) : Step :=
  let name := callName call.toToolCall
  if name ≠ success_tool_name then .next (s.fail call [wrongTool success_tool_name name])
  else
    match S.model_validate call.candidate_payload with
    | none => .raised
    | some (payload,none) => .next ((s.submit payload).fail call (schema_errors payload))
    | some (payload,some _) =>
      match tool_obj.ainvoke (withPayload call.args payload) with
      | .fatal => .raised
      | .recoverable exc => .next ((s.submit payload).fail call [iterationError exc])
      | .result r =>
        if r.ok then .success payload (s.submit payload)
        else .next ((s.submit payload).fail call r.errors)

def toolCalls : List ToolCall → LoopState → Step
  | [], s => .next s
  | call::calls, s =>
    match toolCall S schema_errors success_tool_name tool_obj call s with
    | .next s => toolCalls calls s
    | .success payload s => .success payload s
    | .raised => .raised

def LoopState.endIteration (s : LoopState) : LoopState :=
  { s with
    errors_per_iter := s.errors_per_iter ++ [s.iter_errors]
    last_iter_errors := s.iter_errors }

/-- One iteration, on the reply of the model. -/
def iterate (reply : Reply) (s : LoopState) : Step :=
  let s := { s with iter_errors := [] }
  match reply with
  | .fatal => .raised
  | .recoverable exc => .next { s with iter_errors := [iterationError exc] }.endIteration
  | .message content [] =>
    .next { s with
      messages := s.messages ++ [Message.ai content [],
        Message.human ("You must call the \x60".toList ++ success_tool_name ++
          "\x60 tool with your proposed payload. Do not return plain text.".toList)]
      iter_errors := [noToolCall success_tool_name] }.endIteration
  | .message content (call::calls) =>
    match toolCalls S schema_errors success_tool_name tool_obj (call::calls)
        { s with messages := s.messages ++ [.ai content (call::calls)] } with
    | .next s => .next s.endIteration
    | .success payload s => .success payload s
    | .raised => .raised

def start (system : Str) (prompt : Str) : LoopState where
  messages := (if system = [] then [] else [.system system]) ++ [.human prompt]
  last_payload := .obj []
  iter_errors := []
  errors_per_iter := []
  last_iter_errors := []

/-- The iterations from `iteration` on, of which `remaining` are left. -/
def iterations (replies : ℕ → Reply) : (remaining iteration : ℕ) → LoopState →
    Option LoopResult
  | 0, iteration, s => some ⟨s.last_payload,iteration,s.errors_per_iter,s.last_iter_errors⟩
  | remaining+1, iteration, s =>
    match iterate S schema_errors success_tool_name tool_obj (replies iteration) s with
    | .raised => none
    | .success payload s =>
      some ⟨payload,iteration+1,s.errors_per_iter ++ [s.iter_errors],[]⟩
    | .next s => iterations replies remaining (iteration+1) s

/-- `none` where an exception bubbles up. -/
def complete_with_tools (tools : List Tool) (system prompt : Str) (max_iterations : ℕ)
    (replies : ℕ → Reply) : Option LoopResult :=
  match tools.find? fun t => t.name = success_tool_name with
  | none => none
  | some tool_obj =>
    iterations S schema_errors success_tool_name tool_obj replies max_iterations 0
      (start system prompt)

/-- The state in which the model is called for the reply `n`. -/
def atCall (replies : ℕ → Reply) (s : LoopState) : ℕ → Option LoopState
  | 0 => some s
  | n+1 =>
    match atCall replies s n with
    | none => none
    | some s =>
      match iterate S schema_errors success_tool_name tool_obj (replies n) s with
      | .next s => some s
      | _ => none

/-- The id that a message answers. -/
def Message.answers : Message → Option Str
  | .tool tool_call_id _ => some tool_call_id
  | _ => none

/-- The ids that a message asks for. -/
def Message.asks : Message → List Str
  | .ai _ tool_calls => tool_calls.map (·.id)
  | _ => []

def Message.tool_calls : Message → List ToolCall
  | .ai _ tool_calls => tool_calls
  | _ => []

def answeredIds (ms : List Message) : List Str := ms.filterMap (·.answers)

def askedIds (ms : List Message) : List Str := ms.flatMap (·.asks)

/-- Read the messages with the ids that are still owed an answer; no message but the answer to the
first of them may come. -/
def scan : List Str → List Message → Option (List Str)
  | owed, [] => some owed
  | [], .tool _ _::_ => none
  | [], .ai _ tool_calls::ms => scan (tool_calls.map (·.id)) ms
  | [], _::ms => scan [] ms
  | id::owed, .tool tool_call_id _::ms => if tool_call_id = id then scan owed ms else none
  | _::_, _::_ => none

theorem scan_append (owed : List Str) (ms ms' : List Message) :
    scan owed (ms ++ ms') = (scan owed ms).bind (scan · ms') := by
  fun_induction scan owed ms with
  | case1 owed => rfl
  | case2 => rfl
  | case3 content calls ms ih => exact ih
  | case4 m ms h₁ h₂ ih =>
    cases m with
    | system content => exact ih
    | human content => exact ih
    | ai content calls => exact absurd rfl (h₂ _ _)
    | tool id errors => exact absurd rfl (h₁ _ _)
  | case5 owed id errors ms ih =>
    rw [List.cons_append,scan,if_pos rfl]
    exact ih
  | case6 id owed id' errors ms hne =>
    rw [List.cons_append,scan,if_neg hne]
    rfl
  | case7 id owed m ms h =>
    cases m with
    | tool id' errors => exact absurd rfl (h _ _)
    | _ => rfl

/-- What is owed and what is asked for is answered, in this order. -/
theorem answeredIds_eq {owed : List Str} {ms : List Message} (h : scan owed ms = some []) :
    answeredIds ms = owed ++ askedIds ms := by
  fun_induction scan owed ms with
  | case1 owed =>
    obtain rfl := Option.some.inj h
    rfl
  | case2 => cases h
  | case3 content calls ms ih => exact ih h
  | case4 m ms h₁ h₂ ih =>
    cases m with
    | system content => exact ih h
    | human content => exact ih h
    | ai content calls => exact absurd rfl (h₂ _ _)
    | tool id errors => exact absurd rfl (h₁ _ _)
  | case5 owed id errors ms ih => exact congrArg (id::·) (ih h)
  | case6 => cases h
  | case7 => cases h

/-- The answers to what is owed come first. -/
theorem answers_first {owed : List Str} {ms : List Message} (h : scan owed ms = some []) :
    ∃ answers rest, ms = answers ++ rest ∧ answers.map (·.answers) = owed.map some ∧
      scan [] rest = some [] := by
  induction owed generalizing ms with
  | nil => exact ⟨[],ms,rfl,rfl,h⟩
  | cons id owed ih =>
    cases ms with
    | nil => cases h
    | cons m ms =>
      cases m with
      | tool id' errors =>
        rw [scan] at h
        split at h
        · rename_i hid
          obtain ⟨answers,rest,rfl,hmap,hrest⟩ := ih h
          refine ⟨.tool id' errors::answers,rest,rfl,?_,hrest⟩
          rw [List.map_cons,List.map_cons,hmap,← hid]
          rfl
        · cases h
      | _ => cases h

/-- Each message with tool calls is followed by one answer to each call in the order of the calls,
and by no other; an id that the model gives but once is answered once. -/
def Answered (ms : List Message) : Prop :=
  ∀ before content tool_calls after, ms = before ++ .ai content tool_calls::after →
    (∃ answers rest, after = answers ++ rest ∧
      answers.map (·.answers) = tool_calls.map (fun call => some call.id) ∧
      rest.head?.bind (·.answers) = none) ∧
    ((askedIds ms).Nodup → ∀ call ∈ tool_calls, (answeredIds after).count call.id = 1)

theorem answered_of_scan {ms : List Message} (h : scan [] ms = some []) : Answered ms := by
  rintro before content calls after rfl
  rw [scan_append] at h
  obtain ⟨owed,hbefore,hrest⟩ := Option.bind_eq_some_iff.mp h
  have howed : owed = [] := by
    cases owed with
    | nil => rfl
    | cons id owed => cases hrest
  subst howed
  have hafter : scan (calls.map (·.id)) after = some [] := hrest
  constructor
  · obtain ⟨answers,rest,heq,hmap,hscan⟩ := answers_first hafter
    refine ⟨answers,rest,heq,by rw [hmap,List.map_map]; rfl,?_⟩
    cases rest with
    | nil => rfl
    | cons m rest =>
      cases m with
      | tool id errors => cases hscan
      | _ => rfl
  · intro hnodup call hcall
    have hids : askedIds (before ++ .ai content calls::after) =
        askedIds before ++ (calls.map (·.id) ++ askedIds after) := by
      simp [askedIds,Message.asks]
    rw [hids] at hnodup
    rw [answeredIds_eq hafter]
    refine List.count_eq_one_of_mem (List.nodup_append.mp hnodup).2.1 ?_
    exact List.mem_append_left _ (List.mem_map_of_mem hcall)

/-- The payload that a call submits to the success tool. -/
def submitted (call : ToolCall) : Option Json :=
  if callName call.toToolCall = success_tool_name then
    (S.model_validate call.candidate_payload).map Prod.fst
  else none

/-- The success tool, run on the arguments of the call with `payload`, answers `r`. -/
structure Answers (call : ToolCall) (payload : Json) (r : ToolResult) : Prop where
  name : callName call.toToolCall = success_tool_name
  valid : ∃ x, S.model_validate call.candidate_payload = some (payload,some x)
  ainvoke : tool_obj.ainvoke (withPayload call.args payload) = .result r

def Rejected (call : ToolCall) : Prop :=
  ∀ payload r, Answers S success_tool_name tool_obj call payload r → r.ok = false

def Reply.calls : Reply → List ToolCall
  | .message _ tool_calls => tool_calls
  | _ => []

/-- The tool calls of the first `n` replies. -/
def callsOf (replies : ℕ → Reply) (n : ℕ) : List ToolCall :=
  (List.range n).flatMap fun k => (replies k).calls

theorem callsOf_succ (replies : ℕ → Reply) (n : ℕ) :
    callsOf replies (n+1) = callsOf replies n ++ (replies n).calls := by
  rw [callsOf,List.range_succ,List.flatMap_append,List.flatMap_singleton]
  rfl

/-- The payload of the last of the calls that submit one. -/
def lastSubmitted (calls : List ToolCall) : Json :=
  (calls.filterMap (submitted S success_tool_name)).getLast?.getD (.obj [])

theorem lastSubmitted_append (calls : List ToolCall) (call : ToolCall) :
    lastSubmitted S success_tool_name (calls ++ [call]) =
      (submitted S success_tool_name call).getD (lastSubmitted S success_tool_name calls) := by
  rw [lastSubmitted,List.filterMap_append]
  cases h : submitted S success_tool_name call with
  | none => rw [List.filterMap_cons_none h,List.filterMap_nil,List.append_nil]; rfl
  | some payload => rw [List.filterMap_cons_some h,List.filterMap_nil,List.getLast?_concat]; rfl

/-- The first of the calls that the tool does not reject is answered with ok, on `payload`. -/
def FirstAccepted (calls : List ToolCall) (payload : Json) : Prop :=
  ∃ before call after r, calls = before ++ call::after ∧
    (∀ c ∈ before, Rejected S success_tool_name tool_obj c) ∧
    Answers S success_tool_name tool_obj call payload r ∧ r.ok = true

/-- What a run returns on these replies. -/
structure Contract (replies : ℕ → Reply) (max_iterations : ℕ) (result : LoopResult) : Prop where
  final_errors : result.trace.final_errors = [] ↔
    ∃ call ∈ callsOf replies result.trace.iterations, ∃ r,
      Answers S success_tool_name tool_obj call result.payload r ∧ r.ok = true
  first : result.trace.final_errors = [] → FirstAccepted S success_tool_name tool_obj
    (callsOf replies result.trace.iterations) result.payload
  payload : result.trace.final_errors ≠ [] → result.payload =
    lastSubmitted S success_tool_name (callsOf replies result.trace.iterations)
  errors_per_iter : result.trace.errors_per_iter.length = result.trace.iterations
  iterations : result.trace.iterations ≤ max_iterations
  exhausted : result.trace.final_errors ≠ [] → result.trace.iterations = max_iterations

section Loop

variable {S schema_errors success_tool_name tool_obj} {s s' : LoopState} {n : ℕ}
  {cs : List ToolCall}

/-- A tool that rejects a payload says why. -/
def Explains (tool_obj : Tool) : Prop :=
  ∀ args r, tool_obj.ainvoke args = .result r → r.ok = false → r.errors ≠ []

variable (S success_tool_name tool_obj) in
/-- The loop after the calls `cs`, which the tool has rejected. -/
structure Refused (cs : List ToolCall) (s : LoopState) : Prop where
  rejected : ∀ call ∈ cs, Rejected S success_tool_name tool_obj call
  payload : s.last_payload = lastSubmitted S success_tool_name cs

theorem Refused.next (h : Refused S success_tool_name tool_obj cs s) {call : ToolCall}
    (hcall : Rejected S success_tool_name tool_obj call)
    (hpayload : s'.last_payload = (submitted S success_tool_name call).getD s.last_payload) :
    Refused S success_tool_name tool_obj (cs ++ [call]) s' := by
  refine ⟨fun c hc => ?_,?_⟩
  · rcases List.mem_append.mp hc with hc | hc
    · exact h.rejected c hc
    · rw [List.mem_singleton.mp hc]
      exact hcall
  · rw [hpayload,h.payload,lastSubmitted_append]

variable (S success_tool_name) in
/-- A tool call raises, or is rejected and answered with errors, or ends the loop with the payload
that the tool accepts. -/
theorem toolCall_cases (hschema : ∀ v, schema_errors v ≠ []) (htool : Explains tool_obj)
    (call : ToolCall) (s : LoopState) :
    toolCall S schema_errors success_tool_name tool_obj call s = .raised ∨
    (∃ errors, errors ≠ [] ∧ Rejected S success_tool_name tool_obj call ∧
      toolCall S schema_errors success_tool_name tool_obj call s = .next
        ((s.submit ((submitted S success_tool_name call).getD s.last_payload)).fail call errors)) ∨
    ∃ payload r, Answers S success_tool_name tool_obj call payload r ∧ r.ok = true ∧
      toolCall S schema_errors success_tool_name tool_obj call s =
        .success payload (s.submit payload) := by
  unfold toolCall submitted
  dsimp only
  by_cases hname : callName call.toToolCall = success_tool_name
  · rw [if_neg (not_not.mpr hname),if_pos hname]
    cases hvalid : S.model_validate call.candidate_payload with
    | none => exact Or.inl rfl
    | some p =>
      obtain ⟨payload,_ | x⟩ := p
      · refine Or.inr (Or.inl ⟨_,hschema payload,fun payload' r h => ?_,rfl⟩)
        obtain ⟨x,hx⟩ := h.valid
        rw [hvalid] at hx
        cases hx
      · -- the payload is valid, and what the tool does with it decides
        dsimp only
        cases hinvoke : tool_obj.ainvoke (withPayload call.args payload) with
        | fatal => exact Or.inl rfl
        | recoverable exc =>
          refine Or.inr (Or.inl ⟨_,List.cons_ne_nil _ _,fun payload' r h => ?_,rfl⟩)
          obtain ⟨x',hx⟩ := h.valid
          rw [hvalid] at hx
          cases hx
          exact absurd (hinvoke.symm.trans h.ainvoke) Invocation.noConfusion
        | result r =>
          by_cases hok : r.ok = true
          · dsimp only
            rw [if_pos hok]
            exact Or.inr (Or.inr ⟨payload,r,⟨hname,⟨x,hvalid⟩,hinvoke⟩,hok,rfl⟩)
          · have hrefused : r.ok = false := by simpa using hok
            dsimp only
            rw [if_neg hok]
            refine Or.inr (Or.inl ⟨_,htool _ r hinvoke hrefused,fun payload' r' h => ?_,rfl⟩)
            obtain ⟨x',hx⟩ := h.valid
            rw [hvalid] at hx
            cases hx
            rw [← Invocation.result.inj (hinvoke.symm.trans h.ainvoke)]
            exact hrefused
  · rw [if_pos hname,if_neg hname]
    exact Or.inr (Or.inl ⟨_,List.cons_ne_nil _ _,fun _ _ h => absurd h.name hname,rfl⟩)

variable (S success_tool_name tool_obj) in
/-- What the tool calls of a message leave of the loop that has had the calls `cs` before, while
`owed` are to be answered. -/
structure During (cs : List ToolCall) (s s' : LoopState) (owed : List Str) : Prop where
  refused : Refused S success_tool_name tool_obj cs s'
  scanned : scan [] s'.messages = some owed
  asked : s'.messages.flatMap (·.tool_calls) = s.messages.flatMap (·.tool_calls)
  errors_per_iter : s'.errors_per_iter = s.errors_per_iter

variable (S success_tool_name tool_obj) in
/-- The tool has accepted the payload that the loop ends with. -/
structure Accepted (cs : List ToolCall) (s : LoopState) (payload : Json) (s' : LoopState) :
    Prop where
  first : FirstAccepted S success_tool_name tool_obj cs payload
  errors_per_iter : s'.errors_per_iter = s.errors_per_iter

theorem scan_fail {call : ToolCall} {owed : List Str} {errors : List ValidationError}
    (h : scan [] s.messages = some (call.id::owed)) :
    scan [] (s.fail call errors).messages = some owed := by
  show scan [] (s.messages ++ [.tool call.id errors]) = some owed
  rw [scan_append,h]
  exact if_pos rfl

variable (S success_tool_name cs) in
theorem toolCalls_spec (hschema : ∀ v, schema_errors v ≠ []) (htool : Explains tool_obj)
    {calls : List ToolCall} (hrefused : Refused S success_tool_name tool_obj cs s)
    (hscan : scan [] s.messages = some (calls.map (·.id))) :
    match toolCalls S schema_errors success_tool_name tool_obj calls s with
    | .raised => True
    | .next s' => During S success_tool_name tool_obj (cs ++ calls) s s' [] ∧
        (calls ≠ [] ∨ s.iter_errors ≠ [] → s'.iter_errors ≠ [])
    | .success payload s' => Accepted S success_tool_name tool_obj (cs ++ calls) s payload s' := by
  induction calls generalizing s cs with
  | nil =>
    rw [List.append_nil]
    exact ⟨⟨hrefused,hscan,rfl,rfl⟩,fun h => h.resolve_left fun h => h rfl⟩
  | cons call calls ih =>
    rw [toolCalls]
    rcases toolCall_cases S success_tool_name hschema htool call s with
      h | ⟨errors,hne,hcall,h⟩ | ⟨payload,r,hr,hok,h⟩
    · rw [h]
      trivial
    · -- a rejected call answers the first id that is owed, and adds to the errors
      rw [h]
      dsimp only
      have hrefused' : Refused S success_tool_name tool_obj (cs ++ [call])
          ((s.submit ((submitted S success_tool_name call).getD s.last_payload)).fail call errors) :=
        hrefused.next hcall rfl
      have hrest := ih _ hrefused' (scan_fail hscan)
      rw [List.append_assoc,List.singleton_append] at hrest
      have herrors : s.iter_errors ++ errors ≠ [] := by simp [hne]
      have hasked : (s.messages ++ [Message.tool call.id errors]).flatMap (·.tool_calls) =
          s.messages.flatMap (·.tool_calls) := by
        rw [List.flatMap_append,List.flatMap_singleton]
        exact List.append_nil _
      split
      · trivial
      · rename_i s' heq
        rw [heq] at hrest
        exact ⟨⟨hrest.1.refused,hrest.1.scanned,hrest.1.asked.trans hasked,
          hrest.1.errors_per_iter⟩,fun _ => hrest.2 (Or.inr herrors)⟩
      · rename_i payload s' heq
        rw [heq] at hrest
        exact ⟨hrest.first,hrest.errors_per_iter⟩
    · rw [h]
      exact ⟨⟨cs,call,calls,r,rfl,hrefused.rejected,hr,hok⟩,rfl⟩

variable (S success_tool_name tool_obj) in
/-- The loop after `n` iterations with the calls `cs`. -/
structure Between (cs : List ToolCall) (n : ℕ) (s : LoopState) : Prop where
  refused : Refused S success_tool_name tool_obj cs s
  scanned : scan [] s.messages = some []
  asked : s.messages.flatMap (·.tool_calls) = cs
  length : s.errors_per_iter.length = n
  errors : 0 < n → s.last_iter_errors ≠ []

theorem Between.endIteration (h : Between S success_tool_name tool_obj cs n s)
    {cs' : List ToolCall} (hrefused : Refused S success_tool_name tool_obj cs' s')
    (hscanned : scan [] s'.messages = some [])
    (hasked : s'.messages.flatMap (·.tool_calls) = cs')
    (herrors : s'.errors_per_iter = s.errors_per_iter) (hiter : s'.iter_errors ≠ []) :
    Between S success_tool_name tool_obj cs' (n+1) s'.endIteration := by
  refine ⟨⟨hrefused.rejected,hrefused.payload⟩,hscanned,hasked,?_,fun _ => hiter⟩
  simp [LoopState.endIteration,herrors,h.length]

variable (S success_tool_name) in
theorem iterate_spec (hschema : ∀ v, schema_errors v ≠ []) (htool : Explains tool_obj)
    (reply : Reply) (h : Between S success_tool_name tool_obj cs n s) :
    match iterate S schema_errors success_tool_name tool_obj reply s with
    | .raised => True
    | .next s' => Between S success_tool_name tool_obj (cs ++ reply.calls) (n+1) s'
    | .success payload s' =>
        Accepted S success_tool_name tool_obj (cs ++ reply.calls) s payload s' := by
  have hrefused : Refused S success_tool_name tool_obj (cs ++ []) s := by
    rw [List.append_nil]
    exact h.refused
  cases reply with
  | fatal => trivial
  | recoverable exc =>
    exact h.endIteration ⟨hrefused.rejected,hrefused.payload⟩ h.scanned
      (h.asked.trans (List.append_nil cs).symm) rfl (List.cons_ne_nil _ _)
  | message content calls =>
    cases calls with
    | nil =>
      refine h.endIteration ⟨hrefused.rejected,hrefused.payload⟩ ?_ ?_ rfl (List.cons_ne_nil _ _)
      · show scan [] (s.messages ++ _) = some []
        rw [scan_append,h.scanned]
        rfl
      · show (s.messages ++ _).flatMap (·.tool_calls) = cs ++ []
        rw [List.flatMap_append,h.asked]
        rfl
    | cons call calls =>
      have hscan : scan [] (s.messages ++ [.ai content (call::calls)]) =
          some ((call::calls).map (·.id)) := by
        rw [scan_append,h.scanned]
        rfl
      have hcalls := toolCalls_spec S success_tool_name cs hschema htool
        (s:={ s with iter_errors := [], messages := s.messages ++ [.ai content (call::calls)] })
        ⟨h.refused.rejected,h.refused.payload⟩ hscan
      unfold iterate
      dsimp only
      split
      · trivial
      · rename_i s' heq
        split at heq
        · rename_i s₁ heq'
          rw [heq'] at hcalls
          cases heq
          refine h.endIteration hcalls.1.refused hcalls.1.scanned ?_ hcalls.1.errors_per_iter
            (hcalls.2 (Or.inl (List.cons_ne_nil _ _)))
          rw [hcalls.1.asked,List.flatMap_append,h.asked,List.flatMap_singleton]
          rfl
        · cases heq
        · cases heq
      · rename_i payload s' heq
        split at heq
        · cases heq
        · rename_i payload₁ s₁ heq'
          rw [heq'] at hcalls
          cases heq
          exact ⟨hcalls.first,hcalls.errors_per_iter⟩
        · cases heq

theorem FirstAccepted.exists {payload : Json}
    (h : FirstAccepted S success_tool_name tool_obj cs payload) :
    ∃ call ∈ cs, ∃ r, Answers S success_tool_name tool_obj call payload r ∧ r.ok = true := by
  obtain ⟨before,call,after,r,rfl,-,hr,hok⟩ := h
  exact ⟨call,List.mem_append_right _ (.head _),r,hr,hok⟩

theorem iterations_spec (hschema : ∀ v, schema_errors v ≠ []) (htool : Explains tool_obj)
    {replies : ℕ → Reply} {remaining : ℕ}
    (h : Between S success_tool_name tool_obj (callsOf replies n) n s) (hmax : 1 ≤ n + remaining)
    {result : LoopResult}
    (hrun : iterations S schema_errors success_tool_name tool_obj replies remaining n s =
      some result) :
    Contract S success_tool_name tool_obj replies (n+remaining) result := by
  induction remaining generalizing n s with
  | zero =>
    obtain rfl := Option.some.inj hrun
    have herrors : s.last_iter_errors ≠ [] := h.errors (by omega)
    refine ⟨iff_of_false herrors ?_,fun h => absurd h herrors,fun _ => h.refused.payload,h.length,
      le_rfl,fun _ => rfl⟩
    rintro ⟨call,hcall,r,hr,hok⟩
    rw [h.refused.rejected call hcall _ r hr] at hok
    cases hok
  | succ remaining ih =>
    rw [iterations] at hrun
    have hstep := iterate_spec S success_tool_name hschema htool (replies n) h
    rw [← callsOf_succ] at hstep
    split at hrun
    · cases hrun
    · rename_i payload s' heq
      rw [heq] at hstep
      obtain rfl := Option.some.inj hrun
      refine ⟨iff_of_true rfl hstep.first.exists,fun _ => hstep.first,fun h => absurd rfl h,?_,
        by show n+1 ≤ _; omega,fun h => absurd rfl h⟩
      simp [hstep.errors_per_iter,h.length]
    · rename_i s' heq
      rw [heq] at hstep
      have hrest := ih hstep (by omega) hrun
      rwa [show n+1+remaining = n+(remaining+1) by omega] at hrest

theorem between_start (system prompt : Str) :
    Between S success_tool_name tool_obj [] 0 (start system prompt) := by
  have hmessages : scan [] (start system prompt).messages = some [] ∧
      (start system prompt).messages.flatMap (·.tool_calls) = [] := by
    unfold start
    split <;> exact ⟨rfl,rfl⟩
  exact ⟨⟨fun _ h => absurd h List.not_mem_nil,rfl⟩,hmessages.1,hmessages.2,rfl,
    fun h => absurd h (lt_irrefl 0)⟩

theorem between_atCall (hschema : ∀ v, schema_errors v ≠ []) (htool : Explains tool_obj)
    {replies : ℕ → Reply} {s₀ : LoopState}
    (h₀ : Between S success_tool_name tool_obj [] 0 s₀) {n : ℕ} {s : LoopState}
    (h : atCall S schema_errors success_tool_name tool_obj replies s₀ n = some s) :
    Between S success_tool_name tool_obj (callsOf replies n) n s := by
  induction n generalizing s with
  | zero =>
    obtain rfl := Option.some.inj h
    exact h₀
  | succ n ih =>
    rw [atCall] at h
    split at h
    · cases h
    rename_i t ht
    have hstep := iterate_spec S success_tool_name hschema htool (replies n) (ih ht)
    rw [← callsOf_succ] at hstep
    split at h
    · rename_i s' heq
      rw [heq] at hstep
      obtain rfl := Option.some.inj h
      exact hstep
    · cases h

/-- What the loop returns on any replies, and that before every call of the model the messages
hold every tool call there was, and answer it. -/
theorem complete_with_tools_contract (S : Schema α) {schema_errors : Json → List ValidationError}
    (success_tool_name : Str) {tools : List Tool} (system prompt : Str) {max_iterations : ℕ}
    (replies : ℕ → Reply) (hmax : 1 ≤ max_iterations) (hschema : ∀ v, schema_errors v ≠ [])
    (htools : ∀ t ∈ tools, Explains t) :
    (∀ result, complete_with_tools S schema_errors success_tool_name tools system prompt
      max_iterations replies = some result →
      ∃ tool_obj, tools.find? (fun t => t.name = success_tool_name) = some tool_obj ∧
        Contract S success_tool_name tool_obj replies max_iterations result) ∧
    ∀ tool_obj ∈ tools, ∀ n s, atCall S schema_errors success_tool_name tool_obj replies
      (start system prompt) n = some s →
      s.messages.flatMap (·.tool_calls) = callsOf replies n ∧ Answered s.messages := by
  constructor
  · intro result hrun
    unfold complete_with_tools at hrun
    split at hrun
    · cases hrun
    · rename_i tool_obj hfind
      have htool := htools tool_obj (List.mem_of_find?_eq_some hfind)
      have hcontract := iterations_spec hschema htool (between_start system prompt) (by omega) hrun
      rw [Nat.zero_add] at hcontract
      exact ⟨tool_obj,hfind,hcontract⟩
  · intro tool_obj hmem n s h
    have hbetween := between_atCall hschema (htools tool_obj hmem) (between_start system prompt) h
    exact ⟨hbetween.asked,answered_of_scan hbetween.scanned⟩

/-- A tool that rejects every payload, and an empty name. -/
def strictTool : Tool where
  name := "validate".toList
  ainvoke _ := .result ⟨false,[iterationError "no"]⟩

def anySchema : Schema Unit where
  decode _ := some ()

/-- Two calls with one id, which two messages then answer. -/
def twinReplies (_ : ℕ) : Reply :=
  .message [] [⟨⟨"other".toList,[]⟩,['i']⟩,⟨⟨"other".toList,[]⟩,['i']⟩]

theorem strictTool_explains : Explains strictTool := by
  intro args r h _
  cases h
  exact List.cons_ne_nil _ _

theorem twin_ids_answered_twice : ¬ ∀ (tool_obj : Tool) (replies : ℕ → Reply) (n : ℕ)
    (s : LoopState), Explains tool_obj →
    atCall anySchema (fun _ => [iterationError "no"]) tool_obj.name tool_obj replies
      (start [] ['p']) n = some s →
    ∀ before content tool_calls after, s.messages = before ++ .ai content tool_calls::after →
      ∀ call ∈ tool_calls, (answeredIds after).count call.id = 1 := by
  intro hall
  have h := hall strictTool twinReplies 1 _ strictTool_explains rfl [.human ['p']] [] _ _ rfl
    ⟨⟨"other".toList,[]⟩,['i']⟩ (.head _)
  exact absurd h (by decide)

/-- A tool that accepts the payloads whose `v` is true. -/
def choosyTool : Tool where
  name := "validate".toList
  ainvoke args :=
    match get? "v".toList args with
    | some (.bool true) => .result ⟨true,[]⟩
    | _ => .result ⟨false,[iterationError "no"]⟩

/-- A message with a call of another tool and a payload that is rejected, and then one with a
payload that is accepted. -/
def secondTry : ℕ → Reply
  | 0 => .message [] [⟨⟨"other".toList,[]⟩,['i']⟩,
      ⟨⟨"validate".toList,[("v".toList,.bool false)]⟩,['j']⟩]
  | _ => .message [] [⟨⟨"validate".toList,[("v".toList,.bool true)]⟩,['k']⟩]

theorem choosyTool_explains : Explains choosyTool := by
  intro args r h hok
  unfold choosyTool at h
  dsimp only at h
  split at h
  · cases h
    cases hok
  · cases h
    exact List.cons_ne_nil _ _

theorem complete_with_tools_sample :
    ∃ result, complete_with_tools anySchema (fun _ => [iterationError "no"]) "validate".toList
      [choosyTool] [] ['p'] 3 secondTry = some result ∧
      result.payload = .obj [("v".toList,.bool true)] ∧ result.trace.iterations = 2 ∧
      result.trace.final_errors = [] ∧
      ∃ call ∈ callsOf secondTry 2, ∃ r,
        Answers anySchema "validate".toList choosyTool call result.payload r ∧ r.ok = true := by
  have hcontract := complete_with_tools_contract anySchema "validate".toList [] ['p'] secondTry
    (by decide : 1 ≤ 3) (fun _ => List.cons_ne_nil (iterationError "no") [])
    (fun t ht => List.mem_singleton.mp ht ▸ choosyTool_explains)
  obtain ⟨tool_obj,htool,h⟩ := hcontract.1 _ rfl
  obtain rfl := Option.some.inj htool
  exact ⟨_,rfl,rfl,rfl,rfl,h.final_errors.mp rfl⟩

end Loop

section Plain

variable {S schema_errors} {t : ToolLoop.Tool}

/-- A tool that returns its errors and is satisfied where there are none, as the validation tools
are built. -/
def ofTool (t : ToolLoop.Tool) : Tool where
  name := t.name
  ainvoke args :=
    match t.ainvoke args with
    | .error exc => .recoverable exc
    | .ok errors => .result ⟨errors.isEmpty,errors⟩

theorem ofTool_explains (t : ToolLoop.Tool) : Explains (ofTool t) := by
  intro args r h hok
  unfold ofTool at h
  dsimp only at h
  split at h
  · cases h
  · cases h
    simpa using hok

def Reply.plain : Reply → ToolLoop.Reply
  | .recoverable exc => .recoverable exc
  | .fatal => .fatal
  | .message _ tool_calls => .message (tool_calls.map (·.toToolCall))

/-- A step without the messages. -/
def Step.plain : Step → Option (Option Json × ToolLoop.CallState)
  | .raised => none
  | .success payload s => some (some payload,⟨s.last_payload,s.iter_errors⟩)
  | .next s => some (none,⟨s.last_payload,s.iter_errors⟩)

/-- The errors of the earlier iterations stay. -/
def Step.Keeps (errors_per_iter : List (List ValidationError)) : Step → Prop
  | .raised => True
  | .success _ s => s.errors_per_iter = errors_per_iter
  | .next s => s.errors_per_iter = errors_per_iter

variable (S schema_errors t) in
theorem toolCall_plain (call : ToolCall) (s : LoopState) :
    let step := toolCall S schema_errors t.name (ofTool t) call s
    step.Keeps s.errors_per_iter ∧ step.plain =
      match ToolLoop.toolCall S schema_errors t call.toToolCall with
      | .raised => none
      | .success payload => some (some payload,⟨payload,s.iter_errors⟩)
      | .failure payload errors =>
        some (none,⟨payload.getD s.last_payload,s.iter_errors ++ errors⟩) := by
  unfold toolCall ToolLoop.toolCall
  dsimp only [ToolCall.candidate_payload]
  by_cases hname : callName call.toToolCall ≠ t.name
  · rw [if_pos hname,if_pos hname]
    exact ⟨rfl,rfl⟩
  rw [if_neg hname,if_neg hname]
  cases S.model_validate ((get? "payload".toList call.args).getD (.obj call.args)) with
  | none => exact ⟨trivial,rfl⟩
  | some p =>
    obtain ⟨payload,parsed⟩ := p
    cases parsed with
    | none => exact ⟨rfl,rfl⟩
    | some x =>
      unfold ofTool
      dsimp only
      cases t.ainvoke (withPayload call.args payload) with
      | error exc => exact ⟨rfl,rfl⟩
      | ok errors =>
        cases errors with
        | nil => exact ⟨rfl,rfl⟩
        | cons e errors => exact ⟨rfl,rfl⟩

variable (S schema_errors t) in
theorem toolCalls_plain (calls : List ToolCall) (s : LoopState) :
    let step := toolCalls S schema_errors t.name (ofTool t) calls s
    step.Keeps s.errors_per_iter ∧ step.plain =
      ToolLoop.toolCalls S schema_errors t (calls.map (·.toToolCall))
        ⟨s.last_payload,s.iter_errors⟩ := by
  induction calls generalizing s with
  | nil => exact ⟨rfl,rfl⟩
  | cons call calls ih =>
    have hcall := toolCall_plain S schema_errors t call s
    dsimp only at hcall ⊢
    obtain ⟨hkeeps,hplain⟩ := hcall
    rw [toolCalls,List.map_cons,ToolLoop.toolCalls]
    cases hloop : ToolLoop.toolCall S schema_errors t call.toToolCall with
    | raised =>
      rw [hloop] at hplain
      cases hstep : toolCall S schema_errors t.name (ofTool t) call s with
      | raised => exact ⟨trivial,rfl⟩
      | _ => rw [hstep] at hplain; cases hplain
    | success payload =>
      rw [hloop] at hplain
      cases hstep : toolCall S schema_errors t.name (ofTool t) call s with
      | success payload' s' =>
        rw [hstep] at hplain hkeeps
        exact ⟨hkeeps,hplain⟩
      | _ => rw [hstep] at hplain; cases hplain
    | failure payload errors =>
      rw [hloop] at hplain
      cases hstep : toolCall S schema_errors t.name (ofTool t) call s with
      | next s' =>
        rw [hstep] at hplain hkeeps
        have hstate := (Prod.mk.inj (Option.some.inj hplain)).2
        obtain ⟨hpayload,herrors⟩ := ToolLoop.CallState.mk.inj hstate
        have hrest := ih s'
        dsimp only at hrest
        rw [hpayload,herrors] at hrest
        exact ⟨hkeeps ▸ hrest.1,hrest.2⟩
      | _ => rw [hstep] at hplain; cases hplain

/-- The loop with its messages returns what the loop without them does. -/
theorem iterations_plain (replies : ℕ → Reply) (remaining n : ℕ) (s : LoopState) :
    iterations S schema_errors t.name (ofTool t) replies remaining n s =
      ToolLoop.iterations S schema_errors t (fun k => (replies (k-1)).plain) remaining (n+1)
        s.last_payload s.errors_per_iter s.last_iter_errors := by
  induction remaining generalizing n s with
  | zero => rfl
  | succ remaining ih =>
    rw [iterations,ToolLoop.iterations,Nat.add_sub_cancel]
    cases replies n with
    | recoverable exc => exact ih (n+1) _
    | fatal => rfl
    | message content calls =>
      cases calls with
      | nil => exact ih (n+1) _
      | cons call calls =>
        have hcalls := toolCalls_plain S schema_errors t (call::calls)
          { s with iter_errors := [], messages := s.messages ++ [.ai content (call::calls)] }
        dsimp only at hcalls
        obtain ⟨hkeeps,hplain⟩ := hcalls
        unfold iterate
        dsimp only [Reply.plain]
        rw [List.map_cons] at hplain ⊢
        dsimp only
        rw [← hplain]
        cases hstep : toolCalls S schema_errors t.name (ofTool t) (call::calls)
            { s with iter_errors := [], messages := s.messages ++ [.ai content (call::calls)] } with
        | raised => rfl
        | success payload s' =>
          rw [hstep] at hkeeps
          have hkept : s'.errors_per_iter = s.errors_per_iter := hkeeps
          simp only [Step.plain,hkept]
        | next s' =>
          rw [hstep] at hkeeps
          have hkept : s'.errors_per_iter = s.errors_per_iter := hkeeps
          have hrest := ih (n+1) s'.endIteration
          simp only [LoopState.endIteration,hkept] at hrest
          simp only [Step.plain,LoopState.endIteration,hkept]
          exact hrest

theorem complete_with_tools_plain (system prompt : Str) (max_iterations : ℕ)
    (replies : ℕ → Reply) :
    complete_with_tools S schema_errors t.name [ofTool t] system prompt max_iterations replies =
    ToolLoop.complete_with_tools S schema_errors t max_iterations
      fun k => (replies (k-1)).plain := by
  have hfind : [ofTool t].find? (fun tool => tool.name = t.name) = some (ofTool t) :=
    List.find?_cons_of_pos (decide_eq_true rfl)
  rw [complete_with_tools,hfind]
  exact iterations_plain replies max_iterations 0 (start system prompt)

end Plain

end ToolMessages
end Dataspoke
