import Dataspoke.Pydantic

/-!
# The tool loop of the LLM client

`LLMClient.complete_with_tools` over arbitrary replies of the model. The prompts and the
messages that are sent back are left out: the replies may depend on them in any way.
-/

namespace Dataspoke
namespace ToolLoop

open Python Pydantic

structure ToolCall where
  name : Str
  args : List (Str × Json)

/-- What one call of the model brings: one of `_RECOVERABLE_EXCEPTIONS`, an exception that
bubbles up, or a message with its tool calls. -/
inductive Reply
  | recoverable (exc : String)
  | fatal
  | message (tool_calls : List ToolCall)

/-- A tool: it raises a recoverable exception, or returns its errors; `ok` when it has
none. -/
structure Tool where
  name : Str
  ainvoke : List (Str × Json) → Except String (List ValidationError)

structure LoopTrace where
  iterations : ℕ
  errors_per_iter : List (List ValidationError)
  final_errors : List ValidationError

structure LoopResult where
  payload : Json
  trace : LoopTrace

def iterationError (exc : String) : ValidationError := ⟨[],"ITERATION_ERROR",[.text exc]⟩

variable {α : Type} (S : Schema α) (schema_errors : Json → List ValidationError)
  (tool_obj : Tool)

/-- The first 64 characters of a tool name the model made up. -/
def callName (call : ToolCall) : Str := call.name.take 64

/-- `args` after its payload has been changed in place into `payload`. -/
def withPayload (args : List (Str × Json)) (payload : Json) : List (Str × Json) :=
  match get? "payload".toList args with
  | some _ => args.map fun kv => if kv.1 = "payload".toList then (kv.1,payload) else kv
  | none => match payload with
    | .obj items => items
    | _ => args

/-- What one tool call does: it raises, it ends the loop with a payload, or it adds to the
errors of the iteration and may leave a payload behind. -/
inductive CallOutcome
  | raised
  | success (payload : Json)
  | failure (payload : Option Json) (errors : List ValidationError)

def toolCall (call : ToolCall) : CallOutcome :=
  if callName call ≠ tool_obj.name then
    .failure none [⟨[],"WRONG_TOOL",[.text "called ",.text (String.ofList (callName call)),
      .text " but only ",.text (String.ofList tool_obj.name),.text " is permitted"]⟩]
  else
    let candidate_payload := (get? "payload".toList call.args).getD (.obj call.args)
    match S.model_validate candidate_payload with
    | none => .raised
    | some (payload,none) => .failure (some payload) (schema_errors payload)
    | some (payload,some _) =>
      match tool_obj.ainvoke (withPayload call.args payload) with
      | .error exc => .failure (some payload) [iterationError exc]
      | .ok [] => .success payload
      | .ok errors => .failure (some payload) errors

/-- The state of the loop: `last_payload` and `iter_errors`. -/
structure CallState where
  last_payload : Json
  iter_errors : List ValidationError

/-- The tool calls of one message: `none` when one raises, the payload when one succeeds. -/
def toolCalls : List ToolCall → CallState → Option (Option Json × CallState)
  | [], s => some (none,s)
  | call::calls, s =>
    match toolCall S schema_errors tool_obj call with
    | .raised => none
    | .success payload => some (some payload,{ s with last_payload := payload })
    | .failure payload errors =>
      toolCalls calls ⟨payload.getD s.last_payload,s.iter_errors ++ errors⟩

/-- The iterations from `iteration` on, of which `remaining` are left. `none` when an
exception bubbles up. -/
def iterations (replies : ℕ → Reply) :
    (remaining iteration : ℕ) → Json → List (List ValidationError) → List ValidationError →
      Option LoopResult
  | 0, iteration, last_payload, errors_per_iter, last_iter_errors =>
    some ⟨last_payload,iteration - 1,errors_per_iter,last_iter_errors⟩
  | remaining+1, iteration, last_payload, errors_per_iter, _ =>
    match replies iteration with
    | .fatal => none
    | .recoverable exc =>
      let iter_errors := [iterationError exc]
      iterations replies remaining (iteration+1) last_payload
        (errors_per_iter ++ [iter_errors]) iter_errors
    | .message [] =>
      let iter_errors := [⟨[],"NO_TOOL_CALL",[.text "must call ",
        .text (String.ofList tool_obj.name),.text " before returning"]⟩]
      iterations replies remaining (iteration+1) last_payload
        (errors_per_iter ++ [iter_errors]) iter_errors
    | .message tool_calls =>
      match toolCalls S schema_errors tool_obj tool_calls ⟨last_payload,[]⟩ with
      | none => none
      | some (some payload,s) =>
        some ⟨payload,iteration,errors_per_iter ++ [s.iter_errors],[]⟩
      | some (none,s) =>
        iterations replies remaining (iteration+1) s.last_payload
          (errors_per_iter ++ [s.iter_errors]) s.iter_errors

/-- `complete_with_tools` with one tool, which every caller gives as its success tool. -/
def complete_with_tools (max_iterations : ℕ) (replies : ℕ → Reply) : Option LoopResult :=
  iterations S schema_errors tool_obj replies max_iterations 1 (.obj []) [] []

end ToolLoop
end Dataspoke
