import Mathlib.Data.List.Infix
import Mathlib.Tactic.Common

/-!
# Emissions

Writes to a remote that accepts or refuses each of them by what it has been asked before: in
turn until one is refused, or each whatever becomes of the others.
-/

namespace Dataspoke
namespace Emission

variable {ω ε : Type*}

/-- The writes that were attempted, each with the error it was refused with. -/
abbrev Attempts (ω ε : Type*) := List (ω × Option ε)

/-- The answer to a write after the attempts before it. -/
abbrev Remote (ω ε : Type*) := Attempts ω ε → ω → Option ε

section Emit

variable (remote : Remote ω ε)

def emit (w : ω) (log : Attempts ω ε) : Attempts ω ε × Option ε :=
  (log++[(w,remote log w)],remote log w)

def emitAll : List ω → Attempts ω ε → Attempts ω ε × Option ε
  | [], log => (log,none)
  | w::ws, log =>
    match emit remote w log with
    | (log,some e) => (log,some e)
    | (log,none) => emitAll ws log

def emitEach (ws : List ω) (log : Attempts ω ε) : Attempts ω ε :=
  ws.foldl (fun log w => (emit remote w log).1) log

end Emit

section Attempted

/-- Attempts in turn: the writes up to the first one that is refused. -/
inductive InTurn : List ω → Attempts ω ε → Option ε → Prop
  | nil : InTurn [] [] none
  | refused (w : ω) (ws : List ω) (e : ε) : InTurn (w::ws) [(w,some e)] (some e)
  | accepted (w : ω) {ws : List ω} {log : Attempts ω ε} {o : Option ε} :
      InTurn ws log o → InTurn (w::ws) ((w,none)::log) o

variable {ws : List ω} {log : Attempts ω ε} {o : Option ε} {e : ε}

theorem InTurn.all (h : InTurn ws log none) : log = ws.map (·,none) := by
  generalize ho : (none : Option ε) = o at h
  induction h with
  | nil => rfl
  | refused => cases ho
  | accepted w _ ih => rw [ih ho,List.map_cons,← ho]

theorem InTurn.attempted_prefix (h : InTurn ws log o) : log.map Prod.fst <+: ws := by
  induction h with
  | nil => exact List.prefix_refl []
  | refused w ws e => exact ⟨ws,rfl⟩
  | accepted w _ ih => exact List.cons_prefix_cons.mpr ⟨rfl,ih⟩

theorem InTurn.mem (h : InTurn ws log o) {a : ω × Option ε} (ha : a ∈ log) : a.1 ∈ ws :=
  h.attempted_prefix.subset (List.mem_map_of_mem ha)

/-- A write is refused only as the last one. -/
theorem InTurn.refused_mem (h : InTurn ws log (some e)) : ∃ w ∈ ws, (w,some e) ∈ log := by
  generalize ho : some e = o at h
  induction h with
  | nil => cases ho
  | refused w ws e' =>
    cases ho
    exact ⟨w,List.mem_cons_self,List.mem_singleton.mpr rfl⟩
  | accepted w _ ih =>
    obtain ⟨w',hw',hmem⟩ := ih ho
    exact ⟨w',List.mem_cons_of_mem _ hw',List.mem_cons_of_mem _ hmem⟩

theorem InTurn.accepted_all (h : InTurn ws log none) {w : ω} (hw : w ∈ ws) : (w,none) ∈ log := by
  rw [h.all]
  exact List.mem_map_of_mem hw

variable (remote : Remote ω ε)

theorem emitAll_inTurn (ws : List ω) (log : Attempts ω ε) :
    ∃ attempts, (emitAll remote ws log).1 = log++attempts ∧
      InTurn ws attempts (emitAll remote ws log).2 := by
  induction ws generalizing log with
  | nil => exact ⟨[],(List.append_nil log).symm,.nil⟩
  | cons w ws ih =>
    rw [emitAll,emit]
    cases hanswer : remote log w with
    | some e => exact ⟨[(w,some e)],rfl,.refused w ws e⟩
    | none =>
      obtain ⟨attempts,hlog,hturn⟩ := ih (log++[(w,none)])
      exact ⟨(w,none)::attempts,by rw [hlog,List.append_assoc]; rfl,.accepted w hturn⟩

theorem emitEach_attempts (ws : List ω) (log : Attempts ω ε) :
    ∃ attempts, emitEach remote ws log = log++attempts ∧ attempts.map Prod.fst = ws := by
  induction ws generalizing log with
  | nil => exact ⟨[],(List.append_nil log).symm,rfl⟩
  | cons w ws ih =>
    obtain ⟨attempts,hlog,hattempts⟩ := ih (emit remote w log).1
    refine ⟨(w,remote log w)::attempts,?_,congrArg (w :: ·) hattempts⟩
    rw [emitEach,List.foldl_cons,← emitEach,hlog,emit,List.append_assoc]
    rfl

end Attempted

end Emission
end Dataspoke
