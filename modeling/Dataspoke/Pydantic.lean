import Dataspoke.Python
import Mathlib.Data.List.DropRight

/-!
# Model validation

The part of pydantic that the LLM output models use: fields are decoded from JSON in lax
mode, `none` stands for a `ValidationError`. Numeric strings are read by a parameter.
-/

namespace Dataspoke
namespace Pydantic

open Python

/-- A validation or tool error as `{path, code, message}`. -/
structure ValidationError where
  path : List Piece
  code : String
  message : List Piece

/-- A white space character in the sense of `str.trim`, which `strip_whitespace` calls. -/
def whitespace (c : Char) : Bool :=
  isspace c && !(28 ≤ c.toNat && c.toNat ≤ 31)

def strip (space : Char → Bool) (s : Str) : Str := (s.dropWhile space).rdropWhile space

/-- `str`, bounded by a length in characters. -/
def decodeStr (max : Option ℕ) : Json → Option Str
  | .str s => if (max.elim true fun n => s.length ≤ n) then some s else none
  | _ => none

/-- `constr(strip_whitespace=True, min_length=1, max_length=max)`. -/
def decodeName (max : ℕ) : Json → Option Str
  | .str s =>
    let s := strip whitespace s
    if 1 ≤ s.length ∧ s.length ≤ max then some s else none
  | _ => none

def decodeOptional {α : Type} (decode : Json → Option α) : Json → Option (Option α)
  | .null => some none
  | v => (decode v).map some

def decodeList {α : Type} (max : Option ℕ) (decode : Json → Option α) : Json → Option (List α)
  | .arr xs => if (max.elim true fun n => xs.length ≤ n) then xs.mapM decode else none
  | _ => none

/-- `Literal[...]` of strings. -/
def decodeLiteral (values : List String) : Json → Option Str
  | .str s => if s ∈ values.map String.toList then some s else none
  | _ => none

/-- `float` with `ge=0.0, le=1.0`; a NaN passes both bounds. -/
def decodeScore (parse : Str → Option Number) (v : Json) : Option Number :=
  let x := match v with
    | .num x => some x
    | .bool b => some (.fin (if b then 1 else 0))
    | .str s => parse s
    | _ => none
  x.bind fun x => if x.lt (.fin 0) || Number.lt (.fin 1) x then none else some x

def required {α : Type} (key : String) (decode : Json → Option α) (items : List (Str × Json)) :
    Option α :=
  (get? key.toList items).bind decode

def optional {α : Type} (key : String) (default : α) (decode : Json → Option α)
    (items : List (Str × Json)) : Option α :=
  match get? key.toList items with
  | none => some default
  | some v => decode v

/-- A model: its before-validator with the changes it makes in place, `none` where that
raises anything but a `ValidationError`, and the decoding of its fields. -/
structure Schema (α : Type) where
  before : Json → Option Json := some
  decode : Json → Option α

/-- `model_validate(v)`: what has become of `v`, and the model if `v` is valid. -/
def Schema.model_validate {α : Type} (S : Schema α) (v : Json) : Option (Json × Option α) :=
  (S.before v).map fun v => (v,S.decode v)

section RoundTrips

variable {α : Type}

/-- What the decoder returns, it accepts as `dump` writes it. -/
def Stable (decode : Json → Option α) (dump : α → Json) : Prop :=
  ∀ v x, decode v = some x → decode (dump x) = some x

theorem strip_strip (space : Char → Bool) (s : Str) :
    strip space (strip space s) = strip space s := by
  have hdrop : (strip space s).dropWhile space = strip space s := by
    cases h : strip space s with
    | nil => rfl
    | cons c t =>
      refine List.dropWhile_cons_of_neg fun hc => ?_
      obtain ⟨rest,hrest⟩ := List.rdropWhile_prefix space (s.dropWhile space)
      have hhead : (s.dropWhile space).head? = some c := by
        rw [← hrest]
        show (strip space s ++ rest).head? = some c
        rw [h]
        rfl
      have hnot := List.head?_dropWhile_not space s
      rw [hhead] at hnot
      exact Bool.noConfusion (hc.symm.trans hnot)
  show ((strip space s).dropWhile space).rdropWhile space = strip space s
  rw [hdrop]
  exact List.rdropWhile_idempotent space (s.dropWhile space)

theorem stable_decodeStr (max : Option ℕ) : Stable (decodeStr max) Json.str := by
  intro v x h
  cases v with
  | str s =>
    obtain ⟨hlen,hx⟩ := Option.ite_none_right_eq_some.mp h
    obtain rfl := Option.some.inj hx
    exact if_pos hlen
  | _ => cases h

theorem stable_decodeName (max : ℕ) : Stable (decodeName max) Json.str := by
  intro v x h
  cases v with
  | str s =>
    obtain ⟨hlen,hx⟩ := Option.ite_none_right_eq_some.mp h
    obtain rfl := Option.some.inj hx
    show ite _ _ _ = _
    rw [strip_strip]
    exact if_pos hlen
  | _ => cases h

theorem stable_decodeOptional {decode : Json → Option α} {dump : α → Json}
    (h : Stable decode dump) (hne : ∀ x, dump x ≠ .null) :
    Stable (decodeOptional decode) fun o => o.elim .null dump := by
  intro v x hx
  cases x with
  | none => rfl
  | some x =>
    have hsome : decodeOptional decode (dump x) = (decode (dump x)).map some := by
      cases hd : dump x with
      | null => exact absurd hd (hne x)
      | _ => rfl
    refine hsome.trans ?_
    cases v with
    | null => cases hx
    | _ =>
      obtain ⟨y,hy,he⟩ := Option.map_eq_some_iff.mp hx
      obtain rfl := Option.some.inj he
      rw [h _ _ hy]
      rfl

theorem decodeList_dump {decode : Json → Option α} {dump : α → Json} {max : Option ℕ} {xs : List α}
    (hmax : (max.elim true fun n => xs.length ≤ n) = true)
    (h : ∀ x ∈ xs, decode (dump x) = some x) :
    decodeList max decode (.arr (xs.map dump)) = some xs := by
  have hmapM : (xs.map dump).mapM decode = some xs := by
    clear hmax
    induction xs with
    | nil => rfl
    | cons x xs ih =>
      rw [List.map_cons,List.mapM_cons,h x List.mem_cons_self,
        ih fun y hy => h y (List.mem_cons_of_mem _ hy)]
      rfl
  rw [decodeList,List.length_map,if_pos hmax,hmapM]

theorem decodeList_some {decode : Json → Option α} {max : Option ℕ} {v : Json} {xs : List α}
    (h : decodeList max decode v = some xs) :
    (max.elim true fun n => xs.length ≤ n) = true ∧ ∃ vs, v = .arr vs ∧ vs.mapM decode = some xs := by
  cases v with
  | arr vs =>
    obtain ⟨hlen,hx⟩ := Option.ite_none_right_eq_some.mp h
    have hlength : xs.length = vs.length := by
      clear hlen h
      induction vs generalizing xs with
      | nil =>
        obtain rfl := Option.some.inj hx
        rfl
      | cons v vs ih =>
        rw [List.mapM_cons] at hx
        obtain ⟨y,hy,hx⟩ := Option.bind_eq_some_iff.mp hx
        obtain ⟨ys,hys,hx⟩ := Option.bind_eq_some_iff.mp hx
        obtain rfl := Option.some.inj hx
        rw [List.length_cons,List.length_cons,ih hys]
    rw [hlength]
    exact ⟨hlen,vs,rfl,hx⟩
  | _ => cases h

theorem stable_decodeList {decode : Json → Option α} {dump : α → Json} (max : Option ℕ)
    (h : Stable decode dump) : Stable (decodeList max decode) fun xs => .arr (xs.map dump) := by
  intro v xs hx
  obtain ⟨hmax,vs,-,hxs⟩ := decodeList_some hx
  refine decodeList_dump hmax fun x hx => ?_
  obtain ⟨w,-,hw⟩ := mem_mapM hxs hx
  exact h w x hw

theorem stable_decodeScore (parse : Str → Option Number) : Stable (decodeScore parse) Json.num := by
  intro v x h
  obtain ⟨y,-,hy⟩ := Option.bind_eq_some_iff.mp h
  split at hy
  · cases hy
  · rename_i hbound
    obtain rfl := Option.some.inj hy
    exact if_neg hbound

/-- A field that was set or defaulted is accepted as it is dumped. -/
theorem Stable.optional {decode : Json → Option α} {dump : α → Json} (h : Stable decode dump)
    {key : String} {default x : α} {items : List (Str × Json)}
    (hdefault : decode (dump default) = some default)
    (hx : Pydantic.optional key default decode items = some x) : decode (dump x) = some x := by
  unfold Pydantic.optional at hx
  split at hx
  · obtain rfl := Option.some.inj hx
    exact hdefault
  · exact h _ _ hx

theorem Stable.required {decode : Json → Option α} {dump : α → Json} (h : Stable decode dump)
    {key : String} {x : α} {items : List (Str × Json)}
    (hx : Pydantic.required key decode items = some x) : decode (dump x) = some x := by
  obtain ⟨v,-,hv⟩ := Option.bind_eq_some_iff.mp hx
  exact h v x hv

end RoundTrips

end Pydantic
end Dataspoke
