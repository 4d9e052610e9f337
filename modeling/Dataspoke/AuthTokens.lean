import Dataspoke.Python

/-!
# Session tokens

The claims of the signed tokens and the checks on them. `exp` is in seconds; the clock is
read in microseconds.
-/

namespace Dataspoke
namespace Auth

open Python

inductive SesClaim
  | absent
  | int (n : ℤ)
  | bool (b : Bool)
  | other
  deriving DecidableEq

structure Payload where
  sub : Str
  email : Option Str
  type : Option Str
  exp : ℕ
  iat : ℕ
  ses : SesClaim
  deriving DecidableEq

structure Settings where
  jwt_access_token_expire_minutes : ℕ
  jwt_refresh_token_expire_days : ℕ

def second : ℕ := 1000000

inductive AuthError
  | unauthorized (message : String)
  | invalidRefreshToken
  | storageUnavailable
  deriving DecidableEq

variable (settings : Settings)

def issue_access_token (now : ℕ) (user_id email : Str) (session_epoch : ℤ) : Payload :=
  ⟨user_id,some email,none,now/second+settings.jwt_access_token_expire_minutes*60,now/second,
    .int session_epoch⟩

def issue_refresh_token (now : ℕ) (user_id : Str) (session_epoch : ℤ) : Payload :=
  ⟨user_id,none,some "refresh".toList,
    now/second+settings.jwt_refresh_token_expire_days*86400,now/second,.int session_epoch⟩

def session_epoch_matches (claim : SesClaim) (current_epoch : ℤ) : Bool :=
  match claim with
  | .int n => n = current_epoch
  | _ => false

def Payload.expired (payload : Payload) (now : ℕ) : Prop := payload.exp*second ≤ now

instance (payload : Payload) (now : ℕ) : Decidable (payload.expired now) :=
  inferInstanceAs (Decidable (_ ≤ _))

/-- The payload that the signature check yields, decoded as an access token. -/
def decode_access_token (now : ℕ) (payload : Option Payload) : Except AuthError Payload :=
  match payload with
  | none => .error (.unauthorized "Invalid token.")
  | some payload =>
    if payload.expired now then .error (.unauthorized "Token has expired.")
    else if payload.type = some "refresh".toList then
      .error (.unauthorized "Refresh token cannot be used for authentication.")
    else .ok payload

/-- The payload that the signature check yields, decoded as a refresh token. -/
def decode_refresh_token (now : ℕ) (payload : Option Payload) : Except AuthError Payload :=
  match payload with
  | none => .error (.unauthorized "Invalid refresh token.")
  | some payload =>
    if payload.expired now then .error (.unauthorized "Refresh token has expired.")
    else if payload.type = some "refresh".toList then .ok payload
    else .error .invalidRefreshToken

theorem decode_refresh_token_eq_ok {now : ℕ} {signed : Option Payload} {payload : Payload} :
    decode_refresh_token now signed = .ok payload ↔
      signed = some payload ∧ ¬ payload.expired now ∧ payload.type = some "refresh".toList := by
  cases signed with
  | none => simp [decode_refresh_token]
  | some p =>
    simp only [decode_refresh_token,Option.some.injEq]
    by_cases he : p.expired now
    · constructor
      · intro h
        rw [if_pos he] at h
        cases h
      · rintro ⟨rfl,hn,-⟩
        exact absurd he hn
    · rw [if_neg he]
      by_cases ht : p.type = some "refresh".toList
      · rw [if_pos ht,Except.ok.injEq]
        exact ⟨fun h => h ▸ ⟨rfl,he,ht⟩,fun h => h.1⟩
      · rw [if_neg ht]
        constructor
        · intro h
          cases h
        · rintro ⟨rfl,-,h⟩
          exact absurd h ht

/-- The lifetime that is left, in whole seconds, `max(0, exp - int(now))`. -/
def Payload.ttl (payload : Payload) (now : ℕ) : ℕ := payload.exp-now/second

theorem Payload.exp_le_ttl (payload : Payload) (now : ℕ) :
    payload.exp*second ≤ now+payload.ttl now*second := by
  have h := Nat.div_mul_le_self now second
  rw [ttl,Nat.sub_mul]
  omega

end Auth
end Dataspoke
