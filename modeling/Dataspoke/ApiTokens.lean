import Dataspoke.AuthTokens
import Dataspoke.Table
import Dataspoke.Transition

/-!
# API tokens

The rows of `users` and `api_tokens`, the authentication of a request, and what minting and
revoking a token do.
-/

namespace Dataspoke
namespace Auth
namespace Credentials

open Python Transition

inductive Role
  | Reader
  | Editor
  | Admin
  deriving DecidableEq

/-- `_role_rank`. -/
def Role.rank : Role → ℕ
  | .Reader => 0
  | .Editor => 1
  | .Admin => 2

def intersect_role (snapshot current : Role) : Role :=
  if snapshot.rank ≤ current.rank then snapshot else current

structure User where
  id : Str
  email : Str
  role : Role
  password_hash : Option Str
  google_sub : Option Str
  session_epoch : ℤ

structure ApiToken where
  id : ℕ
  user_id : Str
  name : Str
  token_hash : Str
  role_snapshot : Role
  expires_at : Option ℕ
  revoked_at : Option ℕ

inductive Refusal
  | auth (e : AuthError)
  | invalid_api_token
  | token_revoked
  | token_expired
  | token_limit_exceeded
  | entity_not_found
  | integrity_error
  deriving DecidableEq

/-- What a request carries in its `Authorization` header: a text with the prefix `dsk_`, or
the payload that the signature check of a JWT yields. -/
inductive Bearer
  | api_token (raw : Str)
  | jwt (payload : Option Payload)

structure AuthContext where
  user : User
  effective_role : Role
  session_epoch : Option ℤ
  api_token_id : Option ℕ

structure Hashing where
  hash : Str → Str

variable (H : Hashing) (users : Table User.id) (tokens : Table ApiToken.id)

def max_active_per_user : ℕ := 10

def ApiToken.active (token : ApiToken) (user_id : Str) : Bool :=
  token.user_id = user_id && token.revoked_at.isNone

def active_count (user_id : Str) : ℕ := tokens.rows.countP (·.active user_id)

/-- The row `mint` inserts; the random text and the new id come from outside. -/
def new_token (user_id : Str) (role : Role) (name : Str) (expires_at : Option ℕ) (raw : Str)
    (id : ℕ) : ApiToken := ⟨id,user_id,name,H.hash raw,role,expires_at,none⟩

/-- The row is refused for its id or its hash. -/
def taken (raw : Str) (id : ℕ) : Bool :=
  tokens.rows.any fun t => t.id = id || t.token_hash = H.hash raw

def mint (user_id name : Str) (expires_at : Option ℕ) (raw : Str) (id : ℕ) :
    Except Refusal ApiToken :=
  match users.get? user_id with
  | none => .error .entity_not_found
  | some user =>
    if max_active_per_user ≤ active_count tokens user_id then .error .token_limit_exceeded
    else if taken H tokens raw id then .error .integrity_error
    else .ok (new_token H user_id user.role name expires_at raw id)

def is_active (token_id : ℕ) : Bool :=
  match tokens.get? token_id with
  | none => false
  | some token => token.revoked_at.isNone

/-- `UPDATE api_tokens SET revoked_at = now` of the rows with an id in `ids`. -/
def set_revoked (ids : List ℕ) (now : ℕ) : Table ApiToken.id :=
  tokens.modify (fun t => decide (t.id ∈ ids)) (fun t => { t with revoked_at := some now })
    fun _ => rfl

def revoke (token_id : ℕ) (owner_user_id : Option Str) (now : ℕ) :
    Except Refusal (Table ApiToken.id) :=
  match tokens.get? token_id with
  | none => .error .entity_not_found
  | some token =>
    if owner_user_id.any (· ≠ token.user_id) then .error .entity_not_found
    else if token.revoked_at.isSome then .ok tokens
    else .ok (set_revoked tokens [token_id] now)

def lookup_and_validate (now : ℕ) (raw : Str) : Except Refusal (User × Role × ℕ) :=
  match tokens.rows.find? fun t => t.token_hash = H.hash raw with
  | none => .error .invalid_api_token
  | some token =>
    match users.get? token.user_id with
    | none => .error .invalid_api_token
    | some user =>
      if token.revoked_at.isSome then .error .token_revoked
      else if token.expires_at.any (· ≤ now) then .error .token_expired
      else .ok (user,intersect_role token.role_snapshot user.role,token.id)

def require_authenticated (now : ℕ) : Bearer → Except Refusal AuthContext
  | .api_token raw =>
    match lookup_and_validate H users tokens now raw with
    | .error e => .error e
    | .ok (user,effective_role,token_id) => .ok ⟨user,effective_role,none,some token_id⟩
  | .jwt signed =>
    match decode_access_token now signed with
    | .error e => .error (.auth e)
    | .ok payload =>
      match users.get? payload.sub with
      | none => .error (.auth (.unauthorized "User no longer exists."))
      | some user =>
        if session_epoch_matches payload.ses user.session_epoch then
          .ok ⟨user,user.role,some user.session_epoch,none⟩
        else .error (.auth (.unauthorized "Session is no longer valid."))

/-- What `revalidate_under_user_lock` checks once it holds the lock on the row `user`. -/
def revalidate (ctx : AuthContext) (user : User) : Except Refusal Unit :=
  match ctx.api_token_id with
  | some token_id => if is_active tokens token_id then .ok () else .error .token_revoked
  | none =>
    if session_epoch_matches ((ctx.session_epoch.map SesClaim.int).getD .absent)
        user.session_epoch then .ok ()
    else .error (.auth (.unauthorized "Session is no longer valid."))

def revalidate_under_user_lock (ctx : AuthContext) : Except Refusal User :=
  match users.get? ctx.user.id with
  | none => .error (.auth (.unauthorized "User no longer exists."))
  | some user => (revalidate tokens ctx user).map fun _ => user

theorem intersect_role_rank (snapshot current : Role) :
    (intersect_role snapshot current).rank = min snapshot.rank current.rank := by
  rw [intersect_role]
  by_cases h : snapshot.rank ≤ current.rank
  · rw [if_pos h,min_eq_left h]
  · rw [if_neg h,min_eq_right (by omega)]

variable {H users tokens}

theorem taken_eq_false {raw : Str} {id : ℕ} : taken H tokens raw id = false ↔
    ∀ t ∈ tokens.rows, t.id ≠ id ∧ t.token_hash ≠ H.hash raw := by
  simp [taken]

/-- Minting stamps the owner's role of the moment. -/
theorem mint_eq_ok {user_id name : Str} {expires_at : Option ℕ} {raw : Str} {id : ℕ}
    {token : ApiToken} :
    mint H users tokens user_id name expires_at raw id = .ok token ↔
      ∃ user, users.get? user_id = some user ∧ active_count tokens user_id < max_active_per_user ∧
        (∀ t ∈ tokens.rows, t.id ≠ id ∧ t.token_hash ≠ H.hash raw) ∧
        token = new_token H user_id user.role name expires_at raw id := by
  rw [mint]
  cases users.get? user_id with
  | none => simp
  | some user =>
    simp only [Option.some.injEq,exists_eq_left']
    by_cases hc : max_active_per_user ≤ active_count tokens user_id
    · rw [if_pos hc]
      constructor
      · nofun
      · rintro ⟨h,-⟩
        omega
    · rw [if_neg hc]
      by_cases hi : taken H tokens raw id = true
      · rw [if_pos hi]
        constructor
        · nofun
        · rintro ⟨-,h,-⟩
          exact absurd hi (taken_eq_false.mpr h ▸ Bool.false_ne_true)
      · rw [if_neg hi,Except.ok.injEq]
        constructor
        · rintro rfl
          exact ⟨by omega,taken_eq_false.mp (Bool.eq_false_iff.mpr hi),rfl⟩
        · exact fun h => h.2.2.symm

theorem lookup_and_validate_eq_ok {now : ℕ} {raw : Str} {user : User} {role : Role} {id : ℕ} :
    lookup_and_validate H users tokens now raw = .ok (user,role,id) ↔
      ∃ token, tokens.rows.find? (fun t => t.token_hash = H.hash raw) = some token ∧
        users.get? token.user_id = some user ∧ token.revoked_at = none ∧
        (∀ e, token.expires_at = some e → now < e) ∧
        role = intersect_role token.role_snapshot user.role ∧ id = token.id := by
  rw [lookup_and_validate]
  cases tokens.rows.find? fun t => t.token_hash = H.hash raw with
  | none => simp
  | some token =>
    simp only [Option.some.injEq,exists_eq_left']
    cases users.get? token.user_id with
    | none => simp
    | some owner =>
      have hout : (.ok (owner,intersect_role token.role_snapshot owner.role,token.id) :
          Except Refusal (User × Role × ℕ)) = .ok (user,role,id) ↔
          owner = user ∧ role = intersect_role token.role_snapshot user.role ∧ id = token.id := by
        simp only [Except.ok.injEq,Prod.mk.injEq]
        constructor <;> (rintro ⟨rfl,rfl,rfl⟩; exact ⟨rfl,rfl,rfl⟩)
      simp only [Option.some.injEq]
      cases hr : token.revoked_at with
      | some r => simp
      | none =>
        cases he : token.expires_at with
        | none => simpa using hout
        | some e =>
          by_cases hlt : now < e
          · simpa [hlt,not_le.mpr hlt] using hout
          · simp [hlt,not_lt.mp hlt]

theorem get?_set_revoked {ids : List ℕ} {now k : ℕ} :
    (set_revoked tokens ids now).get? k = (tokens.get? k).map fun t =>
      if t.id ∈ ids then { t with revoked_at := some now } else t := by
  rw [set_revoked,Table.get?_modify]
  simp

/-- A revocation changes no owner and no role. -/
theorem revoke_keeps {token_id : ℕ} {owner_user_id : Option Str} {now : ℕ}
    {tokens' : Table ApiToken.id} (h : revoke tokens token_id owner_user_id now = .ok tokens') :
    tokens' = tokens ∨ tokens' = set_revoked tokens [token_id] now := by
  rw [revoke] at h
  cases ht : tokens.get? token_id with
  | none =>
    rw [ht] at h
    cases h
  | some token =>
    rw [ht] at h
    dsimp only at h
    by_cases ho : owner_user_id.any (· ≠ token.user_id) = true
    · rw [if_pos ho] at h
      cases h
    · rw [if_neg ho] at h
      by_cases hr : token.revoked_at.isSome = true
      · rw [if_pos hr] at h
        exact .inl (Except.ok.inj h).symm
      · rw [if_neg hr] at h
        exact .inr (Except.ok.inj h).symm

end Credentials
end Auth
end Dataspoke
