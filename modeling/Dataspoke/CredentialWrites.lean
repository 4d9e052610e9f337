import Dataspoke.ApiTokens
import Dataspoke.Interleave

/-!
# Requests on the credentials of one user

The requests that check and create credentials of a user, cut where they await the
database, the mail server or Redis. `lock_user` waits for the row lock, a statement reads
what is committed, and a transaction takes effect at its commit.
-/

namespace Dataspoke
namespace Auth
namespace Credentials

open Python Interleave Transition

/-- The digests: `_hash`, `_hash_password` with a salt, `bcrypt.checkpw`. -/
structure Digests extends Hashing where
  hash_password : Str → Str → Str
  checkpw : Str → Str → Bool

structure ResetToken where
  token_hash : Str
  user_id : Str
  expires_at : ℕ
  used_at : Option ℕ

structure State where
  user : User
  api_tokens : Table ApiToken.id
  reset_tokens : Table ResetToken.token_hash
  /-- The request that holds the lock on the row of the user. -/
  locked : Option ℕ
  /-- The session tokens that have been issued, each with the binds committed before the
  read that authorised it. -/
  issued : List (Payload × ℕ)
  /-- The hashes of the reset tokens drawn so far. -/
  drawn : List Str
  /-- The binds of a Google identity that have been committed. -/
  binds : ℕ
  password_since : ℕ
  token_since : ℕ → ℕ
  reset_since : Str → ℕ
  /-- The credentials accepted and the writes committed, by the binds before the read that
  authorised each and the binds at the time. -/
  accepted : List (ℕ × ℕ)
  /-- The reset tokens consumed. -/
  consumed : List Str

inductive Request
  | post_api_tokens (bearer : Bearer) (name : Str) (expires_at : Option ℕ)
  | delete_api_token (bearer : Bearer) (token_id : ℕ)
  | patch_me (bearer : Bearer) (password : Str)
  | post_token (password : Str)
  | post_token_refresh (cookie : Option Payload)
  | issue_reset_token
  | confirm_reset (raw new_password : Str)
  | bind_google_identity (sub : Str)
  /-- Any other request that has to be authenticated. -/
  | other (bearer : Bearer)

/-- A credential-creating write of an authenticated caller. -/
inductive Operation
  | mint (name : Str) (expires_at : Option ℕ)
  | update_password (password : Str)

inductive Write
  | none
  | password (password_hash : Str)
  | api_token (token : ApiToken)
  | reset_token (row : ResetToken)
  | consume (token_hash password_hash : Str) (now : ℕ)
  | bind (sub : Str) (session_epoch : ℤ) (ids : List ℕ) (hashes : List Str) (now : ℕ)

/-- Where a request stands; `since` are the binds before the read that authorised it, and
from `holding` on it holds the lock, but for the branch of the session tokens and that of
the revocation. -/
inductive Phase
  | start (r : Request)
  | waiting (since : ℕ) (ctx : AuthContext) (op : Operation)
  | holding (since : ℕ) (ctx : AuthContext) (op : Operation) (user : User)
  | validated (since : ℕ) (op : Operation) (user : User)
  | counted (since : ℕ) (name : Str) (expires_at : Option ℕ) (user : User)
  /-- The mail with the reset token is under way. -/
  | mailing (since : ℕ) (epoch_at_read : ℤ) (token_hash : Str) (expires_at : ℕ)
  | mailed (since : ℕ) (epoch_at_read : ℤ) (token_hash : Str) (expires_at : ℕ)
  | comparing (since : ℕ) (epoch_at_read : ℤ) (token_hash : Str) (expires_at : ℕ) (user : User)
  | confirming (since : ℕ) (token_hash new_password : Str)
  | rereading (since : ℕ) (token_hash new_password : Str)
  | consuming (since : ℕ) (token_hash new_password : Str)
  | binding (sub : Str) (user : User)
  | revoking_all (sub : Str) (session_epoch : ℤ)
  | deleting_unused (sub : Str) (session_epoch : ℤ) (ids : List ℕ)
  | committing (since : ℕ) (w : Write)
  | refreshing (payload : Payload)
  /-- The row that the session tokens will be issued from. -/
  | issuing (since : ℕ) (user : User)
  | revoking (user_id : Str) (token_id : ℕ)
  | revoked (ids : List ℕ) (now : ℕ)
  | done

structure Input where
  now : ℕ
  raw : Str
  id : ℕ
  refresh_revoked : Bool
  error : Bool

variable (H : Digests) (settings : Settings)

def State.users (s : State) : Table User.id := (Table.empty User.id).put s.user

/-- Only what has been issued carries a signature. -/
def State.verify (s : State) (signed : Option Payload) : Option Payload :=
  signed.filter fun p => s.issued.any (·.1 = p)

def State.authenticate (s : State) (now : ℕ) : Bearer → Except Refusal AuthContext
  | .api_token raw => require_authenticated H.toHashing s.users s.api_tokens now (.api_token raw)
  | .jwt signed =>
    require_authenticated H.toHashing s.users s.api_tokens now (.jwt (s.verify signed))

/-- The binds before the read that authorised a session token. -/
def State.issuedSince (s : State) (payload : Payload) : ℕ :=
  ((s.issued.find? fun e => e.1 = payload).map (·.2)).getD 0

def State.bearerSince (s : State) (ctx : AuthContext) : Bearer → ℕ
  | .api_token _ => (ctx.api_token_id.map s.token_since).getD 0
  | .jwt signed => (signed.map s.issuedSince).getD 0

def State.accept (s : State) (since : ℕ) : State :=
  { s with accepted := (since,s.binds)::s.accepted }

def State.release (s : State) (i : ℕ) : State :=
  if s.locked = some i then { s with locked := none } else s

def load_valid_token (s : State) (token_hash : Str) (now : ℕ) : Option ResetToken :=
  (s.reset_tokens.get? token_hash).filter fun row =>
    row.user_id = s.user.id && row.used_at.isNone && now < row.expires_at

/-- `lock_user`, which reads the row once it has the lock. -/
def lock_user (i : ℕ) (s : State) (k : User → Phase) : Option (State × Phase) :=
  if s.locked = none then some ({ s with locked := some i },k s.user) else none

def authenticated (a : Input) (s : State) (bearer : Bearer) (k : AuthContext → Phase) :
    State × Phase :=
  match s.authenticate H a.now bearer with
  | .error _ => (s,.done)
  | .ok ctx => (s.accept (s.bearerSince ctx bearer),k ctx)

def start (i : ℕ) (a : Input) (s : State) : Request → Option (State × Phase)
  | .post_api_tokens bearer name expires_at =>
    some (authenticated H a s bearer fun ctx => .waiting s.binds ctx (.mint name expires_at))
  | .delete_api_token bearer token_id =>
    some (authenticated H a s bearer fun ctx => .revoking ctx.user.id token_id)
  | .patch_me bearer password =>
    some (authenticated H a s bearer fun ctx => .waiting s.binds ctx (.update_password password))
  | .post_token password =>
    match s.user.password_hash with
    | none => some (s,.done)
    | some password_hash =>
      if H.checkpw password password_hash then
        some (s.accept s.password_since,.issuing s.binds s.user)
      else some (s,.done)
  | .post_token_refresh cookie =>
    match decode_refresh_token a.now (s.verify cookie) with
    | .error _ => some (s,.done)
    | .ok payload =>
      if a.refresh_revoked ∨ payload.sub ≠ s.user.id then some (s,.done)
      else some (s,.refreshing payload)
  | .issue_reset_token =>
    some (s,.mailing s.binds s.user.session_epoch (H.hash a.raw) (a.now+15*60*second))
  | .confirm_reset raw new_password =>
    match load_valid_token s (H.hash raw) a.now with
    | none => some (s,.done)
    | some row =>
      some (s.accept (s.reset_since row.token_hash),
        .confirming s.binds row.token_hash new_password)
  | .bind_google_identity sub => lock_user i s fun user => .binding sub user
  | .other bearer => some (authenticated H a s bearer fun _ => .done)

def State.commit (s : State) (since : ℕ) : Write → State
  | .none => s
  | .password password_hash =>
    { s.accept since with
      user := { s.user with password_hash := some password_hash }
      password_since := since }
  | .api_token token =>
    { s.accept since with
      api_tokens := s.api_tokens.put token
      token_since := Function.update s.token_since token.id since }
  | .reset_token row =>
    { s.accept since with
      reset_tokens := s.reset_tokens.put row
      reset_since := Function.update s.reset_since row.token_hash since
      drawn := row.token_hash::s.drawn }
  | .consume token_hash password_hash now =>
    { s.accept since with
      user := { s.user with password_hash := some password_hash }
      password_since := since
      reset_tokens := s.reset_tokens.modify (fun r => decide (r.token_hash = token_hash))
        (fun r => { r with used_at := some now }) fun _ => rfl
      consumed := token_hash::s.consumed }
  | .bind sub session_epoch ids hashes now =>
    { s with
      user := { s.user with
        google_sub := some sub, password_hash := Option.none, session_epoch := session_epoch }
      api_tokens := set_revoked s.api_tokens ids now
      reset_tokens := s.reset_tokens.remove fun r => decide (r.token_hash ∈ hashes)
      binds := s.binds+1 }

/-- `issue_access_token` and `issue_refresh_token` from a row that was read. -/
def State.issue (s : State) (since now : ℕ) (user : User) : State :=
  { s with
    issued := (issue_access_token settings now user.id user.email user.session_epoch,since)::
      (issue_refresh_token settings now user.id user.session_epoch,since)::s.issued }

def active_ids (s : State) : List ℕ :=
  (s.api_tokens.rows.filter (·.active s.user.id)).map (·.id)

def unused_hashes (s : State) : List Str :=
  (s.reset_tokens.rows.filter fun r => r.user_id = s.user.id && r.used_at.isNone).map
    (·.token_hash)

/-- A step that fails rolls back the transaction of the request. -/
def fail (i : ℕ) (s : State) : Phase → Option (State × Phase)
  | .done => none
  | _ => some (s.release i,.done)

/-- A step that succeeds; no two tokens are drawn alike. -/
def advance (i : ℕ) (a : Input) (s : State) : Phase → Option (State × Phase)
  | .start r => start H i a s r
  | .waiting since ctx op => lock_user i s fun user => .holding since ctx op user
  | .holding since ctx op user =>
    match revalidate s.api_tokens ctx user with
    | .error _ => some (s.release i,.done)
    | .ok _ => some (s,.validated since op user)
  | .validated since (.mint name expires_at) user =>
    if max_active_per_user ≤ active_count s.api_tokens user.id then some (s.release i,.done)
    else some (s,.counted since name expires_at user)
  | .counted since name expires_at user =>
    if taken H.toHashing s.api_tokens a.raw a.id then some (s.release i,.done)
    else some (s,.committing since
      (.api_token (new_token H.toHashing user.id user.role name expires_at a.raw a.id)))
  | .validated since (.update_password password) _ =>
    some (s,.committing since (.password (H.hash_password password a.raw)))
  | .mailing since epoch token_hash expires_at => some (s,.mailed since epoch token_hash expires_at)
  | .mailed since epoch token_hash expires_at =>
    lock_user i s fun user => .comparing since epoch token_hash expires_at user
  | .comparing since epoch token_hash expires_at user =>
    if user.session_epoch ≠ epoch then some (s,.committing since .none)
    else if token_hash ∈ s.drawn then none
    else some (s,.committing since (.reset_token ⟨token_hash,user.id,expires_at,none⟩))
  | .confirming since token_hash new_password =>
    lock_user i s fun _ => .rereading since token_hash new_password
  | .rereading since token_hash new_password =>
    match load_valid_token s token_hash a.now with
    | none => some (s.release i,.done)
    | some row => some (s.accept (s.reset_since row.token_hash),
        .consuming since row.token_hash new_password)
  | .consuming since token_hash new_password =>
    some (s,.committing since
      (.consume token_hash (H.hash_password new_password a.raw) a.now))
  | .binding sub user =>
    match user.google_sub with
    | some google_sub =>
      if google_sub ≠ sub then some (s.release i,.done) else some (s,.committing s.binds .none)
    | none => some (s,.revoking_all sub (user.session_epoch+1))
  | .revoking_all sub session_epoch =>
    some (s,.deleting_unused sub session_epoch (active_ids s))
  | .deleting_unused sub session_epoch ids =>
    some (s,.committing s.binds (.bind sub session_epoch ids (unused_hashes s) a.now))
  | .committing since w => some ((s.commit since w).release i,.done)
  | .refreshing payload =>
    if session_epoch_matches payload.ses s.user.session_epoch then
      some (s.accept (s.issuedSince payload),.issuing s.binds s.user)
    else some (s,.done)
  | .issuing since user => some (s.issue settings since a.now user,.done)
  | .revoking user_id token_id =>
    match revoke s.api_tokens token_id (some user_id) a.now with
    | .error _ => some (s,.done)
    | .ok _ =>
      some (s,.revoked (if is_active s.api_tokens token_id then [token_id] else []) a.now)
  | .revoked ids now => some ({ s with api_tokens := set_revoked s.api_tokens ids now },.done)
  | .done => none

def requests : Program State Phase Input := fun i a s p =>
  if a.error then fail i s p else advance H settings i a s p

end Credentials
end Auth
end Dataspoke
