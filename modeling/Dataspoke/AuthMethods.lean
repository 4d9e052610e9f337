import Dataspoke.CredentialWrites

/-!
# Sign-in methods

The operations that write the password hash and the Google subject of a user. Each runs in a
transaction of its own, which the caller commits.
-/

namespace Dataspoke
namespace Auth
namespace Methods

open Python Transition
open Credentials (User ApiToken ResetToken Digests set_revoked)

section Operations

structure Db where
  users : Table User.id
  api_tokens : Table ApiToken.id
  reset_tokens : Table ResetToken.token_hash

/-- The constraints that the two credential columns can violate. -/
inductive Constraint
  | ck_users_auth_method
  | uq_users_google_sub
  deriving DecidableEq

inductive Error
  | entity_not_found (user_id : Str)
  | conflict (error_code : String)
  | bad_request (error_code : String)
  | integrity (constraint : Constraint)
  deriving DecidableEq

/-- The outcome of an operation, and what its session sees then. -/
abbrev Outcome (α : Type) := Except Error α × Db

def flush (db : Db) (user : User) : Except Constraint Db :=
  if user.password_hash.isNone && user.google_sub.isNone then .error .ck_users_auth_method
  else if db.users.rows.any fun r =>
      r.id ≠ user.id && r.google_sub.isSome && r.google_sub = user.google_sub then
    .error .uq_users_google_sub
  else .ok { db with users := db.users.put user }

def update_password (db : Db) (user_id password_hash : Str) : Outcome Unit :=
  match db.users.get? user_id with
  | none => (.error (.entity_not_found user_id),db)
  | some user =>
    match flush db { user with password_hash := some password_hash } with
    | .error constraint => (.error (.integrity constraint),db)
    | .ok db => (.ok (),db)

structure GoogleBindResult where
  bound : Bool
  api_tokens_revoked : ℕ
  reset_tokens_deleted : ℕ

def active_ids (db : Db) (user_id : Str) : List ℕ :=
  (db.api_tokens.rows.filter (·.active user_id)).map (·.id)

def unused_hashes (db : Db) (user_id : Str) : List Str :=
  (db.reset_tokens.rows.filter fun r => r.user_id = user_id && r.used_at.isNone).map (·.token_hash)

/-- `revoke_all_for_user` and `delete_unused_for_user`. -/
def reset_credentials (db : Db) (user_id : Str) (now : ℕ) : Db :=
  { db with
    api_tokens := set_revoked db.api_tokens (active_ids db user_id) now
    reset_tokens := db.reset_tokens.remove fun r => decide (r.token_hash ∈ unused_hashes db user_id) }

def bind_google_identity (db : Db) (user_id sub : Str) (now : ℕ) : Outcome GoogleBindResult :=
  match db.users.get? user_id with
  | none => (.error (.entity_not_found user_id),db)
  | some user =>
    match user.google_sub with
    | some google_sub =>
      if google_sub ≠ sub then (.error (.conflict "EMAIL_BOUND_TO_ANOTHER_GOOGLE_ACCOUNT"),db)
      else (.ok ⟨false,0,0⟩,db)
    | none =>
      let row := { user with
        google_sub := some sub
        password_hash := none
        session_epoch := user.session_epoch+1 }
      -- a violated constraint rolls the session back
      match flush db row with
      | .error .uq_users_google_sub => (.error (.conflict "GOOGLE_ACCOUNT_LINKED_ELSEWHERE"),db)
      | .error constraint => (.error (.integrity constraint),db)
      | .ok db => (.ok ⟨true,(active_ids db user_id).length,(unused_hashes db user_id).length⟩,
          reset_credentials db user_id now)

structure GoogleUnbindResult where
  unbound : Bool

def unbind_google_identity (db : Db) (user_id : Str) : Outcome GoogleUnbindResult :=
  match db.users.get? user_id with
  | none => (.error (.entity_not_found user_id),db)
  | some user =>
    if user.google_sub.isNone then (.ok ⟨false⟩,db)
    else if user.password_hash.isNone then (.error (.conflict "GOOGLE_IS_ONLY_AUTH_METHOD"),db)
    else
      match flush db { user with google_sub := none, session_epoch := user.session_epoch+1 } with
      | .error constraint => (.error (.integrity constraint),db)
      | .ok db => (.ok ⟨true⟩,db)

def load_valid_token (db : Db) (token_hash : Str) (now : ℕ) : Option ResetToken :=
  (db.reset_tokens.get? token_hash).filter fun row => row.used_at.isNone && now < row.expires_at

/-- The clock is read for each of the two reads of the token, and for the stamp. -/
structure Clock where
  first : ℕ
  again : ℕ
  stamp : ℕ

variable (H : Digests)

def confirm_reset (db : Db) (raw_token new_password salt : Str) (clock : Clock) : Outcome Unit :=
  let invalid : Error := .bad_request "INVALID_RESET_TOKEN"
  let token_hash := H.hash raw_token
  match load_valid_token db token_hash clock.first with
  | none => (.error invalid,db)
  | some row =>
    if (db.users.get? row.user_id).isNone then (.error invalid,db)
    else
      match load_valid_token db token_hash clock.again with
      | none => (.error invalid,db)
      | some row =>
        match update_password db row.user_id (H.hash_password new_password salt) with
        | (.error e,db) => (.error e,db)
        | (.ok _,db) => (.ok (),{ db with
            reset_tokens := db.reset_tokens.put { row with used_at := some clock.stamp } })

inductive Operation
  | bind_google_identity (user_id sub : Str) (now : ℕ)
  | unbind_google_identity (user_id : Str)
  | confirm_reset (raw_token new_password salt : Str) (clock : Clock)
  | update_password (user_id password salt : Str)

/-- What an operation returns, as far as it says whether the identity was changed. -/
inductive Result
  | bind (r : GoogleBindResult)
  | unbind (r : GoogleUnbindResult)
  | unit

def Operation.run (db : Db) : Operation → Outcome Result
  | .bind_google_identity user_id sub now =>
    let (r,db) := Methods.bind_google_identity db user_id sub now
    (r.map .bind,db)
  | .unbind_google_identity user_id =>
    let (r,db) := Methods.unbind_google_identity db user_id
    (r.map .unbind,db)
  | .confirm_reset raw_token new_password salt clock =>
    let (r,db) := Methods.confirm_reset H db raw_token new_password salt clock
    (r.map fun _ => .unit,db)
  | .update_password user_id password salt =>
    let (r,db) := Methods.update_password db user_id (H.hash_password password salt)
    (r.map fun _ => .unit,db)

def methods : System Db Operation :=
  ofFun (fun _ => True) fun db op => some (op.run H db).2

end Operations

section Writes

variable {H : Digests} {db : Db}

def HasMethod (user : User) : Prop := user.password_hash.isSome ∨ user.google_sub.isSome

/-- The operation changed the identity of the user, as its result says. -/
def Changes (user_id : Str) : Operation → Except Error Result → Prop
  | .bind_google_identity id _ _, .ok (.bind r) => id = user_id ∧ r.bound = true
  | .unbind_google_identity id, .ok (.unbind r) => id = user_id ∧ r.unbound = true
  | _, _ => False

/-- What an operation writes: nothing, a password hash, or the binding of a user and with it the
epoch. -/
inductive Wrote (db : Db) : Operation → Except Error Result → Db → Prop
  | raised (op : Operation) (e : Error) : Wrote db op (.error e) db
  | idle {op : Operation} {r : Result} (hno : ∀ id, ¬ Changes id op (.ok r)) : Wrote db op (.ok r) db
  | password {op : Operation} {r : Result} {user : User} {password_hash : Str} {db' : Db}
      (hno : ∀ id, ¬ Changes id op (.ok r)) (hget : db.users.get? user.id = some user)
      (husers : db'.users = db.users.put { user with password_hash := some password_hash }) :
      Wrote db op (.ok r) db'
  | identity {op : Operation} {r : Result} {db' : Db} (user user' : User)
      (hchange : ∀ id, Changes id op (.ok r) ↔ id = user.id)
      (hget : db.users.get? user.id = some user) (hid : user'.id = user.id)
      (hsub : user'.google_sub ≠ user.google_sub)
      (hepoch : user'.session_epoch = user.session_epoch+1) (hmethod : HasMethod user')
      (husers : db'.users = db.users.put user') : Wrote db op (.ok r) db'

theorem flush_ok {user : User} {db' : Db} (h : flush db user = .ok db') :
    db' = { db with users := db.users.put user } := by
  unfold flush at h
  split at h
  · cases h
  · split at h
    · cases h
    · exact (Except.ok.inj h).symm

theorem update_password_cases (db : Db) (user_id password_hash : Str) :
    (∃ e, update_password db user_id password_hash = (.error e,db)) ∨
      ∃ user, db.users.get? user_id = some user ∧ update_password db user_id password_hash =
        (.ok (),{ db with users := db.users.put { user with password_hash := some password_hash } }) := by
  unfold update_password
  cases hget : db.users.get? user_id with
  | none => exact Or.inl ⟨_,rfl⟩
  | some user =>
    dsimp only
    cases hflush : flush db { user with password_hash := some password_hash } with
    | error constraint => exact Or.inl ⟨_,rfl⟩
    | ok db' =>
      rw [flush_ok hflush]
      exact Or.inr ⟨user,rfl,rfl⟩

theorem wrote_bind (db : Db) (user_id sub : Str) (now : ℕ) :
    Wrote db (.bind_google_identity user_id sub now)
      ((bind_google_identity db user_id sub now).1.map .bind)
      (bind_google_identity db user_id sub now).2 := by
  unfold bind_google_identity
  cases hget : db.users.get? user_id with
  | none => exact Wrote.raised _ _
  | some user =>
    obtain ⟨-,rfl⟩ := Table.get?_eq_some.mp hget
    dsimp only
    cases hsub : user.google_sub with
    | some google_sub =>
      dsimp only
      split
      · exact Wrote.raised _ _
      · exact Wrote.idle fun id h => Bool.noConfusion h.2
    | none =>
      dsimp only
      split
      · exact Wrote.raised _ _
      · exact Wrote.raised _ _
      · rename_i db' hflush
        obtain rfl := flush_ok hflush
        refine Wrote.identity user { user with
            google_sub := some sub
            password_hash := none
            session_epoch := user.session_epoch+1 } (fun id => ?_) hget rfl ?_ rfl (Or.inr rfl) rfl
        · exact ⟨fun h => h.1.symm,fun h => ⟨h.symm,rfl⟩⟩
        · rw [hsub]
          exact Option.some_ne_none sub

theorem wrote_unbind (db : Db) (user_id : Str) :
    Wrote db (.unbind_google_identity user_id) ((unbind_google_identity db user_id).1.map .unbind)
      (unbind_google_identity db user_id).2 := by
  unfold unbind_google_identity
  cases hget : db.users.get? user_id with
  | none => exact Wrote.raised _ _
  | some user =>
    obtain ⟨-,rfl⟩ := Table.get?_eq_some.mp hget
    dsimp only
    split
    · exact Wrote.idle fun id h => Bool.noConfusion h.2
    rename_i hbound
    split
    · exact Wrote.raised _ _
    rename_i hpassword
    split
    · exact Wrote.raised _ _
    · rename_i db' hflush
      obtain rfl := flush_ok hflush
      refine Wrote.identity user
        { user with google_sub := none, session_epoch := user.session_epoch+1 }
        (fun id => ?_) hget rfl ?_ rfl (Or.inl ?_) rfl
      · exact ⟨fun h => h.1.symm,fun h => ⟨h.symm,rfl⟩⟩
      · intro hsame
        rw [← hsame] at hbound
        exact hbound rfl
      · exact Option.isSome_iff_ne_none.mpr fun h => hpassword (by rw [h]; rfl)

theorem wrote_confirm (db : Db) (raw_token new_password salt : Str) (clock : Clock) :
    Wrote db (.confirm_reset raw_token new_password salt clock)
      ((confirm_reset H db raw_token new_password salt clock).1.map fun _ => .unit)
      (confirm_reset H db raw_token new_password salt clock).2 := by
  unfold confirm_reset
  dsimp only
  split
  · exact Wrote.raised _ _
  split
  · exact Wrote.raised _ _
  split
  · exact Wrote.raised _ _
  rename_i row _
  rcases update_password_cases db row.user_id (H.hash_password new_password salt) with
    ⟨e,he⟩ | ⟨user,hget,hok⟩
  · rw [he]
    exact Wrote.raised _ _
  · rw [hok]
    obtain ⟨-,hid⟩ := Table.get?_eq_some.mp hget
    rw [← hid] at hget
    exact Wrote.password (fun _ h => h) hget rfl

theorem wrote_update (db : Db) (user_id password salt : Str) :
    Wrote db (.update_password user_id password salt)
      ((update_password db user_id (H.hash_password password salt)).1.map fun _ => .unit)
      (update_password db user_id (H.hash_password password salt)).2 := by
  rcases update_password_cases db user_id (H.hash_password password salt) with
    ⟨e,he⟩ | ⟨user,hget,hok⟩
  · rw [he]
    exact Wrote.raised _ _
  · rw [hok]
    obtain ⟨-,hid⟩ := Table.get?_eq_some.mp hget
    rw [← hid] at hget
    exact Wrote.password (fun _ h => h) hget rfl

/-- Everything that an operation does to the credential columns. -/
theorem wrote (op : Operation) (db : Db) : Wrote db op (op.run H db).1 (op.run H db).2 := by
  cases op with
  | bind_google_identity user_id sub now => exact wrote_bind db user_id sub now
  | unbind_google_identity user_id => exact wrote_unbind db user_id
  | confirm_reset raw_token new_password salt clock =>
    exact wrote_confirm db raw_token new_password salt clock
  | update_password user_id password salt => exact wrote_update db user_id password salt

end Writes

section Runs

variable {H : Digests} {db : Db} {op : Operation} {user_id : Str} {user : User}

variable (H) in
/-- The step binds the user to another Google subject, or releases it from one. -/
def rebound (user_id : Str) (p : Db × Operation) : Bool :=
  let google_sub (db : Db) := (db.users.get? user_id).bind (·.google_sub)
  google_sub (p.2.run H p.1).2 ≠ google_sub p.1

/-- What an operation does to a user who can sign in. -/
structure Kept (H : Digests) (user_id : Str) (db : Db) (op : Operation) (user user' : User) :
    Prop where
  hget : (op.run H db).2.users.get? user_id = some user'
  hmethod : HasMethod user'
  hepoch : user'.session_epoch = user.session_epoch + (if rebound H user_id (db,op) then 1 else 0)
  hchange : rebound H user_id (db,op) = true ↔ Changes user_id op (op.run H db).1

theorem rebound_iff {user' : User} (hget : db.users.get? user_id = some user)
    (hget' : (op.run H db).2.users.get? user_id = some user') :
    rebound H user_id (db,op) = true ↔ user'.google_sub ≠ user.google_sub := by
  simp [rebound,hget,hget']

theorem kept_of_same {user' : User} (hget : db.users.get? user_id = some user)
    (hget' : (op.run H db).2.users.get? user_id = some user') (hmethod : HasMethod user')
    (hsub : user'.google_sub = user.google_sub) (hepoch : user'.session_epoch = user.session_epoch)
    (hno : ¬ Changes user_id op (op.run H db).1) : Kept H user_id db op user user' := by
  have hsame : ¬ rebound H user_id (db,op) = true := fun h => (rebound_iff hget hget').mp h hsub
  refine ⟨hget',hmethod,?_,iff_of_false hsame hno⟩
  rw [if_neg hsame,hepoch,add_zero]

theorem kept (hget : db.users.get? user_id = some user) (hmethod : HasMethod user) (op : Operation) :
    ∃ user', Kept H user_id db op user user' := by
  have hid := (Table.get?_eq_some.mp hget).2
  have hwrote := wrote (H:=H) op db
  generalize hr : (op.run H db).1 = r at hwrote
  generalize hdb : (op.run H db).2 = db' at hwrote
  cases hwrote with
  | raised e =>
    refine ⟨user,kept_of_same hget (by rw [hdb]; exact hget) hmethod rfl rfl ?_⟩
    rw [hr]
    cases op <;> exact fun h => h
  | idle hno =>
    refine ⟨user,kept_of_same hget (by rw [hdb]; exact hget) hmethod rfl rfl ?_⟩
    rw [hr]
    exact hno user_id
  | @password r row password_hash _ hno hrow husers =>
    by_cases hsame : row.id = user_id
    · have hrow' : row = user := Option.some.inj (hrow.symm.trans (hsame ▸ hget))
      have hget' : (op.run H db).2.users.get? user_id =
          some { row with password_hash := some password_hash } := by
        rw [hdb,husers,Table.get?_put]
        exact if_pos hsame
      refine ⟨_,kept_of_same hget hget' (Or.inl rfl) ?_ ?_ (by rw [hr]; exact hno user_id)⟩
      · rw [hrow']
      · rw [hrow']
    · have hget' : (op.run H db).2.users.get? user_id = some user := by
        rw [hdb,husers,Table.get?_put]
        exact (if_neg hsame).trans hget
      exact ⟨user,kept_of_same hget hget' hmethod rfl rfl (by rw [hr]; exact hno user_id)⟩
  | identity row row' hchange hrow hrow' hsub hepoch hmethod' husers =>
    by_cases hsame : row.id = user_id
    · have hrowUser : row = user := Option.some.inj (hrow.symm.trans (hsame ▸ hget))
      rw [hrowUser] at hsub hepoch
      have hget' : (op.run H db).2.users.get? user_id = some row' := by
        rw [hdb,husers,Table.get?_put]
        exact if_pos (hrow'.trans hsame)
      have hrebound : rebound H user_id (db,op) = true := (rebound_iff hget hget').mpr hsub
      refine ⟨row',hget',hmethod',?_,iff_of_true hrebound ?_⟩
      · rw [if_pos hrebound]
        exact hepoch
      · rw [hr]
        exact (hchange user_id).mpr hsame.symm
    · have hget' : (op.run H db).2.users.get? user_id = some user := by
        rw [hdb,husers,Table.get?_put]
        exact (if_neg fun h => hsame (hrow'.symm.trans h)).trans hget
      refine ⟨user,kept_of_same hget hget' hmethod rfl rfl ?_⟩
      rw [hr]
      exact fun h => hsame ((hchange user_id).mp h).symm

/-- An operation that raises leaves every row. -/
theorem raised_unchanged {e : Error} (h : (op.run H db).1 = .error e) : (op.run H db).2 = db := by
  have hwrote := wrote (H:=H) op db
  rw [h] at hwrote
  generalize (op.run H db).2 = db' at hwrote
  cases hwrote
  rfl

theorem run_kept {s t : Db} {h : List (Db × Operation)} (hr : Run (methods H) s h t)
    (hget : s.users.get? user_id = some user) (hmethod : HasMethod user) :
    ∃ user', t.users.get? user_id = some user' ∧ HasMethod user' ∧
      user'.session_epoch = user.session_epoch + h.countP (rebound H user_id) := by
  induction hr with
  | refl => exact ⟨user,hget,hmethod,by simp⟩
  | @step h t u op hr hstep ih =>
    obtain ⟨before,hbefore,hb,hepoch⟩ := ih
    obtain ⟨after,hkept⟩ := kept (H:=H) hbefore hb op
    have hu : (op.run H t).2 = u := Option.some.inj hstep
    refine ⟨after,hu ▸ hkept.hget,hkept.hmethod,?_⟩
    rw [hkept.hepoch,hepoch,List.countP_cons]
    push_cast
    omega

/-- A user who can sign in keeps a method through every sequence of the operations; the epoch
counts the binds and unbinds that change the identity, and an operation that raises writes
nothing. -/
theorem auth_method_kept (H : Digests) {s t : Db} {h : List (Db × Operation)} {user_id : Str}
    {user : User} (hr : Run (methods H) s h t) (hget : s.users.get? user_id = some user)
    (hmethod : HasMethod user) :
    (∃ user', t.users.get? user_id = some user' ∧ HasMethod user' ∧
      user'.session_epoch = user.session_epoch + h.countP (rebound H user_id)) ∧
    ∀ p ∈ h, (∃ before after, p.1.users.get? user_id = some before ∧ HasMethod before ∧
        Kept H user_id p.1 p.2 before after ∧ before.session_epoch ≤ after.session_epoch) ∧
      ∀ e, (p.2.run H p.1).1 = .error e → (p.2.run H p.1).2 = p.1 := by
  refine ⟨run_kept hr hget hmethod,fun p hp => ⟨?_,fun e => raised_unchanged⟩⟩
  have hall := hr.visits (G:=fun _ _ => True)
    (I:=fun db => ∃ row, db.users.get? user_id = some row ∧ HasMethod row) ⟨user,hget,hmethod⟩
    (by
      intro db op db' hrow _ hstep
      obtain ⟨row,hrow,hm⟩ := hrow
      obtain ⟨row',hkept⟩ := kept (H:=H) hrow hm op
      have hdb : (op.run H db).2 = db' := Option.some.inj hstep
      exact ⟨row',hdb ▸ hkept.hget,hkept.hmethod⟩) fun _ _ => trivial
  obtain ⟨before,hbefore,hb⟩ := hall.2 p hp
  obtain ⟨after,hkept⟩ := kept (H:=H) hbefore hb p.2
  refine ⟨before,after,hbefore,hb,hkept,?_⟩
  rw [hkept.hepoch]
  split <;> omega

def sampleDigests : Digests where
  hash := id
  hash_password password salt := salt ++ password
  checkpw _ _ := true

def sampleDb : Db where
  users := (Table.empty _).put ⟨['u'],['m'],.Editor,some ['p'],none,0⟩
  api_tokens := Table.empty _
  reset_tokens := Table.empty _

def sampleOps : List Operation :=
  [.bind_google_identity ['u'] ['g'] 1,.bind_google_identity ['u'] ['g'] 2,
    .bind_google_identity ['u'] ['o'] 3,.unbind_google_identity ['u'],
    .update_password ['u'] ['q'] [],.unbind_google_identity ['u']]

theorem auth_method_kept_sample : ∃ h t, Run (methods sampleDigests) sampleDb h t ∧
    h.length = 6 ∧ ∃ user, t.users.get? ['u'] = some user ∧ HasMethod user ∧
      user.session_epoch = 2 := by
  obtain ⟨h,t,hr,hp⟩ := exists_run_of_replay (i:=fun _ => True) (s:=sampleDb) (l:=sampleOps)
    (f:=fun db op => some (op.run sampleDigests db).2)
    (p:=fun r => r.1.length = 6 && r.1.countP (rebound sampleDigests ['u']) = 2)
    (by decide +kernel)
  have hp' : h.length = 6 ∧ h.countP (rebound sampleDigests ['u']) = 2 := by simpa using hp
  have hstart : sampleDb.users.get? ['u'] = some ⟨['u'],['m'],.Editor,some ['p'],none,0⟩ := rfl
  obtain ⟨user,hget,hmethod,hepoch⟩ := (auth_method_kept sampleDigests hr hstart (Or.inl rfl)).1
  rw [hp'.2] at hepoch
  exact ⟨h,t,hr,hp'.1,user,hget,hmethod,hepoch⟩

end Runs

end Methods
end Auth
end Dataspoke
