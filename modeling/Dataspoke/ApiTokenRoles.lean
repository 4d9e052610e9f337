import Dataspoke.ApiTokens

/-!
# The role of an API token

Requests that mint and revoke API tokens and that change the role of a user, in any order.
-/

namespace Dataspoke
namespace Auth
namespace Roles

open Python Transition Credentials

structure World where
  users : Table User.id
  tokens : Table ApiToken.id
  /-- A token that was minted with a token, and the token it was minted with. -/
  lineage : List (ℕ × ℕ)

inductive Request
  | post_api_tokens (now : ℕ) (bearer : Bearer) (name : Str) (expires_at : Option ℕ) (raw : Str)
      (id : ℕ)
  | delete_api_token (now : ℕ) (bearer : Bearer) (token_id : ℕ)
  /-- The revocation of a token by an administrator. -/
  | revoke (now token_id : ℕ)
  | update_role (user_id : Str) (role : Role)
  /-- A request that is authenticated and writes nothing of this. -/
  | other (now : ℕ) (bearer : Bearer)

variable (H : Hashing)

def post_api_tokens (w : World) (now : ℕ) (bearer : Bearer) (name : Str)
    (expires_at : Option ℕ) (raw : Str) (id : ℕ) : Except Refusal (AuthContext × ApiToken) := do
  let ctx ← require_authenticated H w.users w.tokens now bearer
  let _ ← revalidate_under_user_lock w.users w.tokens ctx
  let token ← mint H w.users w.tokens ctx.user.id name expires_at raw id
  return (ctx,token)

def delete_api_token (w : World) (now : ℕ) (bearer : Bearer) (token_id : ℕ) :
    Except Refusal (Table ApiToken.id) := do
  let ctx ← require_authenticated H w.users w.tokens now bearer
  revoke w.tokens token_id (some ctx.user.id) now

def update_role (w : World) (user_id : Str) (role : Role) : World :=
  match w.users.get? user_id with
  | none => w
  | some user => { w with users := w.users.put { user with role := role } }

/-- A request that fails leaves the database as it is. -/
def step (w : World) : Request → World
  | .post_api_tokens now bearer name expires_at raw id =>
    match post_api_tokens H w now bearer name expires_at raw id with
    | .error _ => w
    | .ok (ctx,token) =>
      { w with
        tokens := w.tokens.put token
        lineage := (ctx.api_token_id.map fun p => (token.id,p)).toList++w.lineage }
  | .delete_api_token now bearer token_id =>
    match delete_api_token H w now bearer token_id with
    | .error _ => w
    | .ok tokens => { w with tokens := tokens }
  | .revoke now token_id =>
    match revoke w.tokens token_id none now with
    | .error _ => w
    | .ok tokens => { w with tokens := tokens }
  | .update_role user_id role => update_role w user_id role
  | .other _ _ => w

/-- No token has been minted with a token yet. -/
def system : System World Request := ofFun (·.lineage = []) fun w a => some (step H w a)

def effective (token : ApiToken) (role : Role) : Role := intersect_role token.role_snapshot role

/-- No token has more than the token it was minted with. -/
def Attenuated (w : World) : Prop :=
  ∀ c p child parent owner owner', (c,p) ∈ w.lineage → w.tokens.get? c = some child →
    w.tokens.get? p = some parent → w.users.get? child.user_id = some owner →
    w.users.get? parent.user_id = some owner' →
    (effective child owner.role).rank ≤ (effective parent owner'.role).rank

/-- A request with the token `parent` mints a token. -/
def Mints (w : World) (now : ℕ) (parent : ApiToken) (raw : Str) (id : ℕ) : Prop :=
  parent.revoked_at = none ∧ (∀ e, parent.expires_at = some e → now < e) ∧
    active_count w.tokens parent.user_id < max_active_per_user ∧
    ∀ t ∈ w.tokens.rows, t.id ≠ id ∧ t.token_hash ≠ H.hash raw

/-- Where a token mints a token, its owner's role is not above its own snapshot. -/
def Guard (w : World) : Request → Prop
  | .post_api_tokens now (.api_token bearer) _ _ raw id =>
    ∀ parent owner, w.tokens.rows.find? (fun t => t.token_hash = H.hash bearer) = some parent →
      w.users.get? parent.user_id = some owner → Mints H w now parent raw id →
      owner.role.rank ≤ parent.role_snapshot.rank
  | _ => True

/-- The snapshot of `c` is not above that of `p`, and both have one owner. -/
def Below (tokens : Table ApiToken.id) (c p : ℕ) : Prop :=
  ∃ child parent, tokens.get? c = some child ∧ tokens.get? p = some parent ∧
    child.user_id = parent.user_id ∧ child.role_snapshot.rank ≤ parent.role_snapshot.rank

def Invariant (w : World) : Prop := ∀ c p, (c,p) ∈ w.lineage → Below w.tokens c p

variable {H}

theorem Invariant.attenuated {w : World} (hw : Invariant w) : Attenuated w := by
  intro c p child parent owner owner' hl hc hp ho ho'
  obtain ⟨child',parent',hc',hp',hu,hr⟩ := hw c p hl
  cases hc.symm.trans hc'
  cases hp.symm.trans hp'
  rw [hu] at ho
  cases ho.symm.trans ho'
  rw [effective,effective,intersect_role_rank,intersect_role_rank]
  exact min_le_min_right _ hr

theorem Below.put {tokens : Table ApiToken.id} {c p : ℕ} (h : Below tokens c p)
    {token : ApiToken} (hn : ∀ t ∈ tokens.rows, t.id ≠ token.id) : Below (tokens.put token) c p := by
  obtain ⟨child,parent,hc,hp,h⟩ := h
  refine ⟨child,parent,?_,?_,h⟩
  · obtain ⟨hm,rfl⟩ := Table.get?_eq_some.mp hc
    rw [Table.get?_put,if_neg (Ne.symm (hn child hm)),hc]
  · obtain ⟨hm,rfl⟩ := Table.get?_eq_some.mp hp
    rw [Table.get?_put,if_neg (Ne.symm (hn parent hm)),hp]

theorem Below.set_revoked {tokens : Table ApiToken.id} {c p : ℕ} (h : Below tokens c p)
    (ids : List ℕ) (now : ℕ) : Below (set_revoked tokens ids now) c p := by
  obtain ⟨child,parent,hc,hp,hu,hr⟩ := h
  refine ⟨_,_,get?_set_revoked.trans (by rw [hc]; rfl),get?_set_revoked.trans (by rw [hp]; rfl),
    ?_,?_⟩
  · by_cases h₁ : child.id ∈ ids <;> by_cases h₂ : parent.id ∈ ids <;> simpa [h₁,h₂] using hu
  · by_cases h₁ : child.id ∈ ids <;> by_cases h₂ : parent.id ∈ ids <;> simpa [h₁,h₂] using hr

theorem Below.revoke {tokens tokens' : Table ApiToken.id} {c p : ℕ} (h : Below tokens c p)
    {token_id now : ℕ} {owner : Option Str}
    (hr : revoke tokens token_id owner now = .ok tokens') : Below tokens' c p := by
  rcases revoke_keeps hr with rfl | rfl
  · exact h
  · exact h.set_revoked _ _

/-- A request that mints a token for a caller with the token `parent`, or for one without. -/
theorem post_api_tokens_eq_ok {w : World} {now : ℕ} {bearer : Bearer} {name : Str}
    {expires_at : Option ℕ} {raw : Str} {id : ℕ} {ctx : AuthContext} {token : ApiToken}
    (h : post_api_tokens H w now bearer name expires_at raw id = .ok (ctx,token)) :
    ∃ user, w.users.get? token.user_id = some user ∧ token.role_snapshot = user.role ∧
      (∀ t ∈ w.tokens.rows, t.id ≠ token.id) ∧
      (ctx.api_token_id = none ∨ ∃ parent text, bearer = .api_token text ∧
        w.tokens.rows.find? (fun t => t.token_hash = H.hash text) = some parent ∧
        ctx.api_token_id = some parent.id ∧ token.user_id = parent.user_id ∧
        Mints H w now parent raw id) := by
  rw [post_api_tokens] at h
  obtain ⟨ctx',hctx,h⟩ := bind_eq_ok.mp h
  obtain ⟨user',-,h⟩ := bind_eq_ok.mp h
  obtain ⟨token',hmint,h⟩ := bind_eq_ok.mp h
  cases h
  obtain ⟨user,hu,hcount,hfree,rfl⟩ := mint_eq_ok.mp hmint
  refine ⟨user,hu,rfl,fun t ht => (hfree t ht).1,?_⟩
  cases bearer with
  | jwt signed =>
    left
    rw [require_authenticated] at hctx
    cases hd : decode_access_token now signed with
    | error e =>
      rw [hd] at hctx
      cases hctx
    | ok payload =>
      rw [hd] at hctx
      dsimp only at hctx
      cases hg : w.users.get? payload.sub with
      | none =>
        rw [hg] at hctx
        cases hctx
      | some u =>
        rw [hg] at hctx
        dsimp only at hctx
        by_cases hm : session_epoch_matches payload.ses u.session_epoch = true
        · rw [if_pos hm] at hctx
          cases hctx
          rfl
        · rw [if_neg hm] at hctx
          cases hctx
  | api_token text =>
    right
    rw [require_authenticated] at hctx
    cases hl : lookup_and_validate H w.users w.tokens now text with
    | error e =>
      rw [hl] at hctx
      cases hctx
    | ok r =>
      obtain ⟨owner,role,token_id⟩ := r
      rw [hl] at hctx
      cases hctx
      obtain ⟨parent,hf,ho,hr,he,-,rfl⟩ := lookup_and_validate_eq_ok.mp hl
      have hid : owner.id = parent.user_id := (Table.get?_eq_some.mp ho).2
      refine ⟨parent,text,rfl,hf,rfl,hid,hr,he,?_,hfree⟩
      rw [← hid]
      exact hcount

theorem post_api_tokens_mints {w : World} {now : ℕ} {text raw : Str} {id : ℕ} {parent : ApiToken} {owner : User}
    (hf : w.tokens.rows.find? (fun t => t.token_hash = H.hash text) = some parent)
    (ho : w.users.get? parent.user_id = some owner) (hm : Mints H w now parent raw id)
    (name : Str) (expires_at : Option ℕ) :
    ∃ ctx, post_api_tokens H w now (.api_token text) name expires_at raw id =
      .ok (ctx,new_token H parent.user_id owner.role name expires_at raw id) ∧
      ctx.api_token_id = some parent.id := by
  obtain ⟨hr,he,hc,hfree⟩ := hm
  have hid : owner.id = parent.user_id := (Table.get?_eq_some.mp ho).2
  have hl := lookup_and_validate_eq_ok.mpr ⟨parent,hf,ho,hr,he,rfl,rfl⟩
  have hmem : parent ∈ w.tokens.rows := List.mem_of_find?_eq_some hf
  have hact : is_active w.tokens parent.id = true := by
    rw [is_active,Table.mem_rows.mp hmem]
    simp [hr]
  have hmint := mint_eq_ok.mpr ⟨owner,ho,hc,hfree,
    (rfl : new_token H parent.user_id owner.role name expires_at raw id = _)⟩
  refine ⟨⟨owner,intersect_role parent.role_snapshot owner.role,none,some parent.id⟩,?_,rfl⟩
  rw [post_api_tokens,require_authenticated,hl]
  simp only [bind,Except.bind]
  rw [revalidate_under_user_lock,hid,ho]
  dsimp only
  rw [revalidate]
  dsimp only
  rw [if_pos hact,Except.map,hmint]
  rfl

theorem Invariant.step {w : World} {a : Request} (hw : Invariant w) (hg : Guard H w a) :
    Invariant (step H w a) := by
  cases a with
  | post_api_tokens now bearer name expires_at raw id =>
    rw [Roles.step]
    cases hp : Roles.post_api_tokens H w now bearer name expires_at raw id with
    | error e => exact hw
    | ok r =>
      obtain ⟨ctx,token⟩ := r
      obtain ⟨user,hu,hrole,hfree,hc⟩ := post_api_tokens_eq_ok hp
      intro c p hl
      rcases List.mem_append.mp hl with hl | hl
      · rcases hc with hc | ⟨parent,text,rfl,hf,hc,huser,hm⟩
        · rw [hc] at hl
          cases hl
        · rw [hc] at hl
          cases List.mem_singleton.mp hl
          have hmem : parent ∈ w.tokens.rows := List.mem_of_find?_eq_some hf
          refine ⟨token,parent,Table.get?_put_self token,?_,huser,?_⟩
          · rw [Table.get?_put,if_neg (Ne.symm (hfree parent hmem)),Table.mem_rows.mp hmem]
          · rw [hrole]
            exact hg parent user hf (huser ▸ hu) hm
      · exact (hw c p hl).put hfree
  | delete_api_token now bearer token_id =>
    rw [Roles.step]
    cases hd : Roles.delete_api_token H w now bearer token_id with
    | error e => exact hw
    | ok tokens =>
      rw [Roles.delete_api_token] at hd
      obtain ⟨ctx,-,hd⟩ := bind_eq_ok.mp hd
      exact fun c p hl => (hw c p hl).revoke hd
  | revoke now token_id =>
    rw [Roles.step]
    cases hd : Credentials.revoke w.tokens token_id none now with
    | error e => exact hw
    | ok tokens => exact fun c p hl => (hw c p hl).revoke hd
  | update_role user_id role =>
    rw [Roles.step,update_role]
    cases w.users.get? user_id with
    | none => exact hw
    | some user => exact hw
  | other => exact hw

/-- A token that mints while its owner's role is above its snapshot has minted more than it
has itself. -/
theorem Invariant.missed {w : World} {a : Request} (hg : ¬ Guard H w a) :
    ¬ Attenuated (Roles.step H w a) := by
  cases a with
  | post_api_tokens now bearer name expires_at raw id =>
    cases bearer with
    | jwt signed => exact absurd trivial hg
    | api_token text =>
      simp only [Guard,not_forall] at hg
      obtain ⟨parent,owner,hf,ho,hm,hlt⟩ := hg
      obtain ⟨ctx,hp,hc⟩ := post_api_tokens_mints hf ho hm name expires_at
      rw [Roles.step,hp]
      dsimp only
      rw [hc]
      intro ha
      have hmem : parent ∈ w.tokens.rows := List.mem_of_find?_eq_some hf
      have hput := Table.get?_put_self (t:=w.tokens)
        (new_token H parent.user_id owner.role name expires_at raw id)
      have hpar : (w.tokens.put (new_token H parent.user_id owner.role name expires_at raw
          id)).get? parent.id = some parent := by
        rw [Table.get?_put,new_token,if_neg (Ne.symm (hm.2.2.2 parent hmem).1),
          Table.mem_rows.mp hmem]
      have hle := ha id parent.id _ parent owner owner (.head _) hput hpar ho ho
      rw [effective,effective,intersect_role_rank,intersect_role_rank] at hle
      dsimp only [new_token] at hle
      omega
  | delete_api_token => exact absurd trivial hg
  | revoke => exact absurd trivial hg
  | update_role => exact absurd trivial hg
  | other => exact absurd trivial hg

/-- Over any sequence of requests, no token ever has more than the token it was minted with,
exactly where no token mints while its owner's role is above its snapshot. -/
theorem attenuation {w₀ w : World} {h : List (World × Request)} (h₀ : w₀.lineage = [])
    (hr : Run (system H) w₀ h w) : Visits Attenuated h w ↔ Meets (Guard H) h := by
  refine hr.visits_iff_meets (I:=Invariant) ?_ (fun _ hw => hw.attenuated) ?_ ?_
  · intro c p hl
    rw [h₀] at hl
    cases hl
  · rintro w a _ hw hg ⟨⟩
    exact hw.step hg
  · rintro w a _ - hg ⟨⟩
    exact Invariant.missed hg

def sampleHashing : Hashing := ⟨id⟩

def sampleUser (role : Role) : User := ⟨['u'],['m'],role,none,none,0⟩

def sampleToken : ApiToken := ⟨0,['u'],['n'],['t'],.Editor,none,none⟩

def sampleWorld : World := ⟨(Table.empty User.id).put (sampleUser .Editor),
  (Table.empty ApiToken.id).put sampleToken,[]⟩

def sampleRequests : List Request :=
  [.post_api_tokens 1 (.api_token ['t']) ['n'] none ['c'] 1,.update_role ['u'] .Admin]

theorem attenuation_sample : ∃ h w, Run (system sampleHashing) sampleWorld h w ∧
    Visits Attenuated h w ∧ w.lineage = [(1,0)] := by
  have hr := run_of_replay (i:=(·.lineage = [])) (f:=fun w a => some (step sampleHashing w a))
    (l:=sampleRequests) (.refl (s:=sampleWorld)) rfl
  refine ⟨_,_,hr,(attenuation rfl hr).mpr ?_,by decide⟩
  simp only [meets_cons,meets_nil,and_true]
  refine ⟨trivial,?_⟩
  rintro parent owner ⟨⟩ ⟨⟩ -
  exact le_refl _

/-- An editor's token mints a token with the role of an administrator once its owner is
one. -/
theorem minted_above : ∃ h w, w.lineage = [(1,0)] ∧
    Run (system sampleHashing) sampleWorld h w ∧ ¬ Attenuated w := by
  have hr := run_of_replay (i:=(·.lineage = [])) (f:=fun w a => some (step sampleHashing w a))
    (l:=sampleRequests.reverse) (.refl (s:=sampleWorld)) rfl
  refine ⟨_,_,by decide,hr,fun ha => ?_⟩
  have hle := ha 1 0 ⟨1,['u'],['n'],['c'],.Admin,none,none⟩ sampleToken (sampleUser .Admin)
    (sampleUser .Admin) (by decide) rfl rfl rfl rfl
  exact absurd hle (by decide)

end Roles
end Auth
end Dataspoke
