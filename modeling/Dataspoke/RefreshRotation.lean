import Dataspoke.RefreshToken

/-!
# Rotating refresh tokens

Logins, refreshes and revocations of any users, one request after the other. Redis holds
the revocation keys of tokens, and a token is a function of its payload.
-/

namespace Dataspoke
namespace Auth
namespace Rotation

open Python Transition
open Refresh (User TokenResponse)

/-- The signed text of a payload, and `_revocation_key` of a text. -/
structure Runtime (τ κ : Type) where
  encode : Payload → τ
  revocation_key : τ → κ

/-- A refresh token in the hands of the session it was issued to. -/
structure Session where
  id : ℕ
  payload : Payload

/-- A revocation, with the instant at which the key it has written expires. -/
structure Mark where
  session : Session
  expires : Option ℕ

structure World (κ : Type) where
  clock : ℕ
  /-- The revocation keys in Redis, each with the instant at which it expires. -/
  redis : List (κ × ℕ)
  issued : List Session
  /-- The revocations so far. -/
  marks : List Mark
  /-- The refresh under way, its token revoked, and the user it names. -/
  refreshing : Option (Session × ℕ)
  /-- The token the last request has returned. -/
  returned : Option Payload

/-- The clock as `post_token_refresh` reads it one time after the other: in Redis, while
decoding, for the lifetime that is left, in Redis again. -/
structure Times where
  read : ℕ
  decoded : ℕ
  counted : ℕ
  set : ℕ

inductive Request
  /-- A user row that the password is verified against. -/
  | login (now : ℕ) (user_id : Fin (2^128)) (user : User)
  /-- The refresh of an issued token, to the end of its revocation. -/
  | refresh (cookie : ℕ) (t : Times) (get_error set_error : Bool)
  /-- The rest of a refresh, on the user row. -/
  | answer (now : ℕ) (user : Option User)
  | revoke (cookie : ℕ) (t : Times) (set_error : Bool)

variable {τ κ : Type} [DecidableEq κ] (R : Runtime τ κ) (settings : Settings)

def isRevoked (redis : List (κ × ℕ)) (now : ℕ) (key : κ) : Bool :=
  redis.any fun e => e.1 = key && now < e.2

def setNx (redis : List (κ × ℕ)) (now ttl : ℕ) (key : κ) : List (κ × ℕ) :=
  if isRevoked redis now key then redis else (key,now+ttl*second)::redis

def Runtime.key (payload : Payload) : κ := R.revocation_key (R.encode payload)

/-- `none` where Redis fails. -/
def mark_refresh_revoked (w : World κ) (x : Session) (counted set : ℕ) (set_error : Bool) :
    Option (World κ) :=
  if x.payload.type ≠ some "refresh".toList then some w
  else if x.payload.ttl counted = 0 then some w
  else if set_error then none
  else some { w with
    redis := setNx w.redis set (x.payload.ttl counted) (R.key x.payload)
    marks := ⟨x,if isRevoked w.redis set (R.key x.payload) then none
      else some (set+x.payload.ttl counted*second)⟩::w.marks }

/-- A request starts at `now`. -/
def World.tick (w : World κ) (now : ℕ) : World κ := { w with clock := now, returned := none }

def World.issue (w : World κ) (id : ℕ) (r : TokenResponse) : World κ :=
  { w with issued := w.issued++[⟨id,r.refresh_cookie⟩], returned := some r.refresh_cookie }

def post_token (w : World κ) (now user_id : ℕ) (user : User) : World κ :=
  (w.tick now).issue w.issued.length
    ⟨issue_access_token settings now (Uuid.str user_id) user.email user.session_epoch,
      issue_refresh_token settings now (Uuid.str user_id) user.session_epoch⟩

/-- `post_token_refresh` up to the user row. -/
def post_token_refresh (w : World κ) (x : Session) (t : Times) (get_error set_error : Bool) :
    World κ :=
  if get_error then w.tick t.set
  else if isRevoked w.redis t.read (R.key x.payload) then w.tick t.set
  else
    match decode_refresh_token t.decoded (some x.payload) with
    | .error _ => w.tick t.set
    | .ok payload =>
      match Uuid.UUID payload.sub with
      | none => w.tick t.set
      | some user_id =>
        match mark_refresh_revoked R (w.tick t.set) x t.counted t.set set_error with
        | none => w.tick t.set
        | some w => { w with refreshing := some (x,user_id) }

def answer (w : World κ) (x : Session) (user_id now : ℕ) (user : Option User) : World κ :=
  match Refresh.respond settings ⟨now,now,false,user⟩ x.payload user_id with
  | .error _ => { w.tick now with refreshing := none }
  | .ok r => { (w.tick now).issue x.id r with refreshing := none }

def post_token_revoke (w : World κ) (x : Session) (t : Times) (set_error : Bool) : World κ :=
  (mark_refresh_revoked R (w.tick t.set) x t.counted t.set set_error).getD (w.tick t.set)

/-- The clock does not go back. -/
def Times.Ordered (t : Times) (clock : ℕ) : Prop :=
  clock ≤ t.read ∧ t.read ≤ t.decoded ∧ t.decoded ≤ t.counted ∧ t.counted ≤ t.set

instance (t : Times) (clock : ℕ) : Decidable (t.Ordered clock) :=
  inferInstanceAs (Decidable (_ ∧ _))

def step (w : World κ) : Request → Option (World κ)
  | .login now user_id user =>
    if w.refreshing.isNone ∧ w.clock ≤ now then some (post_token settings w now user_id user)
    else none
  | .refresh cookie t get_error set_error =>
    if w.refreshing.isNone ∧ t.Ordered w.clock then
      (w.issued[cookie]?).map fun x => post_token_refresh R w x t get_error set_error
    else none
  | .answer now user =>
    if w.clock ≤ now then w.refreshing.map fun x => answer settings w x.1 x.2 now user else none
  | .revoke cookie t set_error =>
    if w.refreshing.isNone ∧ t.Ordered w.clock then
      (w.issued[cookie]?).map fun x => post_token_revoke R w x t set_error
    else none

def Fresh (w : World κ) : Prop :=
  w.redis = [] ∧ w.issued = [] ∧ w.marks = [] ∧ w.refreshing = none ∧ w.returned = none

def system : System (World κ) Request := ofFun Fresh (step R settings)

/-- The token the last request has returned is not revoked. -/
def Live (w : World κ) : Prop :=
  ∀ p, w.returned = some p → isRevoked w.redis w.clock (R.key p) = false

/-- Where a token is revoked, the session it was issued to has revoked it. -/
def Apart (w : World κ) : Prop :=
  ∀ y ∈ w.issued, isRevoked w.redis w.clock (R.key y.payload) = true →
    ∃ m ∈ w.marks, m.session.id = y.id ∧ R.key m.session.payload = R.key y.payload

/-- Issued to one user in one session epoch, in the same second. -/
def Coincide (p q : Payload) : Prop := p.sub = q.sub ∧ p.ses = q.ses ∧ p.iat = q.iat

/-- Tokens whose revocation keys are the same, because they coincide or because the keys of
different tokens collide. -/
def Confused (p q : Payload) : Prop := Coincide p q ∨ ¬ Coincide p q ∧ R.key p = R.key q

/-- A key that is in force at `now` was written for a token that `p` is confused with. -/
def InForce (w : World κ) (now : ℕ) (p : Payload) : Prop :=
  ∃ m ∈ w.marks, ∃ e, m.expires = some e ∧ now < e ∧ Confused R m.session.payload p

/-- Every other session whose token is confused with that of `x` has revoked its own. -/
def Alone (w : World κ) (x : Session) : Prop :=
  ∀ y ∈ w.issued, y.id ≠ x.id → Confused R y.payload x.payload →
    ∃ m ∈ w.marks, m.session.id = y.id ∧ Confused R m.session.payload y.payload

/-- A token is issued only where no revocation in force is of a token it is confused with,
and revoked only where no other session holds one it is confused with. -/
def Guard (w : World κ) : Request → Prop
  | .login now user_id user =>
    ¬ InForce R w now (issue_refresh_token settings now (Uuid.str user_id) user.session_epoch)
  | .refresh cookie t get_error set_error =>
    ∀ x, w.issued[cookie]? = some x → get_error = false → ¬ InForce R w t.read x.payload →
      ¬ x.payload.expired t.decoded → x.payload.ttl t.counted ≠ 0 → set_error = false →
      Alone R w x
  | .answer now user =>
    ∀ x user_id u, w.refreshing = some (x,user_id) → user = some u →
      session_epoch_matches x.payload.ses u.session_epoch = true →
      ¬ InForce R w now (issue_refresh_token settings now (Uuid.str user_id) u.session_epoch)
  | .revoke cookie t set_error =>
    ∀ x, w.issued[cookie]? = some x → x.payload.ttl t.counted ≠ 0 → set_error = false →
      Alone R w x

/-- The payload of an issued refresh token. -/
def Genuine (p : Payload) : Prop :=
  ∃ now user_id session_epoch, user_id < 2^128 ∧
    p = issue_refresh_token settings now (Uuid.str user_id) session_epoch

variable {R settings}

theorem Genuine.type {p : Payload} (h : Genuine settings p) :
    p.type = some "refresh".toList := by
  obtain ⟨now,user_id,session_epoch,-,rfl⟩ := h
  rfl

theorem Genuine.user_id {p : Payload} (h : Genuine settings p) :
    ∃ user_id < 2^128, Uuid.UUID p.sub = some user_id := by
  obtain ⟨now,user_id,session_epoch,hid,rfl⟩ := h
  exact ⟨user_id,hid,Uuid.UUID_str hid⟩

/-- User, epoch and second determine the token. -/
theorem Genuine.eq_of_coincide {p q : Payload} (hp : Genuine settings p)
    (hq : Genuine settings q) (h : Coincide p q) : p = q := by
  obtain ⟨now,user_id,session_epoch,-,rfl⟩ := hp
  obtain ⟨now',user_id',session_epoch',-,rfl⟩ := hq
  obtain ⟨hs,he,hi⟩ := h
  simp only [issue_refresh_token] at hs he hi ⊢
  rw [hs,he,hi]

omit [DecidableEq κ] in
theorem confused_iff {p q : Payload} (hp : Genuine settings p) (hq : Genuine settings q) :
    Confused R p q ↔ R.key p = R.key q := by
  constructor
  · rintro (h | h)
    · rw [hp.eq_of_coincide hq h]
    · exact h.2
  · intro h
    by_cases hc : Coincide p q
    · exact .inl hc
    · exact .inr ⟨hc,h⟩

theorem isRevoked_mono {redis : List (κ × ℕ)} {now now' : ℕ} {key : κ} (hle : now ≤ now')
    (h : isRevoked redis now' key = true) : isRevoked redis now key = true := by
  rw [isRevoked,List.any_eq_true] at h ⊢
  obtain ⟨e,he,hk⟩ := h
  refine ⟨e,he,?_⟩
  simp only [Bool.and_eq_true,decide_eq_true_eq] at hk ⊢
  exact ⟨hk.1,by omega⟩

theorem isRevoked_setNx {redis : List (κ × ℕ)} {now ttl : ℕ} {key key' : κ} (ht : ttl ≠ 0) :
    isRevoked (setNx redis now ttl key) now key' = true ↔
      isRevoked redis now key' = true ∨ key = key' := by
  have hlt : now < now+ttl*second := by
    have : 0 < ttl*second := Nat.mul_pos (Nat.pos_of_ne_zero ht) (by decide)
    omega
  rw [setNx]
  by_cases hr : isRevoked redis now key = true
  · rw [if_pos hr]
    constructor
    · exact .inl
    · rintro (h | rfl)
      · exact h
      · exact hr
  · rw [if_neg hr]
    simp [isRevoked,hlt,or_comm]

/-- Redis holds the keys the revocations have written, and every token is a refresh token
this server has issued. -/
structure Invariant (R : Runtime τ κ) (settings : Settings) (w : World κ) : Prop where
  redis : w.redis = w.marks.filterMap fun m => m.expires.map (R.key m.session.payload,·)
  issued : ∀ y ∈ w.issued, Genuine settings y.payload
  marks : ∀ m ∈ w.marks, Genuine settings m.session.payload
  refreshing : ∀ x, w.refreshing = some x → x.2 < 2^128
  live : Live R w
  apart : Apart R w

theorem Fresh.invariant {w : World κ} (h : Fresh w) : Invariant R settings w := by
  obtain ⟨hr,hi,hm,hf,ht⟩ := h
  constructor <;> simp [Live,Apart,hr,hi,hm,hf,ht]

variable {w w' : World κ}

theorem Invariant.isRevoked_iff (hw : Invariant R settings w) {p : Payload} {now : ℕ}
    (hp : Genuine settings p) :
    isRevoked w.redis now (R.key p) = true ↔ InForce R w now p := by
  rw [hw.redis,isRevoked,List.any_eq_true,InForce]
  constructor
  · rintro ⟨e,he,hk⟩
    obtain ⟨m,hm,ht⟩ := List.mem_filterMap.mp he
    obtain ⟨t,hmt,rfl⟩ := Option.map_eq_some_iff.mp ht
    simp only [Bool.and_eq_true,decide_eq_true_eq] at hk
    exact ⟨m,hm,t,hmt,hk.2,(confused_iff (hw.marks m hm) hp).mpr hk.1⟩
  · rintro ⟨m,hm,t,hmt,hlt,hc⟩
    refine ⟨(R.key m.session.payload,t),List.mem_filterMap.mpr ⟨m,hm,by rw [hmt]; rfl⟩,?_⟩
    simpa [hlt] using (confused_iff (hw.marks m hm) hp).mp hc

/-- What a request does to the world, and the condition that it has to meet. -/
inductive Effect (R : Runtime τ κ) (settings : Settings) (w : World κ) : Prop → World κ → Prop
  | quiet {now : ℕ} {r : Option (Session × ℕ)} : w.clock ≤ now → (∀ x, r = some x → x.2 < 2^128) →
      Effect R settings w True { w with clock := now, returned := none, refreshing := r }
  | issue {now id : ℕ} {p : Payload} : w.clock ≤ now → Genuine settings p →
      Effect R settings w (¬ InForce R w now p)
        { w with
          clock := now, issued := w.issued++[⟨id,p⟩]
          returned := some p, refreshing := none }
  | mark {x : Session} {now ttl : ℕ} {r : Option (Session × ℕ)} : w.clock ≤ now →
      x ∈ w.issued → ttl ≠ 0 → (∀ x, r = some x → x.2 < 2^128) →
      Effect R settings w (Alone R w x)
        { w with
          clock := now, redis := setNx w.redis now ttl (R.key x.payload)
          marks := ⟨x,if isRevoked w.redis now (R.key x.payload) then none
            else some (now+ttl*second)⟩::w.marks
          returned := none, refreshing := r }

/-- Where the revocation is written, it is written for the token that is presented. -/
theorem mark_refresh_revoked_eq {x : Session} (hx : Genuine settings x.payload)
    {counted set : ℕ} {set_error : Bool} :
    mark_refresh_revoked R w x counted set set_error =
      if x.payload.ttl counted = 0 then some w
      else if set_error then none
      else some { w with
        redis := setNx w.redis set (x.payload.ttl counted) (R.key x.payload)
        marks := ⟨x,if isRevoked w.redis set (R.key x.payload) then none
          else some (set+x.payload.ttl counted*second)⟩::w.marks } := by
  rw [mark_refresh_revoked,if_neg (not_not.mpr hx.type)]

theorem Times.Ordered.le {t : Times} {clock : ℕ} (h : t.Ordered clock) : clock ≤ t.set := by
  obtain ⟨h₁,h₂,h₃,h₄⟩ := h
  omega

theorem post_token_revoke_effect (hw : Invariant R settings w) {x : Session}
    (hx : x ∈ w.issued) {t : Times} (ht : t.Ordered w.clock) {set_error : Bool} :
    ∃ G, (G ↔ (x.payload.ttl t.counted ≠ 0 → set_error = false → Alone R w x)) ∧
      Effect R settings w G (post_token_revoke R w x t set_error) := by
  have hg := hw.issued x hx
  rw [post_token_revoke,mark_refresh_revoked_eq hg]
  by_cases hz : x.payload.ttl t.counted = 0
  · rw [if_pos hz]
    exact ⟨True,by simp [hz],.quiet ht.le hw.refreshing⟩
  rw [if_neg hz]
  cases set_error with
  | true => exact ⟨True,by simp,.quiet ht.le hw.refreshing⟩
  | false =>
    refine ⟨Alone R w x,by simp [hz],?_⟩
    exact .mark ht.le hx hz hw.refreshing

theorem decode_expired {p : Payload} {now : ℕ} (he : p.expired now) :
    ∃ e, decode_refresh_token now (some p) = .error e :=
  ⟨_,if_pos he⟩

theorem post_token_refresh_effect (hw : Invariant R settings w) {x : Session}
    (hx : x ∈ w.issued) {t : Times} (ht : t.Ordered w.clock) {get_error set_error : Bool} :
    ∃ G, (G ↔ (get_error = false → ¬ InForce R w t.read x.payload →
        ¬ x.payload.expired t.decoded → x.payload.ttl t.counted ≠ 0 → set_error = false →
        Alone R w x)) ∧
      Effect R settings w G (post_token_refresh R w x t get_error set_error) := by
  have hg := hw.issued x hx
  obtain ⟨user_id,hid,hsub⟩ := hg.user_id
  have hself : ∀ y, some (x,user_id) = some y → y.2 < 2^128 := by
    rintro y ⟨⟩
    exact hid
  rw [post_token_refresh]
  cases get_error with
  | true => exact ⟨True,by simp,.quiet ht.le hw.refreshing⟩
  | false =>
    rw [if_neg Bool.false_ne_true]
    by_cases hr : isRevoked w.redis t.read (R.key x.payload) = true
    · rw [if_pos hr]
      have hf := (hw.isRevoked_iff hg).mp hr
      exact ⟨True,by simp [hf],.quiet ht.le hw.refreshing⟩
    rw [if_neg hr]
    have hf : ¬ InForce R w t.read x.payload := fun h => hr ((hw.isRevoked_iff hg).mpr h)
    by_cases he : x.payload.expired t.decoded
    · refine ⟨True,by simp [he],?_⟩
      obtain ⟨e,herr⟩ := decode_expired he
      rw [herr]
      exact .quiet ht.le hw.refreshing
    rw [decode_refresh_token_eq_ok.mpr ⟨rfl,he,hg.type⟩]
    dsimp only
    rw [hsub,mark_refresh_revoked_eq hg]
    by_cases hz : x.payload.ttl t.counted = 0
    · rw [if_pos hz]
      exact ⟨True,by simp [hz],.quiet ht.le hself⟩
    rw [if_neg hz]
    cases set_error with
    | true => exact ⟨True,by simp,.quiet ht.le hw.refreshing⟩
    | false =>
      refine ⟨Alone R w x,by simp [hf,he,hz],?_⟩
      exact .mark ht.le hx hz hself

theorem answer_effect {x : Session} {user_id now : ℕ} (hid : user_id < 2^128)
    (hle : w.clock ≤ now) {user : Option User} :
    ∃ G, (G ↔ ∀ u, user = some u → session_epoch_matches x.payload.ses u.session_epoch = true →
        ¬ InForce R w now (issue_refresh_token settings now (Uuid.str user_id) u.session_epoch)) ∧
      Effect R settings w G (answer settings w x user_id now user) := by
  rw [answer,Refresh.respond]
  cases user with
  | none => exact ⟨True,by simp,.quiet hle nofun⟩
  | some u =>
    dsimp only
    by_cases hm : session_epoch_matches x.payload.ses u.session_epoch = true
    · rw [if_pos hm]
      refine ⟨¬ InForce R w now
        (issue_refresh_token settings now (Uuid.str user_id) u.session_epoch),by simp [hm],?_⟩
      exact .issue hle ⟨_,_,_,hid,rfl⟩
    · rw [if_neg hm]
      exact ⟨True,by simp [hm],.quiet hle nofun⟩

/-- Every request has one of the effects, and its guard is the condition of the effect. -/
theorem step_effect (hw : Invariant R settings w) {a : Request}
    (h : step R settings w a = some w') :
    ∃ G, (Guard R settings w a ↔ G) ∧ Effect R settings w G w' := by
  cases a with
  | login now user_id user =>
    rw [step] at h
    by_cases hc : w.refreshing.isNone ∧ w.clock ≤ now
    · rw [if_pos hc] at h
      cases h
      refine ⟨_,Iff.rfl,?_⟩
      show Effect R settings w (¬ InForce R w now _) _
      have hp : Genuine settings
          (issue_refresh_token settings now (Uuid.str user_id) user.session_epoch) :=
        ⟨now,user_id,user.session_epoch,user_id.isLt,rfl⟩
      have he := @Effect.issue _ _ _ R _ w _ w.issued.length _ hc.2 hp
      simpa [post_token,World.tick,World.issue,Option.isNone_iff_eq_none.mp hc.1] using he
    · rw [if_neg hc] at h
      cases h
  | refresh cookie t get_error set_error =>
    rw [step] at h
    by_cases hc : w.refreshing.isNone ∧ t.Ordered w.clock
    · rw [if_pos hc] at h
      obtain ⟨x,hx,rfl⟩ := Option.map_eq_some_iff.mp h
      obtain ⟨G,hG,he⟩ := post_token_refresh_effect hw (List.mem_of_getElem? hx) hc.2
      exact ⟨G,by simp [Guard,hx,hG],he⟩
    · rw [if_neg hc] at h
      cases h
  | answer now user =>
    rw [step] at h
    by_cases hc : w.clock ≤ now
    · rw [if_pos hc] at h
      obtain ⟨x,hx,rfl⟩ := Option.map_eq_some_iff.mp h
      obtain ⟨G,hG,he⟩ := answer_effect (x:=x.1) (hw.refreshing x hx) hc
      refine ⟨G,?_,he⟩
      rw [hG,Guard,hx]
      constructor
      · exact fun hg u hu => hg x.1 x.2 u rfl hu
      · rintro hg _ _ u ⟨⟩
        exact hg u
    · rw [if_neg hc] at h
      cases h
  | revoke cookie t set_error =>
    rw [step] at h
    by_cases hc : w.refreshing.isNone ∧ t.Ordered w.clock
    · rw [if_pos hc] at h
      obtain ⟨x,hx,rfl⟩ := Option.map_eq_some_iff.mp h
      obtain ⟨G,hG,he⟩ := post_token_revoke_effect hw (List.mem_of_getElem? hx) hc.2
      exact ⟨G,by simp [Guard,hx,hG],he⟩
    · rw [if_neg hc] at h
      cases h

theorem Invariant.quiet (hw : Invariant R settings w) {now : ℕ} {r : Option (Session × ℕ)}
    (hle : w.clock ≤ now) (hr : ∀ x, r = some x → x.2 < 2^128) :
    Invariant R settings { w with clock := now, returned := none, refreshing := r } where
  redis := hw.redis
  issued := hw.issued
  marks := hw.marks
  refreshing := hr
  live := nofun
  apart y hy h := hw.apart y hy (isRevoked_mono hle h)

/-- An issued token is live where no revocation in force is of one it is confused with. -/
theorem Invariant.issue (hw : Invariant R settings w) {now id : ℕ} {p : Payload}
    (hle : w.clock ≤ now) (hp : Genuine settings p) (hg : ¬ InForce R w now p) :
    Invariant R settings { w with
      clock := now, issued := w.issued++[⟨id,p⟩]
      returned := some p, refreshing := none } where
  redis := hw.redis
  issued := by
    intro y hy
    rcases List.mem_append.mp hy with hy | hy
    · exact hw.issued y hy
    · rw [List.mem_singleton.mp hy]
      exact hp
  marks := hw.marks
  refreshing := nofun
  live := by
    rintro q ⟨⟩
    exact Bool.eq_false_iff.mpr fun hr => hg ((hw.isRevoked_iff hp).mp hr)
  apart := by
    intro y hy hr
    rcases List.mem_append.mp hy with hy | hy
    · exact hw.apart y hy (isRevoked_mono hle hr)
    · rw [List.mem_singleton.mp hy] at hr
      exact absurd ((hw.isRevoked_iff hp).mp hr) hg

theorem Invariant.mark (hw : Invariant R settings w) {x : Session} {now ttl : ℕ}
    {r : Option (Session × ℕ)} (hle : w.clock ≤ now) (hx : x ∈ w.issued) (ht : ttl ≠ 0)
    (hr : ∀ x, r = some x → x.2 < 2^128) (hg : Alone R w x) :
    Invariant R settings { w with
      clock := now, redis := setNx w.redis now ttl (R.key x.payload)
      marks := ⟨x,if isRevoked w.redis now (R.key x.payload) then none
        else some (now+ttl*second)⟩::w.marks
      returned := none, refreshing := r } where
  redis := by
    show setNx w.redis now ttl (R.key x.payload) = _
    rw [List.filterMap_cons,setNx,← hw.redis]
    by_cases hk : isRevoked w.redis now (R.key x.payload) = true <;> simp [hk]
  issued := hw.issued
  marks := List.forall_mem_cons.mpr ⟨hw.issued x hx,hw.marks⟩
  refreshing := hr
  live := nofun
  apart := by
    intro y hy hk
    rcases (isRevoked_setNx ht).mp hk with hk | hk
    · obtain ⟨m,hm,h⟩ := hw.apart y hy (isRevoked_mono hle hk)
      exact ⟨m,List.mem_cons_of_mem _ hm,h⟩
    by_cases hid : y.id = x.id
    · exact ⟨_,List.mem_cons_self,hid.symm,hk⟩
    · have hgy := hw.issued y hy
      obtain ⟨m,hm,hmy,hc⟩ := hg y hy hid ((confused_iff hgy (hw.issued x hx)).mpr hk.symm)
      exact ⟨m,List.mem_cons_of_mem _ hm,hmy,(confused_iff (hw.marks m hm) hgy).mp hc⟩

theorem Invariant.step (hw : Invariant R settings w) {a : Request}
    (hg : Guard R settings w a) (h : step R settings w a = some w') :
    Invariant R settings w' := by
  obtain ⟨G,hG,he⟩ := step_effect hw h
  have hg := hG.mp hg
  cases he with
  | quiet hle hr => exact hw.quiet hle hr
  | issue hle hp => exact hw.issue hle hp hg
  | mark hle hx ht hr => exact hw.mark hle hx ht hr hg

/-- A request that misses its guard returns a revoked token, or revokes the token of a
session that has not revoked it. -/
theorem Invariant.missed (hw : Invariant R settings w) {a : Request}
    (hg : ¬ Guard R settings w a) (h : Rotation.step R settings w a = some w') :
    ¬ (Live R w' ∧ Apart R w') := by
  obtain ⟨G,hG,he⟩ := step_effect hw h
  rw [hG] at hg
  rintro ⟨hl,ha⟩
  cases he with
  | quiet => exact hg trivial
  | @issue now id p hle hp =>
    have hr := (hw.isRevoked_iff hp).mpr (not_not.mp hg)
    exact Bool.eq_false_iff.mp (hl p rfl) hr
  | @mark x now ttl r hle hx ht hr =>
    simp only [Alone,not_forall] at hg
    obtain ⟨y,hy,hid,hc,hn⟩ := hg
    have hgy := hw.issued y hy
    have hk := (confused_iff hgy (hw.issued x hx)).mp hc
    obtain ⟨m,hm,hmy,hmk⟩ := ha y hy ((isRevoked_setNx ht).mpr (.inr hk.symm))
    rcases List.mem_cons.mp hm with rfl | hm
    · exact hid hmy.symm
    · exact hn ⟨m,hm,hmy,(confused_iff (hw.marks m hm) hgy).mpr hmk⟩

/-- Over any sequence of logins, refreshes and revocations, returned tokens are live and
sessions revoke only their own exactly where every request meets the guard. -/
theorem rotation_live {w₀ w : World κ} {h : List (World κ × Request)} (h₀ : Fresh w₀)
    (hr : Run (system R settings) w₀ h w) :
    Visits (fun w => Live R w ∧ Apart R w) h w ↔ Meets (Guard R settings) h :=
  hr.visits_iff_meets (I:=Invariant R settings) h₀.invariant (fun _ hw => ⟨hw.live,hw.apart⟩)
    (fun _ _ _ hw hg hs => hw.step hg hs) (fun _ _ _ hw hg hs => hw.missed hg hs)

def sampleRuntime : Runtime Payload Payload := ⟨id,id⟩

def sampleSettings : Settings := ⟨15,7⟩

def sampleWorld : World Payload := ⟨0,[],[],[],none,none⟩

def sampleUser : User := ⟨['m'],3⟩

theorem sampleWorld_fresh : Fresh sampleWorld := ⟨rfl,rfl,rfl,rfl,rfl⟩

def timesAt (now : ℕ) : Times := ⟨now,now,now,now⟩

def sampleRequests : List Request :=
  [.login 100000 7 sampleUser,.refresh 0 (timesAt 1200000) false false,
    .answer 1300000 (some sampleUser)]

theorem rotation_live_sample : ∃ h w, Run (system sampleRuntime sampleSettings) sampleWorld h w ∧
    Visits (fun w => Live sampleRuntime w ∧ Apart sampleRuntime w) h w ∧ w.issued.length = 2 := by
  have hr := run_of_replay (i:=Fresh) (f:=step sampleRuntime sampleSettings) (l:=sampleRequests)
    (.refl (s:=sampleWorld)) rfl
  refine ⟨_,_,hr,(rotation_live sampleWorld_fresh hr).mpr ?_,rfl⟩
  simp only [meets_cons,meets_nil,and_true]
  refine ⟨?_,?_,?_⟩
  · rintro x user_id u ⟨⟩ ⟨⟩ -
    rintro ⟨m,hm,e,-,-,hc⟩
    obtain rfl := List.mem_singleton.mp hm
    rcases hc with hc | hc
    · exact absurd hc.2.2 (by decide)
    · exact absurd hc.2 (by decide)
  · rintro x ⟨⟩ - - - - - y hy hid
    obtain rfl := List.mem_singleton.mp hy
    exact absurd rfl hid
  · rintro ⟨m,hm,-⟩
    cases hm

/-- A refresh in the second of the login returns the token it has just revoked, and of two
sessions that log in in one second, a revocation in one revokes the other. -/
theorem rotation_fails :
    (∃ h w, Run (system sampleRuntime sampleSettings) sampleWorld h w ∧ ¬ Live sampleRuntime w) ∧
      ∃ h w, Run (system sampleRuntime sampleSettings) sampleWorld h w ∧
        ¬ Apart sampleRuntime w := by
  constructor
  · have hr := run_of_replay (i:=Fresh) (f:=step sampleRuntime sampleSettings)
      (l:=[.login 100000 7 sampleUser,.refresh 0 (timesAt 200000) false false,
        .answer 300000 (some sampleUser)]) (.refl (s:=sampleWorld)) rfl
    refine ⟨_,_,hr,fun hl => ?_⟩
    exact absurd (hl _ rfl) (by decide)
  · have hr := run_of_replay (i:=Fresh) (f:=step sampleRuntime sampleSettings)
      (l:=[.login 100000 7 sampleUser,.login 200000 7 sampleUser,
        .revoke 0 (timesAt 300000) false]) (.refl (s:=sampleWorld)) rfl
    refine ⟨_,_,hr,fun ha => ?_⟩
    obtain ⟨m,hm,hid,-⟩ := ha ⟨1,issue_refresh_token sampleSettings 200000 (Uuid.str 7) 3⟩
      (.tail _ (.head _)) (by decide)
    obtain rfl := List.mem_singleton.mp hm
    exact absurd hid (by decide)

end Rotation
end Auth
end Dataspoke
