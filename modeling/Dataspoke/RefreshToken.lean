import Dataspoke.AuthTokens
import Dataspoke.Interleave
import Dataspoke.Uuid

/-!
# Exchanging a refresh token

`post_token_refresh` cut where it awaits Redis or the database, for requests that all
present one token. Redis holds the token's revocation key until it expires.
-/

namespace Dataspoke
namespace Auth
namespace Refresh

open Python Interleave Transition

structure Shared where
  clock : ℕ
  /-- The instant at which the revocation key expires, where it is set. -/
  revoked_until : Option ℕ

structure User where
  email : Str
  session_epoch : ℤ

structure TokenResponse where
  access_token : Payload
  refresh_cookie : Payload

inductive Phase
  | start
  /-- `is_refresh_revoked` has read the key. -/
  | checked (revoked : Bool)
  /-- The token is decoded, and `set_nx` under way. -/
  | revoking (payload : Payload) (user_id ttl : ℕ)
  | reading (payload : Payload) (user_id : ℕ)
  | done (response : Except AuthError TokenResponse)

/-- What a step gets from outside: the clock, read once more where the step reads it twice,
whether Redis fails, and the user row. -/
structure Input where
  now : ℕ
  later : ℕ
  redis_error : Bool
  user : Option User

variable (settings : Settings) (signed : Option Payload)

/-- `redis.get` of the revocation key. -/
def isRevoked (s : Shared) (now : ℕ) : Bool := s.revoked_until.any (now < ·)

/-- `redis.set_nx` of the revocation key. -/
def setNx (s : Shared) (now ttl : ℕ) : Shared :=
  if isRevoked s now then s else { s with revoked_until := some (now+ttl*second) }

def is_refresh_revoked (a : Input) (s : Shared) : Phase :=
  if a.redis_error then .done (.error .storageUnavailable) else .checked (isRevoked s a.now)

/-- From the answer of `is_refresh_revoked` to the next await: `mark_refresh_revoked` is
left at once where it finds no lifetime left. -/
def decodeAndMark (a : Input) (revoked : Bool) : Phase :=
  if revoked then .done (.error (.unauthorized "Refresh token has been revoked."))
  else
    match decode_refresh_token a.now signed with
    | .error e => .done (.error e)
    | .ok payload =>
      match Uuid.UUID payload.sub with
      | none => .done (.error (.unauthorized "Invalid refresh token subject."))
      | some user_id =>
        if payload.ttl a.later = 0 then .reading payload user_id
        else .revoking payload user_id (payload.ttl a.later)

/-- The answer of `set_nx` is not looked at. -/
def mark (a : Input) (s : Shared) (payload : Payload) (user_id ttl : ℕ) : Shared × Phase :=
  if a.redis_error then (s,.done (.error .storageUnavailable))
  else (setNx s a.now ttl,.reading payload user_id)

def respond (a : Input) (payload : Payload) (user_id : ℕ) : Except AuthError TokenResponse :=
  match a.user with
  | none => .error (.unauthorized "User no longer exists.")
  | some user =>
    if session_epoch_matches payload.ses user.session_epoch then
      .ok ⟨issue_access_token settings a.now (Uuid.str user_id) user.email user.session_epoch,
        issue_refresh_token settings a.now (Uuid.str user_id) user.session_epoch⟩
    else .error (.unauthorized "Session is no longer valid.")

/-- One step of `post_token_refresh`; the clock does not go back. -/
def post_token_refresh : Program Shared Phase Input := fun _ a s p =>
  if a.now < s.clock ∨ a.later < a.now then none
  else
    let s := { s with clock := a.later }
    match p with
    | .start => some (s,is_refresh_revoked a s)
    | .checked revoked => some (s,decodeAndMark signed a revoked)
    | .revoking payload user_id ttl => some (mark a s payload user_id ttl)
    | .reading payload user_id => some (s,.done (respond settings a payload user_id))
    | .done _ => none

/-- The token is not revoked, and no request has been received. -/
def Fresh (w : World Shared Phase) : Prop :=
  w.shared.revoked_until = none ∧ ∀ i, w.proc i = .start

def system : System (World Shared Phase) (ℕ × Input) :=
  Interleave.system (post_token_refresh settings signed) Fresh

def Succeeded : Phase → Prop
  | .done (.ok _) => True
  | _ => False

/-- At most one request has got new tokens. -/
def SingleUse (w : World Shared Phase) : Prop :=
  ∀ i j, Succeeded (w.proc i) → Succeeded (w.proc j) → i = j

/-- Between the revocation check that lets a request pass and the end of its own mark. -/
def Exchanging : Phase → Prop
  | .checked false | .revoking .. => True
  | _ => False

/-- No decoding of the token succeeds from `now` on. -/
def Dead (now : ℕ) : Prop := ∀ p, signed = some p → p.expired now

/-- No request finds a live token unrevoked while another is between its check and its
mark. -/
def Guard (w : World Shared Phase) (l : ℕ × Input) : Prop :=
  w.proc l.1 = .start → l.2.redis_error = false → isRevoked w.shared l.2.now = false →
    ¬ Dead signed l.2.later → ∀ j, ¬ Exchanging (w.proc j)

/-- The token has been decoded for the request. -/
def Cleared : Phase → Prop
  | .revoking .. | .reading .. | .done (.ok _) => True
  | _ => False

/-- Past the mark, on the way to new tokens or there. -/
def Marked : Phase → Prop
  | .reading .. | .done (.ok _) => True
  | _ => False

/-- The revocation key is set for as long as the token lives. -/
def Closed (s : Shared) : Prop :=
  Dead signed s.clock ∨ ∃ e, s.revoked_until = some e ∧ Dead signed e

structure Invariant (w : World Shared Phase) : Prop where
  cleared : ∀ i j, Cleared (w.proc i) → Cleared (w.proc j) → i = j
  late : ∀ i j, w.proc i = .checked false → Cleared (w.proc j) → Dead signed w.shared.clock
  checked : ∀ i j, w.proc i = .checked false → w.proc j = .checked false →
    i = j ∨ Dead signed w.shared.clock
  closed : ∀ j, Marked (w.proc j) → Closed signed w.shared
  ttl : ∀ i p u n, w.proc i = .revoking p u n → Dead signed (w.shared.clock+n*second)
  key : ∀ e, w.shared.revoked_until = some e → Dead signed e

variable {signed}

theorem Dead.mono {now now' : ℕ} (h : Dead signed now) (hle : now ≤ now') : Dead signed now' :=
  fun p hp => (h p hp).trans hle

theorem Closed.unrevoked {s : Shared} {now : ℕ} (h : Closed signed s) (hle : s.clock ≤ now)
    (hu : isRevoked s now = false) : Dead signed now := by
  rcases h with h | ⟨e,he,h⟩
  · exact h.mono hle
  · refine h.mono ?_
    simpa [isRevoked,he] using hu

theorem Succeeded.cleared {p : Phase} (h : Succeeded p) : Cleared p := by
  cases p with
  | done r => cases r <;> exact h
  | _ => exact h.elim

theorem Cleared.cases {p : Phase} (h : Cleared p) : Exchanging p ∨ Marked p := by
  cases p with
  | revoking => exact .inl trivial
  | reading => exact .inr trivial
  | done r => cases r <;> exact .inr h
  | _ => exact h.elim

theorem Invariant.singleUse {w : World Shared Phase} (h : Invariant signed w) : SingleUse w :=
  fun i j hi hj => h.cleared i j hi.cleared hj.cleared

theorem Fresh.invariant {w : World Shared Phase} (h : Fresh w) : Invariant signed w := by
  obtain ⟨hkey,hproc⟩ := h
  constructor <;> intros <;> simp_all [Cleared,Marked]

def Refused : Phase → Prop
  | .checked true | .done (.error _) => True
  | _ => False

/-- What a step does, apart from moving the clock. -/
inductive Change (signed : Option Payload) (a : Input) (s s' : Shared) : Phase → Phase → Prop
  | refuse {p p' : Phase} : Refused p' → s'.revoked_until = s.revoked_until → Change signed a s s' p p'
  | check : a.redis_error = false → isRevoked s a.now = false →
      s'.revoked_until = s.revoked_until → Change signed a s s' .start (.checked false)
  | clear {p' : Phase} : ¬ Dead signed a.now → Cleared p' →
      (Marked p' → Dead signed a.later) →
      (∀ p u n, p' = .revoking p u n → Dead signed (a.later+n*second)) →
      s'.revoked_until = s.revoked_until → Change signed a s s' (.checked false) p'
  | mark {p : Payload} {u n : ℕ} : s' = { setNx s a.now n with clock := a.later } →
      Change signed a s s' (.revoking p u n) (.reading p u)
  | succeed {p : Payload} {u : ℕ} {r : TokenResponse} : s'.revoked_until = s.revoked_until →
      Change signed a s s' (.reading p u) (.done (.ok r))

variable {settings : Settings} {i : ℕ} {a : Input} {s s' : Shared} {p p' : Phase}

theorem dead_some {payload : Payload} {now : ℕ} :
    Dead (some payload) now ↔ payload.expired now := by
  simp [Dead]

theorem decodeAndMark_change (h : decodeAndMark signed a false = p') {s s' : Shared}
    (hs : s'.revoked_until = s.revoked_until) : Change signed a s s' (.checked false) p' := by
  rw [decodeAndMark,if_neg Bool.false_ne_true] at h
  cases hd : decode_refresh_token a.now signed with
  | error e =>
    rw [hd] at h
    subst h
    exact .refuse trivial hs
  | ok payload =>
    obtain ⟨rfl,hlive,-⟩ := decode_refresh_token_eq_ok.mp hd
    have hexp := payload.exp_le_ttl a.later
    rw [hd] at h
    dsimp only at h
    cases hu : Uuid.UUID payload.sub with
    | none =>
      rw [hu] at h
      subst h
      exact .refuse trivial hs
    | some user_id =>
      rw [hu] at h
      dsimp only at h
      by_cases ht : payload.ttl a.later = 0
      · rw [if_pos ht] at h
        subst h
        rw [ht,Nat.zero_mul,Nat.add_zero] at hexp
        exact .clear (fun hn => hlive (dead_some.mp hn)) trivial (fun _ => dead_some.mpr hexp)
          nofun hs
      · rw [if_neg ht] at h
        subst h
        refine .clear (fun hn => hlive (dead_some.mp hn)) trivial False.elim ?_ hs
        rintro _ _ _ ⟨rfl,rfl,rfl⟩
        exact dead_some.mpr hexp

theorem post_token_refresh_change (h : post_token_refresh settings signed i a s p = some (s',p')) :
    (s.clock ≤ a.now ∧ a.now ≤ a.later ∧ s'.clock = a.later) ∧ Change signed a s s' p p' := by
  rw [post_token_refresh] at h
  by_cases hc : a.now < s.clock ∨ a.later < a.now
  · rw [if_pos hc] at h
    cases h
  rw [if_neg hc] at h
  rw [not_or,Nat.not_lt,Nat.not_lt] at hc
  cases p with
  | start =>
    cases h
    refine ⟨⟨hc.1,hc.2,rfl⟩,?_⟩
    rw [is_refresh_revoked]
    by_cases he : a.redis_error
    · rw [if_pos he]
      exact .refuse trivial rfl
    · rw [if_neg he]
      show Change signed a s _ .start (.checked (isRevoked s a.now))
      cases hr : isRevoked s a.now with
      | true => exact .refuse trivial rfl
      | false => exact .check (by simpa using he) hr rfl
  | checked revoked =>
    cases h
    refine ⟨⟨hc.1,hc.2,rfl⟩,?_⟩
    cases revoked with
    | true => exact .refuse trivial rfl
    | false => exact decodeAndMark_change rfl rfl
  | revoking payload user_id n =>
    simp only [mark] at h
    by_cases he : a.redis_error
    · rw [if_pos he] at h
      cases h
      exact ⟨⟨hc.1,hc.2,rfl⟩,.refuse trivial rfl⟩
    · rw [if_neg he] at h
      cases h
      refine ⟨⟨hc.1,hc.2,?_⟩,.mark ?_⟩ <;>
        cases hr : s.revoked_until.any (a.now < ·) <;> simp [setNx,isRevoked,hr]
  | reading payload user_id =>
    cases h
    refine ⟨⟨hc.1,hc.2,rfl⟩,?_⟩
    cases hr : respond settings a payload user_id with
    | error e => exact .refuse trivial rfl
    | ok r => exact .succeed rfl
  | done r => cases h

theorem Closed.mono (h : Closed signed s) (hle : s.clock ≤ s'.clock)
    (hs : s'.revoked_until = s.revoked_until) : Closed signed s' := by
  rw [Closed,hs]
  exact h.imp_left fun hd => hd.mono hle

theorem setNx_dead {now n : ℕ} (hkey : ∀ e, s.revoked_until = some e → Dead signed e)
    (hn : Dead signed (now+n*second)) :
    ∃ e, (setNx s now n).revoked_until = some e ∧ Dead signed e := by
  rw [setNx]
  by_cases hr : isRevoked s now = true
  · rw [if_pos hr]
    obtain ⟨e,he,-⟩ := (Option.any_eq_true _ _).mp hr
    exact ⟨e,he,hkey e he⟩
  · rw [if_neg hr]
    exact ⟨_,rfl,hn⟩

/-- What the other requests have to fear from a step of one. -/
theorem Invariant.update {w : World Shared Phase} (hw : Invariant signed w)
    (hle : w.shared.clock ≤ s'.clock) (hclosed : Closed signed w.shared → Closed signed s')
    (hkey : ∀ e, s'.revoked_until = some e → Dead signed e)
    (hsole : Cleared p' → ∀ j, j ≠ i → ¬ Cleared (w.proc j))
    (hlate : Cleared p' → ∀ j, j ≠ i → w.proc j = .checked false → Dead signed s'.clock)
    (hcheck : p' = .checked false → ∀ j, j ≠ i → Exchanging (w.proc j) ∨ Marked (w.proc j) →
      Dead signed s'.clock)
    (hmarked : Marked p' → Closed signed s')
    (httl : ∀ q u n, p' = .revoking q u n → Dead signed (s'.clock+n*second)) :
    Invariant signed ⟨s',Function.update w.proc i p'⟩ := by
  have hother : ∀ j, j ≠ i →
      (⟨s',Function.update w.proc i p'⟩ : World Shared Phase).proc j = w.proc j :=
    fun j hj => Function.update_of_ne hj _ _
  have hself : (⟨s',Function.update w.proc i p'⟩ : World Shared Phase).proc i = p' :=
    Function.update_self ..
  constructor
  case cleared =>
    intro j k hj hk
    by_cases hji : j = i <;> by_cases hki : k = i
    · rw [hji,hki]
    · rw [hji,hself] at hj
      rw [hother k hki] at hk
      exact absurd hk (hsole hj k hki)
    · rw [hother j hji] at hj
      rw [hki,hself] at hk
      exact absurd hj (hsole hk j hji)
    · rw [hother j hji] at hj
      rw [hother k hki] at hk
      exact hw.cleared j k hj hk
  case late =>
    intro j k hj hk
    by_cases hji : j = i <;> by_cases hki : k = i
    · rw [hji,hself] at hj
      rw [hki,hself,hj] at hk
      exact hk.elim
    · rw [hji,hself] at hj
      rw [hother k hki] at hk
      exact hcheck hj k hki hk.cases
    · rw [hother j hji] at hj
      rw [hki,hself] at hk
      exact hlate hk j hji hj
    · rw [hother j hji] at hj
      rw [hother k hki] at hk
      exact (hw.late j k hj hk).mono hle
  case checked =>
    intro j k hj hk
    by_cases hji : j = i <;> by_cases hki : k = i
    · exact .inl (hji.trans hki.symm)
    · rw [hji,hself] at hj
      rw [hother k hki] at hk
      exact .inr (hcheck hj k hki (.inl (hk ▸ trivial)))
    · rw [hother j hji] at hj
      rw [hki,hself] at hk
      exact .inr (hcheck hk j hji (.inl (hj ▸ trivial)))
    · rw [hother j hji] at hj
      rw [hother k hki] at hk
      exact (hw.checked j k hj hk).imp_right fun hd => hd.mono hle
  case closed =>
    intro j hj
    by_cases hji : j = i
    · rw [hji,hself] at hj
      exact hmarked hj
    · rw [hother j hji] at hj
      exact hclosed (hw.closed j hj)
  case ttl =>
    intro j q u n hj
    by_cases hji : j = i
    · rw [hji,hself] at hj
      exact httl q u n hj
    · rw [hother j hji] at hj
      exact (hw.ttl j q u n hj).mono (Nat.add_le_add_right hle _)
  case key => exact hkey

/-- A guarded step keeps the invariant. -/
theorem Invariant.step {w w' : World Shared Phase} {l : ℕ × Input} (hw : Invariant signed w)
    (hg : Guard signed w l)
    (h : Interleave.step (post_token_refresh settings signed) w l = some w') :
    Invariant signed w' := by
  obtain ⟨s',p',hp,rfl⟩ := step_eq_some.mp h
  obtain ⟨i,a⟩ := l
  obtain ⟨⟨hnow,hlater,hclock⟩,hc⟩ := post_token_refresh_change hp
  have hle : w.shared.clock ≤ s'.clock := by omega
  dsimp only at *
  generalize hpi : w.proc i = p at *
  cases hc with
  | refuse hr hs =>
    have hno : ¬ Cleared p' ∧ p' ≠ .checked false ∧ ¬ Marked p' ∧
        ∀ q u n, p' ≠ .revoking q u n := by
      cases p' with
      | checked b => cases b <;> simp_all [Refused,Cleared,Marked]
      | done r => cases r <;> simp_all [Refused,Cleared,Marked]
      | _ => exact hr.elim
    refine hw.update hle (fun hcl => hcl.mono hle hs) (hs ▸ hw.key) ?_ ?_ ?_ ?_ ?_
    · exact fun hcl => absurd hcl hno.1
    · exact fun hcl => absurd hcl hno.1
    · exact fun hch => absurd hch hno.2.1
    · exact fun hm => absurd hm hno.2.2.1
    · exact fun q u n hq => absurd hq (hno.2.2.2 q u n)
  | check he hr hs =>
    refine hw.update hle (fun hcl => hcl.mono hle hs) (hs ▸ hw.key) False.elim False.elim ?_
      False.elim nofun
    intro _ j _ hj
    by_contra hd
    rcases hj with hj | hj
    · exact hg hpi he hr (hclock ▸ hd) j hj
    · exact hd (((hw.closed j hj).unrevoked hnow hr).mono (by omega))
  | clear hlive hcl hm ht hs =>
    have hlive' : ¬ Dead signed w.shared.clock := fun hd => hlive (hd.mono hnow)
    refine hw.update hle (fun hcl => hcl.mono hle hs) (hs ▸ hw.key) ?_ ?_ ?_ ?_ ?_
    · exact fun _ j _ hj => hlive' (hw.late i j hpi hj)
    · intro _ j hji hj
      exact absurd ((hw.checked i j hpi hj).resolve_left (Ne.symm hji)) hlive'
    · intro he
      rw [he] at hcl
      exact hcl.elim
    · exact fun hmk => .inl (hclock ▸ hm hmk)
    · exact fun q u n hq => hclock ▸ ht q u n hq
  | @mark q u n hs =>
    obtain ⟨e,he,hdead⟩ := setNx_dead hw.key
      ((hw.ttl i q u n hpi).mono (Nat.add_le_add_right hnow _))
    have he' : s'.revoked_until = some e := by rw [hs,he]
    have hcl : Closed signed s' := .inr ⟨e,he',hdead⟩
    refine hw.update hle (fun _ => hcl) ?_ ?_ ?_ nofun (fun _ => hcl) nofun
    · intro e' hs'
      cases he'.symm.trans hs'
      exact hdead
    · exact fun _ j hji hj => hji (hw.cleared j i hj (hpi ▸ trivial))
    · exact fun _ j _ hj => (hw.late j i hj (hpi ▸ trivial)).mono hle
  | succeed hs =>
    have hcl : Closed signed s' := (hw.closed i (hpi ▸ trivial)).mono hle hs
    refine hw.update hle (fun hcl => hcl.mono hle hs) (hs ▸ hw.key) ?_ ?_ nofun (fun _ => hcl) nofun
    · exact fun _ j hji hj => hji (hw.cleared j i hj (hpi ▸ trivial))
    · exact fun _ j _ hj => (hw.late j i hj (hpi ▸ trivial)).mono hle

/-- A token is exchanged at most once in a run where no request checks it while another is
between its check and its mark. -/
theorem refresh_single_use {w w' : World Shared Phase} {h : List (World Shared Phase × (ℕ × Input))}
    (hr : Run (system settings signed) w h w') (hw : Fresh w) (hg : Meets (Guard signed) h) :
    Visits SingleUse h w' := by
  have hv := hr.visits hw.invariant (fun _ _ _ hi hg hs => hi.step hg hs) hg
  exact ⟨hv.1.singleUse,fun p hp => (hv.2 p hp).singleUse⟩

def sampleSettings : Settings := ⟨15,7⟩

def sampleToken : Option Payload := some (issue_refresh_token sampleSettings 0 (Uuid.str 7) 3)

def sampleWorld : World Shared Phase := ⟨⟨0,none⟩,fun _ => .start⟩

def sampleInput : Input := ⟨1,2,false,some ⟨['m'],3⟩⟩

def inputAt (n : ℕ) : Input := { sampleInput with now := n, later := n }

theorem sampleWorld_fresh : Fresh sampleWorld := ⟨rfl,fun _ => rfl⟩

def sampleSteps : List (ℕ × Input) := [(0,inputAt 1),(0,inputAt 2),(0,inputAt 3),(0,inputAt 4),(1,inputAt 5),(1,inputAt 6)]

theorem refresh_single_use_sample : ∃ h w',
    Run (system sampleSettings sampleToken) sampleWorld h w' ∧ Visits SingleUse h w' ∧
      Succeeded (w'.proc 0) := by
  have hr := run_of_replay (i:=Fresh)
    (f:=Interleave.step (post_token_refresh sampleSettings sampleToken)) (l:=sampleSteps)
    (.refl (s:=sampleWorld)) rfl
  refine ⟨_,_,hr,refresh_single_use hr sampleWorld_fresh ?_,trivial⟩
  simp only [meets_cons,meets_nil,and_true]
  refine ⟨?_,?_,?_,?_,?_,?_⟩
  case' refine_1 | refine_3 | refine_4 | refine_5 =>
    intro hp
    cases hp
  · intro _ _ hr
    exact absurd hr (by decide)
  · exact fun _ _ _ _ _ => id

/-- Two requests read the key before either sets it, and both get new tokens. -/
theorem refreshed_twice : ¬ ∀ w h w', Fresh w →
    Run (system sampleSettings sampleToken) w h w' → SingleUse w' := by
  intro hall
  have hr := run_of_replay (i:=Fresh)
    (f:=Interleave.step (post_token_refresh sampleSettings sampleToken))
    (l:=[(0,inputAt 1),(1,inputAt 2),(0,inputAt 3),(0,inputAt 4),(1,inputAt 5),(1,inputAt 6),(0,inputAt 7),(1,inputAt 8)])
    (.refl (s:=sampleWorld)) rfl
  exact absurd (hall _ _ _ sampleWorld_fresh hr 0 1 trivial trivial) (by decide)

end Refresh
end Auth
end Dataspoke
