import Dataspoke.RefreshRotation

/-!
# Spellings of a refresh token

`decode_refresh_token` compares the decoded signature, and the revocation key is a digest of
the text of the token. Texts that differ in the spelling of their signature only are accepted
alike and have keys of their own.
-/

namespace Dataspoke
namespace Auth
namespace Spelling

open Python Rotation Transition

/-- What the tokens rest on: the signature of the first two segments as they are written and
the claims in them, where these can be read; the decoding of the third segment; and the hex
digest of a text. -/
structure Jwt where
  signature : Str → List ℕ
  claims : Str → Option Payload
  base64url_decode : Str → Option (List ℕ)
  sha256_hexdigest : Str → Str

variable (J : Jwt)

/-- The text before the last dot, and the text after it. -/
def segments : Str → Option (Str × Str)
  | [] => none
  | c::s =>
    match segments s with
    | some (signing_input,crypto_segment) => some (c::signing_input,crypto_segment)
    | none => if c = '.' then some ([],s) else none

/-- The payload that the signature check yields. -/
def signed (token : Str) : Option Payload := do
  let (signing_input,crypto_segment) ← segments token
  let payload ← J.claims signing_input
  if J.base64url_decode crypto_segment = some (J.signature signing_input) then some payload
  else none

def REFRESH_REVOCATION_KEY_PREFIX : Str := "revoked_refresh:".toList

def revocation_key (token : Str) : Str :=
  REFRESH_REVOCATION_KEY_PREFIX++(J.sha256_hexdigest token).take 16

/-- The keys in Redis, each with the instant at which it expires. -/
abbrev Redis := List (Str × ℕ)

def is_refresh_revoked (redis : Redis) (token : Str) (now : ℕ) (redis_error : Bool) :
    Except AuthError Bool :=
  if redis_error then .error .storageUnavailable
  else .ok (isRevoked redis now (revocation_key J token))

/-- The clock is read for the lifetime that is left at `counted`, and by Redis at `set`. -/
def mark_refresh_revoked (redis : Redis) (token : Str) (counted set : ℕ) (redis_error : Bool) :
    Except AuthError Redis :=
  match signed J token with
  | none => .ok redis
  | some payload =>
    if payload.type ≠ some "refresh".toList then .ok redis
    else if payload.ttl counted = 0 then .ok redis
    else if redis_error then .error .storageUnavailable
    else .ok (setNx redis set (payload.ttl counted) (revocation_key J token))

section Segments

variable {signing_input s : Str}

theorem segments_eq_none (h : '.' ∉ s) : segments s = none := by
  induction s with
  | nil => rfl
  | cons c s ih =>
    rw [List.mem_cons,not_or] at h
    rw [segments,ih h.2]
    exact if_neg (Ne.symm h.1)

/-- A third segment without a dot is split off as it was appended. -/
theorem segments_append (h : '.' ∉ s) :
    segments (signing_input ++ '.'::s) = some (signing_input,s) := by
  induction signing_input with
  | nil =>
    rw [List.nil_append,segments,segments_eq_none h]
    rfl
  | cons c signing_input ih => rw [List.cons_append,segments,ih]

end Segments

structure Store where
  redis : Redis
  clock : ℕ

/-- A call of `mark_refresh_revoked`. -/
structure Mark where
  token : Str
  counted : ℕ
  set : ℕ
  redis_error : Bool

def step (st : Store) (m : Mark) : Option Store :=
  if st.clock ≤ m.counted ∧ m.counted ≤ m.set then
    match mark_refresh_revoked J st.redis m.token m.counted m.set m.redis_error with
    | .ok redis => some ⟨redis,m.set⟩
    | .error _ => some { st with clock := m.set }
  else none

def system : System Store Mark := ofFun (fun _ => True) (step J)

/-- A text with the header and payload segments of the token. -/
def Respelled (token text : Str) : Prop :=
  ∃ signing_input s s', segments token = some (signing_input,s) ∧
    segments text = some (signing_input,s')

/-- At every later time, after any further revocations, every spelling of the token that is
accepted is reported revoked. -/
def Covered (token : Str) (st : Store) : Prop :=
  ∀ h st', Run (system J) st h st' → ∀ now text payload, st'.clock ≤ now → Respelled token text →
    decode_refresh_token now (signed J text) = .ok payload →
    is_refresh_revoked J st'.redis text now false = .ok true

/-- The key is in Redis until the instant, or longer. -/
def LivesUntil (redis : Redis) (key : Str) (instant : ℕ) : Prop :=
  ∃ e ∈ redis, e.1 = key ∧ instant ≤ e.2

section Keys

variable {redis : Redis} {key key' : Str} {now set ttl instant : ℕ}

theorem LivesUntil.revoked (h : LivesUntil redis key instant) (hnow : now < instant) :
    isRevoked redis now key = true := by
  obtain ⟨e,he,hk,hle⟩ := h
  refine List.any_eq_true.mpr ⟨e,he,?_⟩
  have hlt : now < e.2 := by omega
  simp [hk,hlt]

theorem LivesUntil.setNx (h : LivesUntil redis key instant) :
    LivesUntil (setNx redis set ttl key') key instant := by
  rw [Rotation.setNx]
  by_cases hr : isRevoked redis set key' = true
  · rw [if_pos hr]
    exact h
  · rw [if_neg hr]
    obtain ⟨e,he,hk⟩ := h
    exact ⟨e,List.mem_cons_of_mem _ he,hk⟩

/-- What a key owes to a mark: it lived as long before, or is the key that the mark sets. -/
theorem livesUntil_setNx (hle : instant ≤ set+ttl*second) :
    LivesUntil (Rotation.setNx redis set ttl key') key instant ↔
      LivesUntil redis key instant ∨ key = key' ∧ isRevoked redis set key' = false := by
  constructor
  · intro h
    rw [Rotation.setNx] at h
    by_cases hr : isRevoked redis set key' = true
    · rw [if_pos hr] at h
      exact Or.inl h
    · rw [if_neg hr] at h
      obtain ⟨e,he,hk,hlive⟩ := h
      rcases List.mem_cons.mp he with rfl | he
      · exact Or.inr ⟨hk.symm,Bool.eq_false_iff.mpr hr⟩
      · exact Or.inl ⟨e,he,hk,hlive⟩
  · rintro (h | ⟨rfl,hr⟩)
    · exact h.setNx
    · rw [Rotation.setNx,if_neg (by rw [hr]; exact Bool.false_ne_true)]
      exact ⟨_,List.mem_cons_self,rfl,hle⟩

end Keys

section Marks

variable {J} {st st' : Store} {m : Mark} {token text : Str} {payload : Payload}

theorem signed_respelled (ht : signed J token = some payload) (hr : Respelled token text)
    {payload' : Payload} (hs : signed J text = some payload') : payload' = payload := by
  obtain ⟨signing_input,s,s',htoken,htext⟩ := hr
  simp only [signed,htoken,htext,Option.bind_eq_bind,Option.bind_some] at ht hs
  cases hc : J.claims signing_input with
  | none =>
    rw [hc] at ht
    cases ht
  | some claims =>
    simp only [hc,Option.bind_some,Option.ite_none_right_eq_some] at ht hs
    rw [← Option.some.inj ht.2,← Option.some.inj hs.2]

/-- No mark shortens the life of a key. -/
theorem livesUntil_step {key : Str} {instant : ℕ} (hs : step J st m = some st')
    (h : LivesUntil st.redis key instant) :
    LivesUntil st'.redis key instant ∧ st.clock ≤ st'.clock := by
  unfold step at hs
  by_cases hc : st.clock ≤ m.counted ∧ m.counted ≤ m.set
  · rw [if_pos hc] at hs
    have hclock : st.clock ≤ m.set := hc.1.trans hc.2
    cases hm : mark_refresh_revoked J st.redis m.token m.counted m.set m.redis_error with
    | error e =>
      simp only [hm,Option.some.injEq] at hs
      rw [← hs]
      exact ⟨h,hclock⟩
    | ok redis =>
      simp only [hm,Option.some.injEq] at hs
      rw [← hs]
      refine ⟨?_,hclock⟩
      unfold mark_refresh_revoked at hm
      split at hm
      next => exact Except.ok.inj hm ▸ h
      next =>
        split_ifs at hm
        · exact Except.ok.inj hm ▸ h
        · exact Except.ok.inj hm ▸ h
        · exact Except.ok.inj hm ▸ h.setNx
  · rw [if_neg hc] at hs
    cases hs

theorem livesUntil_run {h : List (Store × Mark)} {key : Str} {instant : ℕ}
    (hr : Run (system J) st h st') (hl : LivesUntil st.redis key instant) :
    LivesUntil st'.redis key instant :=
  hr.invariant (I:=fun st => LivesUntil st.redis key instant) hl
    fun _ _ _ hl hs => (livesUntil_step hs hl).1

theorem covered_iff_livesUntil (ht : signed J token = some payload)
    (htype : payload.type = some "refresh".toList) (hlive : ¬ payload.expired st.clock) :
    Covered J token st ↔ ∀ text, Respelled token text → signed J text = some payload →
      LivesUntil st.redis (revocation_key J text) (payload.exp*second) := by
  have hclock : st.clock < payload.exp*second := Nat.lt_of_not_le hlive
  constructor
  · intro h text hr hs
    have hlast : ¬ payload.expired (payload.exp*second-1) := by
      unfold Payload.expired
      omega
    have hrevoked := h [] st .refl (payload.exp*second-1) text payload (by omega) hr
      (decode_refresh_token_eq_ok.mpr ⟨hs,hlast,htype⟩)
    have hany : isRevoked st.redis (payload.exp*second-1) (revocation_key J text) = true :=
      Except.ok.inj hrevoked
    obtain ⟨e,he,hk⟩ := List.any_eq_true.mp hany
    simp only [Bool.and_eq_true,decide_eq_true_eq] at hk
    exact ⟨e,he,hk.1,by omega⟩
  · intro h hist st' hrun now text payload' _ hr hd
    obtain ⟨hs,hexp,-⟩ := decode_refresh_token_eq_ok.mp hd
    obtain rfl := signed_respelled ht hr hs
    have hkey := livesUntil_run hrun (h text hr hs)
    have hrevoked := hkey.revoked (Nat.lt_of_not_le hexp)
    show Except.ok (isRevoked st'.redis now (revocation_key J text)) = _
    rw [hrevoked]

/-- A completed mark of a live token covers its spellings exactly when every accepted one has
the key that the mark sets, or a key that is in Redis already until the token expires. -/
theorem mark_covers_iff {counted set : ℕ} {redis redis' : Redis}
    (ht : signed J token = some payload) (htype : payload.type = some "refresh".toList)
    (hmark : mark_refresh_revoked J redis token counted set false = .ok redis')
    (hle : counted ≤ set) (hlive : ¬ payload.expired set) :
    Covered J token ⟨redis',set⟩ ↔ ∀ text, Respelled token text → signed J text = some payload →
      LivesUntil redis (revocation_key J text) (payload.exp*second) ∨
        revocation_key J text = revocation_key J token ∧
          isRevoked redis set (revocation_key J token) = false := by
  have hexp : set < payload.exp*second := Nat.lt_of_not_le hlive
  have hend : payload.exp*second ≤ set+payload.ttl counted*second :=
    (payload.exp_le_ttl counted).trans (Nat.add_le_add_right hle _)
  have httl : payload.ttl counted ≠ 0 := by
    intro hzero
    rw [hzero,Nat.zero_mul] at hend
    omega
  have hredis : redis' = setNx redis set (payload.ttl counted) (revocation_key J token) := by
    unfold mark_refresh_revoked at hmark
    simp only [ht,htype,httl,ne_eq,not_true_eq_false,if_false,Bool.false_eq_true] at hmark
    exact (Except.ok.inj hmark).symm
  refine (covered_iff_livesUntil ht htype ?_).trans ?_
  · exact hlive
  · rw [hredis]
    exact forall₃_congr fun text _ _ => livesUntil_setNx hend

end Marks

/-- On the text that was issued a mark is the one of a rotation. -/
theorem mark_issued {R : Runtime Str Str} {w : World Str} {x : Session} {counted set : ℕ}
    {redis_error : Bool} (hs : signed J (R.encode x.payload) = some x.payload)
    (hk : R.key x.payload = revocation_key J (R.encode x.payload)) :
    (mark_refresh_revoked J w.redis (R.encode x.payload) counted set redis_error).toOption =
      (Rotation.mark_refresh_revoked R w x counted set redis_error).map (·.redis) := by
  unfold mark_refresh_revoked Rotation.mark_refresh_revoked
  simp only [hs,← hk]
  split_ifs <;> rfl

def base64Value (c : Char) : Option ℕ :=
  if 'A' ≤ c ∧ c ≤ 'Z' then some (c.toNat-65)
  else if 'a' ≤ c ∧ c ≤ 'z' then some (c.toNat-71)
  else if '0' ≤ c ∧ c ≤ '9' then some (c.toNat+4)
  else if c = '-' ∨ c = '+' then some 62
  else if c = '_' ∨ c = '/' then some 63
  else none

/-- `binascii.a2b_base64` from a position in a quadruple on, with the pad characters that were
read and the bits that are left. Other characters are skipped. -/
def a2b_base64 : ℕ → ℕ → ℕ → Str → Option (List ℕ)
  | position, _, _, [] => if position = 0 then some [] else none
  | position, pads, left, c::s =>
    if c = '=' then
      if position < 2 then a2b_base64 position pads left s
      else if 4 ≤ position+pads+1 then some []
      else a2b_base64 position (pads+1) left s
    else
      match base64Value c with
      | none => a2b_base64 position pads left s
      | some v =>
        match position with
        | 0 => a2b_base64 1 0 v s
        | 1 => (a2b_base64 2 0 (v%16) s).map ((left*4+v/16)::·)
        | 2 => (a2b_base64 3 0 (v%4) s).map ((left*16+v/4)::·)
        | _ => (a2b_base64 0 0 0 s).map ((left*64+v)::·)

/-- A segment is padded to a multiple of four characters. -/
def base64url_decode (segment : Str) : Option (List ℕ) :=
  a2b_base64 0 0 0 (segment++List.replicate ((4-segment.length%4)%4) '=')

def samplePayload : Payload := ⟨Uuid.str 7,none,some "refresh".toList,100,1,.int 3⟩

def sampleInput : Str :=
  "eyJhbGciOiJIUzI1NiIsInR5cCI6IkpXVCJ9.".toList++
    ("eyJzdWIiOiIwMDAwMDAwMC0wMDAwLTAwMDAtMDAwMC0wMDAwMDAwMDAwMDciLCJ0eXBlIjoicmVmcmVzaCIsImV4".toList++
      "cCI6MTAwLCJpYXQiOjEsInNlcyI6M30".toList)

def sampleSignature : List ℕ :=
  [10,157,171,115,186,65,178,35,77,180,23,1,73,74,15,58,25,7,33,100,183,184,178,167,138,27,14,254,
    28,81,185,246]

/-- The signature but for the two spare bits of its last character. -/
def sampleSegment (last : Char) : Str := "Cp2rc7pBsiNNtBcBSUoPOhkHIWS3uLKnihsO_hxRuf".toList++[last]

def spelled (last : Char) : Str := sampleInput ++ '.'::sampleSegment last

/-- A token signed with HS256 under the key `secret`, and the digests of two spellings of it. -/
def sampleJwt : Jwt where
  signature signing_input := if signing_input = sampleInput then sampleSignature else []
  claims signing_input := if signing_input = sampleInput then some samplePayload else none
  base64url_decode := base64url_decode
  sha256_hexdigest token :=
    if token = spelled 'Y' then
      "f39e04acc60a3d2c2c967016b1fb28838e857f5c812fc2feca9a5e18ee1cf85f".toList
    else if token = spelled 'Z' then
      "4beb29a9ed041f36754df1e0beb1471ff3c752763e11a41fe195eeb3c721e8cb".toList
    else []

theorem sampleSegment_decode : base64url_decode (sampleSegment 'Y') = some sampleSignature ∧
    base64url_decode (sampleSegment 'Z') = some sampleSignature := by
  decide +kernel

theorem segments_spelled {last : Char} (h : '.' ∉ sampleSegment last) :
    segments (spelled last) = some (sampleInput,sampleSegment last) := segments_append h

theorem signed_spelled {last : Char} (h : '.' ∉ sampleSegment last)
    (hd : base64url_decode (sampleSegment last) = some sampleSignature) :
    signed sampleJwt (spelled last) = some samplePayload := by
  simp only [signed,segments_spelled h,sampleJwt,Option.bind_eq_bind,Option.bind_some,if_true,hd]

theorem no_dot : '.' ∉ sampleSegment 'Y' ∧ '.' ∉ sampleSegment 'Z' := by decide +kernel

theorem signed_token : signed sampleJwt (spelled 'Y') = some samplePayload :=
  signed_spelled no_dot.1 sampleSegment_decode.1

theorem keys_ne :
    revocation_key sampleJwt (spelled 'Z') ≠ revocation_key sampleJwt (spelled 'Y') := by
  have hne : spelled 'Z' ≠ spelled 'Y' := fun h => by
    have hlast : sampleSegment 'Z' = sampleSegment 'Y' := List.cons_inj_right '.' |>.mp
      (List.append_cancel_left h)
    exact absurd (List.append_cancel_left hlast) (by decide)
  intro h
  have hdigest := List.append_cancel_left h
  simp only [sampleJwt,if_neg hne,if_true] at hdigest
  exact absurd hdigest (by decide +kernel)

theorem mark_token : mark_refresh_revoked sampleJwt [] (spelled 'Y') (50*second) (50*second) false =
    .ok [(revocation_key sampleJwt (spelled 'Y'),100*second)] := by
  simp only [mark_refresh_revoked,signed_token]
  rfl

/-- The keys of the other texts, until the token expires. -/
def heldKeys : Redis :=
  [(revocation_key sampleJwt (spelled 'Z'),100*second),(REFRESH_REVOCATION_KEY_PREFIX,100*second)]

theorem held_other {text : Str} (h : text ≠ spelled 'Y') :
    LivesUntil heldKeys (revocation_key sampleJwt text) (100*second) := by
  by_cases hz : text = spelled 'Z'
  · exact ⟨_,.head _,by rw [hz],le_rfl⟩
  · refine ⟨_,.tail _ (.head _),?_,le_rfl⟩
    simp only [revocation_key,sampleJwt,if_neg h,if_neg hz,List.take_nil,List.append_nil]

theorem key_free :
    isRevoked heldKeys (50*second) (revocation_key sampleJwt (spelled 'Y')) = false := by
  have hheld : REFRESH_REVOCATION_KEY_PREFIX ≠ revocation_key sampleJwt (spelled 'Y') := by
    simp only [revocation_key,sampleJwt,if_true]
    decide +kernel
  simp [isRevoked,heldKeys,keys_ne,hheld]

theorem mark_held : mark_refresh_revoked sampleJwt heldKeys (spelled 'Y') (50*second) (50*second)
    false = .ok ((revocation_key sampleJwt (spelled 'Y'),100*second)::heldKeys) := by
  simp only [mark_refresh_revoked,signed_token,setNx,key_free]
  rfl

/-- The mark covers the token where the keys of the other texts are in Redis. -/
theorem covered_sample : Covered sampleJwt (spelled 'Y')
    ⟨(revocation_key sampleJwt (spelled 'Y'),100*second)::heldKeys,50*second⟩ := by
  refine (mark_covers_iff signed_token rfl mark_held le_rfl (by decide)).mpr fun text _ _ => ?_
  by_cases h : text = spelled 'Y'
  · exact .inr ⟨by rw [h],key_free⟩
  · exact .inl (held_other h)

/-- The token with another last character is accepted after the revocation. -/
theorem respelled_token_accepted : ¬ ∀ J redis redis' token payload counted set,
    signed J token = some payload → payload.type = some "refresh".toList →
      mark_refresh_revoked J redis token counted set false = .ok redis' → counted ≤ set →
        ¬ payload.expired set → Covered J token ⟨redis',set⟩ := by
  intro hall
  have hcovered := hall sampleJwt [] _ (spelled 'Y') samplePayload _ _ signed_token rfl mark_token
    le_rfl (by decide)
  have hrespelled : Respelled (spelled 'Y') (spelled 'Z') :=
    ⟨_,_,_,segments_spelled no_dot.1,segments_spelled no_dot.2⟩
  obtain ⟨e,he,hk,-⟩ := (covered_iff_livesUntil signed_token rfl (by decide)).mp hcovered _
    hrespelled (signed_spelled no_dot.2 sampleSegment_decode.2)
  rw [List.mem_singleton.mp he] at hk
  exact keys_ne hk.symm

end Spelling
end Auth
end Dataspoke
