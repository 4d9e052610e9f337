import Dataspoke.CredentialWrites

/-!
# The credential reset

What holds in every interleaving of requests on the credentials of one user: after a bind
of a Google identity only what was authorised since is accepted, and the number of active
API tokens stays within its limit.
-/

namespace Dataspoke
namespace Auth
namespace Credentials

open Python Interleave Transition

section Tokens

variable {tokens : Table ApiToken.id} {u : Str} {ids : List ℕ} {now : ℕ}

theorem mem_set_revoked {t : ApiToken} (h : t ∈ (set_revoked tokens ids now).rows)
    (ha : t.active u = true) : t ∈ tokens.rows ∧ t.id ∉ ids := by
  obtain ⟨t',ht',he⟩ := Table.mem_modify.mp h
  by_cases hm : t'.id ∈ ids
  · rw [if_pos (by simpa using hm)] at he
    subst he
    simp [ApiToken.active] at ha
  · rw [if_neg (by simpa using hm)] at he
    subst he
    exact ⟨ht',hm⟩

theorem active_count_set_revoked :
    active_count (set_revoked tokens ids now) u ≤ active_count tokens u := by
  rw [active_count,active_count,set_revoked,Table.modify,List.countP_map]
  refine List.countP_mono_left fun t _ h => ?_
  by_cases hm : t.id ∈ ids
  · simp [hm,ApiToken.active] at h
  · simpa [hm] using h

theorem active_count_put {t : ApiToken} (h : tokens.get? t.id = none) :
    active_count (tokens.put t) u ≤ active_count tokens u+1 := by
  rw [active_count,Table.put_rows h,List.countP_append]
  exact Nat.add_le_add_left (List.countP_le_length (l:=[t])) _

end Tokens

/-- What a transaction under the lock has to find unchanged at its commit. -/
def Live (u : Str) (s : State) (token_hash : Str) : Prop :=
  ∃ row, s.reset_tokens.get? token_hash = some row ∧ row.user_id = u ∧ row.used_at = none

/-- The credentials that are accepted were authorised since the last bind. -/
structure Closed (u : Str) (s : State) : Prop where
  /-- So was all that has been accepted or created before, at its time. -/
  accepted : ∀ q ∈ s.accepted, q.1 = q.2
  password : s.user.password_hash ≠ none → s.password_since = s.binds
  api_tokens : ∀ t ∈ s.api_tokens.rows, t.active u = true → s.token_since t.id = s.binds
  reset_tokens : ∀ h, Live u s h → s.reset_since h = s.binds
  issued : ∀ q ∈ s.issued, session_epoch_matches q.1.ses s.user.session_epoch = true →
    q.2 = s.binds
  /-- No reset token is consumed twice. -/
  consumed : s.consumed.Nodup

/-- Where the lock is free or held, the state is one that the requests lead to. -/
structure Good (n : ℕ) (u : Str) (e : ℤ) (s : State) : Prop where
  user : s.user.id = u
  epoch : s.user.session_epoch = e+s.binds
  cap : active_count s.api_tokens u ≤ n
  accepted : ∀ q ∈ s.accepted, q.1 = q.2
  password : s.user.password_hash ≠ none → s.password_since = s.binds
  api_tokens : ∀ t ∈ s.api_tokens.rows, t.active u = true → s.token_since t.id = s.binds
  reset_tokens : ∀ h, Live u s h → s.reset_since h = s.binds
  issued : ∀ q ∈ s.issued, ∀ m, q.1.ses = .int m → m = e+q.2 ∨ q.2 = 0 ∧ m ≤ e
  drawn : ∀ h, Live u s h → h ∈ s.drawn
  consumed : s.consumed.Nodup
  spent : ∀ h ∈ s.consumed, h ∈ s.drawn ∧ ¬ Live u s h

/-- The credential of an authenticated caller: an API token of the user, or the session
epoch of the read. -/
def Authorised (u : Str) (e : ℤ) (s : State) (since : ℕ) (ctx : AuthContext) : Prop :=
  match ctx.api_token_id with
  | some id => s.token_since id = since ∧ ∃ t, s.api_tokens.get? id = some t ∧ t.user_id = u
  | none => ctx.session_epoch = some (e+since)

/-- What is flushed is authorised since the last bind, and a bind has swept all there is. -/
def Ready (u : Str) (s : State) (since : ℕ) : Write → Prop
  | .none => True
  | .password _ => since = s.binds
  | .api_token token => since = s.binds ∧ token.user_id = u ∧
      active_count s.api_tokens u < max_active_per_user ∧ s.api_tokens.get? token.id = none
  | .reset_token row => since = s.binds ∧ row.token_hash ∉ s.drawn
  | .consume token_hash _ _ => since = s.binds ∧ Live u s token_hash
  | .bind _ session_epoch ids hashes _ => session_epoch = s.user.session_epoch+1 ∧
      (∀ t ∈ s.api_tokens.rows, t.active u = true → t.id ∈ ids) ∧
      ∀ h, Live u s h → h ∈ hashes

/-- What a request knows of the shared state where it stands. -/
def Local (u : Str) (e : ℤ) (i : ℕ) (s : State) : Phase → Prop
  | .waiting since ctx _ => Authorised u e s since ctx
  | .holding since ctx _ user => s.locked = some i ∧ user = s.user ∧ Authorised u e s since ctx
  | .validated since _ user => s.locked = some i ∧ user = s.user ∧ since = s.binds
  | .counted since _ _ user => s.locked = some i ∧ user = s.user ∧ since = s.binds ∧
      active_count s.api_tokens u < max_active_per_user
  | .mailing since epoch _ _ | .mailed since epoch _ _ => epoch = e+since
  | .comparing since epoch _ _ user => s.locked = some i ∧ user = s.user ∧ epoch = e+since
  | .confirming since token_hash _ => token_hash ∈ s.drawn ∧ s.reset_since token_hash = since
  | .rereading since token_hash _ => s.locked = some i ∧ token_hash ∈ s.drawn ∧
      s.reset_since token_hash = since
  | .consuming since token_hash _ => s.locked = some i ∧ since = s.binds ∧ Live u s token_hash
  | .binding _ user => s.locked = some i ∧ user = s.user
  | .revoking_all _ epoch => s.locked = some i ∧ epoch = s.user.session_epoch+1
  | .deleting_unused _ epoch ids => s.locked = some i ∧ epoch = s.user.session_epoch+1 ∧
      ∀ t ∈ s.api_tokens.rows, t.active u = true → t.id ∈ ids
  | .committing since w => s.locked = some i ∧ Ready u s since w
  | .refreshing payload => ∃ q ∈ s.issued, q.1 = payload
  | .issuing since user => user.session_epoch = e+since
  | .start _ | .revoking .. | .revoked .. | .done => True

/-- What a step of one request leaves alone: all that a transaction of another under the
lock relies on but for revocations, the owner and the age of an API token, the age of a
reset token, the session tokens. -/
structure Rely (i : ℕ) (s s' : State) : Prop where
  locked : ∀ j, j ≠ i → s.locked = some j → s'.locked = some j ∧ s'.user = s.user ∧
    s'.binds = s.binds ∧ s'.reset_tokens = s.reset_tokens ∧ s'.drawn = s.drawn ∧
    (s'.api_tokens = s.api_tokens ∨ ∃ ids now, s'.api_tokens = set_revoked s.api_tokens ids now)
  token : ∀ id t, s.api_tokens.get? id = some t → s'.token_since id = s.token_since id ∧
    ∃ t', s'.api_tokens.get? id = some t' ∧ t'.user_id = t.user_id
  reset : ∀ h ∈ s.drawn, h ∈ s'.drawn ∧ s'.reset_since h = s.reset_since h
  issued : ∀ q ∈ s.issued, q ∈ s'.issued

variable {n : ℕ} {u : Str} {e : ℤ} {i j : ℕ} {s s' : State}

theorem Good.closed (h : Good n u e s) : Closed u s where
  accepted := h.accepted
  password := h.password
  api_tokens := h.api_tokens
  reset_tokens := h.reset_tokens
  issued q hq hm := by
    cases hs : q.1.ses with
    | int m =>
      rw [hs,session_epoch_matches,decide_eq_true_eq,h.epoch] at hm
      rcases h.issued q hq m hs with he | ⟨h₀,hle⟩ <;> omega
    | _ =>
      rw [hs] at hm
      cases hm
  consumed := h.consumed

theorem Authorised.stable {since : ℕ} {ctx : AuthContext} (h : Authorised u e s since ctx)
    (hr : Rely i s s') : Authorised u e s' since ctx := by
  rw [Authorised] at h ⊢
  cases hc : ctx.api_token_id with
  | none =>
    rw [hc] at h
    exact h
  | some id =>
    rw [hc] at h
    obtain ⟨hs,t,ht,hu⟩ := h
    obtain ⟨hs',t',ht',hu'⟩ := hr.token id t ht
    exact ⟨hs'.trans hs,t',ht',hu'.trans hu⟩

theorem Live.congr {h : Str} (he : s'.reset_tokens = s.reset_tokens) :
    Live u s' h ↔ Live u s h := by
  rw [Live,Live,he]

/-- The active tokens of another state of the table under the lock. -/
theorem Rely.active (hr : Rely i s s') (hj : j ≠ i) (hl : s.locked = some j) {t : ApiToken}
    (ht : t ∈ s'.api_tokens.rows) (ha : t.active u = true) : t ∈ s.api_tokens.rows := by
  obtain ⟨-,-,-,-,-,he | ⟨ids,now,he⟩⟩ := hr.locked j hj hl
  · exact he ▸ ht
  · exact (mem_set_revoked (he ▸ ht) ha).1

theorem Rely.active_count (hr : Rely i s s') (hj : j ≠ i) (hl : s.locked = some j) :
    active_count s'.api_tokens u ≤ active_count s.api_tokens u := by
  obtain ⟨-,-,-,-,-,he | ⟨ids,now,he⟩⟩ := hr.locked j hj hl
  · rw [he]
  · rw [he]
    exact active_count_set_revoked

theorem Rely.get?_eq_none (hr : Rely i s s') (hj : j ≠ i) (hl : s.locked = some j) {id : ℕ}
    (h : s.api_tokens.get? id = none) : s'.api_tokens.get? id = none := by
  obtain ⟨-,-,-,-,-,he | ⟨ids,now,he⟩⟩ := hr.locked j hj hl
  · rw [he,h]
  · rw [he,get?_set_revoked,h]
    rfl

theorem Ready.stable {since : ℕ} {w : Write} (h : Ready u s since w) (hr : Rely i s s')
    (hj : j ≠ i) (hl : s.locked = some j) : Ready u s' since w := by
  obtain ⟨-,huser,hbinds,hreset,hdrawn,-⟩ := hr.locked j hj hl
  cases w with
  | none => trivial
  | password => exact h.trans hbinds.symm
  | api_token t =>
    obtain ⟨hs,hu,hc,hn⟩ := h
    exact ⟨hs.trans hbinds.symm,hu,(hr.active_count hj hl).trans_lt hc,hr.get?_eq_none hj hl hn⟩
  | reset_token row => exact ⟨h.1.trans hbinds.symm,hdrawn ▸ h.2⟩
  | consume token_hash => exact ⟨h.1.trans hbinds.symm,(Live.congr hreset).mpr h.2⟩
  | bind sub epoch ids hashes now =>
    obtain ⟨he,hids,hhashes⟩ := h
    refine ⟨by rw [huser,he],fun t ht ha => hids t (hr.active hj hl ht ha) ha,fun h hh => ?_⟩
    exact hhashes h ((Live.congr hreset).mp hh)

/-- What a request knows is stable under the steps of the others. -/
theorem Local.stable {p : Phase} (hij : i ≠ j) (h : Local u e j s p) (hr : Rely i s s') :
    Local u e j s' p := by
  have hji := Ne.symm hij
  cases p with
  | waiting => exact Authorised.stable h hr
  | holding =>
    obtain ⟨hl,hu,ha⟩ := h
    obtain ⟨hl',huser,-⟩ := hr.locked j hji hl
    exact ⟨hl',hu.trans huser.symm,ha.stable hr⟩
  | validated =>
    obtain ⟨hl,hu,hs⟩ := h
    obtain ⟨hl',huser,hbinds,-⟩ := hr.locked j hji hl
    exact ⟨hl',hu.trans huser.symm,hs.trans hbinds.symm⟩
  | counted =>
    obtain ⟨hl,hu,hs,hc⟩ := h
    obtain ⟨hl',huser,hbinds,-⟩ := hr.locked j hji hl
    exact ⟨hl',hu.trans huser.symm,hs.trans hbinds.symm,(hr.active_count hji hl).trans_lt hc⟩
  | comparing =>
    obtain ⟨hl,hu,he⟩ := h
    obtain ⟨hl',huser,-⟩ := hr.locked j hji hl
    exact ⟨hl',hu.trans huser.symm,he⟩
  | confirming =>
    obtain ⟨hd,hs⟩ := h
    exact ⟨(hr.reset _ hd).1,(hr.reset _ hd).2.trans hs⟩
  | rereading =>
    obtain ⟨hl,hd,hs⟩ := h
    exact ⟨(hr.locked j hji hl).1,(hr.reset _ hd).1,(hr.reset _ hd).2.trans hs⟩
  | consuming =>
    obtain ⟨hl,hs,hv⟩ := h
    obtain ⟨hl',-,hbinds,hreset,-⟩ := hr.locked j hji hl
    exact ⟨hl',hs.trans hbinds.symm,(Live.congr hreset).mpr hv⟩
  | binding =>
    obtain ⟨hl,hu⟩ := h
    obtain ⟨hl',huser,-⟩ := hr.locked j hji hl
    exact ⟨hl',hu.trans huser.symm⟩
  | revoking_all =>
    obtain ⟨hl,he⟩ := h
    obtain ⟨hl',huser,-⟩ := hr.locked j hji hl
    exact ⟨hl',huser ▸ he⟩
  | deleting_unused =>
    obtain ⟨hl,he,hids⟩ := h
    obtain ⟨hl',huser,-⟩ := hr.locked j hji hl
    exact ⟨hl',huser ▸ he,fun t ht ha => hids t (hr.active hji hl ht ha) ha⟩
  | committing =>
    obtain ⟨hl,hw⟩ := h
    exact ⟨(hr.locked j hji hl).1,hw.stable hr hji hl⟩
  | refreshing =>
    obtain ⟨q,hq,he⟩ := h
    exact ⟨q,hr.issued q hq,he⟩
  | _ => exact h

theorem Live.of_get? {h : Str} (hl : Live u s' h)
    (hg : ∀ row, s'.reset_tokens.get? h = some row → row.used_at = none →
      s.reset_tokens.get? h = some row) : Live u s h := by
  obtain ⟨row,hr,hu,hn⟩ := hl
  exact ⟨row,hg row hr hn,hu,hn⟩

theorem Good.accept {since : ℕ} (h : Good n u e s) (hs : since = s.binds) :
    Good n u e (s.accept since) :=
  { h with accepted := List.forall_mem_cons.mpr ⟨hs,h.accepted⟩ }

theorem Good.lock (h : Good n u e s) (l : Option ℕ) : Good n u e { s with locked := l } :=
  { h with }

theorem Good.release (h : Good n u e s) (i : ℕ) : Good n u e (s.release i) := by
  rw [State.release]
  by_cases hl : s.locked = some i
  · rw [if_pos hl]
    exact h.lock none
  · rw [if_neg hl]
    exact h

theorem Good.revoked {ids : List ℕ} {now : ℕ} (h : Good n u e s) :
    Good n u e { s with api_tokens := set_revoked s.api_tokens ids now } :=
  { h with
    cap := active_count_set_revoked.trans h.cap
    api_tokens := fun t ht ha => h.api_tokens t (mem_set_revoked ht ha).1 ha }

theorem Good.issue {settings : Settings} {since now : ℕ} {user : User} (h : Good n u e s)
    (he : user.session_epoch = e+since) : Good n u e (s.issue settings since now user) := by
  have hses : ∀ m, SesClaim.int user.session_epoch = .int m → m = e+since := by
    rintro _ ⟨⟩
    exact he
  refine { h with issued := ?_ }
  rw [State.issue]
  refine List.forall_mem_cons.mpr ⟨?_,List.forall_mem_cons.mpr ⟨?_,h.issued⟩⟩
  · exact fun m hm => .inl (hses m hm)
  · exact fun m hm => .inl (hses m hm)

theorem Good.password_write {since : ℕ} {password_hash : Str} (h : Good n u e s)
    (hs : since = s.binds) : Good n u e (s.commit since (.password password_hash)) :=
  { h.accept hs with password := fun _ => hs }

theorem Good.api_token_write {since : ℕ} {token : ApiToken} (h : Good n u e s)
    (hn : max_active_per_user ≤ n) (hw : Ready u s since (.api_token token)) :
    Good n u e (s.commit since (.api_token token)) := by
  obtain ⟨hs,-,hc,hfree⟩ := hw
  refine { h.accept hs with cap := ?_, api_tokens := ?_ }
  · exact (active_count_put hfree).trans (by omega)
  · intro t ht ha
    show Function.update s.token_since token.id since t.id = s.binds
    rcases Table.mem_put.mp ht with rfl | ⟨ht,hne⟩
    · rw [Function.update_self,hs]
    · rw [Function.update_of_ne hne]
      exact h.api_tokens t ht ha

theorem Live.reset_write {row : ResetToken} {since : ℕ} {h : Str}
    (hl : Live u (s.commit since (.reset_token row)) h) (hne : h ≠ row.token_hash) :
    Live u s h := by
  refine hl.of_get? fun row' hr _ => ?_
  rwa [State.commit,Table.get?_put,if_neg (Ne.symm hne)] at hr

theorem Good.reset_write {since : ℕ} {row : ResetToken} (h : Good n u e s)
    (hw : Ready u s since (.reset_token row)) :
    Good n u e (s.commit since (.reset_token row)) := by
  obtain ⟨hs,hd⟩ := hw
  refine { h.accept hs with reset_tokens := ?_, drawn := ?_, spent := ?_ }
  · intro k hk
    show Function.update s.reset_since row.token_hash since k = s.binds
    by_cases hkr : k = row.token_hash
    · rw [hkr,Function.update_self,hs]
    · rw [Function.update_of_ne hkr]
      exact h.reset_tokens k (hk.reset_write hkr)
  · intro k hk
    by_cases hkr : k = row.token_hash
    · exact hkr ▸ List.mem_cons_self
    · exact List.mem_cons_of_mem _ (h.drawn k (hk.reset_write hkr))
  · intro k hk
    obtain ⟨hkd,hkl⟩ := h.spent k hk
    refine ⟨List.mem_cons_of_mem _ hkd,fun hl => hkl (hl.reset_write ?_)⟩
    rintro rfl
    exact hd hkd

theorem Live.consume {token_hash password_hash h : Str} {since now : ℕ}
    (hl : Live u (s.commit since (.consume token_hash password_hash now)) h) :
    h ≠ token_hash ∧ Live u s h := by
  obtain ⟨row,hr,hu,hn⟩ := hl
  rw [State.commit,Table.get?_modify,Option.map_eq_some_iff] at hr
  obtain ⟨row',hr',he⟩ := hr
  by_cases hk : row'.token_hash = token_hash
  · rw [if_pos (by simpa using hk)] at he
    subst he
    cases hn
  · rw [if_neg (by simpa using hk)] at he
    subst he
    refine ⟨fun hh => hk ?_,row',hr',hu,hn⟩
    exact (Table.get?_eq_some.mp hr').2.trans hh

theorem Good.consume_write {since now : ℕ} {token_hash password_hash : Str} (h : Good n u e s)
    (hw : Ready u s since (.consume token_hash password_hash now)) :
    Good n u e (s.commit since (.consume token_hash password_hash now)) := by
  obtain ⟨hs,hl⟩ := hw
  refine { h.accept hs with
    password := fun _ => hs, reset_tokens := ?_, drawn := ?_, consumed := ?_, spent := ?_ }
  · exact fun k hk => h.reset_tokens k hk.consume.2
  · exact fun k hk => h.drawn k hk.consume.2
  · exact List.nodup_cons.mpr ⟨fun hc => (h.spent _ hc).2 hl,h.consumed⟩
  · intro k hk
    rcases List.mem_cons.mp hk with rfl | hk
    · exact ⟨h.drawn _ hl,fun hl' => hl'.consume.1 rfl⟩
    · exact ⟨(h.spent k hk).1,fun hl' => (h.spent k hk).2 hl'.consume.2⟩

theorem Live.bind {sub : Str} {epoch : ℤ} {ids : List ℕ} {hashes : List Str} {since now : ℕ}
    {h : Str} (hl : Live u (s.commit since (.bind sub epoch ids hashes now)) h) :
    h ∉ hashes ∧ Live u s h := by
  obtain ⟨row,hr,hu,hn⟩ := hl
  rw [State.commit] at hr
  obtain ⟨hm,hk⟩ := Table.get?_eq_some.mp hr
  obtain ⟨hm,hh⟩ := Table.mem_remove.mp hm
  subst hk
  exact ⟨by simpa using hh,row,Table.mem_rows.mp hm,hu,hn⟩

/-- The bind leaves nothing that was authorised before it. -/
theorem Good.bind_write {sub : Str} {epoch : ℤ} {ids : List ℕ} {hashes : List Str}
    {since now : ℕ} (h : Good n u e s) (hw : Ready u s since (.bind sub epoch ids hashes now)) :
    Good n u e (s.commit since (.bind sub epoch ids hashes now)) := by
  obtain ⟨he,hids,hhashes⟩ := hw
  refine { h with
    epoch := ?_, cap := ?_, password := ?_, api_tokens := ?_, reset_tokens := ?_, drawn := ?_
    spent := ?_ }
  · show epoch = e+((s.binds+1 : ℕ) : ℤ)
    rw [he,h.epoch]
    push_cast
    omega
  · exact active_count_set_revoked.trans h.cap
  · exact fun hn => absurd rfl hn
  · intro t ht ha
    obtain ⟨ht,hn⟩ := mem_set_revoked ht ha
    exact absurd (hids t ht ha) hn
  · exact fun k hk => absurd (hhashes k hk.bind.2) hk.bind.1
  · exact fun k hk => h.drawn k hk.bind.2
  · exact fun k hk => ⟨(h.spent k hk).1,fun hl => (h.spent k hk).2 hl.bind.2⟩

theorem Good.commit {since : ℕ} {w : Write} (h : Good n u e s) (hn : max_active_per_user ≤ n)
    (hw : Ready u s since w) : Good n u e (s.commit since w) := by
  cases w with
  | none => exact h
  | password => exact h.password_write hw
  | api_token => exact h.api_token_write hn hw
  | reset_token => exact h.reset_write hw
  | consume => exact h.consume_write hw
  | bind => exact h.bind_write hw

/-- A step that only moves its own lock and adds to the records of the model. -/
theorem Rely.quiet (huser : s'.user = s.user) (hb : s'.binds = s.binds)
    (ht : s'.api_tokens = s.api_tokens) (hr : s'.reset_tokens = s.reset_tokens)
    (hd : s'.drawn = s.drawn) (hts : s'.token_since = s.token_since)
    (hrs : s'.reset_since = s.reset_since) (hi : ∀ q ∈ s.issued, q ∈ s'.issued)
    (hl : ∀ j, j ≠ i → s.locked = some j → s'.locked = some j) : Rely i s s' where
  locked j hj hlj := ⟨hl j hj hlj,huser,hb,hr,hd,.inl ht⟩
  token id t hid := ⟨congrFun hts id,t,ht ▸ hid,rfl⟩
  reset h hh := ⟨hd ▸ hh,congrFun hrs h⟩
  issued := hi

theorem Rely.refl : Rely i s s := .quiet rfl rfl rfl rfl rfl rfl rfl (fun _ => id) fun _ _ h => h

theorem Rely.accept {since : ℕ} : Rely i s (s.accept since) :=
  .quiet rfl rfl rfl rfl rfl rfl rfl (fun _ => id) fun _ _ h => h

theorem Rely.release : Rely i s (s.release i) := by
  rw [State.release]
  by_cases hl : s.locked = some i
  · rw [if_pos hl]
    refine .quiet rfl rfl rfl rfl rfl rfl rfl (fun _ => id) fun j hj hlj => ?_
    rw [hl] at hlj
    exact absurd (Option.some.inj hlj).symm hj
  · rw [if_neg hl]
    exact .refl

theorem Rely.trans {s'' : State} (h : Rely i s s') (h' : Rely i s' s'')
    (hl : ∀ j, j ≠ i → s.locked ≠ some j) : Rely i s s'' where
  locked j hj hlj := absurd hlj (hl j hj)
  token id t ht := by
    obtain ⟨hs,t',ht',hu⟩ := h.token id t ht
    obtain ⟨hs',t'',ht'',hu'⟩ := h'.token id t' ht'
    exact ⟨hs'.trans hs,t'',ht'',hu'.trans hu⟩
  reset k hk := by
    obtain ⟨hd,hs⟩ := h.reset k hk
    obtain ⟨hd',hs'⟩ := h'.reset k hd
    exact ⟨hd',hs'.trans hs⟩
  issued q hq := h'.issued q (h.issued q hq)

theorem get?_set_revoked_owner {tokens : Table ApiToken.id} {ids : List ℕ} {now id : ℕ}
    {t : ApiToken} (h : tokens.get? id = some t) :
    ∃ t', (set_revoked tokens ids now).get? id = some t' ∧ t'.user_id = t.user_id := by
  refine ⟨_,get?_set_revoked.trans (by rw [h]; rfl),?_⟩
  by_cases hm : t.id ∈ ids <;> simp [hm]

theorem Rely.commit {since : ℕ} {w : Write} (hl : s.locked = some i) (hw : Ready u s since w) :
    Rely i s (s.commit since w) := by
  have hj : ∀ j, j ≠ i → s.locked = some j → False := by
    intro j hj hlj
    rw [hl] at hlj
    exact hj (Option.some.inj hlj).symm
  cases w with
  | none => exact .refl
  | password =>
    exact ⟨fun j hne h => (hj j hne h).elim,fun id t ht => ⟨rfl,t,ht,rfl⟩,fun h hh => ⟨hh,rfl⟩,fun _ => id⟩
  | api_token token =>
    obtain ⟨-,-,-,hfree⟩ := hw
    refine ⟨fun j hne h => (hj j hne h).elim,fun id t ht => ?_,fun h hh => ⟨hh,rfl⟩,fun _ => id⟩
    have hne : id ≠ token.id := by
      rintro rfl
      rw [hfree] at ht
      cases ht
    refine ⟨Function.update_of_ne hne _ _,t,?_,rfl⟩
    rw [State.commit,Table.get?_put,if_neg (Ne.symm hne),ht]
  | reset_token row =>
    refine ⟨fun j hne h => (hj j hne h).elim,fun id t ht => ⟨rfl,t,ht,rfl⟩,fun h hh => ?_,
      fun _ => id⟩
    refine ⟨List.mem_cons_of_mem _ hh,Function.update_of_ne ?_ _ _⟩
    rintro rfl
    exact hw.2 hh
  | consume =>
    exact ⟨fun j hne h => (hj j hne h).elim,fun id t ht => ⟨rfl,t,ht,rfl⟩,fun h hh => ⟨hh,rfl⟩,fun _ => id⟩
  | bind sub epoch ids hashes now =>
    exact ⟨fun j hne h => (hj j hne h).elim,fun id t ht => ⟨rfl,get?_set_revoked_owner ht⟩,
      fun h hh => ⟨hh,rfl⟩,fun _ => id⟩

section Requests

variable {H : Digests} {settings : Settings} {a : Input} {bearer : Bearer} {ctx : AuthContext}

theorem get?_users {k : Str} {user : User} (h : s.users.get? k = some user) :
    user = s.user ∧ k = s.user.id := by
  rw [State.users,Table.get?_put] at h
  by_cases hk : s.user.id = k
  · rw [if_pos hk] at h
    exact ⟨(Option.some.inj h).symm,hk.symm⟩
  · rw [if_neg hk] at h
    cases h

theorem decode_access_token_eq_ok {now : ℕ} {signed : Option Payload} {payload : Payload}
    (h : decode_access_token now signed = .ok payload) : signed = some payload := by
  cases signed with
  | none => cases h
  | some p =>
    rw [decode_access_token] at h
    by_cases he : p.expired now
    · rw [if_pos he] at h
      cases h
    · rw [if_neg he] at h
      by_cases ht : p.type = some "refresh".toList
      · rw [if_pos ht] at h
        cases h
      · rw [if_neg ht] at h
        rw [Except.ok.inj h]

theorem verify_eq_some {signed : Option Payload} {payload : Payload}
    (h : s.verify signed = some payload) :
    signed = some payload ∧ ∃ q ∈ s.issued, q.1 = payload := by
  obtain ⟨hs,ha⟩ := Option.filter_eq_some_iff.mp h
  obtain ⟨q,hq,he⟩ := List.any_eq_true.mp ha
  exact ⟨hs,q,hq,of_decide_eq_true he⟩

/-- A session token that is accepted was authorised since the last bind. -/
theorem Good.issuedSince (h : Good n u e s) {payload : Payload}
    (hp : ∃ q ∈ s.issued, q.1 = payload)
    (hm : session_epoch_matches payload.ses s.user.session_epoch = true) :
    s.issuedSince payload = s.binds := by
  obtain ⟨q,hq,he⟩ := hp
  rw [State.issuedSince]
  cases hf : s.issued.find? fun q => q.1 = payload with
  | none => exact absurd he (by simpa using List.find?_eq_none.mp hf q hq)
  | some q' =>
    have hq' : q'.1 = payload := by simpa using List.find?_some hf
    exact h.closed.issued q' (List.mem_of_find?_eq_some hf) (hq' ▸ hm)

/-- A bearer that is accepted names a credential authorised since the last bind. -/
theorem Good.authenticate (h : Good n u e s) {now : ℕ}
    (ha : s.authenticate H now bearer = .ok ctx) :
    Authorised u e s s.binds ctx ∧ s.bearerSince ctx bearer = s.binds := by
  cases bearer with
  | api_token raw =>
    rw [State.authenticate,require_authenticated] at ha
    cases hl : lookup_and_validate H.toHashing s.users s.api_tokens now raw with
    | error r =>
      rw [hl] at ha
      cases ha
    | ok r =>
      obtain ⟨user,role,id⟩ := r
      rw [hl] at ha
      cases ha
      obtain ⟨t,hf,hu,hr,-,-,rfl⟩ := lookup_and_validate_eq_ok.mp hl
      have hm : t ∈ s.api_tokens.rows := List.mem_of_find?_eq_some hf
      have ht : t.user_id = u := (get?_users hu).2.trans h.user
      have hs := h.api_tokens t hm (by simp [ApiToken.active,ht,hr])
      exact ⟨⟨hs,t,Table.mem_rows.mp hm,ht⟩,hs⟩
  | jwt signed =>
    rw [State.authenticate,require_authenticated] at ha
    cases hd : decode_access_token now (s.verify signed) with
    | error r =>
      rw [hd] at ha
      cases ha
    | ok payload =>
      rw [hd] at ha
      dsimp only at ha
      cases hu : s.users.get? payload.sub with
      | none =>
        rw [hu] at ha
        cases ha
      | some user =>
        rw [hu] at ha
        dsimp only at ha
        by_cases hm : session_epoch_matches payload.ses user.session_epoch = true
        · rw [if_pos hm] at ha
          cases ha
          obtain ⟨rfl,-⟩ := get?_users hu
          obtain ⟨hsig,hp⟩ := verify_eq_some (decode_access_token_eq_ok hd)
          refine ⟨congrArg some h.epoch,?_⟩
          rw [State.bearerSince,hsig]
          exact h.issuedSince hp hm
        · rw [if_neg hm] at ha
          cases ha

/-- What `revalidate` lets pass was authorised since the last bind. -/
theorem Authorised.revalidate {since : ℕ} (h : Good n u e s)
    (ha : Authorised u e s since ctx) (hr : revalidate s.api_tokens ctx s.user = .ok ()) :
    since = s.binds := by
  rw [Authorised] at ha
  rw [Credentials.revalidate] at hr
  cases hc : ctx.api_token_id with
  | some id =>
    rw [hc] at ha hr
    obtain ⟨hs,t,ht,hu⟩ := ha
    dsimp only at hr
    by_cases hact : is_active s.api_tokens id = true
    · rw [is_active,ht] at hact
      obtain ⟨hm,rfl⟩ := Table.get?_eq_some.mp ht
      rw [← hs]
      exact h.api_tokens t hm (by simpa [ApiToken.active,hu] using hact)
    · rw [if_neg hact] at hr
      cases hr
  | none =>
    rw [hc] at ha hr
    dsimp only at ha hr
    by_cases hm : session_epoch_matches ((ctx.session_epoch.map SesClaim.int).getD .absent)
        s.user.session_epoch = true
    · rw [ha] at hm
      simp only [Option.map_some,Option.getD_some,session_epoch_matches,decide_eq_true_eq,
        h.epoch] at hm
      omega
    · rw [if_neg hm] at hr
      cases hr

/-- A reset token that is accepted is live, and its age known. -/
theorem load_valid_token_eq_some (h : Good n u e s) {token_hash : Str} {now : ℕ}
    {row : ResetToken} (hr : load_valid_token s token_hash now = some row) :
    row.token_hash = token_hash ∧ Live u s token_hash := by
  obtain ⟨hg,hv⟩ := Option.filter_eq_some_iff.mp hr
  simp only [Bool.and_eq_true,decide_eq_true_eq,Option.isNone_iff_eq_none] at hv
  exact ⟨(Table.get?_eq_some.mp hg).2,row,hg,hv.1.1.trans h.user,hv.1.2⟩

def Kept (n : ℕ) (u : Str) (e : ℤ) (i : ℕ) (s s' : State) (p' : Phase) : Prop :=
  Good n u e s' ∧ Local u e i s' p' ∧ Rely i s s'

theorem Good.kept {p' : Phase} (h : Good n u e s) (hl : Local u e i s p') : Kept n u e i s s p' :=
  ⟨h,hl,.refl⟩

theorem Good.failed (h : Good n u e s) : Kept n u e i s (s.release i) .done :=
  ⟨h.release i,trivial,.release⟩

theorem Good.accepted_kept {since : ℕ} {p' : Phase} (h : Good n u e s) (hs : since = s.binds)
    (hl : Local u e i (s.accept since) p') : Kept n u e i s (s.accept since) p' :=
  ⟨h.accept hs,hl,.accept⟩

theorem Good.lock_kept {k : User → Phase} {p' : Phase} (h : Good n u e s)
    (hs : lock_user i s k = some (s',p'))
    (hk : Local u e i { s with locked := some i } (k s.user)) : Kept n u e i s s' p' := by
  rw [lock_user] at hs
  by_cases hl : s.locked = none
  · rw [if_pos hl] at hs
    cases hs
    refine ⟨h.lock _,hk,.quiet rfl rfl rfl rfl rfl rfl rfl (fun _ => id) fun j _ hj => ?_⟩
    rw [hl] at hj
    cases hj
  · rw [if_neg hl] at hs
    cases hs

theorem Good.authenticated_kept {k : AuthContext → Phase} {p' : Phase} (h : Good n u e s)
    (hs : authenticated H a s bearer k = (s',p'))
    (hk : ∀ ctx since, Authorised u e s s.binds ctx → Local u e i (s.accept since) (k ctx)) :
    Kept n u e i s s' p' := by
  rw [authenticated] at hs
  cases ha : s.authenticate H a.now bearer with
  | error r =>
    rw [ha] at hs
    cases hs
    exact h.kept trivial
  | ok ctx =>
    rw [ha] at hs
    cases hs
    obtain ⟨hauth,hsince⟩ := h.authenticate ha
    exact h.accepted_kept hsince (hk ctx _ hauth)

theorem start_kept (h : Good n u e s) {r : Request} {p' : Phase}
    (hs : start H i a s r = some (s',p')) : Kept n u e i s s' p' := by
  cases r with
  | post_api_tokens bearer name expires_at =>
    exact h.authenticated_kept (Option.some.inj hs) fun ctx since hc => hc
  | delete_api_token bearer token_id =>
    exact h.authenticated_kept (Option.some.inj hs) fun ctx since _ => trivial
  | patch_me bearer password =>
    exact h.authenticated_kept (Option.some.inj hs) fun ctx since hc => hc
  | other bearer => exact h.authenticated_kept (Option.some.inj hs) fun ctx since _ => trivial
  | post_token password =>
    rw [start] at hs
    cases hp : s.user.password_hash with
    | none =>
      rw [hp] at hs
      cases hs
      exact h.kept trivial
    | some password_hash =>
      rw [hp] at hs
      dsimp only at hs
      by_cases hc : H.checkpw password password_hash = true
      · rw [if_pos hc] at hs
        cases hs
        exact h.accepted_kept (h.password (by rw [hp]; simp)) h.epoch
      · rw [if_neg hc] at hs
        cases hs
        exact h.kept trivial
  | post_token_refresh cookie =>
    rw [start] at hs
    cases hd : decode_refresh_token a.now (s.verify cookie) with
    | error r =>
      rw [hd] at hs
      cases hs
      exact h.kept trivial
    | ok payload =>
      rw [hd] at hs
      dsimp only at hs
      by_cases hc : a.refresh_revoked ∨ payload.sub ≠ s.user.id
      · rw [if_pos hc] at hs
        cases hs
        exact h.kept trivial
      · rw [if_neg hc] at hs
        cases hs
        exact h.kept (verify_eq_some (decode_refresh_token_eq_ok.mp hd).1).2
  | issue_reset_token =>
    cases hs
    exact h.kept h.epoch
  | confirm_reset raw new_password =>
    rw [start] at hs
    cases hl : load_valid_token s (H.hash raw) a.now with
    | none =>
      rw [hl] at hs
      cases hs
      exact h.kept trivial
    | some row =>
      rw [hl] at hs
      cases hs
      obtain ⟨hrow,hlive⟩ := load_valid_token_eq_some h hl
      rw [hrow]
      exact h.accepted_kept (h.reset_tokens _ hlive) ⟨h.drawn _ hlive,h.reset_tokens _ hlive⟩
  | bind_google_identity sub => exact h.lock_kept hs ⟨rfl,rfl⟩

variable {p' : Phase} {since : ℕ}

theorem holding_kept {op : Operation} {user : User} (h : Good n u e s)
    (hl : Local u e i s (.holding since ctx op user))
    (hs : advance H settings i a s (.holding since ctx op user) = some (s',p')) :
    Kept n u e i s s' p' := by
  obtain ⟨hlock,rfl,hauth⟩ := hl
  rw [advance] at hs
  cases hr : revalidate s.api_tokens ctx s.user with
  | error r =>
    rw [hr] at hs
    cases hs
    exact h.failed
  | ok r =>
    rw [hr] at hs
    cases hs
    exact h.kept ⟨hlock,rfl,hauth.revalidate h hr⟩

theorem validated_kept {op : Operation} {user : User} (h : Good n u e s)
    (hl : Local u e i s (.validated since op user))
    (hs : advance H settings i a s (.validated since op user) = some (s',p')) :
    Kept n u e i s s' p' := by
  obtain ⟨hlock,rfl,hsince⟩ := hl
  cases op with
  | mint name expires_at =>
    rw [advance] at hs
    by_cases hc : max_active_per_user ≤ active_count s.api_tokens s.user.id
    · rw [if_pos hc] at hs
      cases hs
      exact h.failed
    · rw [if_neg hc] at hs
      cases hs
      exact h.kept ⟨hlock,rfl,hsince,h.user ▸ not_le.mp hc⟩
  | update_password password =>
    cases hs
    exact h.kept ⟨hlock,hsince⟩

theorem counted_kept {name : Str} {expires_at : Option ℕ} {user : User} (h : Good n u e s)
    (hl : Local u e i s (.counted since name expires_at user))
    (hs : advance H settings i a s (.counted since name expires_at user) = some (s',p')) :
    Kept n u e i s s' p' := by
  obtain ⟨hlock,rfl,hsince,hc⟩ := hl
  rw [advance] at hs
  by_cases ht : taken H.toHashing s.api_tokens a.raw a.id = true
  · rw [if_pos ht] at hs
    cases hs
    exact h.failed
  · rw [if_neg ht] at hs
    cases hs
    have hfree := taken_eq_false.mp (Bool.eq_false_iff.mpr ht)
    exact h.kept ⟨hlock,hsince,h.user,hc,Table.get?_eq_none.mpr fun t ht => (hfree t ht).1⟩

theorem comparing_kept {epoch : ℤ} {token_hash : Str} {expires_at : ℕ} {user : User}
    (h : Good n u e s) (hl : Local u e i s (.comparing since epoch token_hash expires_at user))
    (hs : advance H settings i a s (.comparing since epoch token_hash expires_at user) =
      some (s',p')) : Kept n u e i s s' p' := by
  obtain ⟨hlock,rfl,hepoch⟩ := hl
  rw [advance] at hs
  by_cases hc : s.user.session_epoch ≠ epoch
  · rw [if_pos hc] at hs
    cases hs
    exact h.kept ⟨hlock,trivial⟩
  · rw [if_neg hc] at hs
    by_cases hd : token_hash ∈ s.drawn
    · rw [if_pos hd] at hs
      cases hs
    · rw [if_neg hd] at hs
      cases hs
      have hsince : since = s.binds := by
        have h₁ := h.epoch
        have h₂ := not_not.mp hc
        omega
      exact h.kept ⟨hlock,hsince,hd⟩

theorem rereading_kept {token_hash new_password : Str} (h : Good n u e s)
    (hl : Local u e i s (.rereading since token_hash new_password))
    (hs : advance H settings i a s (.rereading since token_hash new_password) = some (s',p')) :
    Kept n u e i s s' p' := by
  obtain ⟨hlock,hdrawn,hsince⟩ := hl
  rw [advance] at hs
  cases hr : load_valid_token s token_hash a.now with
  | none =>
    rw [hr] at hs
    cases hs
    exact h.failed
  | some row =>
    rw [hr] at hs
    cases hs
    obtain ⟨hrow,hlive⟩ := load_valid_token_eq_some h hr
    have hb := h.reset_tokens _ hlive
    rw [hrow]
    exact h.accepted_kept hb ⟨hlock,hsince.symm.trans hb,hlive⟩

theorem binding_kept {sub : Str} {user : User} (h : Good n u e s)
    (hl : Local u e i s (.binding sub user))
    (hs : advance H settings i a s (.binding sub user) = some (s',p')) :
    Kept n u e i s s' p' := by
  obtain ⟨hlock,rfl⟩ := hl
  rw [advance] at hs
  cases hg : s.user.google_sub with
  | none =>
    rw [hg] at hs
    cases hs
    exact h.kept ⟨hlock,rfl⟩
  | some google_sub =>
    rw [hg] at hs
    dsimp only at hs
    by_cases hc : google_sub ≠ sub
    · rw [if_pos hc] at hs
      cases hs
      exact h.failed
    · rw [if_neg hc] at hs
      cases hs
      exact h.kept ⟨hlock,trivial⟩

theorem revoking_all_kept {sub : Str} {epoch : ℤ} (h : Good n u e s)
    (hl : Local u e i s (.revoking_all sub epoch))
    (hs : advance H settings i a s (.revoking_all sub epoch) = some (s',p')) :
    Kept n u e i s s' p' := by
  cases hs
  refine h.kept ⟨hl.1,hl.2,fun t ht ha => ?_⟩
  exact List.mem_map_of_mem (List.mem_filter.mpr ⟨ht,h.user.symm ▸ ha⟩)

theorem deleting_unused_kept {sub : Str} {epoch : ℤ} {ids : List ℕ} (h : Good n u e s)
    (hl : Local u e i s (.deleting_unused sub epoch ids))
    (hs : advance H settings i a s (.deleting_unused sub epoch ids) = some (s',p')) :
    Kept n u e i s s' p' := by
  cases hs
  refine h.kept ⟨hl.1,hl.2.1,hl.2.2,fun k hk => ?_⟩
  obtain ⟨row,hr,hu,hn⟩ := hk
  obtain ⟨hm,rfl⟩ := Table.get?_eq_some.mp hr
  refine List.mem_map_of_mem (List.mem_filter.mpr ⟨hm,?_⟩)
  simp [hu,h.user,hn]

theorem committing_kept {w : Write} (hn : max_active_per_user ≤ n) (h : Good n u e s)
    (hl : Local u e i s (.committing since w))
    (hs : advance H settings i a s (.committing since w) = some (s',p')) :
    Kept n u e i s s' p' := by
  cases hs
  refine ⟨(h.commit hn hl.2).release i,trivial,(Rely.commit hl.1 hl.2).trans .release ?_⟩
  intro j hj hlj
  rw [hl.1] at hlj
  exact hj (Option.some.inj hlj).symm

theorem refreshing_kept {payload : Payload} (h : Good n u e s)
    (hl : Local u e i s (.refreshing payload))
    (hs : advance H settings i a s (.refreshing payload) = some (s',p')) :
    Kept n u e i s s' p' := by
  rw [advance] at hs
  by_cases hm : session_epoch_matches payload.ses s.user.session_epoch = true
  · rw [if_pos hm] at hs
    cases hs
    exact h.accepted_kept (h.issuedSince hl hm) h.epoch
  · rw [if_neg hm] at hs
    cases hs
    exact h.kept trivial

theorem issuing_kept {user : User} (h : Good n u e s) (hl : Local u e i s (.issuing since user))
    (hs : advance H settings i a s (.issuing since user) = some (s',p')) :
    Kept n u e i s s' p' := by
  cases hs
  exact ⟨h.issue hl,trivial,
    .quiet rfl rfl rfl rfl rfl rfl rfl (fun _ => .tail _ ∘ .tail _) fun _ _ h => h⟩

theorem revoking_kept {user_id : Str} {token_id : ℕ} (h : Good n u e s)
    (hs : advance H settings i a s (.revoking user_id token_id) = some (s',p')) :
    Kept n u e i s s' p' := by
  rw [advance] at hs
  cases hr : revoke s.api_tokens token_id (some user_id) a.now with
  | error r =>
    rw [hr] at hs
    cases hs
    exact h.kept trivial
  | ok tokens =>
    rw [hr] at hs
    cases hs
    exact h.kept trivial

theorem revoked_kept {ids : List ℕ} {now : ℕ} (h : Good n u e s)
    (hs : advance H settings i a s (.revoked ids now) = some (s',p')) :
    Kept n u e i s s' p' := by
  cases hs
  refine ⟨h.revoked,trivial,?_⟩
  exact ⟨fun j _ hj => ⟨hj,rfl,rfl,rfl,rfl,.inr ⟨ids,now,rfl⟩⟩,
    fun id t ht => ⟨rfl,get?_set_revoked_owner ht⟩,fun h hh => ⟨hh,rfl⟩,fun _ => id⟩

/-- Every step of a request keeps the state good, knows what it has to know after it, and
leaves alone what the others rely on. -/
theorem requests_kept (hn : max_active_per_user ≤ n) {p : Phase} (h : Good n u e s)
    (hl : Local u e i s p) (hs : requests H settings i a s p = some (s',p')) :
    Kept n u e i s s' p' := by
  rw [requests] at hs
  by_cases he : a.error
  · rw [if_pos he] at hs
    cases p with
    | done => cases hs
    | _ =>
      cases hs
      exact h.failed
  rw [if_neg he] at hs
  cases p with
  | start r => exact start_kept h hs
  | waiting since ctx op => exact h.lock_kept hs ⟨rfl,rfl,hl⟩
  | holding since ctx op user => exact holding_kept h hl hs
  | validated since op user => exact validated_kept h hl hs
  | counted since name expires_at user => exact counted_kept h hl hs
  | mailing since epoch token_hash expires_at =>
    cases hs
    exact h.kept hl
  | mailed since epoch token_hash expires_at => exact h.lock_kept hs ⟨rfl,rfl,hl⟩
  | comparing since epoch token_hash expires_at user => exact comparing_kept h hl hs
  | confirming since token_hash new_password =>
    rw [advance] at hs
    exact h.lock_kept hs ⟨rfl,hl⟩
  | rereading since token_hash new_password => exact rereading_kept h hl hs
  | consuming since token_hash new_password =>
    cases hs
    exact h.kept hl
  | binding sub user => exact binding_kept h hl hs
  | revoking_all sub epoch => exact revoking_all_kept h hl hs
  | deleting_unused sub epoch ids => exact deleting_unused_kept h hl hs
  | committing since w => exact committing_kept hn h hl hs
  | refreshing payload => exact refreshing_kept h hl hs
  | issuing since user => exact issuing_kept h hl hs
  | revoking user_id token_id => exact revoking_kept h hs
  | revoked ids now => exact revoked_kept h hs
  | done => cases hs

end Requests

/-- No request has been made yet, and no bind committed: the session tokens that are around
were issued from epochs of the user, and the reset tokens were drawn. -/
structure Fresh (w : World State Phase) : Prop where
  start : ∀ i, ∃ r, w.proc i = .start r
  unlocked : w.shared.locked = none
  binds : w.shared.binds = 0
  password_since : w.shared.password_since = 0
  token_since : ∀ id, w.shared.token_since id = 0
  reset_since : ∀ h, w.shared.reset_since h = 0
  issued : ∀ q ∈ w.shared.issued, q.2 = 0 ∧
    ∀ m, q.1.ses = .int m → m ≤ w.shared.user.session_epoch
  drawn : ∀ r ∈ w.shared.reset_tokens.rows, r.token_hash ∈ w.shared.drawn
  accepted : w.shared.accepted = []
  consumed : w.shared.consumed = []

def system (H : Digests) (settings : Settings) : System (World State Phase) (ℕ × Input) :=
  Interleave.system (requests H settings) Fresh

section Runs

variable {H : Digests} {settings : Settings} {w₀ w : World State Phase}
  {h : List (World State Phase × (ℕ × Input))}

theorem Fresh.good (h₀ : Fresh w₀)
    (hn : active_count w₀.shared.api_tokens w₀.shared.user.id ≤ n) :
    Good n w₀.shared.user.id w₀.shared.user.session_epoch w₀.shared where
  user := rfl
  epoch := by rw [h₀.binds]; simp
  cap := hn
  accepted := by rw [h₀.accepted]; nofun
  password _ := h₀.password_since.trans h₀.binds.symm
  api_tokens t _ _ := (h₀.token_since t.id).trans h₀.binds.symm
  reset_tokens k _ := (h₀.reset_since k).trans h₀.binds.symm
  issued q hq m hm := .inr ⟨(h₀.issued q hq).1,(h₀.issued q hq).2 m hm⟩
  drawn := by
    rintro k ⟨row,hr,-⟩
    obtain ⟨hm,rfl⟩ := Table.get?_eq_some.mp hr
    exact h₀.drawn row hm
  consumed := by rw [h₀.consumed]; exact List.nodup_nil
  spent := by rw [h₀.consumed]; nofun

theorem Fresh.visits (h₀ : Fresh w₀) (hr : Run (system H settings) w₀ h w)
    (hn : max_active_per_user ≤ n)
    (hc : active_count w₀.shared.api_tokens w₀.shared.user.id ≤ n) :
    Visits (fun w => Good n w₀.shared.user.id w₀.shared.user.session_epoch w.shared) h w := by
  have hw : Holds (Good n w₀.shared.user.id w₀.shared.user.session_epoch)
      (Local w₀.shared.user.id w₀.shared.user.session_epoch) w₀ := by
    refine ⟨h₀.good hc,fun i => ?_⟩
    obtain ⟨r,hr⟩ := h₀.start i
    rw [hr]
    trivial
  have hv := hw.visits (R:=Rely) (G:=fun _ _ _ _ => True) hr
    (fun i a s p s' p' hS hL _ hs => requests_kept hn hS hL hs)
    (fun i j s s' p hij hL hR => hL.stable hij hR) (fun _ _ => trivial)
  exact ⟨hv.1.1,fun q hq => (hv.2 q hq).1⟩

/-- In every interleaving, what is accepted was authorised since the last bind of a Google
identity, and no reset token is consumed twice. -/
theorem reset_closes (h₀ : Fresh w₀) (hr : Run (system H settings) w₀ h w) :
    Visits (fun w => Closed w₀.shared.user.id w.shared) h w := by
  have hv := h₀.visits hr (le_max_left _ _) (le_max_right _ _)
  exact ⟨hv.1.closed,fun q hq => (hv.2 q hq).closed⟩

/-- In every interleaving that starts without tokens, a user has at most as many active
tokens as the limit allows. -/
theorem tokens_capped (h₀ : Fresh w₀)
    (hnone : ∀ t ∈ w₀.shared.api_tokens.rows, t.user_id ≠ w₀.shared.user.id)
    (hr : Run (system H settings) w₀ h w) :
    Visits (fun w => active_count w.shared.api_tokens w₀.shared.user.id ≤ max_active_per_user)
      h w := by
  have hc : active_count w₀.shared.api_tokens w₀.shared.user.id ≤ max_active_per_user := by
    have hzero : active_count w₀.shared.api_tokens w₀.shared.user.id = 0 := by
      refine List.countP_eq_zero.mpr fun t ht => ?_
      simp [ApiToken.active,hnone t ht]
    omega
  have hv := h₀.visits hr le_rfl hc
  exact ⟨hv.1.cap,fun q hq => (hv.2 q hq).cap⟩

end Runs

def sampleDigests : Digests := ⟨⟨id⟩,fun password _ => password,fun password hash => password = hash⟩

def sampleSession : Payload := issue_access_token ⟨15,7⟩ 0 ['u'] ['m'] 3

def sampleState : State where
  user := ⟨['u'],['m'],.Reader,some ['p'],none,3⟩
  api_tokens := Table.empty _
  reset_tokens := Table.empty _
  locked := none
  issued := [(sampleSession,0)]
  drawn := []
  binds := 0
  password_since := 0
  token_since := fun _ => 0
  reset_since := fun _ => 0
  accepted := []
  consumed := []

def sampleWorld : World State Phase :=
  ⟨sampleState,fun i => .start (if i = 0 then .post_api_tokens (.jwt sampleSession) ['n'] none
    else .bind_google_identity ['g'])⟩

theorem sampleWorld_fresh : Fresh sampleWorld where
  start i := ⟨_,rfl⟩
  unlocked := rfl
  binds := rfl
  password_since := rfl
  token_since _ := rfl
  reset_since _ := rfl
  issued := by
    intro q hq
    obtain rfl := List.mem_singleton.mp hq
    refine ⟨rfl,?_⟩
    rintro m ⟨⟩
    exact le_refl _
  drawn := nofun
  accepted := rfl
  consumed := rfl

def sampleInput : Input := ⟨1,['r'],1,false,false⟩

/-- The mint is authenticated before the bind and takes the lock after it. -/
theorem reset_closes_sample : ∃ h w, Run (system sampleDigests ⟨15,7⟩) sampleWorld h w ∧
    Visits (fun w => Closed ['u'] w.shared) h w ∧ w.shared.binds = 1 ∧
      w.shared.accepted = [(0,0)] ∧ w.shared.api_tokens.rows.length = 0 := by
  have hr := run_of_replay (i:=Fresh) (f:=Interleave.step (requests sampleDigests ⟨15,7⟩))
    (l:=[0,1,1,1,1,1,0,0].map fun i => (i,sampleInput)) (.refl (s:=sampleWorld)) rfl
  exact ⟨_,_,hr,reset_closes sampleWorld_fresh hr,rfl,rfl,rfl⟩

theorem tokens_capped_sample : ∃ h w, Run (system sampleDigests ⟨15,7⟩) sampleWorld h w ∧
    Visits (fun w => active_count w.shared.api_tokens ['u'] ≤ max_active_per_user) h w ∧
      active_count w.shared.api_tokens ['u'] = 1 := by
  have hr := run_of_replay (i:=Fresh) (f:=Interleave.step (requests sampleDigests ⟨15,7⟩))
    (l:=[0,0,0,0,0,0].map fun i => (i,sampleInput)) (.refl (s:=sampleWorld)) rfl
  exact ⟨_,_,hr,tokens_capped sampleWorld_fresh nofun hr,rfl⟩

end Credentials
end Auth
end Dataspoke
