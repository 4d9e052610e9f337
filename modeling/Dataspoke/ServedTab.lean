import Dataspoke.BrowserRuns

/-!
# A tab whose refreshes are served

Where the server refuses no refresh cookie that is presented to it for the first time, the
calls of a tab, however they interleave, never sign it out. And whatever the answers, a call
is sent at most twice.
-/

namespace Dataspoke
namespace Browser

open Python Interleave Transition SingleFlight

/-- The imports work, the answers set new cookies and delete none, and an exchange that is the
only one to have presented its cookie gets an access token and a new cookie. -/
structure Served (w : World Tab Phase) (l : ℕ × Input) : Prop where
  new : NewCookies w l
  imported : l.2.failed = false
  kept : ∀ r, l.2.response = some r → r.setCookie ≠ some none
  granted : l.2.exchange = true → ∀ e, w.shared.exchanges l.1 = some e → e.stage = .sent →
    (∀ j f, j ≠ l.1 → w.shared.exchanges j = some f → f.cookie ≠ e.cookie) →
    ∃ r t c, l.2.response = some r ∧ r.ok = true ∧ accessTokenOf r.json = some t ∧
      truthy (some t) = true ∧ r.setCookie = some (some c)

/-- An exchange that goes well. -/
def Exchange.Good (e : Exchange) : Prop :=
  match e.stage with
  | .sent => True
  | .reading r => e.renewed = true ∧ ∃ t, accessTokenOf r.json = some t ∧ truthy (some t) = true
  | .storing token => e.renewed = true ∧ truthy (some token) = true
  | .ended refreshed => e.renewed = true ∧ refreshed = true

structure Kept (s₀ s : Tab) : Prop where
  cookie : s.cookie.isSome = true
  good : ∀ i e, s.exchanges i = some e → e.cookie.isSome = true ∧ e.Good
  token : truthy s₀.accessToken = true → truthy s.accessToken = true

/-- No two exchanges have presented one cookie, none has ended badly, no call signs the tab
out, and the access token is not lost. -/
structure SignedIn (s₀ : Tab) (w : World Tab Phase) : Prop where
  distinct : ∀ i j e f, i ≠ j → w.shared.exchanges i = some e → w.shared.exchanges j = some f →
    e.cookie ≠ f.cookie
  refreshed : ∀ i, w.shared.settled i ≠ some false
  token : truthy s₀.accessToken = true → truthy w.shared.accessToken = true
  uncleared : ∀ i r, w.proc i ≠ .clearing r

variable {i : ℕ} {a : Input} {s₀ s s' : Tab} {p p' : Phase} {e f : Exchange}

theorem Exchange.Good.not_spent (h : e.Good) : ¬ e.Spent := by
  rintro ⟨⟨refreshed,hst⟩,hr⟩
  rw [Exchange.Good,hst] at h
  rw [hr] at h
  exact absurd h.1 Bool.false_ne_true

theorem Kept.refreshed (h : Kept s₀ s) (i : ℕ) : s.settled i ≠ some false := by
  intro hs
  rw [Tab.settled] at hs
  cases he : s.exchanges i with
  | none =>
    rw [he] at hs
    cases hs
  | some e =>
    obtain ⟨cookie,renewed,stage⟩ := e
    rw [he] at hs
    cases stage with
    | ended refreshed =>
      cases hs
      exact absurd (h.good i _ he).2.2 Bool.false_ne_true
    | _ => cases hs

theorem Kept.distinct (h : Kept s₀ s) (hc : Cookies s.exchanges s.cookie) {i j : ℕ} (hne : i ≠ j)
    (he : s.exchanges i = some e) (hf : s.exchanges j = some f) : e.cookie ≠ f.cookie := by
  intro heq
  obtain ⟨c,hcookie⟩ := Option.isSome_iff_exists.mp (h.good i e he).1
  rcases hc.once i j e f c hne he hf hcookie (heq ▸ hcookie) with hs | hs
  · exact (h.good i e he).2.not_spent hs
  · exact (h.good j f hf).2.not_spent hs

theorem good_update {exchanges : ℕ → Option Exchange}
    (h : ∀ i e, exchanges i = some e → e.cookie.isSome = true ∧ e.Good)
    (hf : f.cookie.isSome = true ∧ f.Good) (j : ℕ) (g : Exchange)
    (hg : Function.update exchanges i (some f) j = some g) : g.cookie.isSome = true ∧ g.Good := by
  by_cases hj : j = i
  · subst hj
    rw [Function.update_self] at hg
    obtain rfl := Option.some.inj hg
    exact hf
  · rw [Function.update_of_ne hj] at hg
    exact h j g hg

theorem Kept.receive (h : Kept s₀ s) {r : Response} (hr : r.setCookie ≠ some none) :
    Kept s₀ (s.receive r) := by
  rw [Tab.receive]
  cases hs : r.setCookie with
  | none => exact h
  | some cookie =>
    refine ⟨?_,h.good,h.token⟩
    cases cookie with
    | none => exact absurd hs hr
    | some c => rfl

theorem Kept.exchange {w : World Tab Phase} (h : Kept s₀ w.shared)
    (hc : Cookies w.shared.exchanges w.shared.cookie) (hg : Served w (i,a))
    (ha : a.exchange = true) (hs : exchange a w.shared i = some s') : Kept s₀ s' := by
  obtain ⟨e,t,f,he,ht,rfl⟩ := exchange_turn hs
  have hgood := h.good i e he
  have hgranted : e.stage = .sent → ∃ r t c, a.response = some r ∧ r.ok = true ∧
      accessTokenOf r.json = some t ∧ truthy (some t) = true ∧ r.setCookie = some (some c) :=
    fun hst => hg.granted ha e he hst fun j f hj hf => h.distinct hc hj hf he
  cases ht with
  | fail hf =>
    exfalso
    rw [Fails] at hf
    rw [Exchange.Good] at hgood
    cases hst : e.stage with
    | sent =>
      rw [hst] at hf
      obtain ⟨r,t,c,hr,-⟩ := hgranted hst
      rw [hf] at hr
      cases hr
    | reading r =>
      rw [hst] at hf hgood
      obtain ⟨t,ht,-⟩ := hgood.2.2
      rw [hf] at ht
      cases ht
    | storing token =>
      rw [hst] at hf
      exact absurd (hg.imported.symm.trans hf) Bool.false_ne_true
    | ended refreshed =>
      rw [hst] at hf
      exact hf
  | @answer r hst hr =>
    obtain ⟨r',t,c,hr',hok,ht,htruthy,hset⟩ := hgranted hst
    obtain rfl := Option.some.inj (hr.symm.trans hr')
    have hreceive := h.receive (hg.kept r hr)
    refine ⟨hreceive.cookie,good_update hreceive.good ⟨hgood.1,?_⟩,hreceive.token⟩
    rw [Exchange.Good,if_pos hok,hset]
    exact ⟨rfl,t,ht,htruthy⟩
  | @token r t hst ht =>
    rw [Exchange.Good,hst] at hgood
    obtain ⟨hsome,hrenewed,t',ht',htruthy⟩ := hgood
    obtain rfl := Option.some.inj (ht.symm.trans ht')
    exact ⟨h.cookie,good_update h.good ⟨hsome,hrenewed,htruthy⟩,h.token⟩
  | @store t hst _ =>
    rw [Exchange.Good,hst] at hgood
    exact ⟨h.cookie,good_update h.good ⟨hgood.1,hgood.2.1,rfl⟩,fun _ => hgood.2.2⟩

/-- A step of a caller that leaves the access token. -/
theorem Kept.effect (h : Kept s₀ s) (hkept : ∀ r, a.response = some r → r.setCookie ≠ some none)
    (he : Effect i a s s') (htoken : s'.accessToken = s.accessToken) : Kept s₀ s' := by
  have hreceive : ∀ t, (t = s ∨ ∃ r, a.response = some r ∧ t = s.receive r) → Kept s₀ t := by
    rintro t (rfl | ⟨r,hr,rfl⟩)
    · exact h
    · exact h.receive (hkept r hr)
  have htruthy : truthy s₀.accessToken = true → truthy s'.accessToken = true := by
    rw [htoken]
    exact h.token
  cases he with
  | quiet ht hex hcookie =>
    refine ⟨?_,?_,htruthy⟩
    · rw [hcookie]
      exact (hreceive _ ht).cookie
    · rw [hex]
      exact (hreceive _ ht).good
  | share ht _ _ hex hcookie =>
    refine ⟨?_,?_,htruthy⟩
    · rw [hcookie]
      exact (hreceive _ ht).cookie
    · rw [hex]
      exact good_update (hreceive _ ht).good ⟨(hreceive _ ht).cookie,trivial⟩

theorem receive_accessToken (s : Tab) (r : Response) :
    (s.receive r).accessToken = s.accessToken := by
  rw [Tab.receive]
  cases r.setCookie <;> rfl

theorem ensureFreshToken_accessToken (s : Tab) (i : ℕ) :
    (ensureFreshToken s i).1.accessToken = s.accessToken := by
  rw [ensureFreshToken]
  cases s.refreshInFlight <;> rfl

theorem leave_accessToken (s : Tab) (i job : ℕ) : (s.leave i job).accessToken = s.accessToken := by
  rw [Tab.leave]
  split <;> rfl

theorem finish_ne_clearing (r r' : Response) : finish r ≠ .clearing r' := by
  rw [finish]
  split
  · simp
  · split <;> simp

/-- Where no exchange has ended badly, a call does not sign the tab out. -/
theorem apiFetch_uncleared {init : Init} (hinit : init.after = .none)
    (hsettled : ∀ job, s.settled job ≠ some false) (hp : ∀ r, p ≠ .clearing r)
    (h : apiFetch init i a s p = some (s',p')) :
    s'.accessToken = s.accessToken ∧ ∀ r, p' ≠ .clearing r := by
  cases p with
  | sent token headers =>
    rw [apiFetch,Option.some.injEq] at h
    cases hr : a.response with
    | none =>
      rw [hr] at h
      cases h
      exact ⟨rfl,by simp⟩
    | some r =>
      rw [hr,answered] at h
      by_cases hc : r.status = 401 ∧ truthy token = true
      · rw [if_pos hc] at h
        cases h
        refine ⟨?_,by simp⟩
        rw [ensureFreshToken_accessToken]
        exact receive_accessToken s r
      · rw [if_neg hc] at h
        cases h
        exact ⟨receive_accessToken s r,finish_ne_clearing r⟩
  | waiting headers r job =>
    rw [apiFetch] at h
    cases hs : s.settled job with
    | none =>
      rw [hs] at h
      cases h
    | some refreshed =>
      cases refreshed with
      | false => exact absurd hs (hsettled job)
      | true =>
        rw [hs] at h
        cases h
        exact ⟨leave_accessToken s i job,by simp⟩
  | retrying =>
    rw [apiFetch,Option.some.injEq] at h
    cases hr : a.response with
    | none =>
      rw [hr] at h
      cases h
      exact ⟨rfl,by simp⟩
    | some r =>
      rw [hr] at h
      cases h
      exact ⟨receive_accessToken s r,finish_ne_clearing r⟩
  | clearing r => exact absurd rfl (hp r)
  | start | refreshed headers =>
    rw [apiFetch] at h
    cases hf : a.failed <;> rw [hf] at h <;> cases h <;> exact ⟨rfl,by simp⟩
  | read token | reread headers newToken | failing r | receiving r =>
    cases h
    exact ⟨rfl,by simp⟩
  | returned outcome =>
    cases h
    rw [hinit]
    exact ⟨rfl,by simp⟩
  | probing | probed job | done outcome => cases h

theorem silentRefresh_uncleared (h : silentRefresh i a s p = some (s',p')) :
    s'.accessToken = s.accessToken ∧ ∀ r, p' ≠ .clearing r := by
  cases p with
  | start =>
    rw [silentRefresh] at h
    cases hf : a.failed <;> rw [hf] at h
    · rw [if_neg Bool.false_ne_true] at h
      cases ht : truthy s.accessToken <;> rw [ht] at h <;> cases h <;> exact ⟨rfl,by simp⟩
    · cases h
      exact ⟨rfl,by simp⟩
  | probing =>
    rw [silentRefresh] at h
    cases hf : a.failed <;> rw [hf] at h <;> cases h
    · exact ⟨ensureFreshToken_accessToken s i,by simp⟩
    · exact ⟨rfl,by simp⟩
  | probed job =>
    rw [silentRefresh] at h
    cases hs : s.settled job with
    | none =>
      rw [hs] at h
      cases h
    | some refreshed =>
      rw [hs] at h
      cases h
      exact ⟨leave_accessToken s i job,by simp⟩
  | _ => cases h

variable {callers : ℕ → Caller} {w₀ w w' : World Tab Phase} {l : ℕ × Input}
  {h : List (World Tab Phase × (ℕ × Input))}

structure Invariant (s₀ : Tab) (w : World Tab Phase) : Prop where
  single : Single slot Phase.standing w
  cookies : Cookies w.shared.exchanges w.shared.cookie
  kept : Kept s₀ w.shared
  uncleared : ∀ i r, w.proc i ≠ .clearing r

theorem Invariant.signedIn (hw : Invariant s₀ w) : SignedIn s₀ w :=
  ⟨fun _ _ _ _ hne he hf => hw.kept.distinct hw.cookies hne he hf,hw.kept.refreshed,
    hw.kept.token,hw.uncleared⟩

theorem Invariant.step (hcallers : ∀ i init, callers i = .apiFetch init → init.after = .none)
    (hw : Invariant s₀ w) (hg : Served w l) (hs : Interleave.step (step callers) w l = some w') :
    Invariant s₀ w' := by
  have hsingle := single_step hw.single hs
  have hcookies := cookies_step hw.single hw.cookies hg.new hs
  obtain ⟨s,p,hp,rfl⟩ := step_eq_some.mp hs
  have huncleared : (∀ r, p ≠ .clearing r) → ∀ i r, Function.update w.proc l.1 p i ≠ .clearing r := by
    intro hp i r
    by_cases hi : i = l.1
    · subst hi
      rw [Function.update_self]
      exact hp r
    · rw [Function.update_of_ne hi]
      exact hw.uncleared i r
  rcases step_cases hp with ⟨ha,he,rfl⟩ | ⟨-,init,hc,he⟩ | ⟨-,-,he⟩
  · exact ⟨hsingle,hcookies,hw.kept.exchange hw.cookies hg ha he,
      huncleared (hw.uncleared l.1)⟩
  · obtain ⟨htoken,hclear⟩ := apiFetch_uncleared (hcallers l.1 init hc) hw.kept.refreshed
      (hw.uncleared l.1) he
    exact ⟨hsingle,hcookies,hw.kept.effect hg.kept (apiFetch_effect he) htoken,huncleared hclear⟩
  · obtain ⟨htoken,hclear⟩ := silentRefresh_uncleared he
    exact ⟨hsingle,hcookies,hw.kept.effect hg.kept (silentRefresh_effect he) htoken,
      huncleared hclear⟩

theorem Loaded.invariant (h₀ : Loaded w₀) (hcookie : w₀.shared.cookie.isSome = true) :
    Invariant w₀.shared w₀ where
  single := h₀.single
  cookies := h₀.cookies
  kept := by
    refine ⟨hcookie,fun i e he => ?_,id⟩
    rw [h₀.2.1 i] at he
    cases he
  uncleared i r := by
    rw [h₀.2.2.2 i]
    simp

/-- Calls that are neither a login nor a logout, in a tab that holds a refresh cookie: while the
refreshes are served, the tab stays signed in, in every interleaving. -/
theorem served_signedIn (h₀ : Loaded w₀) (hcookie : w₀.shared.cookie.isSome = true)
    (hcallers : ∀ i init, callers i = .apiFetch init → init.after = .none)
    (hr : Run (system callers) w₀ h w) (hg : Meets Served h) :
    Visits (SignedIn w₀.shared) h w := by
  have hv := hr.visits (h₀.invariant hcookie)
    (fun _ _ _ hw hn hs => hw.step hcallers hn hs) hg
  exact ⟨hv.1.signedIn,fun x hx => (hv.2 x hx).signedIn⟩

theorem served_signedIn_sample :
    ∃ h w, Run (system sampleCallers) samplePage h w ∧
      Visits (SignedIn samplePage.shared) h w ∧ w.shared.accessToken = some ['n'] := by
  have hr := run_of_replay (i:=Loaded) (f:=Interleave.step (Browser.step sampleCallers))
    (l:=sampleSteps) (.refl (s:=samplePage)) rfl
  refine ⟨_,_,hr,served_signedIn samplePage_loaded rfl ?_ hr ?_,rfl⟩
  · rintro i init hc
    cases hc
    rfl
  simp only [meets_cons,meets_nil,and_true]
  refine ⟨?_,?_,?_,?_,?_,?_,?_,?_,?_,?_,?_⟩
  case refine_5 =>
    -- the exchange is answered
    refine ⟨?_,rfl,?_,?_⟩
    · rintro r c hresp hset j e he
      cases hresp
      cases hset
      by_cases hj : j = 0
      · subst hj
        cases he
        decide
      · cases (Function.update_of_ne hj ..).symm.trans he
    · rintro r hresp
      cases hresp
      decide
    · intro _ e he hst hother
      exact ⟨_,['n'],['d'],rfl,rfl,rfl,rfl,rfl⟩
  all_goals
    refine ⟨?_,rfl,?_,?_⟩
    · rintro r c hresp hset
      cases hresp
      all_goals cases hset
    · rintro r hresp
      cases hresp
      all_goals decide
    · intro ha e he hst
      cases ha
      all_goals
        cases he
        cases hst

/-- What caller `i` has sent and received. -/
def own (traffic : List (ℕ × Message)) (i : ℕ) : List Message :=
  (traffic.filter (·.1 = i)).map Prod.snd

theorem own_log (s : Tab) (i : ℕ) (m : Message) :
    own (s.log i m).traffic i = own s.traffic i ++ [m] := by
  simp [own,Tab.log]

theorem own_log_of_ne (s : Tab) {i j : ℕ} (h : j ≠ i) (m : Message) :
    own (s.log i m).traffic j = own s.traffic j := by
  simp [own,Tab.log,h.symm]

/-- One request and its answer, or, after an answer of 401 and a refresh that has gone well, the
request once more with another authorization. -/
def Exchanged (s : Tab) (i : ℕ) : Prop :=
  (∃ headers status, own s.traffic i <+: [.request headers,.response status]) ∨
    ∃ headers token status, own s.traffic i <+: [.request headers,.response (some 401),
      .request (spread headers (authorization token)),.response status] ∧
      ∃ job, s.settled job = some true

/-- What caller `i` has sent and received when it stands at a phase. -/
def Trace (i : ℕ) (s : Tab) : Phase → Prop
  | .start | .read _ | .probing | .probed _ => own s.traffic i = []
  | .sent _ headers => own s.traffic i = [.request headers]
  | .waiting headers _ _ => own s.traffic i = [.request headers,.response (some 401)]
  | .refreshed headers | .reread headers _ =>
    own s.traffic i = [.request headers,.response (some 401)] ∧ ∃ job, s.settled job = some true
  | .retrying => ∃ headers token, own s.traffic i = [.request headers,.response (some 401),
      .request (spread headers (authorization token))] ∧ ∃ job, s.settled job = some true
  | .clearing _ | .failing _ | .receiving _ | .returned _ | .done _ => Exchanged s i

/-- What a step of another caller leaves. -/
theorem Trace.stable (h : Trace i s p) (hown : own s'.traffic i = own s.traffic i)
    (hsettled : ∀ job refreshed, s.settled job = some refreshed →
      s'.settled job = some refreshed) : Trace i s' p := by
  have hjob : (∃ job, s.settled job = some true) → ∃ job, s'.settled job = some true :=
    fun ⟨job,hj⟩ => ⟨job,hsettled job true hj⟩
  have hexchanged : Exchanged s i → Exchanged s' i := by
    rintro (⟨headers,status,hp⟩ | ⟨headers,token,status,hp,hj⟩)
    · exact .inl ⟨headers,status,hown ▸ hp⟩
    · exact .inr ⟨headers,token,status,hown ▸ hp,hjob hj⟩
  cases p with
  | start | read _ | probing | probed _ | sent _ _ | waiting _ _ _ => exact hown.trans h
  | refreshed headers | reread headers _ => exact ⟨hown.trans h.1,hjob h.2⟩
  | retrying =>
    obtain ⟨headers,token,ho,hj⟩ := h
    exact ⟨headers,token,hown.trans ho,hjob hj⟩
  | clearing _ | failing _ | receiving _ | returned _ | done _ => exact hexchanged h

theorem Exchanged.of_nil (h : own s.traffic i = []) : Exchanged s i :=
  .inl ⟨[],none,h ▸ List.nil_prefix⟩

theorem finish_trace {r : Response} (h : Exchanged s i) : Trace i s (finish r) := by
  rw [finish]
  split
  · exact h
  · split <;> exact h

@[simp] theorem receive_traffic (s : Tab) (r : Response) : (s.receive r).traffic = s.traffic := by
  rw [Tab.receive]
  cases r.setCookie <;> rfl

@[simp] theorem ensureFreshToken_traffic (s : Tab) (i : ℕ) :
    (ensureFreshToken s i).1.traffic = s.traffic := by
  rw [ensureFreshToken]
  cases s.refreshInFlight <;> rfl

@[simp] theorem leave_traffic (s : Tab) (i job : ℕ) : (s.leave i job).traffic = s.traffic := by
  rw [Tab.leave]
  split <;> rfl

@[simp] theorem follow_traffic (s : Tab) (after : After) (outcome : Outcome) :
    (s.follow after outcome).traffic = s.traffic := by
  unfold Tab.follow
  split <;> rfl

variable {init : Init} {headers : Headers}

theorem sent_trace {token : Option Str} (ht : Trace i s (.sent token headers))
    (h : apiFetch init i a s (.sent token headers) = some (s',p')) :
    Trace i s' p' ∧ ∀ j, j ≠ i → own s'.traffic j = own s.traffic j := by
  have ho : own s.traffic i = [.request headers] := ht
  rw [apiFetch,Option.some.injEq] at h
  cases hr : a.response with
  | none =>
    rw [hr] at h
    cases h
    refine ⟨.inl ⟨headers,none,?_⟩,fun j hj => own_log_of_ne s hj _⟩
    rw [own_log,ho]
    exact List.prefix_rfl
  | some r =>
    rw [hr,answered] at h
    have hlog : own ((s.receive r).log i (.response (some r.status))).traffic i =
        [.request headers,.response (some r.status)] := by
      rw [own_log,receive_traffic,ho]
      rfl
    have hframe : ∀ j, j ≠ i →
        own ((s.receive r).log i (.response (some r.status))).traffic j = own s.traffic j := by
      intro j hj
      rw [own_log_of_ne _ hj,receive_traffic]
    by_cases hc : r.status = 401 ∧ truthy token = true
    · rw [if_pos hc] at h
      cases h
      rw [Trace,ensureFreshToken_traffic]
      rw [hc.1] at hlog
      refine ⟨?_,fun j hj => ?_⟩
      · rw [hc.1]
        exact hlog
      · exact hframe j hj
    · rw [if_neg hc] at h
      cases h
      exact ⟨finish_trace (.inl ⟨headers,some r.status,hlog ▸ List.prefix_rfl⟩),hframe⟩

theorem waiting_trace {r : Response} {job : ℕ} (ht : Trace i s (.waiting headers r job))
    (hsettled : ∀ job refreshed, s.settled job = some refreshed →
      s'.settled job = some refreshed)
    (h : apiFetch init i a s (.waiting headers r job) = some (s',p')) :
    Trace i s' p' ∧ ∀ j, j ≠ i → own s'.traffic j = own s.traffic j := by
  rw [apiFetch] at h
  have ho : own s.traffic i = [.request headers,.response (some 401)] := ht
  cases hs : s.settled job with
  | none =>
    rw [hs] at h
    cases h
  | some refreshed =>
    rw [hs] at h
    cases refreshed with
    | true =>
      cases h
      refine ⟨⟨?_,job,hsettled job true hs⟩,fun j _ => ?_⟩
      · rw [leave_traffic]
        exact ho
      · rw [leave_traffic]
    | false =>
      cases h
      have hleave : own (s.leave i job).traffic i = [.request headers,.response (some 401)] := by
        rw [leave_traffic]
        exact ho
      exact ⟨.inl ⟨headers,some 401,hleave ▸ List.prefix_rfl⟩,fun j _ => by rw [leave_traffic]⟩

theorem retrying_trace (ht : Trace i s .retrying)
    (hsettled : ∀ job refreshed, s.settled job = some refreshed →
      s'.settled job = some refreshed)
    (h : apiFetch init i a s .retrying = some (s',p')) :
    Trace i s' p' ∧ ∀ j, j ≠ i → own s'.traffic j = own s.traffic j := by
  rw [apiFetch,Option.some.injEq] at h
  obtain ⟨headers,token,ho,job,hj⟩ := ht
  have hexchanged : ∀ (t : Tab) (status : Option ℕ), t.traffic = s.traffic →
      t.log i (.response status) = s' → Exchanged s' i := by
    rintro t status htraffic rfl
    refine .inr ⟨headers,token,status,?_,job,hsettled job true hj⟩
    rw [own_log,htraffic,ho]
    exact List.prefix_rfl
  cases hr : a.response with
  | none =>
    rw [hr] at h
    cases h
    exact ⟨hexchanged s none rfl rfl,fun j hj => own_log_of_ne s hj _⟩
  | some r =>
    rw [hr] at h
    cases h
    refine ⟨finish_trace (hexchanged _ _ (receive_traffic s r) rfl),fun j hj => ?_⟩
    rw [own_log_of_ne _ hj,receive_traffic]

/-- A step of a call adds to its own traffic, and lets it stand where it may stand then. -/
theorem apiFetch_trace (ht : Trace i s p)
    (hsettled : ∀ job refreshed, s.settled job = some refreshed →
      s'.settled job = some refreshed)
    (h : apiFetch init i a s p = some (s',p')) :
    Trace i s' p' ∧ ∀ j, j ≠ i → own s'.traffic j = own s.traffic j := by
  cases p with
  | start =>
    rw [apiFetch] at h
    cases hf : a.failed <;> rw [hf] at h <;> cases h
    · exact ⟨ht,fun _ _ => rfl⟩
    · exact ⟨.of_nil ht,fun _ _ => rfl⟩
  | read token =>
    cases h
    refine ⟨?_,fun j hj => own_log_of_ne s hj _⟩
    rw [Trace,own_log,show own s.traffic i = [] from ht]
    rfl
  | sent token headers => exact sent_trace ht h
  | waiting headers r job => exact waiting_trace ht hsettled h
  | refreshed headers =>
    rw [apiFetch] at h
    obtain ⟨ho,hj⟩ := ht
    cases hf : a.failed <;> rw [hf] at h <;> cases h
    · exact ⟨⟨ho,hj⟩,fun _ _ => rfl⟩
    · exact ⟨.inl ⟨headers,some 401,ho ▸ List.prefix_rfl⟩,fun _ _ => rfl⟩
  | reread headers newToken =>
    cases h
    obtain ⟨ho,job,hj⟩ := ht
    refine ⟨⟨headers,newToken,?_,job,hsettled job true hj⟩,fun j hj => own_log_of_ne s hj _⟩
    rw [own_log,ho]
    rfl
  | retrying => exact retrying_trace ht hsettled h
  | clearing r =>
    rw [apiFetch] at h
    cases hf : a.failed <;> rw [hf] at h <;> cases h <;> exact ⟨ht,fun _ _ => rfl⟩
  | failing r | receiving r =>
    cases h
    exact ⟨ht,fun _ _ => rfl⟩
  | returned outcome =>
    cases h
    refine ⟨Trace.stable (p:=.done outcome) ht ?_ hsettled,fun j _ => ?_⟩
    · rw [follow_traffic]
    · rw [follow_traffic]
  | probing | probed job | done outcome => cases h

theorem silentRefresh_trace (ht : Trace i s p) (h : silentRefresh i a s p = some (s',p')) :
    Trace i s' p' ∧ ∀ j, j ≠ i → own s'.traffic j = own s.traffic j := by
  cases p with
  | start =>
    rw [silentRefresh] at h
    cases hf : a.failed <;> rw [hf] at h
    · rw [if_neg Bool.false_ne_true] at h
      cases hc : truthy s.accessToken <;> rw [hc] at h <;> cases h
      · exact ⟨ht,fun _ _ => rfl⟩
      · exact ⟨.of_nil ht,fun _ _ => rfl⟩
    · cases h
      exact ⟨.of_nil ht,fun _ _ => rfl⟩
  | probing =>
    rw [silentRefresh] at h
    have ho : own s.traffic i = [] := ht
    cases hf : a.failed <;> rw [hf] at h <;> cases h
    · rw [Trace,ensureFreshToken_traffic]
      exact ⟨ho,fun _ _ => rfl⟩
    · exact ⟨.of_nil ho,fun _ _ => rfl⟩
  | probed job =>
    rw [silentRefresh] at h
    have ho : own s.traffic i = [] := ht
    cases hs : s.settled job with
    | none =>
      rw [hs] at h
      cases h
    | some refreshed =>
      rw [hs] at h
      cases h
      refine ⟨.of_nil ?_,fun j _ => ?_⟩
      · exact (congrArg (own · i) (leave_traffic s i job)).trans ho
      · exact congrArg (own · j) (leave_traffic s i job)
  | _ => cases h

theorem exchange_traffic (h : exchange a s i = some s') : s'.traffic = s.traffic := by
  obtain ⟨e,t,f,-,ht,rfl⟩ := exchange_turn h
  change t.traffic = s.traffic
  cases ht <;> simp

/-- Every caller stands where its traffic allows. -/
structure Traced (w : World Tab Phase) : Prop where
  single : Single slot Phase.standing w
  trace : ∀ i, Trace i w.shared (w.proc i)

theorem Traced.step (hw : Traced w) (hs : Interleave.step (step callers) w l = some w') :
    Traced w' := by
  have hsingle := single_step hw.single hs
  obtain ⟨s,p,hp,rfl⟩ := step_eq_some.mp hs
  have hsettled : ∀ job refreshed, w.shared.settled job = some refreshed →
      s.settled job = some refreshed := by
    intro job refreshed hj
    rw [settled_iff] at hj ⊢
    exact (step_move hp).settled (hw.single.2 l.1) hj
  have hstep : Trace l.1 s p ∧ ∀ j, j ≠ l.1 → own s.traffic j = own w.shared.traffic j := by
    rcases step_cases hp with ⟨-,he,rfl⟩ | ⟨-,init,-,he⟩ | ⟨-,-,he⟩
    · have htraffic := exchange_traffic he
      refine ⟨(hw.trace l.1).stable (by rw [htraffic]) hsettled,fun j _ => by rw [htraffic]⟩
    · exact apiFetch_trace (hw.trace l.1) hsettled he
    · exact silentRefresh_trace (hw.trace l.1) he
  refine ⟨hsingle,fun i => ?_⟩
  by_cases hi : i = l.1
  · subst hi
    simpa using hstep.1
  · simpa [hi] using (hw.trace i).stable (hstep.2 i hi) hsettled

theorem Trace.exchanged (h : Trace i s p) : Exchanged s i := by
  cases p with
  | start | read _ | probing | probed _ => exact .of_nil h
  | sent _ headers => exact .inl ⟨headers,none,(show own s.traffic i = _ from h) ▸ by simp⟩
  | waiting headers _ _ =>
    exact .inl ⟨headers,some 401,(show own s.traffic i = _ from h) ▸ List.prefix_rfl⟩
  | refreshed headers | reread headers _ =>
    exact .inl ⟨headers,some 401,h.1 ▸ List.prefix_rfl⟩
  | retrying =>
    obtain ⟨headers,token,ho,hj⟩ := h
    exact .inr ⟨headers,token,none,ho ▸ by simp,hj⟩
  | clearing _ | failing _ | receiving _ | returned _ | done _ => exact h

/-- In every run a call sends its request at most twice, the second time after an answer of 401
and a refresh that has gone well, with nothing changed but the authorization. -/
theorem call_exchanged (h₀ : Loaded w₀) (hr : Run (system callers) w₀ h w) :
    Visits (fun w => ∀ i, Exchanged w.shared i) h w := by
  have hinit : Traced w₀ := by
    refine ⟨h₀.single,fun i => ?_⟩
    rw [h₀.2.2.2 i]
    change own w₀.shared.traffic i = []
    rw [h₀.2.2.1]
    rfl
  have hv := hr.visits (G:=fun _ _ => True) hinit (fun _ _ _ hw _ hs => hw.step hs)
    fun _ _ => trivial
  exact ⟨fun i => (hv.1.trace i).exchanged,fun x hx i => ((hv.2 x hx).trace i).exchanged⟩

/-- After the refresh the first call sends its request again. -/
def retrySteps : List (ℕ × Input) :=
  sampleSteps ++ [(0,⟨false,none,false,none⟩),(0,⟨false,none,false,none⟩),
    (0,⟨false,none,false,some (sampleAnswer 200 none none)⟩)]

theorem call_exchanged_sample :
    ∃ h w, Run (system sampleCallers) samplePage h w ∧
      Visits (fun w => ∀ i, Exchanged w.shared i) h w ∧ (own w.shared.traffic 0).length = 4 := by
  have hr := run_of_replay (i:=Loaded) (f:=Interleave.step (Browser.step sampleCallers))
    (l:=retrySteps) (.refl (s:=samplePage)) rfl
  exact ⟨_,_,hr,call_exchanged samplePage_loaded hr,rfl⟩

end Browser
end Dataspoke
