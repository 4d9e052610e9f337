import Dataspoke.BrowserSession

/-!
# Runs of a browser tab

However the calls of a tab interleave, one refresh exchange is in flight, a refresh cookie is
presented again only where the exchange that has presented it brought no other, and a call is
sent again only after a refresh. A tab whose refreshes are served stays signed in.
-/

namespace Dataspoke
namespace Browser

open Python Interleave Transition SingleFlight

def Exchange.job : Option Exchange → Job Bool
  | none => .idle
  | some ⟨_,_,.ended refreshed⟩ => .settled refreshed
  | some _ => .running

def slot (s : Tab) : Slot Bool := ⟨s.refreshInFlight,Exchange.job ∘ s.exchanges⟩

def Phase.standing : Phase → Standing
  | .start | .read _ | .sent .. | .probing => .out
  | .waiting _ _ job | .probed job => .waiting job
  | _ => .through

variable {i : ℕ} {a : Input} {s s' : Tab} {p p' : Phase}

theorem slot_setExchange (s : Tab) (i : ℕ) (e : Exchange) :
    slot (s.setExchange i e) =
      ⟨s.refreshInFlight,Function.update (slot s).jobs i (Exchange.job (some e))⟩ := by
  rw [slot,Tab.setExchange,Function.comp_update]
  rfl

@[simp] theorem slot_receive (s : Tab) (r : Response) : slot (s.receive r) = slot s := by
  rw [Tab.receive]
  cases r.setCookie <;> rfl

theorem job_of_ne_ended {e : Exchange} (h : ∀ refreshed, e.stage ≠ .ended refreshed) :
    Exchange.job (some e) = .running := by
  obtain ⟨cookie,renewed,stage⟩ := e
  cases stage with
  | ended refreshed => exact absurd rfl (h refreshed)
  | _ => rfl

theorem settled_iff {job : ℕ} {refreshed : Bool} :
    s.settled job = some refreshed ↔ (slot s).jobs job = .settled refreshed := by
  change _ ↔ Exchange.job (s.exchanges job) = _
  rw [Tab.settled]
  cases s.exchanges job with
  | none => simp [Exchange.job]
  | some e =>
    obtain ⟨cookie,renewed,stage⟩ := e
    cases stage <;> simp [Exchange.job]

/-- What makes an exchange end badly, but for the status of its answer. -/
def Fails (a : Input) (e : Exchange) : Prop :=
  match e.stage with
  | .sent => a.response = none
  | .reading r => accessTokenOf r.json = none
  | .storing _ => a.failed = true
  | .ended _ => False

/-- One stage of an exchange: the tab it is written to, and the exchange then. -/
inductive Turn (a : Input) (s : Tab) (e : Exchange) : Tab → Exchange → Prop
  | fail : Fails a e → Turn a s e s { e with stage := .ended false }
  | answer {r : Response} : e.stage = .sent → a.response = some r →
      Turn a s e (s.receive r)
        ⟨e.cookie,r.setCookie.any Option.isSome,if r.ok then .reading r else .ended false⟩
  | token {r : Response} {token : Str} : e.stage = .reading r → accessTokenOf r.json = some token →
      Turn a s e s { e with stage := .storing token }
  | store {token : Str} : e.stage = .storing token → a.failed = false →
      Turn a s e { s with accessToken := some token } { e with stage := .ended true }

theorem exchange_turn (h : exchange a s i = some s') :
    ∃ e t f, s.exchanges i = some e ∧ Turn a s e t f ∧ s' = t.setExchange i f := by
  rw [exchange] at h
  cases he : s.exchanges i with
  | none =>
    rw [he] at h
    cases h
  | some e =>
    rw [he] at h
    dsimp only at h
    refine ⟨e,?_⟩
    cases hst : e.stage with
    | sent =>
      rw [hst] at h
      cases hr : a.response with
      | none =>
        rw [hr] at h
        cases h
        exact ⟨_,_,rfl,.fail (by rw [Fails,hst]; exact hr),rfl⟩
      | some r =>
        rw [hr] at h
        cases h
        exact ⟨_,_,rfl,.answer hst hr,rfl⟩
    | reading r =>
      rw [hst] at h
      dsimp only at h
      cases ht : accessTokenOf r.json with
      | none =>
        rw [ht] at h
        cases h
        exact ⟨_,_,rfl,.fail (by rw [Fails,hst]; exact ht),rfl⟩
      | some token =>
        rw [ht] at h
        cases h
        exact ⟨_,_,rfl,.token hst ht,rfl⟩
    | storing token =>
      rw [hst] at h
      dsimp only at h
      cases hf : a.failed with
      | true =>
        rw [hf] at h
        cases h
        exact ⟨_,_,rfl,.fail (by rw [Fails,hst]; exact hf),rfl⟩
      | false =>
        rw [hf] at h
        cases h
        exact ⟨_,_,rfl,.store hst hf,rfl⟩
    | ended refreshed =>
      rw [hst] at h
      cases h

@[simp] theorem receive_exchanges (s : Tab) (r : Response) :
    (s.receive r).exchanges = s.exchanges := by
  rw [Tab.receive]
  cases r.setCookie <;> rfl

section Turn

variable {e f : Exchange} {t : Tab}

theorem Turn.exchanges (h : Turn a s e t f) : t.exchanges = s.exchanges := by
  cases h <;> simp

theorem Turn.slot (h : Turn a s e t f) : slot t = slot s := by
  cases h with
  | answer => exact slot_receive ..
  | _ => rfl

theorem Turn.live (h : Turn a s e t f) : ∀ refreshed, e.stage ≠ .ended refreshed := by
  intro refreshed he
  cases h with
  | fail hf =>
    rw [Fails,he] at hf
    exact hf
  | answer hst | token hst | store hst =>
    rw [he] at hst
    cases hst

theorem Turn.cookie (h : Turn a s e t f) : f.cookie = e.cookie := by
  cases h <;> rfl

theorem exchange_move (h : exchange a s i = some s') {q : Standing} :
    Move i (slot s) q (slot s') q := by
  obtain ⟨e,t,f,he,ht,rfl⟩ := exchange_turn h
  have hjob : (slot t).jobs i = .running := by
    change Exchange.job (t.exchanges i) = _
    rw [ht.exchanges,he,job_of_ne_ended ht.live]
  rw [← ht.slot,slot_setExchange]
  obtain ⟨cookie,renewed,stage⟩ := f
  cases stage with
  | ended refreshed => exact .settle hjob
  | _ =>
    change Move i _ q ⟨t.refreshInFlight,Function.update (slot t).jobs i .running⟩ q
    rw [← hjob,Function.update_eq_self]
    exact .stay

end Turn

theorem ensureFreshToken_move :
    Move i (slot s) .out (slot (ensureFreshToken s i).1) (.waiting (ensureFreshToken s i).2) := by
  rw [ensureFreshToken]
  cases hs : s.refreshInFlight with
  | some j => exact .join hs
  | none =>
    have h : slot { s.setExchange i ⟨s.cookie,false,.sent⟩ with refreshInFlight := some i } =
        ⟨some i,Function.update (slot s).jobs i .running⟩ := by
      change Slot.mk (some i) (slot (s.setExchange i ⟨s.cookie,false,.sent⟩)).jobs = _
      rw [slot_setExchange]
      rfl
    change Move i _ _ (slot { s.setExchange i ⟨s.cookie,false,.sent⟩ with
      refreshInFlight := some i }) _
    rw [h]
    exact .own hs

theorem leave_move {job : ℕ} {refreshed : Bool} (h : s.settled job = some refreshed) :
    Move i (slot s) (.waiting job) (slot (s.leave i job)) .through := by
  have hl : slot (s.leave i job) =
      ⟨if job = i then none else (slot s).inFlight,(slot s).jobs⟩ := by
    rw [Tab.leave]
    by_cases hj : job = i
    · rw [if_pos hj,if_pos hj]
      rfl
    · rw [if_neg hj,if_neg hj]
  rw [hl]
  exact .leave (settled_iff.mp h)

theorem finish_standing (r : Response) : (finish r).standing = .through := by
  rw [finish]
  cases !r.ok with
  | true => rfl
  | false =>
    rw [if_neg Bool.false_ne_true]
    by_cases h : r.status = 204
    · rw [if_pos h]
      rfl
    · rw [if_neg h]
      rfl

theorem apiFetch_move {init : Init} (h : apiFetch init i a s p = some (s',p')) :
    Move i (slot s) p.standing (slot s') p'.standing := by
  cases p with
  | start =>
    rw [apiFetch] at h
    cases hf : a.failed <;> rw [hf] at h <;> cases h
    · exact .stay
    · exact .pass
  | read token =>
    cases h
    exact .stay
  | sent token headers =>
    rw [apiFetch,Option.some.injEq] at h
    cases hr : a.response with
    | none =>
      rw [hr] at h
      cases h
      exact .pass
    | some r =>
      rw [hr,answered] at h
      have hslot : slot ((s.receive r).log i (.response (some r.status))) = slot s :=
        slot_receive s r
      by_cases hc : r.status = 401 ∧ truthy token = true
      · rw [if_pos hc] at h
        cases h
        rw [← hslot]
        exact ensureFreshToken_move
      · rw [if_neg hc] at h
        cases h
        rw [hslot,finish_standing]
        exact .pass
  | waiting headers r job =>
    rw [apiFetch] at h
    cases hs : s.settled job with
    | none =>
      rw [hs] at h
      cases h
    | some refreshed =>
      rw [hs] at h
      cases refreshed <;> cases h <;> exact leave_move hs
  | refreshed headers =>
    rw [apiFetch] at h
    cases hf : a.failed <;> rw [hf] at h <;> cases h <;> exact .stay
  | reread headers newToken =>
    cases h
    exact .stay
  | retrying =>
    rw [apiFetch,Option.some.injEq] at h
    cases hr : a.response with
    | none =>
      rw [hr] at h
      cases h
      exact .stay
    | some r =>
      rw [hr] at h
      cases h
      have hslot : slot ((s.receive r).log i (.response (some r.status))) = slot s :=
        slot_receive s r
      rw [hslot,finish_standing]
      exact .stay
  | clearing r =>
    rw [apiFetch] at h
    cases hf : a.failed <;> rw [hf] at h <;> cases h <;> exact .stay
  | failing r | receiving r =>
    cases h
    exact .stay
  | returned outcome =>
    cases h
    have hslot : slot (s.follow init.after outcome) = slot s := by
      unfold Tab.follow
      split <;> rfl
    rw [hslot]
    exact .stay
  | probing | probed job | done outcome => cases h

theorem silentRefresh_move (h : silentRefresh i a s p = some (s',p')) :
    Move i (slot s) p.standing (slot s') p'.standing := by
  cases p with
  | start =>
    rw [silentRefresh] at h
    cases hf : a.failed <;> rw [hf] at h
    · rw [if_neg Bool.false_ne_true] at h
      cases ht : truthy s.accessToken <;> rw [ht] at h <;> cases h
      · exact .stay
      · exact .pass
    · cases h
      exact .pass
  | probing =>
    rw [silentRefresh] at h
    cases hf : a.failed <;> rw [hf] at h <;> cases h
    · exact ensureFreshToken_move
    · exact .pass
  | probed job =>
    rw [silentRefresh] at h
    cases hs : s.settled job with
    | none =>
      rw [hs] at h
      cases h
    | some refreshed =>
      rw [hs] at h
      cases h
      exact leave_move hs
  | _ => cases h

variable {callers : ℕ → Caller}

/-- A step of a caller, or of its exchange. -/
theorem step_cases (h : step callers i a s p = some (s',p')) :
    (a.exchange = true ∧ exchange a s i = some s' ∧ p' = p) ∨
      (a.exchange = false ∧ ∃ init, callers i = .apiFetch init ∧
        apiFetch init i a s p = some (s',p')) ∨
      (a.exchange = false ∧ callers i = .silentRefresh ∧
        silentRefresh i a s p = some (s',p')) := by
  rw [step] at h
  cases he : a.exchange with
  | true =>
    rw [he,if_pos rfl,Option.map_eq_some_iff] at h
    obtain ⟨t,ht,heq⟩ := h
    cases heq
    exact .inl ⟨rfl,ht,rfl⟩
  | false =>
    rw [he,if_neg Bool.false_ne_true] at h
    cases hc : callers i with
    | apiFetch init =>
      rw [hc] at h
      exact .inr (.inl ⟨rfl,init,rfl,h⟩)
    | silentRefresh =>
      rw [hc] at h
      exact .inr (.inr ⟨rfl,rfl,h⟩)

theorem step_move (h : step callers i a s p = some (s',p')) :
    Move i (slot s) p.standing (slot s') p'.standing := by
  rcases step_cases h with ⟨-,hs,rfl⟩ | ⟨-,init,-,hs⟩ | ⟨-,-,hs⟩
  · exact exchange_move hs
  · exact apiFetch_move hs
  · exact silentRefresh_move hs

/-- What the step of a caller does to the exchanges and to the cookie: it takes an answer, and
sends an exchange where none is under way. -/
inductive Effect (i : ℕ) (a : Input) (s s' : Tab) : Prop
  | quiet {t : Tab} : t = s ∨ (∃ r, a.response = some r ∧ t = s.receive r) →
      s'.exchanges = t.exchanges → s'.cookie = t.cookie → Effect i a s s'
  | share {t : Tab} : t = s ∨ (∃ r, a.response = some r ∧ t = s.receive r) →
      slot t = slot s → t.refreshInFlight = none →
      s'.exchanges = Function.update t.exchanges i (some ⟨t.cookie,false,.sent⟩) →
      s'.cookie = t.cookie → Effect i a s s'

theorem ensureFreshToken_effect {t u : Tab}
    (ht : t = s ∨ ∃ r, a.response = some r ∧ t = s.receive r) (hslot : slot u = slot s)
    (hex : u.exchanges = t.exchanges) (hcookie : u.cookie = t.cookie)
    (hts : slot t = slot s) : Effect i a s (ensureFreshToken u i).1 := by
  rw [ensureFreshToken]
  cases hu : u.refreshInFlight with
  | some j => exact .quiet ht hex hcookie
  | none =>
    have hin : t.refreshInFlight = none := by
      change (slot t).inFlight = none
      rw [hts,← hslot]
      exact hu
    refine .share ht hts hin ?_ hcookie
    change Function.update u.exchanges i _ = _
    rw [hex,hcookie]

theorem apiFetch_effect {init : Init} (h : apiFetch init i a s p = some (s',p')) :
    Effect i a s s' := by
  have hsame : ∀ u : Tab, u.exchanges = s.exchanges → u.cookie = s.cookie → Effect i a s u :=
    fun u => .quiet (.inl rfl)
  cases p with
  | sent token headers =>
    rw [apiFetch,Option.some.injEq] at h
    cases hr : a.response with
    | none =>
      rw [hr] at h
      cases h
      exact hsame _ rfl rfl
    | some r =>
      rw [hr,answered] at h
      have hslot : slot ((s.receive r).log i (.response (some r.status))) = slot s :=
        slot_receive s r
      by_cases hc : r.status = 401 ∧ truthy token = true
      · rw [if_pos hc] at h
        cases h
        exact ensureFreshToken_effect (.inr ⟨r,hr,rfl⟩) hslot rfl rfl (slot_receive s r)
      · rw [if_neg hc] at h
        cases h
        exact .quiet (.inr ⟨r,hr,rfl⟩) rfl rfl
  | waiting headers r job =>
    rw [apiFetch] at h
    have hleave : Effect i a s (s.leave i job) := by
      rw [Tab.leave]
      split <;> exact hsame _ rfl rfl
    cases hs : s.settled job with
    | none =>
      rw [hs] at h
      cases h
    | some refreshed =>
      rw [hs] at h
      cases refreshed <;> cases h <;> exact hleave
  | retrying =>
    rw [apiFetch,Option.some.injEq] at h
    cases hr : a.response with
    | none =>
      rw [hr] at h
      cases h
      exact hsame _ rfl rfl
    | some r =>
      rw [hr] at h
      cases h
      exact .quiet (.inr ⟨r,hr,rfl⟩) rfl rfl
  | start | refreshed headers | clearing r =>
    rw [apiFetch] at h
    cases hf : a.failed <;> rw [hf] at h <;> cases h <;> exact hsame _ rfl rfl
  | read token | reread headers newToken | failing r | receiving r =>
    cases h
    exact hsame _ rfl rfl
  | returned outcome =>
    cases h
    unfold Tab.follow
    split <;> exact hsame _ rfl rfl
  | probing | probed job | done outcome => cases h

theorem silentRefresh_effect (h : silentRefresh i a s p = some (s',p')) : Effect i a s s' := by
  have hsame : ∀ u : Tab, u.exchanges = s.exchanges → u.cookie = s.cookie → Effect i a s u :=
    fun u => .quiet (.inl rfl)
  cases p with
  | start =>
    rw [silentRefresh] at h
    cases hf : a.failed <;> rw [hf] at h
    · rw [if_neg Bool.false_ne_true] at h
      cases ht : truthy s.accessToken <;> rw [ht] at h <;> cases h <;> exact hsame _ rfl rfl
    · cases h
      exact hsame _ rfl rfl
  | probing =>
    rw [silentRefresh] at h
    cases hf : a.failed <;> rw [hf] at h <;> cases h
    · exact ensureFreshToken_effect (.inl rfl) rfl rfl rfl rfl
    · exact hsame _ rfl rfl
  | probed job =>
    rw [silentRefresh] at h
    cases hs : s.settled job with
    | none =>
      rw [hs] at h
      cases h
    | some refreshed =>
      rw [hs] at h
      cases h
      unfold Tab.leave
      split <;> exact hsame _ rfl rfl
  | _ => cases h

/-- An exchange that is over and has brought no new cookie. -/
def Exchange.Spent (e : Exchange) : Prop :=
  (∃ refreshed, e.stage = .ended refreshed) ∧ e.renewed = false

/-- Of two exchanges that have presented one cookie, one is spent, and no exchange has
replaced the cookie that the browser holds. -/
structure Cookies (exchanges : ℕ → Option Exchange) (cookie : Option Str) : Prop where
  once : ∀ i j e f c, i ≠ j → exchanges i = some e → exchanges j = some f →
    e.cookie = some c → f.cookie = some c → e.Spent ∨ f.Spent
  held : ∀ i e c, exchanges i = some e → e.cookie = some c → cookie = some c → e.renewed = false

/-- A cookie that an answer sets has not been presented. -/
def NewCookies (w : World Tab Phase) (l : ℕ × Input) : Prop :=
  ∀ r c, l.2.response = some r → r.setCookie = some (some c) →
    ∀ j e, w.shared.exchanges j = some e → e.cookie ≠ some c

section Cookies

variable {exchanges : ℕ → Option Exchange} {cookie : Option Str} {e f : Exchange}

theorem Cookies.turn (h : Cookies exchanges cookie) (he : exchanges i = some e)
    (hlive : ∀ refreshed, e.stage ≠ .ended refreshed) (hcookie : f.cookie = e.cookie)
    {cookie' : Option Str}
    (hheld : ∀ j g c, j ≠ i → exchanges j = some g → g.cookie = some c → cookie' = some c →
      g.renewed = false)
    (hown : ∀ c, e.cookie = some c → cookie' = some c → f.renewed = false) :
    Cookies (Function.update exchanges i (some f)) cookie' := by
  have hspent : ¬ e.Spent := fun hs => hs.1.elim hlive
  refine ⟨fun j k g g' c hne hg hg' hc hc' => ?_,fun j g c hg hc hj => ?_⟩
  · by_cases hj : j = i
    · subst hj
      rw [Function.update_self] at hg
      obtain rfl := Option.some.inj hg
      rw [Function.update_of_ne hne.symm] at hg'
      exact .inr ((h.once j k e g' c hne he hg' (hcookie ▸ hc) hc').resolve_left hspent)
    · rw [Function.update_of_ne hj] at hg
      by_cases hk : k = i
      · subst hk
        rw [Function.update_self] at hg'
        obtain rfl := Option.some.inj hg'
        exact .inl ((h.once j k g e c hne hg he hc (hcookie ▸ hc')).resolve_right hspent)
      · rw [Function.update_of_ne hk] at hg'
        exact h.once j k g g' c hne hg hg' hc hc'
  · by_cases hji : j = i
    · subst hji
      rw [Function.update_self] at hg
      obtain rfl := Option.some.inj hg
      exact hown c (hcookie ▸ hc) hj
    · rw [Function.update_of_ne hji] at hg
      exact hheld j g c hji hg hc hj

theorem Cookies.share (h : Cookies exchanges cookie)
    (hover : ∀ j g, exchanges j = some g → ∃ refreshed, g.stage = .ended refreshed) :
    Cookies (Function.update exchanges i (some ⟨cookie,false,.sent⟩)) cookie := by
  refine ⟨fun j k g g' c hne hg hg' hc hc' => ?_,fun j g c hg hc hj => ?_⟩
  · by_cases hj : j = i
    · subst hj
      rw [Function.update_self] at hg
      obtain rfl := Option.some.inj hg
      rw [Function.update_of_ne hne.symm] at hg'
      exact .inr ⟨hover k g' hg',h.held k g' c hg' hc' hc⟩
    · rw [Function.update_of_ne hj] at hg
      by_cases hk : k = i
      · subst hk
        rw [Function.update_self] at hg'
        obtain rfl := Option.some.inj hg'
        exact .inl ⟨hover j g hg,h.held j g c hg hc hc'⟩
      · rw [Function.update_of_ne hk] at hg'
        exact h.once j k g g' c hne hg hg' hc hc'
  · by_cases hji : j = i
    · subst hji
      rw [Function.update_self] at hg
      obtain rfl := Option.some.inj hg
      rfl
    · rw [Function.update_of_ne hji] at hg
      exact h.held j g c hg hc hj

theorem Cookies.receive {r : Response} (h : Cookies s.exchanges s.cookie)
    (hnew : ∀ c, r.setCookie = some (some c) → ∀ j e, s.exchanges j = some e →
      e.cookie ≠ some c) :
    Cookies (s.receive r).exchanges (s.receive r).cookie := by
  rw [Tab.receive]
  cases hr : r.setCookie with
  | none => exact h
  | some cookie =>
    refine ⟨h.once,fun j e c he hc hcookie => ?_⟩
    exact absurd hc (hnew c (by rw [hr]; exact congrArg some hcookie) j e he)

end Cookies

theorem over_of_sound (h : Sound (slot s)) (hnone : s.refreshInFlight = none) (j : ℕ)
    (g : Exchange) (hg : s.exchanges j = some g) : ∃ refreshed, g.stage = .ended refreshed := by
  by_contra hn
  have hrun : (slot s).jobs j = .running := by
    change Exchange.job (s.exchanges j) = _
    rw [hg]
    exact job_of_ne_ended fun refreshed he => hn ⟨refreshed,he⟩
  have hflight := h.running j hrun
  rw [show (slot s).inFlight = none from hnone] at hflight
  cases hflight

theorem exchange_cookies {w : World Tab Phase} (h : Cookies w.shared.exchanges w.shared.cookie)
    (hnew : NewCookies w (i,a)) (hs : exchange a w.shared i = some s') :
    Cookies s'.exchanges s'.cookie := by
  obtain ⟨e,t,f,he,ht,rfl⟩ := exchange_turn hs
  change Cookies (Function.update t.exchanges i (some f)) t.cookie
  rw [ht.exchanges]
  have hlive := ht.live
  have hcookie := ht.cookie
  cases ht with
  | @answer r hst hr =>
    have hreceive := (h.receive fun c hc => hnew r c hr hc).held
    rw [receive_exchanges] at hreceive
    refine h.turn he hlive hcookie (fun j g c _ => hreceive j g c) fun c hc hheld => ?_
    cases hset : r.setCookie with
    | none => rfl
    | some set =>
      simp only [Tab.receive,hset] at hheld
      exact absurd hc (hnew r c hr (by rw [hset,hheld]) i e he)
  | fail | token | store =>
    exact h.turn he hlive hcookie (fun j g c _ => h.held j g c) fun c => h.held i e c he

theorem effect_cookies {w : World Tab Phase} (hsound : Sound (slot w.shared))
    (h : Cookies w.shared.exchanges w.shared.cookie) (hnew : NewCookies w (i,a))
    (he : Effect i a w.shared s') : Cookies s'.exchanges s'.cookie := by
  have hreceive : ∀ t, (t = w.shared ∨ ∃ r, a.response = some r ∧ t = w.shared.receive r) →
      Cookies t.exchanges t.cookie := by
    rintro t (rfl | ⟨r,hr,rfl⟩)
    · exact h
    · exact h.receive fun c hc => hnew r c hr hc
  cases he with
  | quiet ht hex hcookie =>
    rw [hex,hcookie]
    exact hreceive _ ht
  | share ht hslot hnone hex hcookie =>
    rw [hex,hcookie]
    exact (hreceive _ ht).share (over_of_sound (hslot ▸ hsound) hnone)

/-- The exchange in flight is the only one, and callers wait for it or for one that is over. -/
structure OneInFlight (w : World Tab Phase) : Prop where
  running : ∀ i j, Exchange.job (w.shared.exchanges i) = .running →
    Exchange.job (w.shared.exchanges j) = .running → i = j
  awaited : ∀ i job, (w.proc i).standing = .waiting job →
    w.shared.refreshInFlight = some job ∨ (w.shared.settled job).isSome
  freed : ∀ job, w.shared.refreshInFlight = some job →
    (w.proc job).standing = .waiting job

/-- Of two exchanges that have presented one cookie, one is over and has brought no new one. -/
def PresentedOnce (w : World Tab Phase) : Prop :=
  ∀ i j e f c, i ≠ j → w.shared.exchanges i = some e → w.shared.exchanges j = some f →
    e.cookie = some c → f.cookie = some c → e.Spent ∨ f.Spent

theorem Loaded.single {w : World Tab Phase} (h : Loaded w) :
    Single slot Phase.standing w := by
  obtain ⟨hflight,hex,-,hproc⟩ := h
  refine .init ?_ fun i => ?_
  · rw [slot,hflight,show w.shared.exchanges = fun _ => none from funext hex]
    rfl
  · rw [hproc]
    rfl

theorem Loaded.cookies {w : World Tab Phase} (h : Loaded w) :
    Cookies w.shared.exchanges w.shared.cookie := by
  rw [show w.shared.exchanges = fun _ => none from funext h.2.1]
  constructor <;> intros <;> contradiction

theorem single_oneInFlight {w : World Tab Phase} (h : Single slot Phase.standing w) :
    OneInFlight w := by
  refine ⟨fun i j hi hj => h.1.one_running hi hj,fun i job hi => ?_,fun job hjob => ?_⟩
  · have hs := h.2 i
    dsimp only at hs
    rw [hi] at hs
    rcases h.1.awaited hs with ⟨-,hf⟩ | ⟨refreshed,hr⟩
    · exact .inl hf
    · rw [settled_iff.mpr hr]
      exact .inr rfl
  · have hs := h.2 job
    dsimp only at hs
    cases hp : (w.proc job).standing with
    | out =>
      rw [hp] at hs
      exact absurd hjob hs.2
    | through =>
      rw [hp] at hs
      exact absurd hjob hs.2
    | waiting k =>
      rw [hp] at hs
      have hrest := hs.2
      by_cases hk : k = job
      · rw [hk]
      · rw [if_neg hk] at hrest
        exact absurd hjob hrest.2

variable {w₀ w : World Tab Phase} {h : List (World Tab Phase × (ℕ × Input))}

theorem single_step {w w' : World Tab Phase} {l : ℕ × Input}
    (hw : Single slot Phase.standing w) (hs : Interleave.step (step callers) w l = some w') :
    Single slot Phase.standing w' :=
  hw.step (fun _ _ _ _ _ _ hm => step_move hm) hs

theorem cookies_step {w w' : World Tab Phase} {l : ℕ × Input}
    (hw : Single slot Phase.standing w) (hc : Cookies w.shared.exchanges w.shared.cookie)
    (hnew : NewCookies w l) (hs : Interleave.step (step callers) w l = some w') :
    Cookies w'.shared.exchanges w'.shared.cookie := by
  obtain ⟨s,p,hp,rfl⟩ := step_eq_some.mp hs
  rcases step_cases hp with ⟨-,he,-⟩ | ⟨-,init,-,he⟩ | ⟨-,-,he⟩
  · exact exchange_cookies hc hnew he
  · exact effect_cookies hw.1 hc hnew (apiFetch_effect he)
  · exact effect_cookies hw.1 hc hnew (silentRefresh_effect he)

/-- In every run at most one exchange is in flight, and where the answers set new cookies, one is
presented again only after the exchange before is over and has brought no other. -/
theorem refresh_single_flight (h₀ : Loaded w₀) (hr : Run (system callers) w₀ h w) :
    Visits OneInFlight h w ∧ (Meets NewCookies h → Visits PresentedOnce h w) := by
  constructor
  · have hv := hr.visits (G:=fun _ _ => True) h₀.single
      (fun _ _ _ hw _ hs => single_step hw hs) fun _ _ => trivial
    exact ⟨single_oneInFlight hv.1,fun x hx => single_oneInFlight (hv.2 x hx)⟩
  · intro hg
    have hv := hr.visits
      (I:=fun w => Single slot Phase.standing w ∧ Cookies w.shared.exchanges w.shared.cookie)
      ⟨h₀.single,h₀.cookies⟩
      (fun _ _ _ hw hn hs => ⟨single_step hw.1 hs,cookies_step hw.1 hw.2 hn hs⟩) hg
    exact ⟨hv.1.2.once,fun x hx => (hv.2 x hx).2.once⟩

def sampleAnswer (status : ℕ) (token cookie : Option Str) : Response :=
  ⟨status,[],some (.obj (token.toList.map fun t => ("access_token".toList,.str t))),none,
    cookie.map some⟩

def sampleCallers : ℕ → Caller := fun _ => .apiFetch ⟨[],false,.none⟩

def samplePage : World Tab Phase :=
  ⟨⟨some ['o'],true,none,fun _ => none,some ['c'],[]⟩,fun _ => .start⟩

def sampleSteps : List (ℕ × Input) :=
  [(0,⟨false,none,false,none⟩),(0,⟨false,none,false,none⟩),(1,⟨false,none,false,none⟩),
    (1,⟨false,none,false,none⟩),(0,⟨false,none,false,some (sampleAnswer 401 none none)⟩),
    (1,⟨false,none,false,some (sampleAnswer 401 none none)⟩),
    (0,⟨true,none,false,some (sampleAnswer 200 (some ['n']) (some ['d']))⟩),
    (0,⟨true,none,false,none⟩),(0,⟨true,none,false,none⟩),(1,⟨false,none,false,none⟩),
    (0,⟨false,none,false,none⟩)]

theorem samplePage_loaded : Loaded samplePage := ⟨rfl,fun _ => rfl,rfl,fun _ => rfl⟩

theorem refresh_single_flight_sample :
    ∃ h w, Run (system sampleCallers) samplePage h w ∧ Visits OneInFlight h w ∧
      Visits PresentedOnce h w ∧ w.shared.cookie = some ['d'] := by
  have hr := run_of_replay (i:=Loaded) (f:=Interleave.step (step sampleCallers))
    (l:=sampleSteps) (.refl (s:=samplePage)) rfl
  have hv := refresh_single_flight samplePage_loaded hr
  refine ⟨_,_,hr,hv.1,hv.2 ?_,rfl⟩
  simp only [meets_cons,meets_nil,and_true]
  refine ⟨?_,?_,?_,?_,?_,?_,?_,?_,?_,?_,?_⟩
  all_goals
    rintro r c hresp hset
    cases hresp
  all_goals cases hset
  intro j e he
  by_cases hj : j = 0
  · subst hj
    cases he
    decide
  · cases (Function.update_of_ne hj ..).symm.trans he

end Browser
end Dataspoke
