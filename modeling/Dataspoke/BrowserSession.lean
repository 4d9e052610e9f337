import Dataspoke.Python
import Dataspoke.SingleFlight

/-!
# The session of a browser tab

`apiFetch` and the refresh of the access token, cut where they await the network or an
import, for any number of calls in one tab. The refresh cookie is out of reach of the page:
the browser presents it, and stores what a `Set-Cookie` brings.
-/

namespace Dataspoke
namespace Browser

open Python Interleave Transition SingleFlight

abbrev Headers := List (Str × Str)

structure Response where
  status : ℕ
  statusText : Str
  /-- `response.json()`; `none` where it rejects. -/
  json : Option Json
  /-- `response.text()`; `none` where it rejects. -/
  text : Option Str
  /-- What `Set-Cookie` makes of the refresh cookie. -/
  setCookie : Option (Option Str)

def Response.ok (r : Response) : Bool := 200 ≤ r.status && r.status < 300

inductive Stage
  | sent
  /-- The answer is there, and its body awaited. -/
  | reading (response : Response)
  | storing (access_token : Str)
  | ended (refreshed : Bool)

/-- A refresh exchange: the cookie it has presented, and whether its answer has brought a
new one. -/
structure Exchange where
  cookie : Option Str
  renewed : Bool
  stage : Stage

/-- A request of a call, or the status of its answer, `none` where `fetch` rejects. -/
inductive Message
  | request (headers : Headers)
  | response (status : Option ℕ)

/-- The state of the page and the cookie of the browser. -/
structure Tab where
  accessToken : Option Str
  authInitialized : Bool
  /-- The caller whose exchange is under way. -/
  refreshInFlight : Option ℕ
  /-- The exchange that a caller has started. -/
  exchanges : ℕ → Option Exchange
  cookie : Option Str
  /-- What the calls have sent and received. -/
  traffic : List (ℕ × Message)

structure Input where
  /-- The step is one of the exchange that the caller has started. -/
  exchange : Bool
  traceId : Option Str
  /-- An import rejects. -/
  failed : Bool
  /-- What `fetch` brings; `none` where it rejects. -/
  response : Option Response

inductive After
  | none
  | login
  | logout

structure Init where
  /-- The names in lower case, as `normalizeHeaders` leaves them. -/
  headers : Headers
  /-- `responseType` is `"text"`. -/
  text : Bool
  after : After

inductive Caller
  | apiFetch (init : Init)
  | silentRefresh

inductive Value
  | undefined
  | text (text : Str)
  | json (data : Json)

inductive Payload
  | parsed (payload : Json)
  | unknown (message : Str)

inductive Outcome
  | value (value : Value)
  | apiError (payload : Payload) (status : ℕ)
  /-- A rejection that is not an `ApiError`. -/
  | rejected

inductive Phase
  | start
  /-- `getAccessToken` has read the store. -/
  | read (token : Option Str)
  | sent (token : Option Str) (headers : Headers)
  /-- `ensureFreshToken` awaits the exchange of `job`. -/
  | waiting (headers : Headers) (response : Response) (job : ℕ)
  | refreshed (headers : Headers)
  | reread (headers : Headers) (newToken : Option Str)
  | retrying
  | clearing (response : Response)
  | failing (response : Response)
  | receiving (response : Response)
  | returned (outcome : Outcome)
  /-- The silent refresh has found no access token. -/
  | probing
  | probed (job : ℕ)
  | done (outcome : Outcome)

def truthy : Option Str → Bool
  | some (_::_) => true
  | _ => false

def Tab.receive (s : Tab) (r : Response) : Tab :=
  match r.setCookie with
  | none => s
  | some cookie => { s with cookie := cookie }

def Tab.setExchange (s : Tab) (i : ℕ) (e : Exchange) : Tab :=
  { s with exchanges := Function.update s.exchanges i (some e) }

/-- `data?.access_token` where it is a string. -/
def accessTokenOf : Option Json → Option Str
  | some (.obj items) =>
    match get? "access_token".toList items with
    | some (.str token) => some token
    | _ => none
  | _ => none

/-- The exchange under way is shared; where there is none, one is sent. -/
def ensureFreshToken (s : Tab) (i : ℕ) : Tab × ℕ :=
  match s.refreshInFlight with
  | some j => (s,j)
  | none => ({ s.setExchange i ⟨s.cookie,false,.sent⟩ with refreshInFlight := some i },i)

/-- The `finally` block, in the caller that has started the exchange. -/
def Tab.leave (s : Tab) (i job : ℕ) : Tab :=
  if job = i then { s with refreshInFlight := none } else s

/-- What the promise of an exchange has settled to. -/
def Tab.settled (s : Tab) (job : ℕ) : Option Bool :=
  match s.exchanges job with
  | some ⟨_,_,.ended refreshed⟩ => some refreshed
  | _ => none

/-- The next step of the exchange that caller `i` has started. -/
def exchange (a : Input) (s : Tab) (i : ℕ) : Option Tab :=
  match s.exchanges i with
  | none => none
  | some e =>
    match e.stage with
    | .sent =>
      match a.response with
      | none => some (s.setExchange i { e with stage := .ended false })
      | some r => some ((s.receive r).setExchange i
          ⟨e.cookie,r.setCookie.any Option.isSome,if r.ok then .reading r else .ended false⟩)
    | .reading r =>
      match accessTokenOf r.json with
      | none => some (s.setExchange i { e with stage := .ended false })
      | some token => some (s.setExchange i { e with stage := .storing token })
    | .storing token =>
      if a.failed then some (s.setExchange i { e with stage := .ended false })
      else some ({ s with accessToken := some token }.setExchange i { e with stage := .ended true })
    | .ended _ => none

/-- `{ ...base, ...extra }` -/
def spread (base extra : Headers) : Headers := extra.foldl (fun h kv => setItem kv.1 kv.2 h) base

def authorization (token : Option Str) : Headers :=
  match token with
  | some (c::cs) => [("authorization".toList,"Bearer ".toList ++ c::cs)]
  | _ => []

def requestHeaders (init : Init) (traceId token : Option Str) : Headers :=
  let types := if init.text then [] else
    [("content-type".toList,"application/json".toList),
      ("accept".toList,"application/json".toList)]
  let trace := match traceId with
    | some id => [("x-trace-id".toList,id)]
    | none => []
  spread (spread (types ++ trace) init.headers) (authorization token)

def parseError (r : Response) : Outcome :=
  match r.json with
  | some payload => .apiError (.parsed payload) r.status
  | none =>
    let message := if r.statusText = [] then "An unexpected error occurred".toList
      else r.statusText
    .apiError (.unknown message) r.status

def Tab.log (s : Tab) (i : ℕ) (m : Message) : Tab := { s with traffic := s.traffic ++ [(i,m)] }

def body (init : Init) (r : Response) : Outcome :=
  if init.text then
    match r.text with
    | some text => .value (.text text)
    | none => .rejected
  else
    match r.json with
    | some data => .value (.json data)
    | none => .rejected

/-- The tail of `apiFetch`, on the answer whose value it returns. -/
def finish (r : Response) : Phase :=
  if !r.ok then .failing r else if r.status = 204 then .returned (.value .undefined)
  else .receiving r

/-- `setToken` after a login, `clear` after a logout. -/
def Tab.follow (s : Tab) : After → Outcome → Tab
  | .login, .value (.json .null) => s
  | .login, .value (.json data) => { s with accessToken := accessTokenOf (some data) }
  | .logout, .value _ => { s with accessToken := none }
  | _, _ => s

def answered (s : Tab) (i : ℕ) (token : Option Str) (headers : Headers) :
    Option Response → Tab × Phase
  | none => (s.log i (.response none),.returned .rejected)
  | some r =>
    let s := (s.receive r).log i (.response (some r.status))
    if r.status = 401 ∧ truthy token then
      ((ensureFreshToken s i).1,.waiting headers r (ensureFreshToken s i).2)
    else (s,finish r)

def answeredAgain (s : Tab) (i : ℕ) : Option Response → Tab × Phase
  | none => (s.log i (.response none),.returned .rejected)
  | some r => ((s.receive r).log i (.response (some r.status)),finish r)

def apiFetch (init : Init) (i : ℕ) (a : Input) (s : Tab) : Phase → Option (Tab × Phase)
  | .start => if a.failed then some (s,.returned .rejected) else some (s,.read s.accessToken)
  | .read token =>
    let headers := requestHeaders init a.traceId token
    some (s.log i (.request headers),.sent token headers)
  | .sent token headers => some (answered s i token headers a.response)
  | .waiting headers r job =>
    match s.settled job with
    | none => none
    | some true => some (s.leave i job,.refreshed headers)
    | some false => some (s.leave i job,.clearing r)
  | .refreshed headers =>
    if a.failed then some (s,.returned .rejected) else some (s,.reread headers s.accessToken)
  | .reread headers newToken =>
    some (s.log i (.request (spread headers (authorization newToken))),.retrying)
  | .retrying => some (answeredAgain s i a.response)
  | .clearing r =>
    if a.failed then some (s,.returned .rejected)
    else some ({ s with accessToken := none },.failing r)
  | .failing r => some (s,.returned (parseError r))
  | .receiving r => some (s,.returned (body init r))
  | .returned outcome => some (s.follow init.after outcome,.done outcome)
  | .probing | .probed _ | .done _ => none

/-- The silent refresh of `providers.tsx`. -/
def silentRefresh (i : ℕ) (a : Input) (s : Tab) : Phase → Option (Tab × Phase)
  | .start =>
    if a.failed then some (s,.done .rejected)
    else if truthy s.accessToken then
      some ({ s with authInitialized := true },.done (.value .undefined))
    else some (s,.probing)
  | .probing =>
    if a.failed then some (s,.done .rejected)
    else some ((ensureFreshToken s i).1,.probed (ensureFreshToken s i).2)
  | .probed job =>
    match s.settled job with
    | none => none
    | some _ => some ({ s.leave i job with authInitialized := true },.done (.value .undefined))
  | _ => none

def step (callers : ℕ → Caller) : Program Tab Phase Input := fun i a s p =>
  if a.exchange then (exchange a s i).map (·,p)
  else match callers i with
    | .apiFetch init => apiFetch init i a s p
    | .silentRefresh => silentRefresh i a s p

def Loaded (w : World Tab Phase) : Prop :=
  w.shared.refreshInFlight = none ∧ (∀ i, w.shared.exchanges i = none) ∧
    w.shared.traffic = [] ∧ ∀ i, w.proc i = .start

def system (callers : ℕ → Caller) : System (World Tab Phase) (ℕ × Input) :=
  Interleave.system (step callers) Loaded

end Browser
end Dataspoke
