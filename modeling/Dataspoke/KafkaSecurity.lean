import Dataspoke.PeripheralConfig
import Dataspoke.Pydantic

/-!
# Kafka security of the DataHub peripheral

`check_kafka_security` and its six rules, and `_apply_datahub_patch_and_respond` up to the
end of `patch_peripheral_config`, cut where it awaits the database.
-/

namespace Dataspoke
namespace Kafka

open Python Interleave Transition Peripheral

structure KafkaSecurityViolation where
  field : String
  message : Str
  deriving DecidableEq

def securityProtocols : List Str :=
  ["PLAINTEXT".toList,"SASL_PLAINTEXT".toList,"SASL_SSL".toList,"SSL".toList]

def credentialMechanisms : List Str :=
  ["PLAIN".toList,"SCRAM-SHA-256".toList,"SCRAM-SHA-512".toList]

def awsMskIam : Str := "AWS_MSK_IAM".toList

def saslMechanisms : List Str := awsMskIam::credentialMechanisms

def saslProtocols : List Str := ["SASL_PLAINTEXT".toList,"SASL_SSL".toList]

def plaintext : Str := "PLAINTEXT".toList

/-- `value or default`. -/
def orDefault (value default : Str) : Str := if value.isEmpty then default else value

def join (sep : String) (xs : List Str) : Str := sep.toList.intercalate xs

def hostChar (c : Char) : Bool :=
  ('A' ≤ c && c ≤ 'Z') || ('a' ≤ c && c ≤ 'z') || ('0' ≤ c && c ≤ '9') || c = '.' || c = '-'

def regionChar (c : Char) : Bool :=
  ('a' ≤ c && c ≤ 'z') || ('0' ≤ c && c ≤ '9') || c = '-'

/-- What is left of `s` before the suffix. -/
def beforeSuffix (suffix : String) (s : Str) : Option Str :=
  if suffix.toList.isSuffixOf s then some (s.take (s.length-suffix.length)) else none

/-- `_MSK_BROKER_HOST_RE.match`, its group the region; `$` also matches before a final
newline. The region has no dot, so that it starts after the last one. -/
def mskBrokerHost (host : Str) : Option Str := do
  let host := (beforeSuffix "\n" host).getD host
  let host ← beforeSuffix ".amazonaws.com" host
  let region := host.rtakeWhile (· ≠ '.')
  let cluster ← beforeSuffix "." (host.rdropWhile (· ≠ '.'))
  let broker ← (beforeSuffix ".kafka" cluster).or (beforeSuffix ".kafka-serverless" cluster)
  if !broker.isEmpty && broker.all hostChar && !region.isEmpty && region.all regionChar then
    some region
  else none

def split_brokers (brokers : Str) : List Str :=
  ((brokers.splitOn ',').map (Pydantic.strip isspace)).filter (!·.isEmpty)

/-- `host.rsplit(":",1)[0]`, where there is a colon. -/
def strip_port (host : Str) : Str :=
  if ':' ∈ host then (host.rdropWhile (· ≠ ':')).dropLast else host

def derive_msk_region (brokers : Str) : Option Str :=
  match (split_brokers brokers).mapM fun entry => mskBrokerHost (strip_port entry) with
  | none => none
  | some regions =>
    match regions.dedup with
    | [region] => some region
    | _ => none

/-- The arguments of `check_kafka_security` that are stored. -/
structure KafkaSettings where
  security_protocol : Str
  sasl_mechanism : Str
  sasl_username : Str
  aws_region : Str
  brokers : Str
  deriving DecidableEq

/-- Rules 3, 4 and 6, on the mechanism `AWS_MSK_IAM`. -/
def checkMskIam (protocol : Str) (t : KafkaSettings) (submitted_sasl_password : Option Str) :
    Option KafkaSecurityViolation :=
  let hosts := split_brokers t.brokers
  let offending := hosts.filter fun entry => (mskBrokerHost (strip_port entry)).isNone
  if !t.sasl_username.isEmpty then
    some ⟨"kafka_sasl_username",("kafka_sasl_username is not accepted with kafka_sasl_mechanism " ++
      "AWS_MSK_IAM; clear it by sending an empty string").toList⟩
  else if !(submitted_sasl_password.getD []).isEmpty then
    some ⟨"kafka_sasl_password",
      "kafka_sasl_password is not accepted with kafka_sasl_mechanism AWS_MSK_IAM".toList⟩
  else if protocol ≠ "SASL_SSL".toList then
    some ⟨"kafka_security_protocol",
      ("kafka_sasl_mechanism AWS_MSK_IAM requires kafka_security_protocol SASL_SSL, " ++
        "not ").toList ++ protocol⟩
  else if offending ≠ [] ∨ hosts = [] then
    some ⟨"kafka_brokers",
      ("kafka_sasl_mechanism AWS_MSK_IAM requires every kafka_brokers host to be an " ++
        "MSK broker of the form <broker>.kafka[-serverless].<region>.amazonaws.com; " ++
        "rejected: ").toList ++ orDefault (join ", " offending) "(none supplied)".toList⟩
  else
    match derive_msk_region t.brokers with
    | none =>
      some ⟨"kafka_brokers","every kafka_brokers host must encode the same AWS region".toList⟩
    | some host_region =>
      if !t.aws_region.isEmpty && t.aws_region ≠ host_region then
        some ⟨"kafka_aws_region","kafka_aws_region '".toList ++ t.aws_region ++
          "' contradicts the region encoded in kafka_brokers ('".toList ++ host_region ++
          "')".toList⟩
      else none

/-- Rules 1 and 2, and the two vocabularies. -/
def checkMechanism (protocol : Str) (t : KafkaSettings) : Option KafkaSecurityViolation :=
  if protocol ∉ securityProtocols then
    some ⟨"kafka_security_protocol",
      "kafka_security_protocol must be one of ".toList ++ join ", " securityProtocols⟩
  else if !t.sasl_mechanism.isEmpty && t.sasl_mechanism ∉ saslMechanisms then
    some ⟨"kafka_sasl_mechanism",
      "kafka_sasl_mechanism must be one of ".toList ++ join ", " saslMechanisms⟩
  else if protocol ∈ saslProtocols ∧ t.sasl_mechanism = [] then
    some ⟨"kafka_sasl_mechanism",
      "kafka_sasl_mechanism is required when kafka_security_protocol is ".toList ++ protocol⟩
  else if protocol ∉ saslProtocols ∧ t.sasl_mechanism ≠ [] then
    some ⟨"kafka_sasl_mechanism",
      "kafka_sasl_mechanism is not allowed when kafka_security_protocol is ".toList ++ protocol⟩
  else if t.sasl_mechanism ∈ credentialMechanisms ∧ t.sasl_username = [] then
    some ⟨"kafka_sasl_username",
      "kafka_sasl_username is required for kafka_sasl_mechanism ".toList ++ t.sasl_mechanism⟩
  else none

/-- The first violation of the rules. -/
def check_kafka_security (t : KafkaSettings) (submitted_sasl_password : Option Str) :
    Option KafkaSecurityViolation :=
  let protocol := orDefault t.security_protocol plaintext
  match checkMechanism protocol t with
  | some violation => some violation
  | none =>
    if t.sasl_mechanism = awsMskIam then checkMskIam protocol t submitted_sasl_password
    else if t.aws_region ≠ [] then
      some ⟨"kafka_aws_region",
        "kafka_aws_region is accepted only with kafka_sasl_mechanism AWS_MSK_IAM".toList⟩
    else none

section Rules

variable {t : KafkaSettings}

theorem orDefault_orDefault (value default : Str) :
    orDefault (orDefault value default) default = orDefault value default := by
  cases value <;> cases default <;> rfl

/-- The protocol is read with its default. -/
theorem check_kafka_security_orDefault (t : KafkaSettings) (password : Option Str) :
    check_kafka_security { t with security_protocol := orDefault t.security_protocol plaintext }
      password = check_kafka_security t password := by
  simp only [check_kafka_security,orDefault_orDefault]
  rfl

/-- The stored settings are judged without a password. -/
theorem check_kafka_security_stored {password : Option Str}
    (h : check_kafka_security t password = none) : check_kafka_security t none = none := by
  simp only [check_kafka_security] at h ⊢
  cases hm : checkMechanism (orDefault t.security_protocol plaintext) t with
  | some v =>
    rw [hm] at h
    exact h
  | none =>
    rw [hm] at h
    by_cases ha : t.sasl_mechanism = awsMskIam
    · simp only [ha,if_true,checkMskIam] at h ⊢
      by_cases hu : (!t.sasl_username.isEmpty) = true
      · rw [if_pos hu] at h
        cases h
      by_cases hp : (!(password.getD []).isEmpty) = true
      · rw [if_neg hu,if_pos hp] at h
        cases h
      rw [if_neg hu,if_neg hp] at h
      rw [if_neg hu,if_neg (by simp)]
      exact h
    · simpa only [ha,if_false] using h

end Rules

/-- The body of the request: a field that is left out, `null`, or a text. -/
structure DatahubPeripheralPatchRequest where
  gms_url : Option (Option Str)
  frontend_url : Option (Option Str)
  kafka_brokers : Option (Option Str)
  kafka_security_protocol : Option (Option Str)
  kafka_sasl_mechanism : Option (Option Str)
  kafka_sasl_username : Option (Option Str)
  kafka_sasl_password : Option (Option Str)
  kafka_aws_region : Option (Option Str)
  token : Option (Option Str)
  service_corpuser_urn : Option (Option Str)
  default_env : Option (Option Str)

abbrev Body := DatahubPeripheralPatchRequest

def dbFields (body : Body) : List (Str × Option (Option Str)) :=
  [("gms_url".toList,body.gms_url),("frontend_url".toList,body.frontend_url),
    ("kafka_brokers".toList,body.kafka_brokers),
    ("kafka_security_protocol".toList,body.kafka_security_protocol),
    ("kafka_sasl_mechanism".toList,body.kafka_sasl_mechanism),
    ("kafka_sasl_username".toList,body.kafka_sasl_username),
    ("kafka_aws_region".toList,body.kafka_aws_region),
    ("service_corpuser_urn".toList,body.service_corpuser_urn),
    ("default_env".toList,body.default_env)]

/-- The fields of `model_dump(exclude_unset=True)` that are not null. -/
def setFields (fields : List (Str × Option (Option Str))) : List (Str × Option Value) :=
  fields.filterMap fun f => f.2.join.map fun s => (f.1,some (.str s))

def dbUpdates (body : Body) : List (Str × Option Value) := setFields (dbFields body)

/-- A stored value as text, the empty one where it is false. -/
def Value.text : Value → Str
  | .null | .bool false | .int 0 => []
  | .bool true => "True".toList
  | .int n => (toString n).toList
  | .str s => s

/-- `s.get(key, default)` of `_row_to_dto`. -/
def stored (row : Option Settings) (key : String) (default : Str) : Str :=
  ((row.bind fun settings => get? key.toList settings.fields).map Value.text).getD default

/-- The Kafka fields of the `DatahubConfigDTO`, their defaults where there is no row. -/
def rowToDto (row : Option Settings) : KafkaSettings where
  security_protocol := stored row "kafka_security_protocol" plaintext
  sasl_mechanism := stored row "kafka_sasl_mechanism" []
  sasl_username := stored row "kafka_sasl_username" []
  aws_region := stored row "kafka_aws_region" []
  brokers := stored row "kafka_brokers" []

/-- The stored settings pass the check, as the event consumer makes it. -/
def Valid (row : Option Settings) : Prop := check_kafka_security (rowToDto row) none = none

instance (row : Option Settings) : Decidable (Valid row) := inferInstanceAs (Decidable (_ = _))

def effectiveField (update : Option (Option Str)) (current default : Str) : Str :=
  update.join.getD (orDefault current default)

/-- The Kafka fields that the patch produces from the row it has read. -/
def effective (body : Body) (current : KafkaSettings) : KafkaSettings where
  security_protocol :=
    effectiveField body.kafka_security_protocol current.security_protocol plaintext
  sasl_mechanism := effectiveField body.kafka_sasl_mechanism current.sasl_mechanism []
  sasl_username := effectiveField body.kafka_sasl_username current.sasl_username []
  aws_region := effectiveField body.kafka_aws_region current.aws_region []
  brokers := effectiveField body.kafka_brokers current.brokers []

/-- `password_value` once the secrets are sorted out: `some` where the Secret is written. -/
def passwordWritten (body : Body) (mechanism : Str) (password_is_set : Bool) : Bool :=
  body.kafka_sasl_password.isSome || (mechanism = awsMskIam && password_is_set)

inductive RequestPhase
  | received (body : Body)
  /-- `get_peripheral_config` has read the row. -/
  | read (body : Body) (current : KafkaSettings)
  | rejected (violation : KafkaSecurityViolation)
  | unavailable
  /-- The fields are validated against `current`. -/
  | patching (body : Body) (current : KafkaSettings) (phase : Phase)

/-- What a step gets from outside: whether the database or the Secret fails, and whether a
password is stored. -/
structure Input where
  fail : Bool
  password_is_set : Bool

/-- From the row to the call of `patch_peripheral_config`. -/
def validate (a : Input) (body : Body) (current : KafkaSettings) : RequestPhase :=
  let after := effective body current
  match check_kafka_security after body.kafka_sasl_password.join with
  | some violation => .rejected violation
  | none =>
    if a.fail then .unavailable
    else .patching body current
      (.start ⟨passwordWritten body after.sasl_mechanism a.password_is_set,dbUpdates body⟩)

/-- One step of `_apply_datahub_patch_and_respond`. -/
def apply_datahub_patch : Program Shared RequestPhase Input := fun i a s p =>
  match p with
  | .received body =>
    some (s,if a.fail then .unavailable else .read body (rowToDto s.row))
  | .read body current => some (s,validate a body current)
  | .patching body current phase =>
    (patch_peripheral_config i a.fail s phase).map fun r => (r.1,.patching body current r.2)
  | .rejected _ | .unavailable => none

section Safety

def setsKafka (body : Body) : Prop :=
  body.kafka_security_protocol.join ≠ none ∨ body.kafka_sasl_mechanism.join ≠ none ∨
    body.kafka_sasl_username.join ≠ none ∨ body.kafka_aws_region.join ≠ none ∨
    body.kafka_brokers.join ≠ none

/-- The fields that the body leaves alone are the same in both. -/
structure Agrees (body : Body) (current current' : KafkaSettings) : Prop where
  protocol : body.kafka_security_protocol.join = none →
    current'.security_protocol = current.security_protocol
  mechanism : body.kafka_sasl_mechanism.join = none →
    current'.sasl_mechanism = current.sasl_mechanism
  username : body.kafka_sasl_username.join = none →
    current'.sasl_username = current.sasl_username
  region : body.kafka_aws_region.join = none → current'.aws_region = current.aws_region
  brokers : body.kafka_brokers.join = none → current'.brokers = current.brokers

/-- The SELECT of `patch_peripheral_config` finds the Kafka fields that the body leaves alone
as they were validated, if the body sets any. -/
def Unchanged (_ : ℕ) (_ : Input) (s : Shared) : RequestPhase → Prop
  | .patching body current (.start _) | .patching body current (.retry _) =>
    setsKafka body → Agrees body current (rowToDto s.row)
  | _ => True

theorem get?_setFields_of_notMem {fields : List (Str × Option (Option Str))} {key : Str}
    (base : List (Str × Value)) (h : key ∉ fields.map Prod.fst) :
    get? key (mergeFields base (setFields fields)) = get? key base := by
  induction fields generalizing base with
  | nil => rfl
  | cons f fields ih =>
    obtain ⟨k,v⟩ := f
    rw [List.map_cons,List.mem_cons,not_or] at h
    rw [setFields,List.filterMap_cons]
    cases hv : v.join with
    | none => exact ih base h.2
    | some s =>
      show get? key (mergeFields (setItem k (.str s) base) (setFields fields)) = get? key base
      rw [ih _ h.2,get?_setItem,if_neg h.1]

theorem get?_setFields {fields : List (Str × Option (Option Str))} {key : Str}
    {v : Option (Option Str)} (base : List (Str × Value)) (hn : (fields.map Prod.fst).Nodup)
    (h : (key,v) ∈ fields) :
    get? key (mergeFields base (setFields fields)) = (v.join.map .str).or (get? key base) := by
  induction fields generalizing base with
  | nil => cases h
  | cons f fields ih =>
    obtain ⟨k,w⟩ := f
    rw [List.map_cons,List.nodup_cons] at hn
    rw [setFields,List.filterMap_cons]
    rcases List.mem_cons.mp h with he | h
    · cases he
      cases hv : v.join with
      | none => exact get?_setFields_of_notMem base hn.1
      | some s =>
        refine (get?_setFields_of_notMem (setItem key (.str s) base) hn.1).trans ?_
        rw [get?_setItem,if_pos rfl]
        rfl
    · have hk : key ≠ k := fun he => hn.1 (List.mem_map.mpr ⟨_,h,he⟩)
      cases hw : w.join with
      | none => exact ih base hn.2 h
      | some s =>
        refine (ih (setItem k (.str s) base) hn.2 h).trans ?_
        rw [get?_setItem,if_neg hk]

theorem dbFields_nodup (body : Body) : ((dbFields body).map Prod.fst).Nodup := by
  simp only [dbFields,List.map_cons,List.map_nil]
  decide

/-- What a merge of the request stores under a key of its body. -/
theorem stored_merge {call : Call} {body : Body} (hc : call.updates = dbUpdates body)
    (base : Settings) {key : String} {v : Option (Option Str)}
    (h : (key.toList,v) ∈ dbFields body) (d : Str) :
    stored (some (merge call base)) key d = v.join.getD (stored (some base) key d) := by
  have hget : get? key.toList (merge call base).fields =
      (v.join.map .str).or (get? key.toList base.fields) := by
    rw [merge,hc]
    exact get?_setFields base.fields (dbFields_nodup body) h
  simp only [stored,Option.bind_some,hget]
  cases v.join <;> rfl

/-- The fields of the body over those of a row. -/
def overlay (body : Body) (t : KafkaSettings) : KafkaSettings where
  security_protocol := body.kafka_security_protocol.join.getD t.security_protocol
  sasl_mechanism := body.kafka_sasl_mechanism.join.getD t.sasl_mechanism
  sasl_username := body.kafka_sasl_username.join.getD t.sasl_username
  aws_region := body.kafka_aws_region.join.getD t.aws_region
  brokers := body.kafka_brokers.join.getD t.brokers

theorem rowToDto_merge {call : Call} {body : Body} (hc : call.updates = dbUpdates body)
    (base : Settings) :
    rowToDto (some (merge call base)) = overlay body (rowToDto (some base)) := by
  rw [rowToDto,stored_merge hc base (v:=body.kafka_security_protocol) (by simp [dbFields]),
    stored_merge hc base (v:=body.kafka_sasl_mechanism) (by simp [dbFields]),
    stored_merge hc base (v:=body.kafka_sasl_username) (by simp [dbFields]),
    stored_merge hc base (v:=body.kafka_aws_region) (by simp [dbFields]),
    stored_merge hc base (v:=body.kafka_brokers) (by simp [dbFields])]
  rfl

theorem overlay_of_not_setsKafka {body : Body} (h : ¬ setsKafka body) (t : KafkaSettings) :
    overlay body t = t := by
  simp only [setsKafka,not_or,not_not] at h
  simp [overlay,h]

theorem orDefault_nil (value : Str) : orDefault value [] = value := by
  cases value <;> rfl

/-- A merge into a row that agrees with the validated one passes with it. -/
theorem check_overlay {body : Body} {current t : KafkaSettings} {password : Option Str}
    (h : Agrees body current t)
    (hv : check_kafka_security (effective body current) password = none) :
    check_kafka_security (overlay body t) none = none := by
  have hstored := check_kafka_security_stored hv
  have heq : effective body current = { overlay body t with
      security_protocol := effectiveField body.kafka_security_protocol t.security_protocol
        plaintext } := by
    simp only [effective,overlay,effectiveField,orDefault_nil,KafkaSettings.mk.injEq]
    refine ⟨?_,?_,?_,?_,?_⟩
    · cases hb : body.kafka_security_protocol.join with
      | none => simp [h.protocol hb]
      | some => rfl
    · cases hb : body.kafka_sasl_mechanism.join with
      | none => simp [h.mechanism hb]
      | some => rfl
    · cases hb : body.kafka_sasl_username.join with
      | none => simp [h.username hb]
      | some => rfl
    · cases hb : body.kafka_aws_region.join with
      | none => simp [h.region hb]
      | some => rfl
    · cases hb : body.kafka_brokers.join with
      | none => simp [h.brokers hb]
      | some => rfl
  rw [heq] at hstored
  cases hb : body.kafka_security_protocol.join with
  | none =>
    rw [← check_kafka_security_orDefault]
    simpa [overlay,effectiveField,hb] using hstored
  | some => simpa [overlay,effectiveField,hb] using hstored

/-- What the request has established at its suspension points. -/
def Local (_ : ℕ) (_ : Shared) : RequestPhase → Prop
  | .patching body current phase =>
    match phase with
    | .start call | .retry call => call.updates = dbUpdates body ∧
      ∃ password, check_kafka_security (effective body current) password = none
    | .absent call => call.updates = dbUpdates body ∧
      (∃ password, check_kafka_security (effective body current) password = none) ∧
      (setsKafka body → Agrees body current (rowToDto none))
    | .selected call base | .flushed call base _ => Valid (some (merge call base))
    | _ => True
  | _ => True

variable {body : Body} {current : KafkaSettings} {call : Call} {base : Settings}

theorem valid_merge (hc : call.updates = dbUpdates body) (hbase : Valid (some base))
    (hv : ∃ password, check_kafka_security (effective body current) password = none)
    (ha : setsKafka body → Agrees body current (rowToDto (some base))) :
    Valid (some (merge call base)) := by
  rw [Valid,rowToDto_merge hc]
  by_cases hk : setsKafka body
  · obtain ⟨password,hv⟩ := hv
    exact check_overlay (ha hk) hv
  · rwa [overlay_of_not_setsKafka hk]

variable {i : ℕ} {s s' : Shared} {phase phase' : Phase}

theorem release_valid (h : Valid s.row) : Valid (s.release i).row := by rwa [release_row]

theorem select_valid {orElse : Phase} (hs : Valid s.row) (hc : call.updates = dbUpdates body)
    (hv : ∃ password, check_kafka_security (effective body current) password = none)
    (ha : setsKafka body → Agrees body current (rowToDto s.row))
    (helse : s.row = none → Local i s (.patching body current orElse))
    (h : select i call s orElse = some (s',phase')) :
    Valid s'.row ∧ Local i s' (.patching body current phase') := by
  rw [select] at h
  cases hrow : s.row with
  | none =>
    rw [hrow] at h
    cases h
    exact ⟨hs,helse hrow⟩
  | some base =>
    rw [hrow] at h hs ha
    dsimp only at h
    have hm := valid_merge hc hs hv ha
    by_cases hb : call.bump_kafka_sasl_password_version = true
    · rw [if_pos hb] at h
      by_cases hf : s.free i = true
      · rw [if_pos hf] at h
        cases h
        exact ⟨by simpa [Shared.acquire,hrow] using hs,hm⟩
      · rw [if_neg hf] at h
        cases h
    · rw [if_neg hb] at h
      cases h
      exact ⟨hrow ▸ hs,hm⟩

theorem insert_valid (hs : Valid s.row) (hl : Local i s (.patching body current (.absent call)))
    (h : insert i call s = some (s',phase')) :
    Valid s'.row ∧ Local i s' (.patching body current phase') := by
  rw [Peripheral.insert.eq_def] at h
  by_cases hf : s.free i = true
  · rw [if_pos hf] at h
    cases hrow : s.row with
    | none =>
      rw [hrow] at h hs
      cases h
      exact ⟨by simpa [Shared.acquire,hrow] using hs,valid_merge hl.1 hs hl.2.1 hl.2.2⟩
    | some row =>
      rw [hrow] at h
      cases h
      exact ⟨hs,hl.1,hl.2.1⟩
  · rw [if_neg hf] at h
    cases h

theorem flush_valid (hs : Valid s.row)
    (hl : Local i s (.patching body current (.selected call base)))
    (h : flush i call base s = some (s',phase')) :
    Valid s'.row ∧ Local i s' (.patching body current phase') := by
  rw [flush] at h
  by_cases hm : merge call base = base
  · rw [if_pos hm] at h
    cases h
    exact ⟨hs,hl⟩
  · rw [if_neg hm] at h
    by_cases hf : s.free i = true
    · rw [if_pos hf] at h
      cases h
      exact ⟨hs,hl⟩
    · rw [if_neg hf] at h
      cases h

/-- A step of `patch_peripheral_config` for a validated request. -/
theorem patch_valid {fail : Bool} (hs : Valid s.row)
    (hl : Local i s (.patching body current phase))
    (hg : Unchanged i ⟨fail,true⟩ s (.patching body current phase))
    (h : patch_peripheral_config i fail s phase = some (s',phase')) :
    Valid s'.row ∧ Local i s' (.patching body current phase') := by
  have hfailed : some (s.release i,Phase.failed) = some (s',phase') →
      Valid s'.row ∧ Local i s' (.patching body current phase') := by
    intro he
    cases he
    exact ⟨release_valid hs,trivial⟩
  cases phase with
  | committed | returned | failed => cases h
  | start call =>
    cases fail with
    | true => exact hfailed h
    | false =>
      by_cases hn : call.updates = [] ∧ call.bump_kafka_sasl_password_version = false
      · have he : some (s,Phase.returned) = some (s',phase') := (if_pos hn).symm.trans h
        cases he
        exact ⟨hs,trivial⟩
      · refine select_valid hs hl.1 hl.2 hg ?_ ((if_neg hn).symm.trans h)
        exact fun hrow => ⟨hl.1,hl.2,hrow ▸ hg⟩
  | absent call =>
    cases fail with
    | true => exact hfailed h
    | false => exact insert_valid hs hl h
  | retry call =>
    cases fail with
    | true => exact hfailed h
    | false =>
      have hfail : Local i s (.patching body current .failed) := trivial
      exact select_valid hs hl.1 hl.2 hg (fun _ => hfail) h
  | selected call base =>
    cases fail with
    | true => exact hfailed h
    | false => exact flush_valid hs hl h
  | flushed call base written =>
    cases fail with
    | true => exact hfailed h
    | false =>
      cases h
      refine ⟨?_,trivial⟩
      cases written with
      | true => exact hl
      | false => exact release_valid hs

theorem apply_valid {a : Input} {p p' : RequestPhase} (hs : Valid s.row) (hl : Local i s p)
    (hg : Unchanged i a s p) (h : apply_datahub_patch i a s p = some (s',p')) :
    Valid s'.row ∧ Local i s' p' := by
  cases p with
  | rejected | unavailable => cases h
  | received body =>
    cases h
    refine ⟨hs,?_⟩
    cases a.fail <;> trivial
  | read body current =>
    cases h
    refine ⟨hs,?_⟩
    rw [validate]
    cases hv : check_kafka_security (effective body current) body.kafka_sasl_password.join with
    | some violation => trivial
    | none =>
      cases a.fail with
      | true => trivial
      | false => exact ⟨rfl,_,hv⟩
  | patching body current phase =>
    obtain ⟨⟨s'',phase'⟩,hp,he⟩ := Option.map_eq_some_iff.mp h
    cases he
    exact patch_valid hs hl hg hp

/-- The requests before any of them has begun, on stored settings that pass the check. -/
def Initial (w : World Shared RequestPhase) : Prop :=
  Valid w.shared.row ∧ w.shared.lock = none ∧ ∀ i, ∃ body, w.proc i = .received body

def system : System (World Shared RequestPhase) (ℕ × Input) :=
  Interleave.system apply_datahub_patch Initial

/-- The stored settings pass the check in every state of a run where the Kafka fields that a
request does not set are, when it merges, as it validated them. -/
theorem settings_stay_valid {w w' : World Shared RequestPhase}
    {h : List (World Shared RequestPhase × (ℕ × Input))} (hr : Run system w h w')
    (hw : Initial w) (hg : Meets (lift Unchanged) h) :
    Visits (fun w => Valid w.shared.row) h w' := by
  have hinit : Holds (fun s => Valid s.row) Local w := by
    refine ⟨hw.1,fun i => ?_⟩
    obtain ⟨body,hb⟩ := hw.2.2 i
    rw [hb]
    trivial
  have hv := Holds.visits (R:=fun _ _ _ => True) hr hinit
    (fun _ _ _ _ _ _ hs hl hg h => ⟨(apply_valid hs hl hg h).1,(apply_valid hs hl hg h).2,trivial⟩)
    (fun _ _ _ _ _ _ hl _ => hl) hg
  exact ⟨hv.1.1,fun p hp => (hv.2 p hp).1⟩

end Safety

def emptyBody : Body := ⟨none,none,none,none,none,none,none,none,none,none,none⟩

def saslBody : Body :=
  { emptyBody with
    kafka_security_protocol := some (some "SASL_SSL".toList)
    kafka_sasl_mechanism := some (some "PLAIN".toList)
    kafka_sasl_username := some (some "u".toList) }

def tlsBody : Body := { emptyBody with kafka_security_protocol := some (some "SSL".toList) }

def sampleWorld : World Shared RequestPhase where
  shared := ⟨some ⟨none,[]⟩,none,[]⟩
  proc
    | 0 => .received saslBody
    | _ => .received tlsBody

theorem sampleWorld_initial : Initial sampleWorld := by
  refine ⟨rfl,rfl,fun i => ?_⟩
  cases i <;> exact ⟨_,rfl⟩

def ok : Input := ⟨false,false⟩

theorem settings_stay_valid_sample : ∃ h w', Run system sampleWorld h w' ∧
    Visits (fun w => Valid w.shared.row) h w' ∧
    (rowToDto w'.shared.row).sasl_mechanism = "PLAIN".toList := by
  have hr := run_of_replay (i:=Initial) (f:=Interleave.step apply_datahub_patch)
    (l:=[(0,ok),(0,ok),(0,ok),(0,ok),(0,ok)]) (.refl (s:=sampleWorld)) rfl
  refine ⟨_,_,hr,settings_stay_valid hr sampleWorld_initial ?_,rfl⟩
  simp only [meets_cons,meets_nil,and_true]
  refine ⟨trivial,trivial,fun _ => ?_,trivial,trivial⟩
  exact ⟨fun _ => rfl,fun _ => rfl,fun _ => rfl,fun _ => rfl,fun _ => rfl⟩

/-- Two patches, each valid on the row that both read, leave `SSL` with a mechanism. -/
theorem valid_patches_clash : ¬ ∀ w h w', Initial w → Run system w h w' →
    Valid w'.shared.row := by
  intro hall
  have hr := run_of_replay (i:=Initial) (f:=Interleave.step apply_datahub_patch)
    (l:=[(0,ok),(1,ok),(0,ok),(1,ok),(0,ok),(0,ok),(0,ok),(1,ok),(1,ok),(1,ok)])
    (.refl (s:=sampleWorld)) rfl
  exact absurd (hall _ _ _ sampleWorld_initial hr) (by decide)

end Kafka
end Dataspoke
