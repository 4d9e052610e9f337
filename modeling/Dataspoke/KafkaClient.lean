import Dataspoke.KafkaSecurity
import Mathlib.Data.List.Dedup

/-!
# The client of the event consumer

`resolve_aws_region` and `build_consumer_config`, and the security rule that the checker and
the client keep for every connection.
-/

namespace Dataspoke
namespace Kafka

open Python

structure KafkaConnection where
  brokers : Str
  security_protocol : Str := plaintext
  sasl_mechanism : Str := []
  sasl_username : Str := []
  aws_region : Str := []
  sasl_password_version : ℤ := 0

/-- The arguments that `build_consumer_config` passes to the checker. -/
def KafkaConnection.settings (conn : KafkaConnection) : KafkaSettings where
  security_protocol := conn.security_protocol
  sasl_mechanism := conn.sasl_mechanism
  sasl_username := conn.sasl_username
  aws_region := conn.aws_region
  brokers := conn.brokers

structure KafkaConfigurationError where
  message : Str

/-- A value of the client configuration; the callback is given by the region it signs for. -/
inductive Property
  | text (s : Str)
  | bool (b : Bool)
  | int (n : ℕ)
  | oauth_cb (region : Str)
  deriving DecidableEq

def resolve_aws_region (conn : KafkaConnection) : Except KafkaConfigurationError Str :=
  if conn.aws_region ≠ [] then .ok conn.aws_region
  else
    match derive_msk_region conn.brokers with
    | some region => .ok region
    | none => .error ⟨("AWS_MSK_IAM requires an AWS region: set kafka_aws_region on the DataHub " ++
        "peripheral, or use MSK broker hostnames of the form " ++
        "<broker>.kafka.<region>.amazonaws.com from which it can be derived").toList⟩

/-- `_build_msk_oauth_cb`; `signer` is whether the signing package can be imported. -/
def build_msk_oauth_cb (signer : Bool) (region : Str) : Except KafkaConfigurationError Property :=
  if signer then .ok (.oauth_cb region)
  else .error ⟨("AWS_MSK_IAM requires the aws-msk-iam-sasl-signer-python package, " ++
    "which is missing from this image").toList⟩

abbrev ClientConfig := List (Str × Property)

def baseConfig (conn : KafkaConnection) : ClientConfig :=
  [("bootstrap.servers".toList,.text conn.brokers),
    ("group.id".toList,.text "dataspoke-consumers".toList),
    ("auto.offset.reset".toList,.text "latest".toList),
    ("enable.auto.commit".toList,.bool false),
    ("max.poll.interval.ms".toList,.int 300000)]

/-- The properties of a SASL mechanism; `password` is the stored one. -/
def saslConfig (conn : KafkaConnection) (signer : Bool) (password : Str) (config : ClientConfig) :
    Except KafkaConfigurationError ClientConfig := do
  let mechanism := conn.sasl_mechanism
  if mechanism = awsMskIam then
    let config := setItem "sasl.mechanism".toList (.text "OAUTHBEARER".toList) config
    let oauth_cb ← build_msk_oauth_cb signer (← resolve_aws_region conn)
    return setItem "oauth_cb".toList oauth_cb config
  else if mechanism ∉ credentialMechanisms then
    throw ⟨"unsupported kafka_sasl_mechanism: ".toList ++ mechanism⟩
  else if password = [] then
    throw ⟨"kafka_sasl_mechanism ".toList ++ mechanism ++
      (" requires a kafka_sasl_password, but the kafka_sasl_password key of " ++
        "dataspoke-datahub-secret is empty or unreadable").toList⟩
  else
    let config := setItem "sasl.mechanism".toList (.text mechanism) config
    let config := setItem "sasl.username".toList (.text conn.sasl_username) config
    return setItem "sasl.password".toList (.text password) config

def build_consumer_config (conn : KafkaConnection) (signer : Bool) (password : Str) :
    Except KafkaConfigurationError ClientConfig :=
  match check_kafka_security conn.settings none with
  | some violation => .error ⟨"stored DataHub Kafka settings are invalid (".toList ++
      violation.field.toList ++ "): ".toList ++ violation.message⟩
  | none =>
    let config := baseConfig conn
    let protocol := orDefault conn.security_protocol plaintext
    if protocol = plaintext then .ok config
    else
      let config := setItem "security.protocol".toList (.text protocol) config
      if protocol ∉ saslProtocols then .ok config
      else saslConfig conn signer password config

/-- `labels.kafka[-serverless].region.amazonaws.com`, in full. -/
structure MskHost (host region : Str) : Prop where
  region_ne : region ≠ []
  region_chars : region.all regionChar = true
  shape : ∃ labels cluster, labels ≠ [] ∧ labels.all hostChar = true ∧
    cluster ∈ [".kafka",".kafka-serverless"] ∧
    host = labels ++ cluster.toList ++ ".".toList ++ region ++ ".amazonaws.com".toList

/-- The rule of the mechanism `AWS_MSK_IAM`. -/
structure MskRule (conn : KafkaConnection) : Prop where
  protocol : conn.security_protocol = "SASL_SSL".toList
  username : conn.sasl_username = []
  brokers : split_brokers conn.brokers ≠ []
  region : ∃ region, resolve_aws_region conn = .ok region ∧
    ∀ entry ∈ split_brokers conn.brokers, MskHost (strip_port entry) region

/-- A property of SASL: a `sasl.` key or the callback. -/
def SaslKey (key : Str) : Prop := "sasl.".toList <+: key ∨ key = "oauth_cb".toList

/-- The security rule of a connection, of a password that comes with the request, and of what
the client finds: the signing package and the stored password. -/
structure SecurityRule (conn : KafkaConnection) (submitted : Option Str) (signer : Bool)
    (password : Str) : Prop where
  accepted : check_kafka_security conn.settings submitted = none →
    conn.sasl_mechanism = awsMskIam → MskRule conn
  callback : ∀ config, build_consumer_config conn signer password = .ok config →
    "oauth_cb".toList ∈ config.map Prod.fst →
      check_kafka_security conn.settings none = none ∧ conn.sasl_mechanism = awsMskIam ∧
        ∃ region, resolve_aws_region conn = .ok region ∧
          get? "oauth_cb".toList config = some (.oauth_cb region)
  sasl : ∀ config, build_consumer_config conn signer password = .ok config →
    ∀ key ∈ config.map Prod.fst, SaslKey key → conn.security_protocol ∈ saslProtocols ∧
      get? "security.protocol".toList config = some (.text conn.security_protocol)

/-- The host without a line feed at its end. -/
def chomp (host : Str) : Str := (beforeSuffix "\n" host).getD host

/-- The connection keeps the rule of `AWS_MSK_IAM` but for a line feed that ends a host. -/
structure TrailingNewline (conn : KafkaConnection) (submitted : Option Str) : Prop where
  mechanism : conn.sasl_mechanism = awsMskIam
  protocol : conn.security_protocol = "SASL_SSL".toList
  username : conn.sasl_username = []
  password : submitted.getD [] = []
  region : ∃ region, (conn.aws_region = [] ∨ conn.aws_region = region) ∧
    ∀ entry ∈ split_brokers conn.brokers, MskHost (chomp (strip_port entry)) region
  newline : ∃ entry ∈ split_brokers conn.brokers, (strip_port entry).getLast? = some '\n'

theorem beforeSuffix_eq_some {suffix : String} {s t : Str} :
    beforeSuffix suffix s = some t ↔ s = t ++ suffix.toList := by
  rw [beforeSuffix]
  by_cases h : suffix.toList.isSuffixOf s = true
  · obtain ⟨u,rfl⟩ := List.isSuffixOf_iff_suffix.mp h
    have htake : (u ++ suffix.toList).take ((u ++ suffix.toList).length-suffix.length) = u := by
      rw [List.length_append,String.length_toList,Nat.add_sub_cancel,List.take_left]
    rw [if_pos h,htake,Option.some.injEq,List.append_left_inj]
  · rw [if_neg h]
    refine iff_of_false nofun ?_
    rintro rfl
    exact h (List.isSuffixOf_iff_suffix.mpr ⟨t,rfl⟩)

theorem beforeSuffix_append (suffix : String) (t : Str) :
    beforeSuffix suffix (t ++ suffix.toList) = some t :=
  beforeSuffix_eq_some.mpr rfl

/-- Two suffixes of one text, neither of which ends in the other. -/
theorem beforeSuffix_append_of_ne {suffix suffix' : String} (t : Str)
    (h : suffix.toList.isSuffixOf suffix'.toList = false)
    (h' : suffix'.toList.isSuffixOf suffix.toList = false) :
    beforeSuffix suffix (t ++ suffix'.toList) = none := by
  refine if_neg fun hs => ?_
  have hs := List.isSuffixOf_iff_suffix.mp hs
  rcases List.suffix_or_suffix_of_suffix hs (List.suffix_append t suffix'.toList) with hl | hl
  · rw [List.isSuffixOf_iff_suffix.mpr hl] at h
    cases h
  · rw [List.isSuffixOf_iff_suffix.mpr hl] at h'
    cases h'

theorem cut_last_dot {s region : Str} (h : region.all regionChar = true) :
    (s ++ ".".toList ++ region).rtakeWhile (· ≠ '.') = region ∧
      (s ++ ".".toList ++ region).rdropWhile (· ≠ '.') = s ++ ".".toList := by
  have hdot : ∀ c ∈ region, decide (c ≠ '.') = true := by
    intro c hc
    have hregion := List.all_eq_true.mp h c hc
    rw [decide_eq_true_eq]
    rintro rfl
    exact absurd hregion (by decide)
  induction region using List.reverseRecOn with
  | nil =>
    rw [List.append_nil]
    exact ⟨List.rtakeWhile_concat_neg _ _ '.' (by decide),
      List.rdropWhile_concat_neg _ _ '.' (by decide)⟩
  | append_singleton region c ih =>
    have hc := hdot c (by simp)
    have hrest := ih (by simp_all) fun c' hc' => hdot c' (List.mem_append_left _ hc')
    rw [← List.append_assoc,List.rtakeWhile_concat_pos _ _ c hc,
      List.rdropWhile_concat_pos _ _ c hc,hrest.1,hrest.2]
    exact ⟨rfl,rfl⟩

/-- The pattern matches a host exactly if it has the form of a broker up to a line feed. -/
theorem mskBrokerHost_eq_some {host region : Str} :
    mskBrokerHost host = some region ↔ MskHost (chomp host) region := by
  show (beforeSuffix ".amazonaws.com" (chomp host)).bind _ = _ ↔ _
  constructor
  · intro h
    obtain ⟨front,hfront,h⟩ := Option.bind_eq_some_iff.mp h
    obtain ⟨cluster,hcluster,h⟩ := Option.bind_eq_some_iff.mp h
    obtain ⟨broker,hbroker,h⟩ := Option.bind_eq_some_iff.mp h
    by_cases hall : (!broker.isEmpty && broker.all hostChar &&
        !(front.rtakeWhile (· ≠ '.')).isEmpty &&
        (front.rtakeWhile (· ≠ '.')).all regionChar) = true
    · rw [if_pos hall] at h
      cases h
      simp only [Bool.and_eq_true,Bool.not_eq_true',List.isEmpty_eq_false_iff] at hall
      have hcut : front = cluster ++ ".".toList ++ front.rtakeWhile (· ≠ '.') := by
        rw [← beforeSuffix_eq_some.mp hcluster,List.rdropWhile_append_rtakeWhile]
      have hkafka : ∃ kafka ∈ [".kafka",".kafka-serverless"], cluster = broker ++ kafka.toList := by
        rcases Option.or_eq_some_iff.mp hbroker with hb | ⟨_,hb⟩
        · exact ⟨_,by simp,beforeSuffix_eq_some.mp hb⟩
        · exact ⟨_,by simp,beforeSuffix_eq_some.mp hb⟩
      obtain ⟨kafka,hmem,hkafka⟩ := hkafka
      refine ⟨hall.1.2,hall.2,broker,kafka,hall.1.1.1,hall.1.1.2,hmem,?_⟩
      rw [beforeSuffix_eq_some.mp hfront,← hkafka,← hcut]
    · rw [if_neg hall] at h
      cases h
  · intro h
    obtain ⟨broker,kafka,hne,hchars,hmem,heq⟩ := h.shape
    have hcut := cut_last_dot (s:=broker ++ kafka.toList) h.region_chars
    have hbroker : (beforeSuffix ".kafka" (broker ++ kafka.toList)).or
        (beforeSuffix ".kafka-serverless" (broker ++ kafka.toList)) = some broker := by
      rcases List.mem_pair.mp hmem with rfl | rfl
      · rw [beforeSuffix_append,Option.some_or]
      · rw [beforeSuffix_append_of_ne _ (by decide) (by decide),beforeSuffix_append,
          Option.none_or]
    refine Option.bind_eq_some_iff.mpr ⟨_,beforeSuffix_eq_some.mpr heq,?_⟩
    refine Option.bind_eq_some_iff.mpr ⟨_,beforeSuffix_eq_some.mpr hcut.2,?_⟩
    refine Option.bind_eq_some_iff.mpr ⟨broker,hbroker,?_⟩
    rw [hcut.1]
    exact if_pos (by simp [hne,hchars,h.region_ne,h.region_chars])

theorem dedup_eq_singleton {regions : List Str} {region : Str} :
    regions.dedup = [region] ↔ regions ≠ [] ∧ ∀ r ∈ regions, r = region := by
  constructor
  · intro h
    have hmem : ∀ r, r ∈ regions ↔ r = region := by
      intro r
      rw [← List.mem_dedup,h,List.mem_singleton]
    exact ⟨List.ne_nil_of_mem ((hmem region).mpr rfl),fun r hr => (hmem r).mp hr⟩
  · rintro ⟨hne,hall⟩
    have hlen : regions.length ≠ 0 := by simpa using hne
    rw [List.eq_replicate_of_mem hall,List.replicate_dedup hlen]

theorem derive_msk_region_eq_some {brokers region : Str} :
    derive_msk_region brokers = some region ↔ split_brokers brokers ≠ [] ∧
      ∀ entry ∈ split_brokers brokers, mskBrokerHost (strip_port entry) = some region := by
  have hmap : derive_msk_region brokers = some region ↔
      ∃ regions, (split_brokers brokers).mapM (fun entry => mskBrokerHost (strip_port entry)) =
        some regions ∧ regions.dedup = [region] := by
    rw [derive_msk_region]
    cases (split_brokers brokers).mapM fun entry => mskBrokerHost (strip_port entry) with
    | none => simp
    | some regions =>
      simp only [Option.some.injEq,exists_eq_left']
      split
      · rename_i r hr
        rw [hr,Option.some.injEq,List.singleton_inj]
      · rename_i hr
        exact iff_of_false nofun (hr region)
  rw [hmap]
  constructor
  · rintro ⟨regions,hregions,hdedup⟩
    rw [mapM_eq_some] at hregions
    obtain ⟨hne,hall⟩ := dedup_eq_singleton.mp hdedup
    refine ⟨fun hnil => hne (by simpa [hnil] using hregions),fun entry hentry => ?_⟩
    have hmem : mskBrokerHost (strip_port entry) ∈ regions.map some := by
      rw [← hregions]
      exact List.mem_map_of_mem hentry
    obtain ⟨r,hr,heq⟩ := List.mem_map.mp hmem
    rw [← heq,hall r hr]
  · rintro ⟨hne,hall⟩
    refine ⟨List.replicate (split_brokers brokers).length region,?_,?_⟩
    · rw [mapM_eq_some,List.map_replicate,List.map_eq_replicate_iff]
      exact hall
    · exact List.replicate_dedup (by simpa using hne)

section Checker

variable {t : KafkaSettings} {submitted : Option Str}

/-- With that mechanism the protocol has to be one of SASL. -/
theorem checkMechanism_msk (hm : t.sasl_mechanism = awsMskIam) (protocol : Str) :
    checkMechanism protocol t = none ↔ protocol ∈ saslProtocols := by
  have hne : t.sasl_mechanism ≠ [] := by
    rw [hm]
    decide
  have hmem : t.sasl_mechanism ∈ saslMechanisms := by
    rw [hm]
    exact List.mem_cons_self
  have hcredential : t.sasl_mechanism ∉ credentialMechanisms := by
    rw [hm]
    decide
  rw [checkMechanism]
  by_cases hp : protocol ∈ saslProtocols
  · have hsecurity : protocol ∈ securityProtocols := by
      rcases List.mem_pair.mp hp with rfl | rfl <;> decide
    rw [if_neg (not_not.mpr hsecurity),if_neg (by simp [hmem]),if_neg (fun h => hne h.2),
      if_neg (fun h => h.1 hp),if_neg (fun h => hcredential h.1)]
    exact iff_of_true rfl hp
  · refine iff_of_false ?_ hp
    by_cases hsecurity : protocol ∈ securityProtocols
    · rw [if_neg (not_not.mpr hsecurity),if_neg (by simp [hmem]),if_neg (fun h => hp h.1),
        if_pos ⟨hp,hne⟩]
      nofun
    · rw [if_pos hsecurity]
      nofun

theorem orDefault_eq_iff {value default protocol : Str} (h : protocol ≠ []) (hd : default ≠ protocol) :
    orDefault value default = protocol ↔ value = protocol := by
  rw [orDefault]
  cases value with
  | nil => exact iff_of_false hd (Ne.symm h)
  | cons c value => rfl

/-- What the checker demands of the mechanism `AWS_MSK_IAM`. -/
theorem check_msk_eq_none (hm : t.sasl_mechanism = awsMskIam) :
    check_kafka_security t submitted = none ↔ t.security_protocol = "SASL_SSL".toList ∧
      t.sasl_username = [] ∧ submitted.getD [] = [] ∧
        ∃ region, derive_msk_region t.brokers = some region ∧
          (t.aws_region = [] ∨ t.aws_region = region) := by
  have hprotocol : orDefault t.security_protocol plaintext = "SASL_SSL".toList ↔
      t.security_protocol = "SASL_SSL".toList := orDefault_eq_iff (by decide) (by decide)
  rw [← hprotocol,check_kafka_security]
  generalize orDefault t.security_protocol plaintext = protocol
  have hmech := checkMechanism_msk hm protocol
  cases hc : checkMechanism protocol t with
  | some v =>
    rw [hc] at hmech
    refine iff_of_false (Option.some_ne_none v) fun h => ?_
    rw [h.1] at hmech
    exact absurd (hmech.mpr (by decide)) (Option.some_ne_none v)
  | none =>
    dsimp only
    rw [if_pos hm,checkMskIam]
    by_cases hu : t.sasl_username = []
    swap
    · rw [if_pos (by simpa using hu)]
      exact iff_of_false (Option.some_ne_none _) fun h => hu h.2.1
    rw [if_neg (by simpa using hu)]
    by_cases hs : submitted.getD [] = []
    swap
    · rw [if_pos (by simpa using hs)]
      exact iff_of_false (Option.some_ne_none _) fun h => hs h.2.2.1
    rw [if_neg (by simpa using hs)]
    by_cases hp : protocol = "SASL_SSL".toList
    swap
    · rw [if_pos hp]
      exact iff_of_false (Option.some_ne_none _) fun h => hp h.1
    rw [if_neg (not_not.mpr hp)]
    have hregion : ((split_brokers t.brokers).filter fun entry =>
        (mskBrokerHost (strip_port entry)).isNone) ≠ [] ∨ split_brokers t.brokers = [] →
        derive_msk_region t.brokers = none := by
      intro h
      cases hd : derive_msk_region t.brokers with
      | none => rfl
      | some region =>
        obtain ⟨hne,hall⟩ := derive_msk_region_eq_some.mp hd
        rcases h with h | h
        · refine absurd (List.filter_eq_nil_iff.mpr fun entry hentry => ?_) h
          rw [hall entry hentry]
          exact Bool.false_ne_true
        · exact absurd h hne
    by_cases ho : ((split_brokers t.brokers).filter fun entry =>
        (mskBrokerHost (strip_port entry)).isNone) ≠ [] ∨ split_brokers t.brokers = []
    · rw [if_pos ho,hregion ho]
      exact iff_of_false (Option.some_ne_none _) fun h => h.2.2.2.elim fun _ h => by cases h.1
    rw [if_neg ho]
    cases hd : derive_msk_region t.brokers with
    | none => exact iff_of_false (Option.some_ne_none _) fun h => h.2.2.2.elim fun _ h => by cases h.1
    | some region =>
      dsimp only
      by_cases hr : t.aws_region = [] ∨ t.aws_region = region
      · rw [if_neg (by simpa [← or_iff_not_imp_left] using hr)]
        exact iff_of_true rfl ⟨hp,hu,hs,region,rfl,hr⟩
      · rw [if_pos (by simpa using hr)]
        refine iff_of_false (Option.some_ne_none _) fun h => hr ?_
        obtain ⟨r,he,hr'⟩ := h.2.2.2
        cases he
        exact hr'

end Checker

section Config

variable {conn : KafkaConnection} {signer : Bool} {password : Str} {config : ClientConfig}

/-- The client has no property beside the basic ones, the protocol too, or those of SASL. -/
theorem build_consumer_config_ok (h : build_consumer_config conn signer password = .ok config) :
    check_kafka_security conn.settings none = none ∧
      (config = baseConfig conn ∨
        config = setItem "security.protocol".toList (.text conn.security_protocol)
          (baseConfig conn) ∨
        conn.security_protocol ∈ saslProtocols ∧ saslConfig conn signer password
          (setItem "security.protocol".toList (.text conn.security_protocol)
            (baseConfig conn)) = .ok config) := by
  rw [build_consumer_config] at h
  cases hc : check_kafka_security conn.settings none with
  | some violation =>
    rw [hc] at h
    cases h
  | none =>
    rw [hc] at h
    refine ⟨rfl,?_⟩
    dsimp only at h
    by_cases hp : orDefault conn.security_protocol plaintext = plaintext
    · rw [if_pos hp] at h
      cases h
      exact .inl rfl
    · rw [if_neg hp] at h
      have heq : orDefault conn.security_protocol plaintext = conn.security_protocol := by
        rw [orDefault] at hp ⊢
        by_cases hnil : conn.security_protocol.isEmpty = true
        · rw [if_pos hnil] at hp
          exact absurd rfl hp
        · rw [if_neg hnil]
      rw [heq] at h
      by_cases hs : conn.security_protocol ∈ saslProtocols
      · rw [if_neg (not_not.mpr hs)] at h
        exact .inr (.inr ⟨hs,h⟩)
      · rw [if_pos hs] at h
        cases h
        exact .inr (.inl rfl)

theorem not_saslKey {key : Str} (h : key ∈ (setItem "security.protocol".toList
    (.text conn.security_protocol) (baseConfig conn)).map Prod.fst) : ¬ SaslKey key := by
  have hkeys : (setItem "security.protocol".toList (.text conn.security_protocol)
      (baseConfig conn)).map Prod.fst = ["bootstrap.servers".toList,"group.id".toList,
        "auto.offset.reset".toList,"enable.auto.commit".toList,"max.poll.interval.ms".toList,
        "security.protocol".toList] := rfl
  rw [hkeys] at h
  have hall : (["bootstrap.servers".toList,"group.id".toList,"auto.offset.reset".toList,
      "enable.auto.commit".toList,"max.poll.interval.ms".toList,
      "security.protocol".toList].all fun key =>
        !("sasl.".toList.isPrefixOf key || key == "oauth_cb".toList)) = true := by decide
  have hkey := List.all_eq_true.mp hall key h
  rintro (hsasl | rfl)
  · rw [List.isPrefixOf_iff_prefix.mpr hsasl] at hkey
    cases hkey
  · exact absurd hkey (by decide)

theorem baseConfig_keys {key : Str} (h : key ∈ (baseConfig conn).map Prod.fst) :
    ¬ SaslKey key := by
  apply @not_saslKey conn
  rw [keys_setItem]
  split_ifs
  · exact h
  · exact List.mem_append_left _ h

theorem mem_keys_setItem {key k : Str} {v : Property} {base : ClientConfig}
    (h : key ∈ (setItem k v base).map Prod.fst) : key = k ∨ key ∈ base.map Prod.fst := by
  rw [keys_setItem] at h
  by_cases hk : k ∈ base.map Prod.fst
  · rw [if_pos hk] at h
    exact .inr h
  · rw [if_neg hk,List.mem_append,List.mem_singleton] at h
    exact h.symm

theorem get?_setItem_of_ne {key k : Str} {v w : Property} {base : ClientConfig} (hk : key ≠ k)
    (h : get? key base = some w) : get? key (setItem k v base) = some w := by
  rw [get?_setItem,if_neg hk,h]

/-- The mechanism keeps the protocol, and sets a callback for `AWS_MSK_IAM` only. -/
theorem saslConfig_ok {base : ClientConfig} (h : saslConfig conn signer password base = .ok config) :
    (∀ v, get? "security.protocol".toList base = some v →
      get? "security.protocol".toList config = some v) ∧
    ("oauth_cb".toList ∈ config.map Prod.fst → "oauth_cb".toList ∉ base.map Prod.fst →
      conn.sasl_mechanism = awsMskIam ∧ ∃ region, resolve_aws_region conn = .ok region ∧
        get? "oauth_cb".toList config = some (.oauth_cb region)) := by
  rw [saslConfig] at h
  dsimp only at h
  by_cases hm : conn.sasl_mechanism = awsMskIam
  · rw [if_pos hm] at h
    obtain ⟨region,hregion,h⟩ := bind_eq_ok.mp h
    obtain ⟨oauth_cb,hcb,h⟩ := bind_eq_ok.mp h
    cases h
    refine ⟨fun v hv => ?_,fun _ _ => ⟨hm,region,hregion,?_⟩⟩
    · exact get?_setItem_of_ne (by decide) (get?_setItem_of_ne (by decide) hv)
    · rw [get?_setItem,if_pos rfl]
      rw [build_msk_oauth_cb] at hcb
      cases signer with
      | false => cases hcb
      | true =>
        cases hcb
        rfl
  · rw [if_neg hm] at h
    by_cases hc : conn.sasl_mechanism ∉ credentialMechanisms
    · rw [if_pos hc] at h
      cases h
    rw [if_neg hc] at h
    by_cases hp : password = []
    · rw [if_pos hp] at h
      cases h
    rw [if_neg hp] at h
    cases h
    refine ⟨fun v hv => ?_,fun hmem hbase => ?_⟩
    · exact get?_setItem_of_ne (by decide) (get?_setItem_of_ne (by decide)
        (get?_setItem_of_ne (by decide) hv))
    · rcases mem_keys_setItem hmem with hk | hmem
      · exact absurd hk (by decide)
      rcases mem_keys_setItem hmem with hk | hmem
      · exact absurd hk (by decide)
      rcases mem_keys_setItem hmem with hk | hmem
      · exact absurd hk (by decide)
      · exact absurd hmem hbase

end Config

section Rule

variable {conn : KafkaConnection} {submitted : Option Str}

theorem chomp_eq_self {host : Str} (h : host.getLast? ≠ some '\n') : chomp host = host := by
  rw [chomp]
  cases hs : beforeSuffix "\n" host with
  | none => rfl
  | some t =>
    rw [beforeSuffix_eq_some] at hs
    refine absurd ?_ h
    rw [hs]
    exact List.getLast?_concat

theorem MskHost.last {host region : Str} (h : MskHost host region) : host.getLast? ≠ some '\n' := by
  obtain ⟨labels,cluster,_,_,_,rfl⟩ := h.shape
  have hlast : (labels ++ cluster.toList ++ ".".toList ++ region ++
      ".amazonaws.com".toList).getLast? = some 'm' :=
    (List.getLast?_append_of_ne_nil _ (by decide)).trans rfl
  rw [hlast]
  decide

/-- The checker accepts what keeps the rule up to line feeds that end hosts. -/
theorem check_msk_iff (hm : conn.sasl_mechanism = awsMskIam) :
    check_kafka_security conn.settings submitted = none ↔
      conn.security_protocol = "SASL_SSL".toList ∧ conn.sasl_username = [] ∧
        submitted.getD [] = [] ∧ split_brokers conn.brokers ≠ [] ∧
          ∃ region, (conn.aws_region = [] ∨ conn.aws_region = region) ∧
            ∀ entry ∈ split_brokers conn.brokers, MskHost (chomp (strip_port entry)) region := by
  rw [check_msk_eq_none hm]
  simp only [KafkaConnection.settings,derive_msk_region_eq_some,mskBrokerHost_eq_some]
  constructor
  · rintro ⟨hp,hu,hs,region,⟨hne,hall⟩,hr⟩
    exact ⟨hp,hu,hs,hne,region,hr,hall⟩
  · rintro ⟨hp,hu,hs,hne,region,hr,hall⟩
    exact ⟨hp,hu,hs,region,⟨hne,hall⟩,hr⟩

/-- The region that a token is signed for is the one of the hosts. -/
theorem resolve_aws_region_eq {region : Str} (hne : split_brokers conn.brokers ≠ [])
    (hr : conn.aws_region = [] ∨ conn.aws_region = region)
    (hall : ∀ entry ∈ split_brokers conn.brokers, MskHost (chomp (strip_port entry)) region) :
    resolve_aws_region conn = .ok region := by
  have hderive : derive_msk_region conn.brokers = some region :=
    derive_msk_region_eq_some.mpr
      ⟨hne,fun entry hentry => mskBrokerHost_eq_some.mpr (hall entry hentry)⟩
  rw [resolve_aws_region,hderive]
  by_cases hregion : conn.aws_region = []
  · rw [if_neg (not_not.mpr hregion)]
  · rw [if_pos hregion,hr.resolve_left hregion]

/-- The rule of `AWS_MSK_IAM` holds of an accepted connection none of whose hosts ends in a
line feed. -/
theorem mskRule_iff (hm : conn.sasl_mechanism = awsMskIam)
    (h : check_kafka_security conn.settings submitted = none) :
    MskRule conn ↔ ¬ TrailingNewline conn submitted := by
  obtain ⟨hp,hu,hs,hne,region,hr,hall⟩ := (check_msk_iff hm).mp h
  constructor
  · rintro hrule hn
    obtain ⟨entry,hentry,hlast⟩ := hn.newline
    obtain ⟨r,_,hhosts⟩ := hrule.region
    exact (hhosts entry hentry).last hlast
  · intro hn
    refine ⟨hp,hu,hne,region,resolve_aws_region_eq hne hr hall,fun entry hentry => ?_⟩
    have hlast : (strip_port entry).getLast? ≠ some '\n' :=
      fun hlast => hn ⟨hm,hp,hu,hs,⟨region,hr,hall⟩,entry,hentry,hlast⟩
    rw [← chomp_eq_self hlast]
    exact hall entry hentry

theorem callback_accepted {signer : Bool} {password : Str} {config : ClientConfig}
    (h : build_consumer_config conn signer password = .ok config)
    (hmem : "oauth_cb".toList ∈ config.map Prod.fst) :
    check_kafka_security conn.settings none = none ∧ conn.sasl_mechanism = awsMskIam ∧
      ∃ region, resolve_aws_region conn = .ok region ∧
        get? "oauth_cb".toList config = some (.oauth_cb region) := by
  obtain ⟨hcheck,rfl | rfl | ⟨_,hsasl⟩⟩ := build_consumer_config_ok h
  · exact absurd (.inr rfl) (baseConfig_keys hmem)
  · exact absurd (.inr rfl) (not_saslKey hmem)
  · exact ⟨hcheck,(saslConfig_ok hsasl).2 hmem fun hbase => not_saslKey hbase (.inr rfl)⟩

theorem saslKey_protocol {signer : Bool} {password : Str} {config : ClientConfig}
    (h : build_consumer_config conn signer password = .ok config) {key : Str}
    (hmem : key ∈ config.map Prod.fst) (hkey : SaslKey key) :
    conn.security_protocol ∈ saslProtocols ∧
      get? "security.protocol".toList config = some (.text conn.security_protocol) := by
  obtain ⟨_,rfl | rfl | ⟨hprotocol,hsasl⟩⟩ := build_consumer_config_ok h
  · exact absurd hkey (baseConfig_keys hmem)
  · exact absurd hkey (not_saslKey hmem)
  · refine ⟨hprotocol,(saslConfig_ok hsasl).1 _ ?_⟩
    rw [get?_setItem,if_pos rfl]

end Rule

/-- The checker and the client keep the security rule exactly for the connections that do not
miss it by a line feed that ends a host. -/
theorem security_rule_iff (conn : KafkaConnection) (submitted : Option Str) (signer : Bool)
    (password : Str) :
    SecurityRule conn submitted signer password ↔ ¬ TrailingNewline conn submitted := by
  constructor
  · rintro hrule hn
    obtain ⟨region,hr,hall⟩ := hn.region
    obtain ⟨entry,hentry,_⟩ := hn.newline
    have hcheck := (check_msk_iff hn.mechanism).mpr
      ⟨hn.protocol,hn.username,hn.password,List.ne_nil_of_mem hentry,region,hr,hall⟩
    exact (mskRule_iff hn.mechanism hcheck).mp (hrule.accepted hcheck hn.mechanism) hn
  · intro hn
    exact ⟨fun hcheck hm => (mskRule_iff hm hcheck).mpr hn,fun _ h hmem => callback_accepted h hmem,
      fun _ h _ hmem hkey => saslKey_protocol h hmem hkey⟩

def newlineConnection : KafkaConnection where
  brokers := "b-1.c.kafka.us-east-1.amazonaws.com\n:9098".toList
  security_protocol := "SASL_SSL".toList
  sasl_mechanism := awsMskIam

theorem newline_host_accepted :
    check_kafka_security newlineConnection.settings none = none ∧
      ¬ ∀ conn submitted signer password, SecurityRule conn submitted signer password := by
  have hcheck : check_kafka_security newlineConnection.settings none = none := by decide
  refine ⟨hcheck,fun hall => ?_⟩
  obtain ⟨region,_,hhosts⟩ := ((hall newlineConnection none true []).accepted hcheck rfl).region
  have hsplit : split_brokers newlineConnection.brokers = [newlineConnection.brokers] := by decide
  have hhost := hhosts newlineConnection.brokers (by rw [hsplit]; exact List.mem_singleton_self _)
  exact hhost.last (by decide)

end Kafka
end Dataspoke
