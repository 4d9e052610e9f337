import Dataspoke.Pydantic

/-!
# Recipes and dataset URNs

The helpers on recipes and URNs that the source mutators and the sweep share. What the
language or a package supplies is a parameter: `str.lower`, `json.loads`, `re.compile`, the
`AllowDenyPattern` of the SDK and the check of the secret references.
-/

namespace Dataspoke
namespace Ingestion

open Python

inductive Mode
  | DATAHUB_MANAGED | ACTIVE_CUSTOM_MANAGED | PASSIVE
  deriving DecidableEq

abbrev Items := List (Str × Json)

/-- A predicate on names; `none` where it raises. -/
abbrev Matcher := Str → Option Bool

structure Runtime where
  lower : Str → Str
  /-- `none` where it raises a `ValueError`. -/
  json_loads : Str → Option Json
  /-- Whether `re.compile` accepts the pattern. -/
  re_compile : Str → Bool
  /-- `AllowDenyPattern(allow=…, deny=…).allowed`, its construction `none` where it raises;
  no value where the SDK cannot be imported. -/
  allowDenyPattern : Option (Json → Json → Option Matcher)
  /-- The error code that `_verify_recipe_secret_refs` raises. -/
  verify_secret_refs : Items → Option String
  /-- `str` of the id of a source. -/
  str_uuid : ℕ → Str

/-- `str.strip()`. -/
def stripped (s : Str) : Str := Pydantic.strip isspace s

def afterFirst (needle : Str) : Str → Option Str
  | [] => if needle = [] then some [] else none
  | c::s => if needle.isPrefixOf (c::s) then some ((c::s).drop needle.length)
    else afterFirst needle s

/-- The text before and after the last occurrence of the character. -/
def splitLast (c : Char) (s : Str) : Option (Str × Str) :=
  if c ∈ s then some ((s.rdropWhile (· ≠ c)).dropLast,s.rtakeWhile (· ≠ c)) else none

def truthy : Json → Bool
  | .null => false
  | .bool b => b
  | .num x => x ≠ .fin 0
  | .str s => !s.isEmpty
  | .arr xs => !xs.isEmpty
  | .obj items => !items.isEmpty

def platformUrnPrefix : Str := "urn:li:dataPlatform:".toList

def datasetUrnPrefix : Str := "urn:li:dataset:(".toList

def platform_from_dataset_urn (urn : Str) : Option Str :=
  match afterFirst (datasetUrnPrefix++platformUrnPrefix) urn with
  | none => none
  | some rest =>
    if ',' ∈ rest ∧ rest.takeWhile (· ≠ ',') ≠ [] then some (rest.takeWhile (· ≠ ',')) else none

def platform_urn_from_dataset_urn (urn : Str) : Option Str :=
  (platform_from_dataset_urn urn).map (platformUrnPrefix ++ ·)

/-- The fields of the URN before the last two commas, between them and after them. -/
def datasetUrnFields (urn : Str) : Option (Str × Str × Str) :=
  if datasetUrnPrefix.isPrefixOf urn && urn.getLast? = some ')' then
    (splitLast ',' (urn.drop datasetUrnPrefix.length).dropLast).bind fun (head,origin) =>
      (splitLast ',' head).map fun (platform,name) => (platform,name,origin)
  else none

/-- The text without white space around it, unless it is empty. -/
def nonBlank (s : Str) : Option Str := if (stripped s).isEmpty then none else some (stripped s)

def name_from_dataset_urn (urn : Str) : Option Str :=
  (datasetUrnFields urn).bind fun f => nonBlank f.2.1

def origin_from_dataset_urn (urn : Str) : Option Str :=
  (datasetUrnFields urn).bind fun f => nonBlank f.2.2

def sourceKey : Str := "source".toList
def typeKey : Str := "type".toList
def configKey : Str := "config".toList

/-- `parse_recipe`, the error the text of its `ValueError`. -/
def parse_recipe (recipe : Items) : Except String (Str × Items) :=
  match get? sourceKey recipe with
  | some (.obj source) =>
    match get? typeKey source with
    | some (.str source_type) =>
      if source_type.isEmpty then .error "recipe.source.type must be a non-empty string"
      else
        match get? configKey source with
        | none | some .null => .ok (source_type,[])
        | some (.obj config) => .ok (source_type,config)
        | some _ => .error "recipe.source.config must be a dict when present"
    | _ => .error "recipe.source.type must be a non-empty string"
  | _ => .error "recipe.source must be a dict"

def safe_parse_recipe (recipe : Items) : Str × Items :=
  match parse_recipe recipe with
  | .ok parsed => parsed
  | .error _ => ("unknown".toList,[])

def cronToTier : List (Str × Str) :=
  [("0 * * * *".toList,"hourly".toList),("@hourly".toList,"hourly".toList),
    ("0 0 * * *".toList,"daily".toList),("@daily".toList,"daily".toList),
    ("@midnight".toList,"daily".toList),("0 0 * * 0".toList,"weekly".toList),
    ("@weekly".toList,"weekly".toList)]

/-- `cron_to_tier`; `none` where it raises. -/
def cron_to_tier (schedule : Option Str) : Option (Option Str) :=
  match schedule with
  | none => some none
  | some schedule => (get? (stripped schedule) cronToTier).map some

def schemaPatternKey : Str := "schema_pattern".toList
def tablePatternKey : Str := "table_pattern".toList
def topicPatternsKey : Str := "topic_patterns".toList
def datasetPatternKey : Str := "dataset_pattern".toList

def selectionPatternCascade : List Str :=
  [schemaPatternKey,tablePatternKey,topicPatternsKey,datasetPatternKey]

def has_selection_patterns (recipe : Items) : Bool :=
  match parse_recipe recipe with
  | .error _ => false
  | .ok (_,config) =>
    match selectionPatternCascade.findSome? fun key => get? key config with
    | some (.obj _) => true
    | _ => false

section Matcher

variable (env : Runtime)

/-- Why a pattern set was not evaluated. -/
inductive Degraded
  | recipe (message : String)
  | sdk
  | key (key : Str)

def matchNothing : Matcher := fun _ => some false

def both (a b : Matcher) : Matcher := fun name =>
  (a name).bind fun x => if x then b name else some false

/-- `any(p(form) for form in forms)`. -/
def anyForm (p : Matcher) : List Str → Option Bool
  | [] => some false
  | form::forms => (p form).bind fun x => if x then some true else anyForm p forms

/-- `allow` and `deny` of a pattern value. -/
def allowAndDeny : Json → Option (Json × Json)
  | .obj items =>
    some ((get? "allow".toList items).getD (.arr [.str ".*".toList]),
      (get? "deny".toList items).getD (.arr []))
  | _ => none

/-- `_precompile` of one list of patterns, or of what was given in its place. -/
def precompile : Json → Bool
  | .arr xs => xs.all fun x => match x with
    | .str s => env.re_compile s
    | _ => false
  | .str s => s.all fun c => env.re_compile [c]
  | .obj items => items.all fun item => env.re_compile item.1
  | _ => false

variable (adp : Json → Json → Option Matcher)

/-- `_make_adp` on a pattern value. -/
def makeAdp (pattern : Json) : Option Matcher :=
  (allowAndDeny pattern).bind fun (allow,deny) =>
    if precompile env allow && precompile env deny then adp allow deny else none

/-- The segment that a `schema_pattern` is evaluated on. -/
def schemaSegment (name : Str) : Str :=
  match name.splitOn '.' with
  | _::second::_::_ => second
  | [first,_] => first
  | _ => name

/-- The whole name, and what follows its first dot. -/
def topicForms (name : Str) : List Str :=
  if '.' ∈ name then [name,(name.dropWhile (· ≠ '.')).drop 1] else [name]

def topicMatcher (pattern : Json) : Option Matcher :=
  (allowAndDeny pattern).bind fun (allow,deny) =>
    if precompile env allow && precompile env deny then
      (adp allow (.arr [])).bind fun a =>
        if truthy deny then
          (adp deny (.arr [])).map fun d => both (fun name => anyForm a (topicForms name))
            fun name => (anyForm d (topicForms name)).map (!·)
        else some fun name => anyForm a (topicForms name)
    else none

/-- The matcher over the pattern keys of a config, or the key in progress where its value
cannot be used. -/
def patternMatcher (config : Items) : Except Str (Option Matcher) :=
  match get? schemaPatternKey config, get? tablePatternKey config with
  | some schema, table =>
    match makeAdp env adp schema, table.map (makeAdp env adp) with
    | none, _ => .error schemaPatternKey
    | some s, none => .ok (some fun name => s (schemaSegment name))
    | some s, some (some t) => .ok (some (both (fun name => s (schemaSegment name)) t))
    | some _, some none => .error tablePatternKey
  | none, some table =>
    match makeAdp env adp table with
    | some t => .ok (some t)
    | none => .error tablePatternKey
  | none, none =>
    match get? topicPatternsKey config, get? datasetPatternKey config with
    | some topic, _ =>
      match topicMatcher env adp topic with
      | some m => .ok (some m)
      | none => .error topicPatternsKey
    | none, some dataset =>
      match makeAdp env adp dataset with
      | some m => .ok (some m)
      | none => .error datasetPatternKey
    | none, none => .ok none

variable {adp}

/-- The prefix that the database gate requires, where it is active. -/
def databasePrefix (source_type : Str) (config : Items) : Option Str :=
  match get? "database".toList config with
  | some (.str db) =>
    let st := env.lower source_type
    let prefixed := st = "postgres".toList || st = "mysql".toList ||
      (st = "oracle".toList &&
        ((get? "add_database_name_to_urn".toList config).map truthy).getD false)
    if !db.isEmpty && prefixed then some (db++".".toList) else none
  | _ => none

def gate (required : Option Str) (m : Matcher) : Matcher :=
  match required with
  | none => m
  | some pfx => fun name => if pfx.isPrefixOf name then m name else some false

def build_matcher_checked (recipe : Items) : Matcher × Option Degraded :=
  match parse_recipe recipe with
  | .error message => (matchNothing,some (.recipe message))
  | .ok (source_type,config) =>
    match env.allowDenyPattern with
    | none =>
      if selectionPatternCascade.any fun key => (get? key config).isSome then
        (matchNothing,some .sdk)
      else (matchNothing,none)
    | some adp =>
      match patternMatcher env adp config with
      | .error key => (matchNothing,some (.key key))
      | .ok none => (matchNothing,none)
      | .ok (some m) => (gate (databasePrefix env source_type config) m,none)

end Matcher

end Ingestion
end Dataspoke
