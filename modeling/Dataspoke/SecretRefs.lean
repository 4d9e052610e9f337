import Dataspoke.IngestionModels

/-!
# Secret references of a recipe

The references that a save verifies and those that a run resolves, with the cache in front
of the secret backend.
-/

namespace Dataspoke
namespace Secrets

open Python Ingestion

inductive SecretError
  | malformed
  | not_found
  | unavailable
  deriving DecidableEq

/-- A secret store, asked for a name and a key. What it answers to a read may change from
one request to the next. -/
structure Backend where
  read_value : ℕ → Str → Str → Except SecretError Str
  verify : Str → Str → Except SecretError Unit

def nameChar (c : Char) : Bool := ('a' ≤ c && c ≤ 'z') || ('0' ≤ c && c ≤ '9') || c = '-'

def keyChar (c : Char) : Bool :=
  ('A' ≤ c && c ≤ 'Z') || ('a' ≤ c && c ≤ 'z') || ('0' ≤ c && c ≤ '9') || c = '_' || c = '.' ||
    c = '-'

def separator : Str := "__".toList

/-- `SECRET_REF_RE` at the start of a text: its two groups and what follows. No group can
give back a character, as none stands in the class of what comes next. -/
def matchRef : Str → Option (Str × Str × Str)
  | '$' :: '\x7b' :: s =>
    let name := s.takeWhile nameChar
    match s.dropWhile nameChar with
    | '_' :: '_' :: s =>
      let key := s.takeWhile keyChar
      match s.dropWhile keyChar with
      | '\x7d'::rest => if name = [] ∨ key = [] then none else some (name,key,rest)
      | _ => none
    | _ => none
  | _ => none

/-- The text from left to right, as the characters and the references that it consists of;
`skip` characters belong to the reference before. -/
def scanFrom : ℕ → Str → List (Char ⊕ Str)
  | _, [] => []
  | skip+1, _::s => scanFrom skip s
  | 0, c::s =>
    match matchRef (c::s) with
    | some (name,key,rest) =>
      .inr (name++separator++key)::scanFrom (s.length-rest.length) s
    | none => .inl c::scanFrom 0 s

def scan (s : Str) : List (Char ⊕ Str) := scanFrom 0 s

/-- The `name__key` texts of `SECRET_REF_RE.finditer`. -/
def refsOf (s : Str) : List Str := (scan s).filterMap Sum.getRight?

/-- The text before the last `__` and the text after it. -/
def splitLastSeparator : Str → Option (Str × Str)
  | [] => none
  | c::s =>
    match splitLastSeparator s with
    | some (name,key) => some (c::name,key)
    | none => if separator.isPrefixOf (c::s) then some ([],s.drop 1) else none

def parse_name_key (ref : Str) : Except SecretError (Str × Str) :=
  match splitLastSeparator ref with
  | none => .error .malformed
  | some (name,key) => if name = [] ∨ key = [] then .error .malformed else .ok (name,key)

mutual

/-- `_collect_refs`. -/
def collect_refs : Json → List Str
  | .str s => refsOf s
  | .obj items => collectItems items
  | .arr xs => collectList xs
  | _ => []

def collectItems : List (Str × Json) → List Str
  | [] => []
  | (_,v)::items => collect_refs v++collectItems items

def collectList : List Json → List Str
  | [] => []
  | x::xs => collect_refs x++collectList xs

end

def extract_secret_refs (recipe : Items) : List Str :=
  match parse_recipe recipe with
  | .error _ => []
  | .ok (_,config) => collectItems config

/-- `verify_secret_ref`, with the pair that the backend has confirmed. -/
def verify_secret_ref (B : Backend) (ref : Str) : Except SecretError (Str × Str) := do
  let (name,key) ← parse_name_key ref
  B.verify name key
  return (name,key)

inductive SaveError
  | secret_ref_malformed (ref : Str)
  | secret_ref_not_found (ref : Str)
  | storage_unavailable
  deriving DecidableEq

def saveError (ref : Str) : SecretError → SaveError
  | .malformed => .secret_ref_malformed ref
  | .not_found => .secret_ref_not_found ref
  | .unavailable => .storage_unavailable

/-- `_verify_recipe_secret_refs`, with the pairs that have been verified. -/
def verify_recipe_secret_refs (B : Backend) (recipe : Items) :
    Except SaveError (List (Str × Str)) :=
  (extract_secret_refs recipe).mapM fun ref => (verify_secret_ref B ref).mapError (saveError ref)

section Resolve

/-- The cache, its insertion order, the readings of the clock so far, and the pairs that the
backend has been asked for. -/
structure Resolver where
  cache : List ((Str × Str) × Str × ℕ)
  order : List (Str × Str)
  readings : ℕ
  asked : List (Str × Str)

def ttlSeconds : ℕ := 60

def cacheMaxSize : ℕ := 512

def evict (cache : List ((Str × Str) × Str × ℕ)) (order : List (Str × Str)) :
    List ((Str × Str) × Str × ℕ) × List (Str × Str) :=
  match order.dropWhile fun k => (cache.lookup k).isNone with
  | [] => (cache,[])
  | k::order => (cache.filter (·.1 ≠ k),order)

/-- `_cache_put`. -/
def Resolver.put (st : Resolver) (k : Str × Str) (v : Str × ℕ) : Resolver :=
  if (st.cache.lookup k).isSome then
    { st with cache := st.cache.map fun e => if e.1 = k then (k,v) else e }
  else if cacheMaxSize ≤ st.cache.length then
    { st with
      cache := (evict st.cache st.order).1++[(k,v)], order := (evict st.cache st.order).2++[k] }
  else { st with cache := st.cache++[(k,v)], order := st.order++[k] }

/-- What the resolver does, an error leaving the state as it is by then. -/
abbrev Resolve := ExceptT SecretError (StateM Resolver)

variable (B : Backend) (monotonic : ℕ → ℕ)

def fetch (k : Str × Str) (st : Resolver) : Except SecretError Str × Resolver :=
  let st := { st with asked := st.asked++[k] }
  match B.read_value st.asked.length k.1 k.2 with
  | .error e => (.error e,st)
  | .ok value =>
    (.ok value,
      { st.put k (value,monotonic st.readings+ttlSeconds) with readings := st.readings+1 })

def lookup (k : Str × Str) (st : Resolver) : Except SecretError Str × Resolver :=
  match st.cache.lookup k with
  | none => fetch B monotonic k st
  | some (value,expiry) =>
    if monotonic st.readings < expiry then (.ok value,{ st with readings := st.readings+1 })
    else fetch B monotonic k
      { st with cache := st.cache.filter (·.1 ≠ k), readings := st.readings+1 }

def resolve_secret_ref (ref : Str) : Resolve Str :=
  ExceptT.mk fun st =>
    match parse_name_key ref with
    | .error e => (.error e,st)
    | .ok k => lookup B monotonic k st

/-- `SECRET_REF_RE.sub`. -/
def substitute (s : Str) : Resolve Str :=
  List.flatten <$> (scan s).mapM fun
    | .inl c => pure [c]
    | .inr ref => resolve_secret_ref B monotonic ref

mutual

def substitute_refs : Json → Resolve Json
  | .str s => .str <$> substitute B monotonic s
  | .obj items => .obj <$> substituteItems items
  | .arr xs => .arr <$> substituteList xs
  | .null => pure .null
  | .bool b => pure (.bool b)
  | .num x => pure (.num x)

def substituteItems : List (Str × Json) → Resolve (List (Str × Json))
  | [] => pure []
  | (k,v)::items => do
    let v ← substitute_refs v
    let items ← substituteItems items
    return (k,v)::items

def substituteList : List Json → Resolve (List Json)
  | [] => pure []
  | x::xs => do
    let x ← substitute_refs x
    let xs ← substituteList xs
    return x::xs

end

/-- The copy of the recipe is the recipe: values do not change. -/
def resolve_recipe_secrets (recipe : Items) : Resolve Items := substituteItems B monotonic recipe

end Resolve

end Secrets
end Dataspoke
