import Dataspoke.SecretAgreement
import Mathlib.Data.Char
import Mathlib.Data.List.Infix
import Mathlib.Data.List.Lex

/-!
# The references that are advertised

`list_refs` of the Kubernetes backend, and what becomes of a reference that it advertises: it
is matched on its first separator and split on its last.
-/

namespace Dataspoke
namespace Secrets

open Python Ingestion

/-- A Secret of the namespace and the keys of its data, whose values are never read. -/
structure Secret where
  name : Str
  data : Option (List Str)

structure SecretRefInfo where
  ref : Str
  secret_name : Str
  key : Str

def SOURCE_CRED_NAME_PREFIX : Str := "dataspoke-source-cred-".toList

/-- `_secret_name`. -/
def secretName (name : Str) : Str := SOURCE_CRED_NAME_PREFIX ++ name

/-- `f"{name_segment}__{key}"`. -/
def refOf (name key : Str) : Str := name ++ separator ++ key

def list_refs (secrets : List Secret) : List SecretRefInfo :=
  secrets.flatMap fun secret =>
    if SOURCE_CRED_NAME_PREFIX.isPrefixOf secret.name then
      ((secret.data.getD []).mergeSort fun k k' => decide (k ≤ k')).map fun key =>
        ⟨refOf (secret.name.drop SOURCE_CRED_NAME_PREFIX.length) key,secret.name,key⟩
    else []

/-- A label of a Kubernetes name: letters, digits and inner hyphens. -/
structure IsLabel (label : Str) : Prop where
  chars : ∀ c ∈ label, nameChar c = true
  head : ∃ c ∈ label.head?, c ≠ '-'
  last : ∃ c ∈ label.getLast?, c ≠ '-'

/-- A DNS subdomain, the names that Kubernetes admits for a Secret. -/
def IsSubdomain (name : Str) : Prop := name.length ≤ 253 ∧ ∀ label ∈ name.splitOn '.', IsLabel label

def IsDataKey (key : Str) : Prop := key ≠ [] ∧ ∀ c ∈ key, keyChar c = true

structure Admitted (secret : Secret) : Prop where
  name : IsSubdomain secret.name
  keys : ∀ key ∈ secret.data.getD [], IsDataKey key

theorem mem_list_refs {secrets : List Secret} {info : SecretRefInfo} :
    info ∈ list_refs secrets ↔ ∃ secret ∈ secrets, ∃ name key,
      secret.name = secretName name ∧ key ∈ secret.data.getD [] ∧
        info = ⟨refOf name key,secretName name,key⟩ := by
  rw [list_refs,List.mem_flatMap]
  refine exists_congr fun secret => and_congr_right fun _ => ?_
  constructor
  · intro h
    split at h
    next hp =>
      obtain ⟨name,hname⟩ := List.isPrefixOf_iff_prefix.mp hp
      obtain ⟨key,hkey,rfl⟩ := List.mem_map.mp h
      refine ⟨name,key,hname.symm,List.mem_mergeSort.mp hkey,?_⟩
      rw [← hname,List.drop_left]
      rfl
    next => cases h
  · rintro ⟨name,key,hname,hkey,rfl⟩
    have hp : SOURCE_CRED_NAME_PREFIX.isPrefixOf secret.name = true := by
      rw [List.isPrefixOf_iff_prefix,hname]
      exact List.prefix_append _ _
    rw [if_pos hp]
    refine List.mem_map.mpr ⟨key,List.mem_mergeSort.mpr hkey,?_⟩
    rw [hname,secretName,List.drop_left]

theorem mem_splitOn {a c : Char} {s : Str} (h : c ∈ s) : c = a ∨ ∃ l ∈ s.splitOn a, c ∈ l := by
  induction s with
  | nil => cases h
  | cons d s ih =>
    obtain ⟨l,ls,hls⟩ := List.exists_cons_of_ne_nil (List.splitOn_ne_nil a s)
    rw [List.splitOn_cons_eq_if_modifyHead]
    rw [hls] at ih ⊢
    split
    next hd =>
      rcases List.mem_cons.mp h with rfl | h
      · exact .inl (beq_iff_eq.mp hd)
      · exact (ih h).imp_right fun ⟨l',hl',hc⟩ => ⟨l',List.mem_cons_of_mem _ hl',hc⟩
    next =>
      rw [List.modifyHead_cons]
      rcases List.mem_cons.mp h with rfl | h
      · exact .inr ⟨c::l,by simp,by simp⟩
      rcases ih h with hc | ⟨l',hl',hc⟩
      · exact .inl hc
      · rcases List.mem_cons.mp hl' with rfl | hl'
        · exact .inr ⟨d::l',by simp,by simp [hc]⟩
        · exact .inr ⟨l',List.mem_cons_of_mem _ hl',hc⟩

theorem IsSubdomain.tail {name : Str} (h : IsSubdomain (secretName name)) :
    (∀ c ∈ name, c = '.' ∨ nameChar c = true) ∧ name ≠ [] := by
  obtain ⟨-,hlabels⟩ := h
  constructor
  · intro c hc
    have hmem : c ∈ secretName name := List.mem_append_right _ hc
    rcases mem_splitOn hmem with h | ⟨label,hlabel,hc⟩
    · exact .inl h
    · exact .inr ((hlabels label hlabel).chars c hc)
  · rintro rfl
    have hsplit : (secretName []).splitOn '.' = [secretName []] :=
      List.splitOn_eq_singleton (by decide)
    obtain ⟨c,hc,hne⟩ := (hlabels (secretName []) (by simp [hsplit])).last
    have hlast : (secretName []).getLast? = some '-' := by decide
    rw [hlast] at hc
    exact hne (Option.some.inj hc).symm

/-- `${ref}`. -/
def placeholder (ref : Str) : Str := '$' :: '\x7b' :: (ref ++ ['\x7d'])

theorem scanFrom_skip (skip : ℕ) (s : Str) : scanFrom skip s = scan (s.drop skip) := by
  induction s generalizing skip with
  | nil => cases skip <;> rfl
  | cons c s ih =>
    cases skip with
    | zero => rfl
    | succ skip => rw [scanFrom,List.drop_succ_cons,ih]

theorem takeWhile_stop {p : Char → Bool} {s t : Str} {d : Char} (hs : ∀ c ∈ s, p c = true)
    (hd : p d = false) : (s ++ d::t).takeWhile p = s ∧ (s ++ d::t).dropWhile p = d::t := by
  rw [List.takeWhile_append_of_pos hs,List.dropWhile_append_of_pos hs]
  simp [hd]

/-- The pattern matches the placeholder of a reference, its groups the name and the key. -/
theorem matchRef_placeholder {name key : Str} (hname : ∀ c ∈ name, nameChar c = true)
    (hne : name ≠ []) (hkey : IsDataKey key) (post : Str) :
    matchRef (placeholder (refOf name key) ++ post) = some (name,key,post) := by
  have hn := takeWhile_stop (t:= '_' :: (key ++ '\x7d' :: post)) hname
    (show nameChar '_' = false by decide)
  have hk := takeWhile_stop (t:=post) hkey.2 (show keyChar '\x7d' = false by decide)
  have htext : placeholder (refOf name key) ++ post =
      '$' :: '\x7b' :: (name ++ '_' :: '_' :: (key ++ '\x7d' :: post)) := by
    simp [placeholder,refOf,separator]
  rw [htext,matchRef]
  simp only [hn.1,hn.2,hk.1,hk.2]
  rw [if_neg (not_or.mpr ⟨hne,hkey.1⟩)]

theorem matchRef_dot {name : Str} (key : Str) (hname : ∀ c ∈ name, c = '.' ∨ nameChar c = true)
    (hdot : '.' ∈ name) : matchRef (placeholder (refOf name key)) = none := by
  have hne : name.dropWhile nameChar ≠ [] := by
    intro h
    have := List.dropWhile_eq_nil_iff.mp h '.' hdot
    exact absurd this (by decide)
  obtain ⟨d,rest,hrest⟩ := List.exists_cons_of_ne_nil hne
  have hd : nameChar d = false := by
    have := List.head?_dropWhile_not nameChar name
    simpa [hrest] using this
  have hmem : d ∈ name := (List.dropWhile_sublist nameChar).subset (by simp [hrest])
  obtain rfl : d = '.' := (hname d hmem).resolve_right (by simp [hd])
  have hsplit : name = name.takeWhile nameChar ++ '.'::rest := by
    rw [← hrest,List.takeWhile_append_dropWhile]
  have hn := takeWhile_stop (t:=rest ++ '_' :: '_' :: (key ++ ['\x7d']))
    (fun c (hc : c ∈ name.takeWhile nameChar) => List.mem_takeWhile_imp hc) hd
  have htext : placeholder (refOf name key) = '$' :: '\x7b' ::
      (name.takeWhile nameChar ++ '.' :: (rest ++ '_' :: '_' :: (key ++ ['\x7d']))) := by
    conv_lhs => rw [hsplit]
    simp [placeholder,refOf,separator]
  rw [htext,matchRef]
  simp only [hn.2]
  rfl

theorem takeWhile_dollar {p : Char → Bool} (hp : p '$' = false) (s t : Str) :
    (s ++ '$' :: t).takeWhile p = s.takeWhile p ∧
      (s ++ '$' :: t).dropWhile p = s.dropWhile p ++ '$' :: t := by
  induction s with
  | nil => simp [hp]
  | cons c s ih =>
    cases hc : p c with
    | true => simpa [hc] using ih
    | false => simp [hc]

/-- No reference runs over a dollar sign. -/
theorem matchRef_dollar {s t : Str} (hs : s ≠ []) :
    matchRef (s ++ '$' :: t) = (matchRef s).map fun r => (r.1,r.2.1,r.2.2 ++ '$' :: t) := by
  have hname := takeWhile_dollar (p:=nameChar) (by decide)
  have hkey := takeWhile_dollar (p:=keyChar) (by decide)
  obtain ⟨c,s,rfl⟩ := List.exists_cons_of_ne_nil hs
  by_cases hopen : c = '$' ∧ s.head? = some '\x7b'
  · obtain ⟨rfl,hhead⟩ := hopen
    obtain ⟨s,rfl⟩ : ∃ s', s = '\x7b' :: s' := by
      cases s with
      | nil => cases hhead
      | cons d s => exact ⟨s,by simpa using hhead⟩
    rw [List.cons_append,List.cons_append,matchRef,matchRef]
    simp only [(hname s t).1,(hname s t).2]
    rcases s.dropWhile nameChar with _ | ⟨a,_ | ⟨b,r⟩⟩
    · rfl
    · by_cases ha : a = '_'
      · rw [ha]
        rfl
      · simp [ha]
    · by_cases hab : a = '_' ∧ b = '_'
      · obtain ⟨rfl,rfl⟩ := hab
        simp only [List.cons_append,(hkey r t).1,(hkey r t).2]
        rcases r.dropWhile keyChar with _ | ⟨d,rest⟩
        · rfl
        · by_cases hd : d = '\x7d'
          · subst hd
            simp only [List.cons_append]
            split <;> rfl
          · simp [hd]
      · by_cases ha : a = '_'
        · have hb : b ≠ '_' := fun hb => hab ⟨ha,hb⟩
          simp [hb]
        · simp [ha]
  · by_cases hc : c = '$'
    · subst hc
      cases s with
      | nil => rfl
      | cons d s =>
        have hd : d ≠ '\x7b' := fun hd => hopen ⟨rfl,by rw [hd]; rfl⟩
        simp [matchRef,hd]
    · simp [matchRef,hc]

theorem scanFrom_dollar {skip : ℕ} {s : Str} (h : skip ≤ s.length) (t : Str) :
    scanFrom skip (s ++ '$' :: t) = scanFrom skip s ++ scan ('$' :: t) := by
  induction s generalizing skip with
  | nil =>
    obtain rfl : skip = 0 := by simpa using h
    rfl
  | cons c s ih =>
    cases skip with
    | succ skip => exact ih (by simpa using h)
    | zero =>
      have hmatch := matchRef_dollar (s:=c::s) (t:=t) (by simp)
      rw [List.cons_append] at hmatch
      rw [List.cons_append,scanFrom,scanFrom,hmatch]
      cases matchRef (c::s) with
      | none => exact congrArg (.inl c::·) (ih (Nat.zero_le _))
      | some r =>
        have hlen : (s ++ '$' :: t).length-(r.2.2 ++ '$' :: t).length =
            s.length-r.2.2.length := by
          simp only [List.length_append,List.length_cons]
          omega
        simp only [Option.map_some,hlen,List.cons_append]
        rw [ih (Nat.sub_le _ _)]

/-- A placeholder in a text is one reference of it. -/
theorem scan_placeholder {name key : Str} (hname : ∀ c ∈ name, nameChar c = true)
    (hne : name ≠ []) (hkey : IsDataKey key) (pre post : Str) :
    scan (pre ++ placeholder (refOf name key) ++ post) =
      scan pre ++ .inr (refOf name key)::scan post := by
  have hmatch := matchRef_placeholder hname hne hkey post
  have hdrop : ('\x7b' :: (refOf name key ++ ['\x7d']) ++ post).drop
      (('\x7b' :: (refOf name key ++ ['\x7d']) ++ post).length-post.length) = post := by
    rw [List.length_append,Nat.add_sub_cancel,List.drop_left]
  rw [List.append_assoc,placeholder,List.cons_append,scan,scanFrom_dollar (Nat.zero_le _)]
  refine congrArg (scan pre ++ ·) ?_
  rw [placeholder,List.cons_append] at hmatch
  rw [scan,scanFrom,hmatch]
  simp only [scanFrom_skip,hdrop]
  rfl

theorem refsOf_nil_of_dollar {s : Str} (h : '$' ∉ s) : refsOf s = [] := by
  induction s with
  | nil => rfl
  | cons c s ih =>
    obtain ⟨hc,hs⟩ := not_or.mp (List.mem_cons.not.mp h)
    have hmatch : matchRef (c::s) = none := by simp [matchRef,Ne.symm hc]
    rw [refsOf,scan,scanFrom,hmatch]
    exact ih hs

/-- A placeholder that is not matched holds no reference: its dollar sign is the only one. -/
theorem refsOf_dot {name key : Str} (hname : ∀ c ∈ name, c = '.' ∨ nameChar c = true)
    (hdot : '.' ∈ name) (hkey : IsDataKey key) : refsOf (placeholder (refOf name key)) = [] := by
  have hmatch := matchRef_dot key hname hdot
  have hnone : '$' ∉ '\x7b' :: (refOf name key ++ ['\x7d']) := by
    simp only [refOf,separator,List.mem_cons,List.mem_append,List.not_mem_nil,or_false]
    rintro (h | ((h | h) | h) | h)
    · cases h
    · exact absurd (hname _ h) (by decide)
    · exact absurd h (by decide)
    · exact absurd (hkey.2 _ h) (by decide)
    · cases h
  rw [placeholder] at hmatch ⊢
  rw [refsOf,scan,scanFrom,hmatch]
  exact refsOf_nil_of_dollar hnone

theorem refsOf_placeholder {name key : Str} (hname : ∀ c ∈ name, nameChar c = true)
    (hne : name ≠ []) (hkey : IsDataKey key) (pre post : Str) :
    refsOf (pre ++ placeholder (refOf name key) ++ post) =
      refsOf pre ++ refOf name key::refsOf post := by
  rw [refsOf,scan_placeholder hname hne hkey]
  simp [refsOf]

theorem splitLastSeparator_eq_none {s : Str} :
    splitLastSeparator s = none ↔ ¬ separator <:+: s := by
  induction s with
  | nil => simp [splitLastSeparator,separator]
  | cons c s ih =>
    rw [splitLastSeparator,List.infix_cons_iff,not_or,← ih]
    cases hs : splitLastSeparator s with
    | some p => simp
    | none => simp [List.isPrefixOf_iff_prefix]

/-- The split is the one that was joined if no separator ends in the key. -/
theorem splitLastSeparator_refOf {name key : Str} (h : ¬ separator <:+: '_'::key) :
    splitLastSeparator (refOf name key) = some (name,key) := by
  induction name with
  | nil =>
    have hnone := splitLastSeparator_eq_none.mpr h
    show splitLastSeparator ('_' :: '_' :: key) = some ([],key)
    rw [splitLastSeparator,hnone]
    rfl
  | cons c name ih =>
    show splitLastSeparator (c::refOf name key) = some (c::name,key)
    rw [splitLastSeparator,ih]

/-- Otherwise the name ends behind the separator. -/
theorem splitLastSeparator_late (name : Str) {key : Str} (h : separator <:+: '_'::key) :
    ∃ name' key', splitLastSeparator (refOf name key) = some (name',key') ∧
      name.length < name'.length := by
  induction name with
  | nil =>
    obtain ⟨p,hp⟩ : ∃ p, splitLastSeparator ('_'::key) = some p :=
      Option.ne_none_iff_exists'.mp fun hn => splitLastSeparator_eq_none.mp hn h
    refine ⟨'_'::p.1,p.2,?_,by simp⟩
    show splitLastSeparator ('_' :: '_' :: key) = _
    rw [splitLastSeparator,hp]
  | cons c name ih =>
    obtain ⟨name',key',hsplit,hlt⟩ := ih
    refine ⟨c::name',key',?_,by simpa using hlt⟩
    show splitLastSeparator (c::refOf name key) = _
    rw [splitLastSeparator,hsplit]

theorem parse_refOf {name key : Str} (hname : name ≠ []) (hkey : key ≠ []) :
    parse_name_key (refOf name key) = .ok (name,key) ↔ ¬ separator <:+: '_'::key := by
  by_cases h : separator <:+: '_'::key
  · obtain ⟨name',key',hsplit,hlt⟩ := splitLastSeparator_late name h
    refine iff_of_false ?_ (not_not.mpr h)
    rw [parse_name_key,hsplit]
    intro he
    simp only at he
    split at he
    · cases he
    · cases he
      exact absurd hlt (lt_irrefl _)
  · refine iff_of_true ?_ h
    rw [parse_name_key,splitLastSeparator_refOf h]
    simp [hname,hkey]

/-- `s` is one of the texts in a value. -/
inductive Leaf (s : Str) : Json → Prop
  | str : Leaf s (.str s)
  | obj {items : List (Str × Json)} {k : Str} {v : Json} :
      (k,v) ∈ items → Leaf s v → Leaf s (.obj items)
  | arr {xs : List Json} {x : Json} : x ∈ xs → Leaf s x → Leaf s (.arr xs)

theorem mem_collectItems {items : List (Str × Json)} {k : Str} {v : Json} {ref : Str}
    (h : (k,v) ∈ items) (hr : ref ∈ collect_refs v) : ref ∈ collectItems items := by
  induction items with
  | nil => cases h
  | cons item items ih =>
    rw [collectItems]
    rcases List.mem_cons.mp h with rfl | h
    · exact List.mem_append_left _ hr
    · exact List.mem_append_right _ (ih h)

theorem mem_collectList {xs : List Json} {x : Json} {ref : Str} (h : x ∈ xs)
    (hr : ref ∈ collect_refs x) : ref ∈ collectList xs := by
  induction xs with
  | nil => cases h
  | cons y xs ih =>
    rw [collectList]
    rcases List.mem_cons.mp h with rfl | h
    · exact List.mem_append_left _ hr
    · exact List.mem_append_right _ (ih h)

theorem Leaf.collected {s ref : Str} {t : Json} (h : Leaf s t) (hr : ref ∈ refsOf s) :
    ref ∈ collect_refs t := by
  induction h with
  | str => exact hr
  | obj hmem _ ih => exact mem_collectItems hmem ih
  | arr hmem _ ih => exact mem_collectList hmem ih

/-- In whatever text of a recipe its placeholder stands, the reference is recognised, is
extracted, and is verified and resolved as the key of the Secret with the name. -/
structure Addresses (ref name key : Str) : Prop where
  recognised : ∀ pre post,
    refsOf (pre ++ placeholder ref ++ post) = refsOf pre ++ ref::refsOf post
  extracted : ∀ (recipe : Items) (source_type : Str) (config : Items) (pre post : Str),
    parse_recipe recipe = .ok (source_type,config) →
      Leaf (pre ++ placeholder ref ++ post) (.obj config) → ref ∈ extract_secret_refs recipe
  verified : ∀ B : Backend,
    verify_secret_ref B ref = (B.verify name key).map fun _ => (name,key)
  resolved : ∀ (B : Backend) (monotonic : ℕ → ℕ) (pre post : Str),
    substitute B monotonic (pre ++ placeholder ref ++ post) = do
      let before ← substitute B monotonic pre
      let value ← ExceptT.mk (lookup B monotonic (name,key))
      let after ← substitute B monotonic post
      return before ++ value ++ after

theorem resolve_of_parse {ref name key : Str} (h : parse_name_key ref = .ok (name,key))
    (B : Backend) (monotonic : ℕ → ℕ) :
    resolve_secret_ref B monotonic ref = ExceptT.mk (lookup B monotonic (name,key)) := by
  unfold resolve_secret_ref
  simp only [h]

theorem verify_of_parse {ref name key : Str} (h : parse_name_key ref = .ok (name,key))
    (B : Backend) : verify_secret_ref B ref = (B.verify name key).map fun _ => (name,key) := by
  unfold verify_secret_ref
  rw [h]
  show (B.verify name key >>= fun _ => pure (name,key)) = _
  cases B.verify name key <;> rfl

theorem substitute_of_scan {pre post s ref : Str} (h : scan s = scan pre ++ .inr ref::scan post)
    (B : Backend) (monotonic : ℕ → ℕ) :
    substitute B monotonic s = do
      let before ← substitute B monotonic pre
      let value ← resolve_secret_ref B monotonic ref
      let after ← substitute B monotonic post
      return before ++ value ++ after := by
  unfold substitute
  rw [h,List.mapM_append,List.mapM_cons]
  simp

/-- An advertised reference addresses the Secret and the key that it is advertised for
exactly if the name has no dot and no separator ends in the key. -/
theorem advertised_addresses (secrets : List Secret) (info : SecretRefInfo) (name key : Str)
    (hadmitted : ∀ secret ∈ secrets, Admitted secret) (hinfo : info ∈ list_refs secrets)
    (hname : info.secret_name = secretName name) (hkey : info.key = key) :
    Addresses info.ref name key ↔ '.' ∉ name ∧ ¬ separator <:+: '_'::key := by
  obtain ⟨secret,hsecret,name',key',hsn,hdata,rfl⟩ := mem_list_refs.mp hinfo
  obtain rfl : name' = name := List.append_cancel_left hname
  obtain rfl : key' = key := hkey
  have hadm := hadmitted secret hsecret
  have hvalid := hadm.keys _ hdata
  obtain ⟨hchars,hne⟩ := IsSubdomain.tail (hsn ▸ hadm.name)
  have hparse := parse_refOf hne hvalid.1
  constructor
  · intro h
    constructor
    · intro hdot
      have := h.recognised [] []
      rw [List.nil_append,List.append_nil,refsOf_dot hchars hdot hvalid] at this
      exact absurd this (by simp [refsOf,scan,scanFrom])
    · refine hparse.mp ?_
      have := h.verified answering
      exact verify_secret_ref_ok this
  · rintro ⟨hdot,hsep⟩
    have hp := hparse.mpr hsep
    have hplain : ∀ c ∈ name', nameChar c = true := fun c hc =>
      (hchars c hc).resolve_left fun he => hdot (he ▸ hc)
    have href := refsOf_placeholder hplain hne hvalid
    refine ⟨href,?_,verify_of_parse hp,?_⟩
    · intro recipe source_type config pre post hrecipe hleaf
      have hmem : refOf name' key' ∈ refsOf (pre ++ placeholder (refOf name' key') ++ post) := by
        rw [href]
        simp
      rw [extract_secret_refs,hrecipe]
      exact hleaf.collected hmem
    · intro B monotonic pre post
      rw [substitute_of_scan (scan_placeholder hplain hne hvalid pre post),resolve_of_parse hp]

theorem isSubdomain_a : IsSubdomain (secretName ['a']) := by
  have hsplit : (secretName ['a']).splitOn '.' = [secretName ['a']] :=
    List.splitOn_eq_singleton (by decide)
  have hall : (secretName ['a']).all nameChar = true := by decide
  refine ⟨by decide,fun label hlabel => ?_⟩
  rw [hsplit,List.mem_singleton] at hlabel
  subst hlabel
  exact ⟨List.all_eq_true.mp hall,⟨'d',by decide,by decide⟩,⟨'a',by decide,by decide⟩⟩

def credA (key : Str) : Secret := ⟨secretName ['a'],some [key]⟩

theorem credA_admitted {key : Str} (hne : key ≠ []) (hall : key.all keyChar = true) :
    ∀ secret ∈ [credA key], Admitted secret := by
  intro secret hsecret
  obtain rfl := List.mem_singleton.mp hsecret
  refine ⟨isSubdomain_a,fun k hk => ?_⟩
  obtain rfl : k = key := List.mem_singleton.mp hk
  exact ⟨hne,List.all_eq_true.mp hall⟩

theorem credA_listed (key : Str) :
    ⟨refOf ['a'] key,secretName ['a'],key⟩ ∈ list_refs [credA key] :=
  mem_list_refs.mpr ⟨credA key,by simp,['a'],key,rfl,by simp [credA],rfl⟩

theorem advertised_addresses_credA :
    ⟨refOf ['a'] ['b'],secretName ['a'],['b']⟩ ∈ list_refs [credA ['b']] ∧
      Addresses (refOf ['a'] ['b']) ['a'] ['b'] :=
  ⟨credA_listed ['b'],(advertised_addresses [credA ['b']] ⟨refOf ['a'] ['b'],secretName ['a'],['b']⟩
    ['a'] ['b'] (credA_admitted (by decide) (by decide)) (credA_listed ['b']) rfl rfl).mpr
      ⟨by decide,by decide⟩⟩

/-- The reference of the key `b__c` is read as that of the key `c` of another Secret. -/
theorem separator_in_key_readdressed :
    (∀ secret ∈ [credA ['b','_','_','c']], Admitted secret) ∧
      ⟨refOf ['a'] ['b','_','_','c'],secretName ['a'],['b','_','_','c']⟩ ∈
        list_refs [credA ['b','_','_','c']] ∧
      (∀ B, verify_secret_ref B (refOf ['a'] ['b','_','_','c']) =
        (B.verify ['a','_','_','b'] ['c']).map fun _ => (['a','_','_','b'],['c'])) ∧
      ¬ Addresses (refOf ['a'] ['b','_','_','c']) ['a'] ['b','_','_','c'] := by
  refine ⟨credA_admitted (by decide) (by decide),credA_listed _,verify_of_parse rfl,?_⟩
  intro h
  have hparse := verify_secret_ref_ok (h.verified answering)
  cases hparse

end Secrets
end Dataspoke
