import Dataspoke.SweepMapping

/-!
# What a recipe covers

The patterns that a recipe declares and the names that they cover, against the matcher that
`build_matcher_checked` builds and the reason it gives where it builds none.
-/

namespace Dataspoke
namespace Ingestion

open Python

section Patterns

def texts (patterns : List Str) : Json := .arr (patterns.map .str)

def strings : Json → List Str
  | .arr xs => xs.filterMap fun x => match x with
    | .str s => some s
    | _ => none
  | _ => []

@[simp] theorem strings_texts (patterns : List Str) : strings (texts patterns) = patterns := by
  induction patterns with
  | nil => rfl
  | cons p patterns ih => simp [strings,texts]

def allowOf (v : Json) : List Str := ((allowAndDeny v).map fun p => strings p.1).getD []

def denyOf (v : Json) : List Str := ((allowAndDeny v).map fun p => strings p.2).getD []

/-- A mapping whose `allow` and `deny`, where it has them, are lists of strings. -/
def Shaped (v : Json) : Prop := ∃ allow deny, allowAndDeny v = some (texts allow,texts deny)

/-- The pattern values that the first key present selects. -/
def selected (config : Items) : List (Str × Json) :=
  match get? schemaPatternKey config, get? tablePatternKey config with
  | some schema, some table => [(schemaPatternKey,schema),(tablePatternKey,table)]
  | some schema, none => [(schemaPatternKey,schema)]
  | none, some table => [(tablePatternKey,table)]
  | none, none =>
    match get? topicPatternsKey config, get? datasetPatternKey config with
    | some topic, _ => [(topicPatternsKey,topic)]
    | none, some dataset => [(datasetPatternKey,dataset)]
    | none, none => []

/-- The recipe cannot be parsed, or a selected pattern value is not of the declared shape. -/
def Malformed (recipe : Items) : Prop :=
  match parse_recipe recipe with
  | .error _ => True
  | .ok (_,config) => ∃ kv ∈ selected config, ¬ Shaped kv.2

variable (matching : Str → Str → Bool)

/-- The name matches a pattern of `allow` and none of `deny`. -/
def passes (v : Json) (name : Str) : Bool :=
  (allowOf v).any (matching · name) && !(denyOf v).any (matching · name)

/-- Some form of a topic matches a pattern of `allow`, and none one of `deny`. -/
def passesTopic (v : Json) (name : Str) : Bool :=
  ((topicForms name).any fun form => (allowOf v).any (matching · form)) &&
    !(topicForms name).any fun form => (denyOf v).any (matching · form)

/-- The selected patterns cover the name. -/
def covers (config : Items) (name : Str) : Bool :=
  match get? schemaPatternKey config, get? tablePatternKey config with
  | some schema, some table =>
    passes matching schema (schemaSegment name) && passes matching table name
  | some schema, none => passes matching schema (schemaSegment name)
  | none, some table => passes matching table name
  | none, none =>
    match get? topicPatternsKey config, get? datasetPatternKey config with
    | some topic, _ => passesTopic matching topic name
    | none, some dataset => passes matching dataset name
    | none, none => false

/-- The database gate lets the name through. -/
def gateOpen (required : Option Str) (name : Str) : Bool :=
  required.all fun pfx => pfx.isPrefixOf name

/-- What the SDK documents of `AllowDenyPattern`: two lists of strings, and a name is allowed
if it matches a pattern of the first and none of the second. -/
structure Sdk (env : Runtime) : Prop where
  allowed : ∀ adp ∈ env.allowDenyPattern, ∀ allow deny,
    (∀ p ∈ allow ++ deny, env.re_compile p = true) → adp (texts allow) (texts deny) =
      some fun name => some (allow.any (matching · name) && !deny.any (matching · name))
  refused : ∀ adp ∈ env.allowDenyPattern, ∀ allow deny,
    (¬ ∃ ps, allow = texts ps) ∨ (¬ ∃ ps, deny = texts ps) → adp allow deny = none

end Patterns

section Build

variable {env : Runtime} {matching : Str → Str → Bool}

theorem precompile_texts (patterns : List Str) :
    precompile env (texts patterns) = true ↔ ∀ p ∈ patterns, env.re_compile p = true := by
  simp [precompile,texts]

/-- Where the SDK accepts the lists, they are lists of strings that compile. -/
theorem Sdk.lists (h : Sdk matching env) {adp : Json → Json → Option Matcher}
    (hadp : adp ∈ env.allowDenyPattern) {allow deny : Json} {m : Matcher}
    (hm : adp allow deny = some m) (ha : precompile env allow = true)
    (hd : precompile env deny = true) : ∃ as ds, allow = texts as ∧ deny = texts ds ∧
      m = fun name => some (as.any (matching · name) && !ds.any (matching · name)) := by
  have hlists : (∃ ps, allow = texts ps) ∧ ∃ ps, deny = texts ps := by
    by_contra hnot
    rw [h.refused adp hadp allow deny (not_and_or.mp hnot)] at hm
    cases hm
  obtain ⟨⟨as,rfl⟩,ds,rfl⟩ := hlists
  refine ⟨as,ds,rfl,rfl,?_⟩
  have hcompile : ∀ p ∈ as ++ ds, env.re_compile p = true :=
    List.forall_mem_append.mpr ⟨(precompile_texts as).mp ha,(precompile_texts ds).mp hd⟩
  rw [h.allowed adp hadp as ds hcompile] at hm
  exact (Option.some.inj hm).symm

theorem anyForm_total (p : Str → Bool) (forms : List Str) :
    anyForm (fun form => some (p form)) forms = some (forms.any p) := by
  induction forms with
  | nil => rfl
  | cons form forms ih =>
    rw [anyForm,ih]
    cases h : p form <;> simp [h]

theorem makeAdp_some (h : Sdk matching env) {adp : Json → Json → Option Matcher}
    (hadp : adp ∈ env.allowDenyPattern) {v : Json} {m : Matcher}
    (hm : makeAdp env adp v = some m) :
    Shaped v ∧ m = fun name => some (passes matching v name) := by
  obtain ⟨⟨allow,deny⟩,hv,hm⟩ := Option.bind_eq_some_iff.mp hm
  dsimp only at hm
  split_ifs at hm with hcompile
  obtain ⟨ha,hd⟩ := Bool.and_eq_true_iff.mp hcompile
  obtain ⟨as,ds,rfl,rfl,rfl⟩ := h.lists hadp hm ha hd
  refine ⟨⟨as,ds,hv⟩,?_⟩
  simp [passes,allowOf,denyOf,hv]

theorem Sdk.allow_list (h : Sdk matching env) {adp : Json → Json → Option Matcher}
    (hadp : adp ∈ env.allowDenyPattern) {allow : Json} {m : Matcher}
    (hm : adp allow (.arr []) = some m) (ha : precompile env allow = true) :
    ∃ as, allow = texts as ∧ m = fun name => some (as.any (matching · name)) := by
  obtain ⟨as,ds,rfl,hds,rfl⟩ := h.lists hadp hm ha rfl
  have hnil : strings (.arr []) = strings (texts ds) := congrArg strings hds
  rw [strings_texts] at hnil
  obtain rfl : ds = [] := hnil.symm
  exact ⟨as,rfl,by simp⟩

/-- A falsy value that compiles as a pattern list is empty. -/
theorem empty_of_falsy {deny : Json} (hd : precompile env deny = true)
    (hf : truthy deny = false) : deny = .arr [] ∨ deny = .str [] ∨ deny = .obj [] := by
  cases deny with
  | arr xs => cases xs with
    | nil => exact .inl rfl
    | cons _ _ => cases hf
  | str s => cases s with
    | nil => exact .inr (.inl rfl)
    | cons _ _ => cases hf
  | obj items => cases items with
    | nil => exact .inr (.inr rfl)
    | cons _ _ => cases hf
  | null | bool _ | num _ => cases hd

/-- Of a topic key the allow list is checked, and the deny list unless it is falsy. -/
theorem topicMatcher_some (h : Sdk matching env) {adp : Json → Json → Option Matcher}
    (hadp : adp ∈ env.allowDenyPattern) {v : Json} {m : Matcher}
    (hm : topicMatcher env adp v = some m) :
    (∃ as deny, allowAndDeny v = some (texts as,deny) ∧ (∀ p ∈ as, env.re_compile p = true) ∧
      ((∃ ds, deny = texts ds) ∨ deny = .str [] ∨ deny = .obj [])) ∧
    m = fun name => some (passesTopic matching v name) := by
  obtain ⟨⟨allow,deny⟩,hv,hm⟩ := Option.bind_eq_some_iff.mp hm
  dsimp only at hm
  split_ifs at hm with hcompile htruthy
  · obtain ⟨ha,hd⟩ := Bool.and_eq_true_iff.mp hcompile
    obtain ⟨a,hallow,hm⟩ := Option.bind_eq_some_iff.mp hm
    obtain ⟨d,hdeny,rfl⟩ := Option.map_eq_some_iff.mp hm
    obtain ⟨as,rfl,rfl⟩ := h.allow_list hadp hallow ha
    obtain ⟨ds,rfl,rfl⟩ := h.allow_list hadp hdeny hd
    refine ⟨⟨as,_,hv,(precompile_texts as).mp ha,.inl ⟨ds,rfl⟩⟩,?_⟩
    funext name
    simp only [both,anyForm_total,Option.bind_some,Option.map_some,passesTopic,allowOf,denyOf,hv,
      strings_texts,Option.getD_some]
    cases (topicForms name).any fun form => as.any (matching · form) <;> rfl
  · obtain ⟨ha,hd⟩ := Bool.and_eq_true_iff.mp hcompile
    obtain ⟨a,hallow,hm⟩ := Option.bind_eq_some_iff.mp hm
    obtain ⟨as,rfl,rfl⟩ := h.allow_list hadp hallow ha
    have hempty := empty_of_falsy hd (Bool.eq_false_iff.mpr htruthy)
    have hnone : strings deny = [] := by rcases hempty with rfl | rfl | rfl <;> rfl
    refine ⟨⟨as,deny,hv,(precompile_texts as).mp ha,hempty.imp_left fun he => ⟨[],he⟩⟩,?_⟩
    rw [← Option.some.inj hm]
    funext name
    simp [anyForm_total,passesTopic,allowOf,denyOf,hv,hnone]

/-- A topic value whose allow list is sound and whose deny is empty, but not a list. -/
def BlankDeny (env : Runtime) (v : Json) : Prop :=
  ∃ as deny, allowAndDeny v = some (texts as,deny) ∧ (∀ p ∈ as, env.re_compile p = true) ∧
    (deny = .str [] ∨ deny = .obj [])

/-- What the construction checks of the selected values. -/
def Checked (env : Runtime) (kv : Str × Json) : Prop :=
  Shaped kv.2 ∨ kv.1 = topicPatternsKey ∧ BlankDeny env kv.2

/-- The matcher over the selected patterns covers what they cover, and there is none if nothing
is selected. -/
theorem patternMatcher_ok (h : Sdk matching env) {adp : Json → Json → Option Matcher}
    (hadp : adp ∈ env.allowDenyPattern) {config : Items} {built : Option Matcher}
    (hm : patternMatcher env adp config = .ok built) :
    (∀ kv ∈ selected config, Checked env kv) ∧
    built = if selected config = [] then none
      else some fun name => some (covers matching config name) := by
  rw [patternMatcher] at hm
  cases hs : get? schemaPatternKey config with
  | some schema =>
    cases ht : get? tablePatternKey config with
    | some table =>
      simp only [hs,ht,Option.map_some] at hm
      cases hms : makeAdp env adp schema with
      | none => simp [hms] at hm
      | some a =>
        cases hmt : makeAdp env adp table with
        | none => simp [hms,hmt] at hm
        | some b =>
          simp only [hms,hmt,Except.ok.injEq] at hm
          obtain ⟨hshape,rfl⟩ := makeAdp_some h hadp hms
          obtain ⟨hshape',rfl⟩ := makeAdp_some h hadp hmt
          constructor
          · simp only [selected,hs,ht,List.forall_mem_cons]
            exact ⟨.inl hshape,.inl hshape',nofun⟩
          · simp only [selected,covers,hs,ht,← hm]
            congr 1
            funext name
            simp only [both,Option.bind_some]
            cases passes matching schema (schemaSegment name) <;> rfl
    | none =>
      simp only [hs,ht,Option.map_none] at hm
      cases hms : makeAdp env adp schema with
      | none => simp [hms] at hm
      | some a =>
        simp only [hms,Except.ok.injEq] at hm
        obtain ⟨hshape,rfl⟩ := makeAdp_some h hadp hms
        constructor
        · simp only [selected,hs,ht,List.forall_mem_cons]
          exact ⟨.inl hshape,nofun⟩
        · simp [selected,covers,hs,ht,← hm]
  | none =>
    cases ht : get? tablePatternKey config with
    | some table =>
      simp only [hs,ht] at hm
      cases hmt : makeAdp env adp table with
      | none => simp [hmt] at hm
      | some b =>
        simp only [hmt,Except.ok.injEq] at hm
        obtain ⟨hshape,rfl⟩ := makeAdp_some h hadp hmt
        constructor
        · simp only [selected,hs,ht,List.forall_mem_cons]
          exact ⟨.inl hshape,nofun⟩
        · simp [selected,covers,hs,ht,← hm]
    | none =>
      cases htopic : get? topicPatternsKey config with
      | some topic =>
        simp only [hs,ht,htopic] at hm
        cases hmt : topicMatcher env adp topic with
        | none => simp [hmt] at hm
        | some m =>
          simp only [hmt,Except.ok.injEq] at hm
          obtain ⟨⟨as,deny,hv,hcompile,hdeny⟩,rfl⟩ := topicMatcher_some h hadp hmt
          constructor
          · simp only [selected,hs,ht,htopic,List.forall_mem_cons]
            refine ⟨?_,nofun⟩
            rcases hdeny with ⟨ds,rfl⟩ | hdeny
            · exact .inl ⟨as,ds,hv⟩
            · exact .inr ⟨rfl,as,deny,hv,hcompile,hdeny⟩
          · simp [selected,covers,hs,ht,htopic,← hm]
      | none =>
        cases hd : get? datasetPatternKey config with
        | some dataset =>
          simp only [hs,ht,htopic,hd] at hm
          cases hmd : makeAdp env adp dataset with
          | none => simp [hmd] at hm
          | some m =>
            simp only [hmd,Except.ok.injEq] at hm
            obtain ⟨hshape,rfl⟩ := makeAdp_some h hadp hmd
            constructor
            · simp only [selected,hs,ht,htopic,hd,List.forall_mem_cons]
              exact ⟨.inl hshape,nofun⟩
            · simp [selected,covers,hs,ht,htopic,hd,← hm]
        | none =>
          simp only [hs,ht,htopic,hd,Except.ok.injEq] at hm
          simp [selected,hs,ht,htopic,hd,← hm]

end Build

section Selection

theorem selected_eq_nil {config : Items} :
    selected config = [] ↔ ∀ key ∈ selectionPatternCascade, get? key config = none := by
  simp only [selected,selectionPatternCascade,List.forall_mem_cons]
  cases get? schemaPatternKey config <;> cases get? tablePatternKey config <;>
    cases get? topicPatternsKey config <;> cases get? datasetPatternKey config <;> simp

theorem topicKey_ne : topicPatternsKey ≠ schemaPatternKey ∧ topicPatternsKey ≠ tablePatternKey ∧
    topicPatternsKey ≠ datasetPatternKey := by decide

/-- The topic key is selected alone, and only without a schema or a table key. -/
theorem mem_selected_topic {config : Items} {topic : Json}
    (h : (topicPatternsKey,topic) ∈ selected config) :
    get? schemaPatternKey config = none ∧ get? tablePatternKey config = none ∧
      get? topicPatternsKey config = some topic ∧
      selected config = [(topicPatternsKey,topic)] := by
  obtain ⟨hschema,htable,hdataset⟩ := topicKey_ne
  unfold selected at h ⊢
  cases hs : get? schemaPatternKey config with
  | some _ => cases ht : get? tablePatternKey config <;> simp [hs,ht,hschema,htable] at h
  | none => cases ht : get? tablePatternKey config with
    | some _ => simp [hs,ht,htable] at h
    | none => cases htopic : get? topicPatternsKey config with
      | some v =>
        obtain rfl : topic = v := by simpa [hs,ht,htopic] using h
        exact ⟨rfl,rfl,rfl,rfl⟩
      | none => cases hd : get? datasetPatternKey config <;>
          simp [hs,ht,htopic,hd,hdataset] at h

/-- The first key of the cascade is the first one selected. -/
theorem first_selected (config : Items) :
    selectionPatternCascade.findSome? (fun key => get? key config) =
      (selected config).head?.map Prod.snd := by
  simp only [selected,selectionPatternCascade,List.findSome?_cons,List.findSome?_nil]
  cases get? schemaPatternKey config <;> cases get? tablePatternKey config <;>
    cases get? topicPatternsKey config <;> cases get? datasetPatternKey config <;> rfl

theorem covers_nothing (matching : Str → Str → Bool) {config : Items}
    (h : selected config = []) (name : Str) : covers matching config name = false := by
  have hnone := selected_eq_nil.mp h
  simp only [selectionPatternCascade,List.forall_mem_cons] at hnone
  obtain ⟨hs,ht,htopic,hd,-⟩ := hnone
  simp [covers,hs,ht,htopic,hd]

theorem Checked.mapping {env : Runtime} {kv : Str × Json} (h : Checked env kv) :
    ∃ items, kv.2 = .obj items := by
  have hsome : ∃ p, allowAndDeny kv.2 = some p := by
    rcases h with ⟨allow,deny,h⟩ | ⟨-,as,deny,h,-⟩
    · exact ⟨_,h⟩
    · exact ⟨_,h⟩
  obtain ⟨p,hp⟩ := hsome
  cases hv : kv.2 with
  | obj items => exact ⟨items,rfl⟩
  | null | bool _ | num _ | str _ | arr _ => simp [hv,allowAndDeny] at hp

variable {env : Runtime} {matching : Str → Str → Bool}

/-- Without a reason the recipe was read, its selected values were checked, and the matcher
decides every name. -/
theorem build_matcher_checked_none (h : Sdk matching env) {recipe : Items}
    (hn : (build_matcher_checked env recipe).2 = none) :
    ∃ source_type config, parse_recipe recipe = .ok (source_type,config) ∧
      (∀ kv ∈ selected config, Checked env kv) ∧
      ∀ name, (build_matcher_checked env recipe).1 name =
        some (gateOpen (databasePrefix env source_type config) name &&
          covers matching config name) := by
  obtain ⟨source_type,config,hparse⟩ := parse_recipe_ok_of_checked hn
  refine ⟨source_type,config,hparse,?_⟩
  rw [build_matcher_checked,hparse] at hn ⊢
  cases hadp : env.allowDenyPattern with
  | none =>
    simp only [hadp] at hn ⊢
    split_ifs at hn ⊢ with hkeys
    have hnil : selected config = [] := by
      rw [selected_eq_nil]
      intro key hkey
      by_contra hsome
      exact hkeys (List.any_eq_true.mpr ⟨key,hkey,Option.isSome_iff_ne_none.mpr hsome⟩)
    rw [hnil]
    refine ⟨fun _ hkv => absurd hkv List.not_mem_nil,fun name => ?_⟩
    rw [covers_nothing matching hnil,Bool.and_false]
    rfl
  | some adp =>
    simp only [hadp] at hn ⊢
    cases hm : patternMatcher env adp config with
    | error key => simp [hm] at hn
    | ok built =>
      obtain ⟨hchecked,hbuilt⟩ := patternMatcher_ok h hadp hm
      refine ⟨hchecked,fun name => ?_⟩
      by_cases hnil : selected config = []
      · rw [if_pos hnil] at hbuilt
        rw [hbuilt,covers_nothing matching hnil,Bool.and_false]
        rfl
      · rw [if_neg hnil] at hbuilt
        simp only [hbuilt]
        cases databasePrefix env source_type config with
        | none => simp [gate,gateOpen]
        | some pfx =>
          simp only [gate,gateOpen,Option.all_some]
          split_ifs with hpfx <;> simp [hpfx]

end Selection

section Wider

variable {matching : Str → Str → Bool}

/-- The value covers at most what the other one does: it allows less and denies more. -/
def Narrower (v w : Json) : Prop := allowOf v ⊆ allowOf w ∧ denyOf w ⊆ denyOf v

theorem any_mono {α : Type*} {xs ys : List α} {p : α → Bool} (h : xs ⊆ ys)
    (hx : xs.any p = true) : ys.any p = true := by
  obtain ⟨x,hmem,hp⟩ := List.any_eq_true.mp hx
  exact List.any_eq_true.mpr ⟨x,h hmem,hp⟩

theorem passes_mono {v w : Json} (h : Narrower v w) {name : Str}
    (hv : passes matching v name = true) : passes matching w name = true := by
  rw [passes,Bool.and_eq_true,Bool.not_eq_true'] at hv ⊢
  refine ⟨any_mono h.1 hv.1,?_⟩
  by_contra hdeny
  rw [any_mono h.2 (by simpa using hdeny)] at hv
  cases hv.2

theorem passesTopic_mono {v w : Json} (h : Narrower v w) {name : Str}
    (hv : passesTopic matching v name = true) : passesTopic matching w name = true := by
  rw [passesTopic,Bool.and_eq_true,Bool.not_eq_true',List.any_eq_true,List.any_eq_false] at hv ⊢
  obtain ⟨⟨form,hform,hallow⟩,hdeny⟩ := hv
  refine ⟨⟨form,hform,any_mono h.1 hallow⟩,fun f hf hw => ?_⟩
  exact hdeny f hf (any_mono h.2 hw)

/-- The configs have the same pattern keys, with narrower values in the first. -/
def NarrowerConfig (config config' : Items) : Prop :=
  ∀ key ∈ selectionPatternCascade, (get? key config = none ∧ get? key config' = none) ∨
    ∃ v w, get? key config = some v ∧ get? key config' = some w ∧ Narrower v w

theorem covers_mono {config config' : Items} (h : NarrowerConfig config config') {name : Str}
    (hc : covers matching config name = true) : covers matching config' name = true := by
  simp only [NarrowerConfig,selectionPatternCascade,List.forall_mem_cons] at h
  obtain ⟨hs,ht,htopic,hd,-⟩ := h
  rcases hs with ⟨hs,hs'⟩ | ⟨s,s',hs,hs',hss⟩
  · rcases ht with ⟨ht,ht'⟩ | ⟨t,t',ht,ht',htt⟩
    · rcases htopic with ⟨htopic,htopic'⟩ | ⟨v,v',htopic,htopic',hvv⟩
      · rcases hd with ⟨hd,hd'⟩ | ⟨d,d',hd,hd',hdd⟩
        · simp [covers,hs,ht,htopic,hd] at hc
        · simp only [covers,hs,ht,htopic,hd] at hc
          simp only [covers,hs',ht',htopic',hd']
          exact passes_mono hdd hc
      · simp only [covers,hs,ht,htopic] at hc
        simp only [covers,hs',ht',htopic']
        exact passesTopic_mono hvv hc
    · simp only [covers,hs,ht] at hc
      simp only [covers,hs',ht']
      exact passes_mono htt hc
  · rcases ht with ⟨ht,ht'⟩ | ⟨t,t',ht,ht',htt⟩
    · simp only [covers,hs,ht] at hc
      simp only [covers,hs',ht']
      exact passes_mono hss hc
    · simp only [covers,hs,ht,Bool.and_eq_true] at hc
      simp only [covers,hs',ht',Bool.and_eq_true]
      exact ⟨passes_mono hss hc.1,passes_mono htt hc.2⟩

def allowKey : Str := "allow".toList

def denyKey : Str := "deny".toList

/-- The other recipe is this one with patterns added to the deny list of a pattern key. -/
def DenyAdded (recipe wider : Items) : Prop :=
  ∃ source_type config key items patterns more, parse_recipe recipe = .ok (source_type,config) ∧
    key ∈ selectionPatternCascade ∧ get? key config = some (.obj items) ∧
    (get? denyKey items).getD (.arr []) = texts patterns ∧ patterns ⊆ more ∧
    parse_recipe wider =
      .ok (source_type,setItem key (.obj (setItem denyKey (texts more) items)) config)

/-- The same for the allow list of a pattern key that has one. -/
def AllowAdded (recipe wider : Items) : Prop :=
  ∃ source_type config key items patterns more, parse_recipe recipe = .ok (source_type,config) ∧
    key ∈ selectionPatternCascade ∧ get? key config = some (.obj items) ∧
    get? allowKey items = some (texts patterns) ∧ patterns ⊆ more ∧
    parse_recipe wider =
      .ok (source_type,setItem key (.obj (setItem allowKey (texts more) items)) config)

theorem Narrower.refl (v : Json) : Narrower v v := ⟨List.Subset.refl _,List.Subset.refl _⟩

theorem allowOf_obj (items : Items) : allowOf (.obj items) =
    strings ((get? allowKey items).getD (texts [".*".toList])) := rfl

theorem denyOf_obj (items : Items) : denyOf (.obj items) =
    strings ((get? denyKey items).getD (.arr [])) := rfl

theorem narrower_denyAdded {items : Items} {patterns more : List Str}
    (hp : (get? denyKey items).getD (.arr []) = texts patterns) (hmore : patterns ⊆ more) :
    Narrower (.obj (setItem denyKey (texts more) items)) (.obj items) := by
  have hallow : get? allowKey (setItem denyKey (texts more) items) = get? allowKey items := by
    rw [get?_setItem,if_neg (by decide)]
  constructor
  · rw [allowOf_obj,allowOf_obj,hallow]
    exact List.Subset.refl _
  · rw [denyOf_obj,denyOf_obj,hp,get?_setItem,if_pos rfl,Option.getD_some,strings_texts,
      strings_texts]
    exact hmore

theorem narrower_allowAdded {items : Items} {patterns more : List Str}
    (hp : get? allowKey items = some (texts patterns)) (hmore : patterns ⊆ more) :
    Narrower (.obj items) (.obj (setItem allowKey (texts more) items)) := by
  have hdeny : get? denyKey (setItem allowKey (texts more) items) = get? denyKey items := by
    rw [get?_setItem,if_neg (by decide)]
  constructor
  · rw [allowOf_obj,allowOf_obj,hp,get?_setItem,if_pos rfl,Option.getD_some,Option.getD_some,
      strings_texts,strings_texts]
    exact hmore
  · rw [denyOf_obj,denyOf_obj,hdeny]
    exact List.Subset.refl _

/-- A changed value under one key, against the config before. -/
theorem narrowerConfig_setItem {config : Items} {key : Str} {v w : Json}
    (hv : get? key config = some v) :
    (Narrower v w → NarrowerConfig config (setItem key w config)) ∧
      (Narrower w v → NarrowerConfig (setItem key w config) config) := by
  have hget : ∀ k, get? k (setItem key w config) = if k = key then some w else get? k config :=
    fun k => get?_setItem key w config k
  constructor
  · intro h k _
    rw [hget]
    by_cases hk : k = key
    · exact .inr ⟨v,w,hk ▸ hv,if_pos hk,h⟩
    · rw [if_neg hk]
      cases hc : get? k config with
      | none => exact .inl ⟨rfl,rfl⟩
      | some x => exact .inr ⟨x,x,rfl,rfl,.refl x⟩
  · intro h k _
    rw [hget]
    by_cases hk : k = key
    · exact .inr ⟨w,v,if_pos hk,hk ▸ hv,h⟩
    · rw [if_neg hk]
      cases hc : get? k config with
      | none => exact .inl ⟨rfl,rfl⟩
      | some x => exact .inr ⟨x,x,rfl,rfl,.refl x⟩

/-- The database gate does not read the pattern keys. -/
theorem databasePrefix_setItem (env : Runtime) (source_type : Str) (config : Items) {key : Str}
    (hkey : key ∈ selectionPatternCascade) (w : Json) :
    databasePrefix env source_type (setItem key w config) =
      databasePrefix env source_type config := by
  have hne : ∀ k, k ∉ selectionPatternCascade →
      get? k (setItem key w config) = get? k config := by
    intro k hk
    rw [get?_setItem,if_neg]
    rintro rfl
    exact hk hkey
  rw [databasePrefix,databasePrefix,hne _ (by decide),hne _ (by decide)]

end Wider

section Contract

variable (env : Runtime) (matching : Str → Str → Bool)

/-- The matcher accepts the name. -/
def Accepts (recipe : Items) (name : Str) : Prop :=
  (build_matcher_checked env recipe).1 name = some true

/-- What holds of a matcher that comes without a reason. -/
structure Evaluated (recipe : Items) : Prop where
  selection : ∀ source_type config, parse_recipe recipe = .ok (source_type,config) →
    (has_selection_patterns recipe = true ↔
      ∃ key ∈ selectionPatternCascade, (get? key config).isSome = true)
  nothing : ∀ source_type config, parse_recipe recipe = .ok (source_type,config) →
    (∀ key ∈ selectionPatternCascade, get? key config = none) →
      ∀ name, (build_matcher_checked env recipe).1 name = some false
  total : ∀ name, (build_matcher_checked env recipe).1 name ≠ none
  deny : ∀ wider, DenyAdded recipe wider → ∀ name, Accepts env wider name →
    Accepts env recipe name
  allow : ∀ wider, AllowAdded recipe wider → (build_matcher_checked env wider).2 = none →
    ∀ name, Accepts env recipe name → Accepts env wider name
  topics : ∀ source_type config topic, parse_recipe recipe = .ok (source_type,config) →
    env.lower source_type = "kafka".toList → selected config = [(topicPatternsKey,topic)] →
      ∀ name, Accepts env recipe name ↔
        (∃ form ∈ topicForms name, ∃ p ∈ allowOf topic, matching p form = true) ∧
          ¬ ∃ form ∈ topicForms name, ∃ p ∈ denyOf topic, matching p form = true

/-- A malformed recipe has a reason, and a recipe without a reason was evaluated. -/
structure Reasoned (recipe : Items) : Prop where
  malformed : Malformed recipe → (build_matcher_checked env recipe).2 ≠ none
  evaluated : (build_matcher_checked env recipe).2 = none → Evaluated env matching recipe

/-- The selected key is that of the topics, and its deny value is an empty text or mapping. -/
def BlankTopicDeny (recipe : Items) : Prop :=
  env.allowDenyPattern ≠ none ∧ ∃ source_type config topic,
    parse_recipe recipe = .ok (source_type,config) ∧
      selected config = [(topicPatternsKey,topic)] ∧ BlankDeny env topic

variable {env matching} {recipe : Items}

theorem not_shaped_of_blank {topic : Json} (h : BlankDeny env topic) : ¬ Shaped topic := by
  rintro ⟨allow,deny,hv⟩
  obtain ⟨as,blank,hv',-,hblank⟩ := h
  have hdeny : blank = texts deny := (Prod.mk.inj (Option.some.inj (hv'.symm.trans hv))).2
  rcases hblank with rfl | rfl <;> cases hdeny

/-- The deny value passes for one without patterns, so the topic key is built. -/
theorem topicMatcher_blank (h : Sdk matching env) {adp : Json → Json → Option Matcher}
    (hadp : adp ∈ env.allowDenyPattern) {topic : Json} (hb : BlankDeny env topic) :
    ∃ m, topicMatcher env adp topic = some m := by
  obtain ⟨as,deny,hv,hcompile,hblank⟩ := hb
  have ha : precompile env (texts as) = true := (precompile_texts as).mpr hcompile
  have hd : precompile env deny = true := by rcases hblank with rfl | rfl <;> rfl
  have hf : truthy deny = false := by rcases hblank with rfl | rfl <;> rfl
  have hallow := h.allowed adp hadp as [] (by simpa using hcompile)
  have hnil : texts [] = .arr [] := rfl
  rw [hnil] at hallow
  rw [topicMatcher,hv,Option.bind_some]
  simp only [ha,hd,Bool.and_self,if_true,hallow,Option.bind_some,hf]
  exact ⟨_,rfl⟩

theorem reason_of_blank (h : Sdk matching env) (hb : BlankTopicDeny env recipe) :
    Malformed recipe ∧ (build_matcher_checked env recipe).2 = none := by
  obtain ⟨hsdk,source_type,config,topic,hparse,hselected,hblank⟩ := hb
  constructor
  · rw [Malformed,hparse]
    exact ⟨_,by rw [hselected]; exact .head _,not_shaped_of_blank hblank⟩
  · obtain ⟨adp,hadp⟩ := Option.ne_none_iff_exists'.mp hsdk
    obtain ⟨m,hm⟩ := topicMatcher_blank h hadp hblank
    obtain ⟨hs,ht,htopic,-⟩ := mem_selected_topic (by rw [hselected]; exact .head _)
    have hpattern : patternMatcher env adp config = .ok (some m) := by
      simp [patternMatcher,hs,ht,htopic,hm]
    rw [build_matcher_checked,hparse,hadp]
    simp [hpattern]

/-- A malformed recipe without a reason has a blank deny value. -/
theorem blank_of_no_reason (h : Sdk matching env) (hmal : Malformed recipe)
    (hn : (build_matcher_checked env recipe).2 = none) : BlankTopicDeny env recipe := by
  obtain ⟨source_type,config,hparse,hchecked,-⟩ := build_matcher_checked_none h hn
  rw [Malformed,hparse] at hmal
  obtain ⟨⟨key,topic⟩,hkv,hshape⟩ := hmal
  obtain ⟨hkey,hblank⟩ := (hchecked _ hkv).resolve_left hshape
  obtain rfl : key = topicPatternsKey := hkey
  obtain ⟨-,-,-,hselected⟩ := mem_selected_topic hkv
  refine ⟨fun hsdk => ?_,source_type,config,topic,hparse,hselected,hblank⟩
  · have hnil : selected config = [] := by
      rw [build_matcher_checked,hparse,hsdk] at hn
      dsimp only at hn
      split_ifs at hn with hkeys
      rw [selected_eq_nil]
      intro key hkey
      by_contra hsome
      exact hkeys (List.any_eq_true.mpr ⟨key,hkey,Option.isSome_iff_ne_none.mpr hsome⟩)
    rw [hnil] at hselected
    cases hselected

theorem accepts_iff (h : Sdk matching env) {source_type : Str} {config : Items}
    (hn : (build_matcher_checked env recipe).2 = none)
    (hparse : parse_recipe recipe = .ok (source_type,config)) (name : Str) :
    Accepts env recipe name ↔ gateOpen (databasePrefix env source_type config) name = true ∧
      covers matching config name = true := by
  obtain ⟨source_type',config',hparse',-,hm⟩ := build_matcher_checked_none h hn
  obtain ⟨rfl,rfl⟩ := Prod.mk.inj (Except.ok.inj (hparse.symm.trans hparse'))
  rw [Accepts,hm,Option.some_inj,Bool.and_eq_true]

theorem not_accepts_of_reason (hn : (build_matcher_checked env recipe).2 ≠ none) (name : Str) :
    ¬ Accepts env recipe name := by
  rw [Accepts,build_matcher_checked_degraded hn]
  exact nofun

/-- The gate is active for the databases only. -/
theorem databasePrefix_kafka {source_type : Str} (config : Items)
    (h : env.lower source_type = "kafka".toList) : databasePrefix env source_type config = none := by
  have hpostgres : "kafka".toList ≠ "postgres".toList := by decide
  have hmysql : "kafka".toList ≠ "mysql".toList := by decide
  have horacle : "kafka".toList ≠ "oracle".toList := by decide
  rw [databasePrefix,h]
  split
  · simp only [hpostgres,hmysql,horacle,decide_false,Bool.or_false,Bool.false_and,Bool.and_false]
    rfl
  · rfl

theorem evaluated_of_none (h : Sdk matching env)
    (hn : (build_matcher_checked env recipe).2 = none) : Evaluated env matching recipe := by
  obtain ⟨source_type,config,hparse,hchecked,hm⟩ := build_matcher_checked_none h hn
  constructor
  case selection =>
    intro source_type' config' hparse'
    obtain ⟨rfl,rfl⟩ := Prod.mk.inj (Except.ok.inj (hparse.symm.trans hparse'))
    have hkeys : selected config ≠ [] ↔
        ∃ key ∈ selectionPatternCascade, (get? key config).isSome = true := by
      rw [Ne,selected_eq_nil]
      simp [Option.isSome_iff_ne_none]
    rw [← hkeys,has_selection_patterns,hparse]
    simp only [first_selected]
    cases hsel : selected config with
    | nil => simp
    | cons kv rest =>
      obtain ⟨items,hitems⟩ := (hchecked kv (by rw [hsel]; exact .head _)).mapping
      simp [hitems]
  case nothing =>
    intro source_type' config' hparse' hkeys name
    obtain ⟨rfl,rfl⟩ := Prod.mk.inj (Except.ok.inj (hparse.symm.trans hparse'))
    rw [hm,covers_nothing matching (selected_eq_nil.mpr hkeys),Bool.and_false]
  case total =>
    intro name
    rw [hm]
    exact Option.some_ne_none _
  case deny =>
    rintro wider ⟨st,config',key,items,patterns,more,hparse',hkey,hv,hdeny,hsub,hwider⟩ name hacc
    obtain ⟨rfl,rfl⟩ := Prod.mk.inj (Except.ok.inj (hparse.symm.trans hparse'))
    have hn' : (build_matcher_checked env wider).2 = none := by
      by_contra hreason
      exact not_accepts_of_reason hreason name hacc
    obtain ⟨hgate,hcovers⟩ := (accepts_iff h hn' hwider name).mp hacc
    rw [databasePrefix_setItem env _ _ hkey] at hgate
    exact (accepts_iff h hn hparse name).mpr ⟨hgate,covers_mono
      ((narrowerConfig_setItem hv).2 (narrower_denyAdded hdeny hsub)) hcovers⟩
  case allow =>
    rintro wider ⟨st,config',key,items,patterns,more,hparse',hkey,hv,hallow,hsub,hwider⟩ hn'
      name hacc
    obtain ⟨rfl,rfl⟩ := Prod.mk.inj (Except.ok.inj (hparse.symm.trans hparse'))
    obtain ⟨hgate,hcovers⟩ := (accepts_iff h hn hparse name).mp hacc
    refine (accepts_iff h hn' hwider name).mpr ⟨?_,covers_mono
      ((narrowerConfig_setItem hv).1 (narrower_allowAdded hallow hsub)) hcovers⟩
    rw [databasePrefix_setItem env _ _ hkey]
    exact hgate
  case topics =>
    intro source_type' config' topic hparse' hkafka hselected name
    rw [accepts_iff h hn hparse' name,databasePrefix_kafka config' hkafka]
    obtain ⟨hs,ht,htopic,-⟩ := mem_selected_topic (by rw [hselected]; exact .head _)
    have hcovers : covers matching config' name = passesTopic matching topic name := by
      simp only [covers,hs,ht,htopic]
    rw [hcovers,passesTopic,Bool.and_eq_true,Bool.not_eq_true']
    simp [gateOpen]

/-- Reasons and matchers are as declared exactly if no deny value of a topic key is an empty
text or mapping in place of a list. -/
theorem matcher_reasons_iff (env : Runtime) (matching : Str → Str → Bool) (recipe : Items)
    (h : Sdk matching env) : Reasoned env matching recipe ↔ ¬ BlankTopicDeny env recipe := by
  constructor
  · intro hr hb
    obtain ⟨hmal,hn⟩ := reason_of_blank h hb
    exact hr.malformed hmal hn
  · intro hb
    exact ⟨fun hmal hn => hb (blank_of_no_reason h hmal hn),fun hn => evaluated_of_none h hn⟩

def isText : Json → Bool
  | .str _ => true
  | _ => false

def isTexts : Json → Bool
  | .arr xs => xs.all isText
  | _ => false

theorem isTexts_iff {v : Json} : isTexts v = true ↔ ∃ ps, v = texts ps := by
  constructor
  · intro h
    cases v with
    | arr xs =>
      refine ⟨strings (.arr xs),?_⟩
      have hxs : ∀ x ∈ xs, isText x = true := List.all_eq_true.mp h
      clear h
      induction xs with
      | nil => rfl
      | cons x xs ih =>
        obtain ⟨hx,hrest⟩ := List.forall_mem_cons.mp hxs
        cases x with
        | str s => exact congrArg (fun v => Json.arr (.str s::v)) (Json.arr.inj (ih hrest))
        | null | bool _ | num _ | arr _ | obj _ => cases hx
    | null | bool _ | num _ | str _ | obj _ => cases h
  · rintro ⟨ps,rfl⟩
    simp [isTexts,texts,isText]

def startsWith (p name : Str) : Bool := p.isPrefixOf name

def plainSdk (allow deny : Json) : Option Matcher :=
  if isTexts allow && isTexts deny then
    some fun name => some ((strings allow).any (startsWith · name) &&
      !(strings deny).any (startsWith · name))
  else none

def plainRuntime : Runtime where
  lower := lower
  json_loads := fun _ => none
  re_compile := fun _ => true
  allowDenyPattern := some plainSdk
  verify_secret_refs := fun _ => none
  str_uuid := fun _ => []

theorem plainSdk_documented : Sdk startsWith plainRuntime := by
  constructor
  · rintro _ ⟨⟩ allow deny -
    rw [plainSdk,if_pos (by rw [isTexts_iff.mpr ⟨_,rfl⟩,isTexts_iff.mpr ⟨_,rfl⟩]; rfl)]
    simp
  · rintro _ ⟨⟩ allow deny h
    rw [plainSdk,if_neg]
    rw [Bool.and_eq_true,isTexts_iff,isTexts_iff]
    exact fun hand => h.elim (fun hn => hn hand.1) fun hn => hn hand.2

def topicValue (deny : Json) : Json :=
  .obj [(allowKey,texts ["orders".toList]),(denyKey,deny)]

def topicRecipe (deny : Json) : Items :=
  [(sourceKey,.obj [(typeKey,.str "kafka".toList),
    (configKey,.obj [(topicPatternsKey,topicValue deny)])])]

theorem parse_topicRecipe (deny : Json) : parse_recipe (topicRecipe deny) =
    .ok ("kafka".toList,[(topicPatternsKey,topicValue deny)]) := by rfl

theorem selected_topicRecipe (deny : Json) :
    selected [(topicPatternsKey,topicValue deny)] = [(topicPatternsKey,topicValue deny)] := by
  rfl

theorem shaped_topicRecipe : ¬ BlankTopicDeny plainRuntime (topicRecipe (texts ["old".toList])) := by
  intro hb
  have hmal := (reason_of_blank plainSdk_documented hb).1
  rw [Malformed,parse_topicRecipe] at hmal
  obtain ⟨kv,hkv,hshape⟩ := hmal
  rw [selected_topicRecipe] at hkv
  obtain rfl := List.mem_singleton.mp hkv
  exact hshape ⟨_,_,rfl⟩

theorem matcher_reasons_topic : Accepts plainRuntime (topicRecipe (texts ["old".toList]))
    "eu.orders".toList := by
  have hr := (matcher_reasons_iff plainRuntime startsWith (topicRecipe (texts ["old".toList]))
    plainSdk_documented).mpr shaped_topicRecipe
  have htopics := (hr.evaluated (by rfl)).topics _ _ _ (parse_topicRecipe _) (by decide)
    (selected_topicRecipe _) "eu.orders".toList
  rw [htopics]
  constructor
  · exact ⟨"orders".toList,by decide,"orders".toList,.head _,by decide⟩
  · rintro ⟨form,hform,p,hp,hmatch⟩
    obtain rfl : p = "old".toList := List.mem_singleton.mp hp
    have hforms : form = "eu.orders".toList ∨ form = "orders".toList := by
      have hlist : topicForms "eu.orders".toList = ["eu.orders".toList,"orders".toList] := by
        decide
      rw [hlist] at hform
      simpa using hform
    rcases hforms with rfl | rfl <;> exact absurd hmatch (by decide)

/-- An empty text in place of the deny list of a topic key is not reported. -/
theorem blank_deny_unreported : Sdk startsWith plainRuntime ∧
    ¬ Reasoned plainRuntime startsWith (topicRecipe (.str [])) := by
  refine ⟨plainSdk_documented,fun hr => ?_⟩
  have hblank : BlankTopicDeny plainRuntime (topicRecipe (.str [])) :=
    ⟨Option.some_ne_none _,_,_,_,parse_topicRecipe _,selected_topicRecipe _,
      ["orders".toList],.str [],rfl,fun _ _ => rfl,.inl rfl⟩
  obtain ⟨hmal,hn⟩ := reason_of_blank plainSdk_documented hblank
  exact hr.malformed hmal hn

end Contract

end Ingestion
end Dataspoke
