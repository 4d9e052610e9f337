import Dataspoke.SecretRefs

/-!
# Verified and resolved references

A run asks the backend for the references of the whole recipe, in the order in which they
stand in it and up to the first malformed one; a save has verified those of the source
configuration.
-/

namespace Dataspoke
namespace Secrets

open Python Ingestion

def wellFormed (ref : Str) : Bool := (parse_name_key ref).toBool

theorem splitLastSeparator_eq {ref name key : Str}
    (h : splitLastSeparator ref = some (name,key)) : ref = name++separator++key := by
  induction ref generalizing name with
  | nil => simp [splitLastSeparator] at h
  | cons c s ih =>
    rw [splitLastSeparator] at h
    cases hs : splitLastSeparator s with
    | some p =>
      rw [hs] at h
      obtain ⟨rfl,rfl⟩ : c::p.1 = name ∧ p.2 = key := by simpa using h
      rw [ih hs]
      rfl
    | none =>
      simp only [hs] at h
      split at h
      next hp =>
        obtain ⟨rfl,rfl⟩ : [] = name ∧ s.drop 1 = key := by simpa using h
        obtain ⟨t,ht⟩ := List.isPrefixOf_iff_prefix.mp hp
        obtain ⟨rfl,rfl⟩ : '_' = c ∧ '_'::t = s := by simpa [separator] using ht
        rfl
      next => simp at h

theorem parse_name_key_eq {ref : Str} {p : Str × Str} (h : parse_name_key ref = .ok p) :
    ref = p.1++separator++p.2 := by
  unfold parse_name_key at h
  split at h
  next => simp at h
  next name key hs =>
    split at h
    next => simp at h
    next =>
      have hp : (name,key) = p := by simpa using h
      subst hp
      exact splitLastSeparator_eq hs

theorem parse_name_key_inj {r r' : Str} {p : Str × Str} (h : parse_name_key r = .ok p)
    (h' : parse_name_key r' = .ok p) : r = r' := by
  rw [parse_name_key_eq h,parse_name_key_eq h']

section Save

variable {B : Backend}

theorem verify_secret_ref_ok {ref : Str} {p : Str × Str}
    (h : verify_secret_ref B ref = .ok p) : parse_name_key ref = .ok p := by
  unfold verify_secret_ref at h
  obtain ⟨⟨name,key⟩,hp,h⟩ := bind_eq_ok.mp h
  obtain ⟨_,_,h⟩ := bind_eq_ok.mp h
  rw [hp]
  exact h

theorem verified_iff {recipe : Items} {verified : List (Str × Str)}
    (h : verify_recipe_secret_refs B recipe = .ok verified) (p : Str × Str) :
    p ∈ verified ↔ ∃ ref ∈ extract_secret_refs recipe, parse_name_key ref = .ok p := by
  unfold verify_recipe_secret_refs at h
  generalize extract_secret_refs recipe = refs at h
  induction refs generalizing verified with
  | nil =>
    have hv : [] = verified := by simpa [pure,Except.pure] using h
    simp [← hv]
  | cons ref refs ih =>
    rw [List.mapM_cons] at h
    obtain ⟨q,hq,h⟩ := bind_eq_ok.mp h
    obtain ⟨qs,hqs,h⟩ := bind_eq_ok.mp h
    have hv : q::qs = verified := by simpa [pure,Except.pure] using h
    have hq : parse_name_key ref = .ok q := by
      cases hr : verify_secret_ref B ref with
      | error e => simp [hr,Except.mapError] at hq
      | ok q' =>
        have : q' = q := by simpa [hr,Except.mapError] using hq
        exact verify_secret_ref_ok (this ▸ hr)
    rw [← hv,List.mem_cons,ih hqs]
    simp [hq,eq_comm]

end Save

section Run

variable (B : Backend) (monotonic : ℕ → ℕ)

/-- The effect of resolving a reference, without its value. -/
def ask (ref : Str) : Resolve PUnit := (fun _ => ⟨⟩) <$> resolve_secret_ref B monotonic ref

theorem substitute_asks (s : Str) :
    (fun _ => ⟨⟩) <$> substitute B monotonic s = forM (refsOf s) (ask B monotonic) := by
  unfold substitute refsOf
  generalize scan s = items
  induction items with
  | nil => simp
  | cons item items ih =>
    cases item with
    | inl c => simpa [List.filterMap_cons] using ih
    | inr ref =>
      simp only [Functor.map_map] at ih
      simp [ask,ih]

mutual

theorem substitute_refs_asks : ∀ t : Json,
    (fun _ => ⟨⟩) <$> substitute_refs B monotonic t = forM (collect_refs t) (ask B monotonic)
  | .str s => by
    rw [substitute_refs,collect_refs,← substitute_asks]
    simp
  | .obj items => by
    rw [substitute_refs,collect_refs,← substituteItems_asks items]
    simp
  | .arr xs => by
    rw [substitute_refs,collect_refs,← substituteList_asks xs]
    simp
  | .null => by simp [substitute_refs,collect_refs]
  | .bool _ => by simp [substitute_refs,collect_refs]
  | .num _ => by simp [substitute_refs,collect_refs]

theorem substituteItems_asks : ∀ items : List (Str × Json),
    (fun _ => ⟨⟩) <$> substituteItems B monotonic items =
      forM (collectItems items) (ask B monotonic)
  | [] => by simp [substituteItems,collectItems]
  | (_,v)::items => by
    have hv := substitute_refs_asks v
    have hs := substituteItems_asks items
    rw [substituteItems,collectItems,List.forM_append,← hv,← hs]
    simp

theorem substituteList_asks : ∀ xs : List Json,
    (fun _ => ⟨⟩) <$> substituteList B monotonic xs = forM (collectList xs) (ask B monotonic)
  | [] => by simp [substituteList,collectList]
  | x::xs => by
    have hv := substitute_refs_asks x
    have hs := substituteList_asks xs
    rw [substituteList,collectList,List.forM_append,← hv,← hs]
    simp

end

def exec {α : Type} (x : Resolve α) (st : Resolver) : Resolver := (x.run.run st).2

theorem exec_map {α β : Type} (f : α → β) (x : Resolve α) (st : Resolver) :
    exec (f <$> x) st = exec x st := by
  show (((f <$> x).run).run st).2 = ((x.run).run st).2
  rw [ExceptT.run_map,StateT.run_map]
  rfl

/-- What a run of the recipe asks the backend for. -/
def asks (recipe : Items) (st : Resolver) : List (Str × Str) :=
  (exec (resolve_recipe_secrets B monotonic recipe) { st with asked := [] }).asked

theorem asks_eq (recipe : Items) (st : Resolver) :
    asks B monotonic recipe st =
      (exec (forM (collectItems recipe) (ask B monotonic)) { st with asked := [] }).asked := by
  rw [← substituteItems_asks,exec_map]
  rfl

theorem exec_forM_cons (ref : Str) (refs : List Str) (st : Resolver) :
    exec (forM (ref::refs) (ask B monotonic)) st =
      match parse_name_key ref with
      | .error _ => st
      | .ok k =>
        match lookup B monotonic k st with
        | (.error _,st') => st'
        | (.ok _,st') => exec (forM refs (ask B monotonic)) st' := by
  simp only [exec,List.forM_cons,ask,ExceptT.run_bind,ExceptT.run_map,StateT.run_bind,
    StateT.run_map]
  cases hp : parse_name_key ref with
  | error e =>
    simp only [resolve_secret_ref,hp,ExceptT.mk,ExceptT.run,StateT.run]
    rfl
  | ok k =>
    simp only [resolve_secret_ref,hp,ExceptT.mk,ExceptT.run,StateT.run]
    rcases hl : lookup B monotonic k st with ⟨_ | v,st'⟩ <;> simp only <;> rfl

@[simp] theorem put_asked (st : Resolver) (k : Str × Str) (v : Str × ℕ) :
    (st.put k v).asked = st.asked := by
  unfold Resolver.put
  split_ifs <;> rfl

theorem fetch_asked (k : Str × Str) (st : Resolver) :
    (fetch B monotonic k st).2.asked = st.asked++[k] := by
  simp only [fetch]
  split <;> simp

theorem lookup_asked (k : Str × Str) (st : Resolver) :
    (lookup B monotonic k st).2.asked = st.asked ∨
      (lookup B monotonic k st).2.asked = st.asked++[k] := by
  unfold lookup
  split
  next => exact .inr (fetch_asked B monotonic k st)
  next value expiry _ =>
    split_ifs
    · exact .inl rfl
    · exact .inr (fetch_asked B monotonic k _)

theorem wellFormed_of_ok {ref : Str} {k : Str × Str} (h : parse_name_key ref = .ok k) :
    wellFormed ref = true := by
  simp [wellFormed,h,Except.toBool]

/-- Only well-formed references before the first malformed one are asked for. -/
theorem forM_asked (refs : List Str) (st : Resolver) (p : Str × Str)
    (hp : p ∈ (exec (forM refs (ask B monotonic)) st).asked) :
    p ∈ st.asked ∨ ∃ ref ∈ refs.takeWhile wellFormed, parse_name_key ref = .ok p := by
  induction refs generalizing st with
  | nil => exact .inl hp
  | cons ref refs ih =>
    rw [exec_forM_cons] at hp
    cases hk : parse_name_key ref with
    | error e =>
      rw [hk] at hp
      exact .inl hp
    | ok k =>
      have hw := wellFormed_of_ok hk
      rw [List.takeWhile_cons_of_pos hw]
      have hl : ∀ q ∈ (lookup B monotonic k st).2.asked, q ∈ st.asked ∨ q = k := by
        intro q hq
        rcases lookup_asked B monotonic k st with h | h
        · exact .inl (h ▸ hq)
        · simpa [h] using hq
      have first : ∀ q ∈ (lookup B monotonic k st).2.asked, q ∈ st.asked ∨
          ∃ r ∈ ref::refs.takeWhile wellFormed, parse_name_key r = .ok q := by
        intro q hq
        rcases hl q hq with h | h
        · exact .inl h
        · exact .inr ⟨ref,List.mem_cons_self,h ▸ hk⟩
      rw [hk] at hp
      dsimp only at hp
      rcases hr : lookup B monotonic k st with ⟨_ | v,st'⟩ <;> rw [hr] at hp first
      · exact first p hp
      · rcases ih st' hp with h | ⟨r,hr',h⟩
        · exact first p h
        · exact .inr ⟨r,List.mem_cons_of_mem _ hr',h⟩

end Run

section Answering

def answering : Backend where
  read_value _ _ _ := .ok []
  verify _ _ := .ok ()

def noCache : Resolver := { cache := [], order := [], readings := 0, asked := [] }

/-- Every cached value has been asked for. -/
def Asked (st : Resolver) : Prop := ∀ e ∈ st.cache, e.1 ∈ st.asked

variable (monotonic : ℕ → ℕ)

theorem evict_subset (cache : List ((Str × Str) × Str × ℕ)) (order : List (Str × Str)) :
    (evict cache order).1 ⊆ cache := by
  unfold evict
  split
  · exact List.Subset.refl _
  · exact List.filter_sublist.subset

theorem put_cache {st : Resolver} {k : Str × Str} {v : Str × ℕ} :
    ∀ e ∈ (st.put k v).cache, e.1 = k ∨ e ∈ st.cache := by
  intro e he
  unfold Resolver.put at he
  split_ifs at he
  · obtain ⟨e',he',rfl⟩ := List.mem_map.mp he
    by_cases hk : e'.1 = k
    · simp [hk]
    · exact .inr (by simpa [hk] using he')
  · rcases List.mem_append.mp he with h | h
    · exact .inr (evict_subset _ _ h)
    · exact .inl (by simp_all)
  · rcases List.mem_append.mp he with h | h
    · exact .inr h
    · exact .inl (by simp_all)

theorem fetch_answering (k : Str × Str) {st : Resolver} (hst : Asked st) :
    ∃ v st', fetch answering monotonic k st = (.ok v,st') ∧ Asked st' ∧
      st'.asked = st.asked++[k] := by
  refine ⟨_,_,rfl,?_,put_asked _ k _⟩
  intro e he
  have ha := put_asked { st with asked := st.asked++[k] } k
    ([],monotonic st.readings+ttlSeconds)
  show e.1 ∈ (Resolver.put _ _ _).asked
  rw [ha]
  rcases put_cache e he with h | h
  · exact List.mem_append_right _ (by simp [h])
  · exact List.mem_append_left _ (hst e h)

theorem lookup_answering (k : Str × Str) {st : Resolver} (hst : Asked st) :
    ∃ v st', lookup answering monotonic k st = (.ok v,st') ∧ Asked st' ∧
      st.asked ⊆ st'.asked ∧ k ∈ st'.asked := by
  have fetched : ∀ s : Resolver, Asked s → s.asked = st.asked →
      ∃ v st', fetch answering monotonic k s = (.ok v,st') ∧ Asked st' ∧
        st.asked ⊆ st'.asked ∧ k ∈ st'.asked := by
    intro s hs ha
    obtain ⟨v,st',hf,hst',hk⟩ := fetch_answering monotonic k hs
    rw [ha] at hk
    exact ⟨v,st',hf,hst',hk ▸ List.subset_append_left _ _,by simp [hk]⟩
  unfold lookup
  split
  next => exact fetched st hst rfl
  next value expiry hc =>
    split_ifs
    · have hk : ((k,value,expiry) : (Str × Str) × Str × ℕ) ∈ st.cache := by
        obtain ⟨_,_,h⟩ := List.lookup_eq_some_iff.mp hc
        simp [h.1]
      exact ⟨value,_,rfl,hst,List.Subset.refl _,hst _ hk⟩
    · exact fetched _ (fun e he => hst e (List.mem_of_mem_filter he)) rfl

/-- A backend that answers is asked for all the well-formed references before the first
malformed one. -/
theorem forM_answering (refs : List Str) {st : Resolver} (hst : Asked st) :
    st.asked ⊆ (exec (forM refs (ask answering monotonic)) st).asked ∧
      ∀ ref ∈ refs.takeWhile wellFormed, ∀ p, parse_name_key ref = .ok p →
        p ∈ (exec (forM refs (ask answering monotonic)) st).asked := by
  induction refs generalizing st with
  | nil => exact ⟨List.Subset.refl _,by simp⟩
  | cons ref refs ih =>
    rw [exec_forM_cons]
    cases hk : parse_name_key ref with
    | error e =>
      have hw : wellFormed ref = false := by simp [wellFormed,hk,Except.toBool]
      exact ⟨List.Subset.refl _,by simp [hw]⟩
    | ok k =>
      obtain ⟨v,st',hl,hst',hs,hks⟩ := lookup_answering monotonic k hst
      have rest := ih hst'
      dsimp only
      rw [hl]
      dsimp only
      refine ⟨fun q hq => rest.1 (hs hq),?_⟩
      intro r hr p hp
      rw [List.takeWhile_cons_of_pos (wellFormed_of_ok hk)] at hr
      rcases List.mem_cons.mp hr with rfl | hr
      · have hkp : k = p := by simpa [hk] using hp
        exact rest.1 (hkp ▸ hks)
      · exact rest.2 r hr p hp

end Answering

/-- The reference occurs in the source configuration. -/
def InConfig (recipe : Items) (ref : Str) : Prop :=
  ∃ source_type config, parse_recipe recipe = .ok (source_type,config) ∧
    ref ∈ collectItems config

theorem mem_extract_iff (recipe : Items) (ref : Str) :
    ref ∈ extract_secret_refs recipe ↔ InConfig recipe ref := by
  unfold extract_secret_refs InConfig
  cases h : parse_recipe recipe with
  | error e => simp
  | ok c =>
    obtain ⟨source_type,config⟩ := c
    simp

/-- A save that accepts a recipe has verified what any run of it asks for exactly if the
references of the recipe, up to the first malformed one, all occur in its source
configuration. -/
theorem resolves_verified (B : Backend) (recipe : Items) (verified : List (Str × Str))
    (hv : verify_recipe_secret_refs B recipe = .ok verified) :
    (∀ B' monotonic st, asks B' monotonic recipe st ⊆ verified) ↔
      ∀ ref ∈ (collectItems recipe).takeWhile wellFormed, InConfig recipe ref := by
  constructor
  · intro h ref hr
    have hw : wellFormed ref = true := List.mem_takeWhile_imp hr
    cases hp : parse_name_key ref with
    | error e => simp [wellFormed,hp,Except.toBool] at hw
    | ok p =>
      have none : Asked { noCache with asked := [] } := by simp [Asked,noCache]
      have asked := (forM_answering id (collectItems recipe) none).2 ref hr p hp
      rw [← asks_eq] at asked
      obtain ⟨r,hr',hp'⟩ := (verified_iff hv p).mp (h _ _ _ asked)
      rw [parse_name_key_inj hp hp']
      exact (mem_extract_iff recipe r).mp hr'
  · intro h B' monotonic st p hp
    rw [asks_eq] at hp
    rcases forM_asked B' monotonic _ _ p hp with h' | ⟨ref,hr,hp'⟩
    · exact absurd h' List.not_mem_nil
    · exact (verified_iff hv p).mpr ⟨ref,(mem_extract_iff recipe ref).mpr (h ref hr),hp'⟩

/-- `${a__b}`. -/
def reference : Str := ['$','\x7b','a','_','_','b','\x7d']

def source (config : Items) : Str × Json :=
  (sourceKey,.obj [(typeKey,.str ['p']),(configKey,.obj config)])

def sample : Items := [source [(['k'],.str reference)]]

theorem resolves_verified_sample :
    verify_recipe_secret_refs answering sample = .ok [(['a'],['b'])] ∧
      ∀ B' monotonic st, asks B' monotonic sample st ⊆ [(['a'],['b'])] := by
  refine ⟨rfl,(resolves_verified answering sample _ rfl).mpr fun ref href => ?_⟩
  exact ⟨['p'],[(['k'],.str reference)],rfl,(List.takeWhile_subset _) href⟩

def sinkSample : Items := [source [],(['s'],.obj [(['k'],.str reference)])]

theorem sink_unverified :
    verify_recipe_secret_refs answering sinkSample = .ok [] ∧
      asks answering id sinkSample noCache = [(['a'],['b'])] :=
  ⟨rfl,rfl⟩

theorem resolves_unverified : ¬ ∀ (B : Backend) (recipe : Items) (verified : List (Str × Str)),
    verify_recipe_secret_refs B recipe = .ok verified →
      ∀ B' monotonic st, asks B' monotonic recipe st ⊆ verified := by
  intro h
  have hsub := h _ _ _ sink_unverified.1 answering id noCache
  rw [sink_unverified.2] at hsub
  exact List.not_mem_nil (hsub List.mem_cons_self)

end Secrets
end Dataspoke
