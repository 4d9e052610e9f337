import Dataspoke.IngestionModels

/-!
# The segments of a dataset URN

Three splitters take a URN apart: the platform ends at the first comma, the name lies between
the last two commas, the origin follows the last one.
-/

namespace Dataspoke
namespace Ingestion

open Python

def dataset_urn (platform name origin : Str) : Str :=
  datasetUrnPrefix ++ (platformUrnPrefix ++ (platform ++ ',' :: (name ++ ',' :: origin))) ++ [')']

theorem afterFirst_append (needle rest : Str) (h : needle ≠ []) :
    afterFirst needle (needle ++ rest) = some rest := by
  obtain ⟨c,s,rfl⟩ := List.exists_cons_of_ne_nil h
  rw [List.cons_append,afterFirst,if_pos]
  · rw [← List.cons_append,List.drop_left]
  · rw [← List.cons_append,List.isPrefixOf_iff_prefix]
    exact List.prefix_append _ _

theorem splitLast_append {c : Char} {a b : Str} (h : c ∉ b) :
    splitLast c (a ++ c::b) = some (a,b) := by
  have hb : ∀ d ∈ b.reverse, (d ≠ c) = true := by
    intro d hd
    simpa using fun hdc : d = c => h (hdc ▸ List.mem_reverse.mp hd)
  have hrev : (a ++ c::b).reverse = b.reverse ++ c::a.reverse := by simp
  rw [splitLast,if_pos (by simp)]
  simp only [List.rdropWhile,List.rtakeWhile,hrev]
  rw [List.dropWhile_append_of_pos (by simpa using hb),List.takeWhile_append_of_pos (by simpa using hb)]
  simp

theorem splitLast_snd {c : Char} {s : Str} {p : Str × Str} (h : splitLast c s = some p) :
    c ∉ p.2 := by
  rw [splitLast] at h
  split_ifs at h
  cases h
  intro hc
  simpa using List.mem_rtakeWhile_imp hc

theorem stripped_subset (s : Str) : stripped s ⊆ s := by
  intro c hc
  exact List.dropWhile_subset _ (List.rdropWhile_prefix _ _ |>.subset hc)

theorem nonBlank_eq_some {s t : Str} : nonBlank s = some t ↔ stripped s = t ∧ t ≠ [] := by
  rw [nonBlank]
  by_cases h : stripped s = []
  · rw [if_pos (by simpa using h)]
    constructor
    · exact nofun
    · rintro ⟨rfl,hne⟩
      exact absurd h hne
  · rw [if_neg (by simpa using h),Option.some_inj]
    constructor
    · rintro rfl
      exact ⟨rfl,h⟩
    · exact fun ht => ht.1

section Segments

/-- An origin, as a segment of a URN. -/
structure Origin (origin : Str) : Prop where
  nonempty : origin ≠ []
  comma : ',' ∉ origin
  parenthesis : '(' ∉ origin ∧ ')' ∉ origin
  space : stripped origin = origin

variable {platform name origin : Str}

theorem platform_of_urn (hplatform : ',' ∉ platform) :
    platform_from_dataset_urn (dataset_urn platform name origin) =
      if platform = [] then none else some platform := by
  have hafter : afterFirst (datasetUrnPrefix++platformUrnPrefix)
      (dataset_urn platform name origin) =
        some (platform ++ ',' :: (name ++ ',' :: origin) ++ [')']) := by
    have hsplit : dataset_urn platform name origin = (datasetUrnPrefix++platformUrnPrefix) ++
        (platform ++ ',' :: (name ++ ',' :: origin) ++ [')']) := by
      simp [dataset_urn]
    rw [hsplit]
    exact afterFirst_append _ _ (by decide)
  have htake : (platform ++ ',' :: (name ++ ',' :: origin) ++ [')']).takeWhile (· ≠ ',') =
      platform := by
    have hplain : ∀ d ∈ platform, (d ≠ ',') = true := by
      intro d hd
      simpa using fun hdc : d = ',' => hplatform (hdc ▸ hd)
    rw [List.append_assoc,List.takeWhile_append_of_pos (by simpa using hplain)]
    simp
  rw [platform_from_dataset_urn,hafter]
  simp only [htake]
  by_cases h : platform = [] <;> simp [h]

/-- The URN splits at its last two commas. -/
theorem fields_of_urn (horigin : ',' ∉ origin) :
    datasetUrnFields (dataset_urn platform name origin) =
      (splitLast ',' (platformUrnPrefix ++ (platform ++ ',' :: name))).map fun p =>
        (p.1,p.2,origin) := by
  have hguard : (datasetUrnPrefix.isPrefixOf (dataset_urn platform name origin) &&
      (dataset_urn platform name origin).getLast? = some ')') = true := by
    rw [Bool.and_eq_true,List.isPrefixOf_iff_prefix,decide_eq_true_eq]
    constructor
    · exact ⟨_,by rw [dataset_urn,List.append_assoc]⟩
    · exact List.getLast?_concat
  have hinner : ((dataset_urn platform name origin).drop datasetUrnPrefix.length).dropLast =
      (platformUrnPrefix ++ (platform ++ ',' :: name)) ++ ',' :: origin := by
    rw [dataset_urn,List.append_assoc,List.drop_left,List.dropLast_concat]
    simp
  rw [datasetUrnFields,if_pos hguard,hinner,splitLast_append horigin]
  rfl

theorem origin_of_urn (h : Origin origin) :
    origin_from_dataset_urn (dataset_urn platform name origin) = some origin := by
  have hcomma : ',' ∈ platformUrnPrefix ++ (platform ++ ',' :: name) := by simp
  have hsplit : ∃ p, splitLast ',' (platformUrnPrefix ++ (platform ++ ',' :: name)) = some p := by
    rw [splitLast,if_pos hcomma]
    exact ⟨_,rfl⟩
  obtain ⟨p,hp⟩ := hsplit
  rw [origin_from_dataset_urn,fields_of_urn h.comma,hp]
  exact nonBlank_eq_some.mpr ⟨h.space,h.nonempty⟩

/-- The name is found exactly if it has no comma of its own, and is not empty. -/
theorem name_of_urn (hname : stripped name = name) (horigin : ',' ∉ origin) :
    name_from_dataset_urn (dataset_urn platform name origin) = some name ↔
      name ≠ [] ∧ ',' ∉ name := by
  rw [name_from_dataset_urn,fields_of_urn horigin]
  constructor
  · intro h
    obtain ⟨f,hf,hblank⟩ := Option.bind_eq_some_iff.mp h
    obtain ⟨p,hp,rfl⟩ := Option.map_eq_some_iff.mp hf
    obtain ⟨hstrip,hne⟩ := nonBlank_eq_some.mp hblank
    refine ⟨hne,fun hc => splitLast_snd hp (stripped_subset _ ?_)⟩
    rw [hstrip]
    exact hc
  · rintro ⟨hne,hcomma⟩
    have hassoc : platformUrnPrefix ++ (platform ++ ',' :: name) =
        (platformUrnPrefix ++ platform) ++ ',' :: name := by simp
    rw [hassoc,splitLast_append hcomma]
    exact nonBlank_eq_some.mpr ⟨hname,hne⟩

/-- The three splitters give back the segments exactly if the platform and the name are not
empty and the name has no comma. -/
theorem dataset_urn_segments_iff (platform name origin : Str) (hplatform : ',' ∉ platform)
    (hname : stripped name = name) (horigin : Origin origin) :
    (platform_from_dataset_urn (dataset_urn platform name origin) = some platform ∧
      name_from_dataset_urn (dataset_urn platform name origin) = some name ∧
      origin_from_dataset_urn (dataset_urn platform name origin) = some origin) ↔
    platform ≠ [] ∧ name ≠ [] ∧ ',' ∉ name := by
  rw [platform_of_urn hplatform,name_of_urn hname horigin.comma,origin_of_urn horigin]
  by_cases h : platform = [] <;> simp [h]

theorem origin_prod : Origin "PROD".toList where
  nonempty := by decide
  comma := by decide
  parenthesis := by decide
  space := by decide

theorem dataset_urn_segments_table :
    name_from_dataset_urn (dataset_urn "hive".toList "db.t(1)".toList "PROD".toList) =
      some "db.t(1)".toList :=
  ((dataset_urn_segments_iff _ _ _ (by decide) (by decide) origin_prod).mpr
    (by decide)).2.1

/-- Of a name with a comma only the part after it is left. -/
theorem name_after_comma :
    ¬ ∀ platform name origin, ',' ∉ platform → stripped name = name → Origin origin →
      platform_from_dataset_urn (dataset_urn platform name origin) = some platform ∧
        name_from_dataset_urn (dataset_urn platform name origin) = some name ∧
        origin_from_dataset_urn (dataset_urn platform name origin) = some origin := by
  intro h
  have hname := (h "hive".toList "a,b".toList "PROD".toList (by decide) (by decide)
    origin_prod).2.1
  have hafter : name_from_dataset_urn (dataset_urn "hive".toList "a,b".toList "PROD".toList) =
      some "b".toList := by decide
  exact absurd (hafter.symm.trans hname) (by decide)

end Segments

end Ingestion
end Dataspoke
