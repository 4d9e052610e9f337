import Dataspoke.SweepSources

/-!
# Step 1 again

Step 1 on the rows that a first run of it left. Every listed row is there with its content, so
the upserts write only the time of the update and nothing is removed.
-/

namespace Dataspoke
namespace Ingestion

open Python

/-- A row without the time of its update. -/
def IngestionSource.unstamped (row : IngestionSource) : IngestionSource := { row with updated_at := 0 }

section Overlay

variable {env : Runtime} {now now' : ℕ} {s s' : Sources}

/-- What the upsert of an entry makes of a row. -/
def overlayOne (env : Runtime) (now : ℕ) (row : IngestionSource) (t : Named × Option ℕ) :
    IngestionSource :=
  if row.isManaged t.1.1.urnText then
    (content env t.1.1).elim row fun c => row.setContent c t.2 now
  else row

def overlay (env : Runtime) (now : ℕ) (todo : List (Named × Option ℕ)) (row : IngestionSource) :
    IngestionSource :=
  todo.foldl (overlayOne env now) row

/-- The parts of a row that no upsert writes. -/
structure Kin (row row' : IngestionSource) : Prop where
  id : row'.id = row.id
  mode : row'.mode = row.mode
  urn : row'.datahub_source_urn = row.datahub_source_urn
  created : row'.created_at = row.created_at

theorem Kin.isManaged {row row' : IngestionSource} (h : Kin row row') (urn : Str) :
    row'.isManaged urn = row.isManaged urn := by
  simp [IngestionSource.isManaged,h.mode,h.urn]

theorem overlayOne_kin (row : IngestionSource) (t : Named × Option ℕ) :
    Kin row (overlayOne env now row t) := by
  rw [overlayOne]
  split
  · cases content env t.1.1 <;> exact ⟨rfl,rfl,rfl,rfl⟩
  · exact ⟨rfl,rfl,rfl,rfl⟩

theorem overlay_kin (todo : List (Named × Option ℕ)) (row : IngestionSource) :
    Kin row (overlay env now todo row) := by
  refine Fold.foldl_invariant (I:=Kin row) (fun r t _ h => ?_) ⟨rfl,rfl,rfl,rfl⟩
  have hone := @overlayOne_kin env now r t
  exact ⟨hone.id.trans h.id,hone.mode.trans h.mode,hone.urn.trans h.urn,
    hone.created.trans h.created⟩

/-- The URN has exactly one managed row. -/
def Present (s : Sources) (urn : Str) : Prop :=
  Sole s urn ∧ ∃ row ∈ s.rows, row.isManaged urn = true

/-- The upsert of an entry that has its row rewrites that row. -/
theorem upsert_present {t : Named × Option ℕ} (hc : content env t.1.1 ≠ none)
    (hp : Present s t.1.1.urnText) : ∃ s' id,
      upsert_managed_row env now t.1 t.2 s = .ok (s',id) ∧
      s'.rows = s.rows.map (overlayOne env now · t) ∧ s'.next_id = s.next_id := by
  obtain ⟨c,hc⟩ := Option.ne_none_iff_exists'.mp hc
  obtain ⟨hsole,row,hrow,hm⟩ := hp
  obtain ⟨⟨s',id⟩,hok⟩ := (@upsert_managed_row_ok_iff env now _ _ t.2).mpr
    ⟨by simp [hc],hsole⟩
  refine ⟨s',id,hok,?_⟩
  rw [upsert_managed_row,hc] at hok
  dsimp only at hok
  split at hok
  · rename_i hnil
    exact absurd hm (List.filter_eq_nil_iff.mp hnil row hrow)
  · rename_i row' hfilter
    have hmem : ∀ r, r ∈ s.rows ∧ r.isManaged t.1.1.urnText = true ↔ r = row' := by
      intro r
      rw [← List.mem_filter,hfilter,List.mem_singleton]
    cases hok
    refine ⟨List.map_congr_left fun r hr => ?_,rfl⟩
    have hiff : r.id = row'.id ↔ r.isManaged t.1.1.urnText = true := by
      constructor
      · intro hid
        rw [Sources.ext_id hr ((hmem row').mpr rfl).1 hid]
        exact ((hmem row').mpr rfl).2
      · exact fun h => congrArg _ ((hmem r).mp ⟨hr,h⟩)
    by_cases hid : r.id = row'.id
    · simp [overlayOne,hid,hiff.mp hid,hc]
    · have hno : r.isManaged t.1.1.urnText = false := by simpa using hiff.not.mp hid
      simp [overlayOne,hid,hno]
  · cases hok

theorem present_map {f : IngestionSource → IngestionSource} (hf : ∀ row, Kin row (f row))
    (hs : s'.rows = s.rows.map f) {urn : Str} (hp : Present s urn) : Present s' urn := by
  obtain ⟨hsole,row,hrow,hm⟩ := hp
  rw [Present,Sole,hs]
  constructor
  · intro r hr r' hr' hm hm'
    obtain ⟨x,hx,rfl⟩ := List.mem_map.mp hr
    obtain ⟨x',hx',rfl⟩ := List.mem_map.mp hr'
    rw [(hf x).isManaged] at hm
    rw [(hf x').isManaged] at hm'
    rw [hsole x hx x' hx' hm hm']
  · exact ⟨f row,List.mem_map.mpr ⟨row,hrow,rfl⟩,((hf row).isManaged urn).trans hm⟩

/-- A pass whose rows are all there rewrites them in place. -/
theorem foldlM_present {todo : List (Named × Option ℕ)} {s : Sources} {ids : List (Str × ℕ)}
    (h : ∀ t ∈ todo, content env t.1.1 ≠ none ∧ Present s t.1.1.urnText) :
    ∃ s' ids', todo.foldlM (upsertNext env now) (s,ids) = .ok (s',ids') ∧
      s'.rows = s.rows.map (overlay env now todo) ∧ s'.next_id = s.next_id := by
  induction todo generalizing s ids with
  | nil => exact ⟨s,ids,rfl,(List.map_id s.rows).symm,rfl⟩
  | cons t todo ih =>
    rw [List.forall_mem_cons] at h
    obtain ⟨s₁,id,hok,hrows,hnext⟩ := upsert_present h.1.1 h.1.2
    have hstep : upsertNext env now (s,ids) t = .ok (s₁,setItem t.1.1.urnText id ids) :=
      map_eq_ok.mpr ⟨_,hok,rfl⟩
    obtain ⟨s',ids',hrest,hrows',hnext'⟩ := ih (s:=s₁)
      fun u hu => ⟨(h.2 u hu).1,
        present_map (fun row => overlayOne_kin row t) hrows (h.2 u hu).2⟩
    refine ⟨s',ids',?_,?_,hnext'.trans hnext⟩
    · rw [List.foldlM_cons]
      exact bind_eq_ok.mpr ⟨_,hstep,hrest⟩
    · rw [hrows',hrows,List.map_map]
      rfl

/-- What a pass has made of the rows: those of its entries are there, an upsert of them all
would change nothing, and each has the parent of one of them. -/
structure Filled (env : Runtime) (todo : List (Named × Option ℕ)) (s s' : Sources) : Prop where
  present : ∀ t ∈ todo, content env t.1.1 ≠ none ∧ Present s' t.1.1.urnText
  fixed : ∀ now, ∀ row ∈ s'.rows, (overlay env now todo row).unstamped = row.unstamped
  parent : ∀ row ∈ s'.rows, (∃ t ∈ todo, row.isManaged t.1.1.urnText = true) →
    ∃ t ∈ todo, row.isManaged t.1.1.urnText = true ∧ row.parent_source_id = t.2
  others : ∀ row : IngestionSource, (∀ t ∈ todo, row.isManaged t.1.1.urnText = false) →
    (row ∈ s'.rows ↔ row ∈ s.rows)
  kept : ∀ row ∈ s.rows, ∃ row' ∈ s'.rows, row'.id = row.id ∧
    ∀ urn, row'.isManaged urn = row.isManaged urn

/-- Rewriting a row that holds the content leaves it, but for the time. -/
theorem Written.setContent {c : Content} {urn : Str} {parent : Option ℕ}
    {row row' : IngestionSource} (h : Written c urn parent row) (hk : Kin row row') :
    (row'.setContent c parent now).unstamped = row.unstamped := by
  obtain ⟨id,mode,name,platform,recipe,schedule,tier,datahub_urn,parent_id,status,created,updated⟩ :=
    row
  obtain ⟨hid,hmode,hurn,hcreated⟩ := hk
  obtain ⟨-,-,hname,hplatform,hrecipe,hschedule,htier,hparent,hstatus⟩ := h
  simp only at hid hmode hurn hcreated hname hplatform hrecipe hschedule htier hparent hstatus
  simp [IngestionSource.setContent,IngestionSource.unstamped,hid,hmode,hurn,hcreated,hname,
    hplatform,hrecipe,hschedule,htier,hparent,hstatus]

section Upserted

variable {t : Named} {parent : Option ℕ} {id : ℕ}

theorem Upserted.kept_row (h : Upserted env t parent s s' id) {row : IngestionSource}
    (hrow : row ∈ s.rows) : ∃ row' ∈ s'.rows, row'.id = row.id ∧
      ∀ urn, row'.isManaged urn = row.isManaged urn := by
  by_cases hm : row.isManaged t.1.urnText = true
  · obtain ⟨c,new,-,hnew,hw,hid,-⟩ := h.row
    obtain ⟨hurn,hmode⟩ := isManaged_iff.mp hm
    refine ⟨new,hnew,hid.trans (h.kept row hrow hm).symm,fun urn => ?_⟩
    simp [IngestionSource.isManaged,hw.urn,hw.mode,hurn,hmode]
  · exact ⟨row,(h.others row (by simpa using hm)).mpr hrow,rfl,fun _ => rfl⟩

theorem Upserted.present_self (h : Upserted env t parent s s' id) : Present s' t.1.urnText := by
  obtain ⟨c,new,-,hnew,hw,-,hsole⟩ := h.row
  refine ⟨fun r hr r' hr' hm hm' => ?_,new,hnew,hw.isManaged⟩
  rw [hsole r hr hm,hsole r' hr' hm']

theorem Upserted.present (h : Upserted env t parent s s' id) {urn : Str} (hp : Present s urn) :
    Present s' urn := by
  by_cases hne : t.1.urnText = urn
  · exact hne ▸ h.present_self
  · obtain ⟨hsole,row,hrow,hm⟩ := hp
    have hothers : ∀ r : IngestionSource, r.isManaged urn = true → (r ∈ s'.rows ↔ r ∈ s.rows) :=
      fun r hm => h.others_iff hne hm
    exact ⟨(sole_congr hothers).mpr hsole,row,(hothers row hm).mpr hrow,hm⟩

end Upserted

theorem Filled.snoc {todo : List (Named × Option ℕ)} {t : Named × Option ℕ} {s₁ : Sources}
    {id : ℕ} (h : Filled env todo s s₁) (hu : Upserted env t.1 t.2 s₁ s' id) :
    Filled env (todo ++ [t]) s s' := by
  obtain ⟨c,new,hc,hnew,hw,-,hsole⟩ := hu.row
  constructor
  case present =>
    intro u hmem
    rcases List.mem_append.mp hmem with hmem | hmem
    · exact ⟨(h.present u hmem).1,hu.present (h.present u hmem).2⟩
    · obtain rfl := List.mem_singleton.mp hmem
      exact ⟨by simp [hc],hu.present_self⟩
  case fixed =>
    intro now row hrow
    have hkin := @overlay_kin env now todo row
    rw [overlay,List.foldl_append,List.foldl_cons,List.foldl_nil,← overlay,overlayOne,
      hkin.isManaged]
    by_cases hm : row.isManaged t.1.1.urnText = true
    · rw [if_pos hm,hc,hsole row hrow hm]
      rw [hsole row hrow hm] at hkin
      exact hw.setContent hkin
    · rw [if_neg hm]
      exact h.fixed now row ((hu.others row (by simpa using hm)).mp hrow)
  case parent =>
    rintro row hrow ⟨u,hmem,hmu⟩
    by_cases hm : row.isManaged t.1.1.urnText = true
    · refine ⟨t,by simp,hm,?_⟩
      rw [hsole row hrow hm]
      exact hw.parent
    · have hold := (hu.others row (by simpa using hm)).mp hrow
      rcases List.mem_append.mp hmem with hmem | hmem
      · obtain ⟨v,hv,hmv,hp⟩ := h.parent row hold ⟨u,hmem,hmu⟩
        exact ⟨v,List.mem_append_left _ hv,hmv,hp⟩
      · obtain rfl := List.mem_singleton.mp hmem
        exact absurd hmu hm
  case others =>
    intro row hrow
    refine (hu.others row (hrow t (by simp))).trans (h.others row fun u hmem => ?_)
    exact hrow u (List.mem_append_left _ hmem)
  case kept =>
    intro row hrow
    obtain ⟨row₁,hrow₁,hid₁,hm₁⟩ := h.kept row hrow
    obtain ⟨row₂,hrow₂,hid₂,hm₂⟩ := hu.kept_row hrow₁
    exact ⟨row₂,hrow₂,hid₂.trans hid₁,fun urn => (hm₂ urn).trans (hm₁ urn)⟩

theorem Filled.nil : Filled env [] s s :=
  ⟨by simp,fun _ _ _ => rfl,by simp,fun _ _ => Iff.rfl,fun row hrow => ⟨row,hrow,rfl,fun _ => rfl⟩⟩

/-- What the upserts of one pass add to those before them. -/
theorem Filled.foldlM {before todo : List (Named × Option ℕ)} {s₁ : Sources}
    {ids ids' : List (Str × ℕ)} (hf : Filled env before s s₁)
    (h : todo.foldlM (upsertNext env now) (s₁,ids) = .ok (s',ids')) :
    Filled env (before ++ todo) s s' := by
  induction todo generalizing before s₁ ids with
  | nil =>
    cases h
    rwa [List.append_nil]
  | cons t todo ih =>
    rw [List.foldlM_cons] at h
    obtain ⟨⟨s₂,ids₂⟩,h₂,h⟩ := bind_eq_ok.mp h
    obtain ⟨⟨rows,id⟩,hr,he⟩ := map_eq_ok.mp h₂
    obtain ⟨rfl,-⟩ := Prod.mk.inj he
    rw [List.append_cons]
    exact ih (hf.snoc (upsert_managed_row_ok hr)) h

/-- The ids by URN are those of the rows that the entries have. -/
def IdsOf (todo : List (Named × Option ℕ)) (s : Sources) (ids : List (Str × ℕ)) : Prop :=
  ∀ urn id, get? urn ids = some id ↔ (∃ t ∈ todo, t.1.1.urnText = urn) ∧
    ∃ row ∈ s.rows, row.isManaged urn = true ∧ row.id = id

theorem IdsOf.snoc {todo : List (Named × Option ℕ)} {t : Named × Option ℕ}
    {ids : List (Str × ℕ)} {id : ℕ} (h : IdsOf todo s ids)
    (hu : Upserted env t.1 t.2 s s' id) :
    IdsOf (todo ++ [t]) s' (setItem t.1.1.urnText id ids) := by
  intro urn id'
  rw [get?_setItem]
  by_cases hne : urn = t.1.1.urnText
  · obtain ⟨c,new,-,hnew,hw,hid,hsole⟩ := hu.row
    rw [if_pos hne,hne,Option.some.injEq]
    constructor
    · rintro rfl
      exact ⟨⟨t,by simp,rfl⟩,new,hnew,hw.isManaged,hid⟩
    · rintro ⟨-,row,hrow,hm,rfl⟩
      rw [hsole row hrow hm,hid]
  · rw [if_neg hne,h urn id']
    refine and_congr ?_ (exists_congr fun row => ?_)
    · simp [Ne.symm hne]
    · constructor
      · rintro ⟨hrow,hm,hid⟩
        exact ⟨(hu.others_iff (Ne.symm hne) hm).mpr hrow,hm,hid⟩
      · rintro ⟨hrow,hm,hid⟩
        exact ⟨(hu.others_iff (Ne.symm hne) hm).mp hrow,hm,hid⟩

theorem IdsOf.foldlM {before todo : List (Named × Option ℕ)} {ids ids' : List (Str × ℕ)}
    (hi : IdsOf before s ids) (h : todo.foldlM (upsertNext env now) (s,ids) = .ok (s',ids')) :
    IdsOf (before ++ todo) s' ids' := by
  induction todo generalizing before s ids with
  | nil =>
    cases h
    rwa [List.append_nil]
  | cons t todo ih =>
    rw [List.foldlM_cons] at h
    obtain ⟨⟨s₂,ids₂⟩,h₂,h⟩ := bind_eq_ok.mp h
    obtain ⟨⟨rows,id⟩,hr,he⟩ := map_eq_ok.mp h₂
    obtain ⟨rfl,rfl⟩ := Prod.mk.inj he
    rw [List.append_cons]
    exact ih (hi.snoc (upsert_managed_row_ok hr)) h

theorem idsOf_nil : IdsOf [] s [] := by
  intro urn id
  simp [get?]

end Overlay

section Again

variable {env : Runtime} {now now' : ℕ} {dh_sources : List ManagedSource}
  {s a b : Sources} {ids ids' : List (Str × ℕ)}

/-- The entries of the two passes, where the first returns the ids. -/
def linkedOf (env : Runtime) (dh_sources : List ManagedSource) (ids : List (Str × ℕ)) :
    List (Named × Option ℕ) :=
  linkedWrappers env ((wrappers dh_sources).takeWhile (·.1.isHashable env)) ids

def regularsOf (dh_sources : List ManagedSource) : List (Named × Option ℕ) :=
  (regulars dh_sources).map (·,none)

theorem linkedWrappers_congr {ws : List Named} (h : ∀ urn, get? urn ids = get? urn ids') :
    linkedWrappers env ws ids = linkedWrappers env ws ids' := by
  have hget : (get? · ids) = (get? · ids') := funext h
  rw [linkedWrappers,linkedWrappers,hget]

/-- The URNs that step 1 has seen. -/
def seenOf (env : Runtime) (dh_sources : List ManagedSource) (ids : List (Str × ℕ)) : List Str :=
  (regulars dh_sources).map (·.1.urnText) ++ (linkedOf env dh_sources ids).map (·.1.1.urnText)

/-- How step 1 can end. -/
inductive Ended (env : Runtime) (now : ℕ) (dh_sources : List ManagedSource) (s : Sources) :
    Sources × Except SweepError SourceCounts → Prop
  | passA {e : SweepError} (h : passA env now (regulars dh_sources) s = .error e) :
      Ended env now dh_sources s (s,.error e)
  | passB {e : SweepError} {a : Sources} {ids : List (Str × ℕ)}
      (hA : passA env now (regulars dh_sources) s = .ok (a,ids))
      (h : passB env now (linkedOf env dh_sources ids) a = .error e ∨
        (wrappers dh_sources).all (·.1.isHashable env) = false) :
      Ended env now dh_sources s (a,.error e)
  | done {a b : Sources} {ids : List (Str × ℕ)}
      (hA : passA env now (regulars dh_sources) s = .ok (a,ids))
      (hB : passB env now (linkedOf env dh_sources ids) a = .ok b)
      (hall : (wrappers dh_sources).all (·.1.isHashable env) = true) :
      Ended env now dh_sources s
        (b.delete fun row => decide (Stale (seenOf env dh_sources ids) row),
          .ok ⟨(seenOf env dh_sources ids).length,
            b.rows.countP fun row => decide (Stale (seenOf env dh_sources ids) row)⟩)

theorem sweepSources_ended : Ended env now dh_sources s (sweepSources env now dh_sources s) := by
  rw [sweepSources]
  split
  · exact .passA ‹_›
  · rename_i hA
    dsimp only
    split
    · exact .passB hA (.inl ‹_›)
    · split
      · exact .done hA ‹_› ‹_›
      · exact .passB hA (.inr (eq_false_of_ne_true ‹_›))

/-- The same rows, up to the times of the updates. -/
structure SameSources (s s' : Sources) : Prop where
  rows : s'.rows.map IngestionSource.unstamped = s.rows.map IngestionSource.unstamped
  next : s'.next_id = s.next_id

theorem sameSources_refl (s : Sources) : SameSources s s := ⟨rfl,rfl⟩

/-- The pairs of a URN and the id of its row. -/
def HasId (s : Sources) (urn : Str) (id : ℕ) : Prop :=
  ∃ row ∈ s.rows, row.isManaged urn = true ∧ row.id = id

theorem hasId_map {f : IngestionSource → IngestionSource} (hf : ∀ row, Kin row (f row))
    {s' : Sources} (hs : s'.rows = s.rows.map f) {urn : Str} {id : ℕ} :
    HasId s' urn id ↔ HasId s urn id := by
  rw [HasId,hs]
  constructor
  · rintro ⟨_,hr,hm,hid⟩
    obtain ⟨row,hrow,rfl⟩ := List.mem_map.mp hr
    exact ⟨row,hrow,(hf row).isManaged urn ▸ hm,(hf row).id ▸ hid⟩
  · rintro ⟨row,hrow,hm,hid⟩
    exact ⟨f row,List.mem_map.mpr ⟨row,hrow,rfl⟩,((hf row).isManaged urn).trans hm,
      (hf row).id.trans hid⟩

theorem ids_congr {todo : List (Named × Option ℕ)} {s₁ s₂ : Sources} (h₁ : IdsOf todo s₁ ids)
    (h₂ : IdsOf todo s₂ ids')
    (h : ∀ t ∈ todo, ∀ id, HasId s₁ t.1.1.urnText id ↔ HasId s₂ t.1.1.urnText id) (urn : Str) :
    get? urn ids = get? urn ids' := by
  refine Option.ext fun id => ?_
  rw [h₁ urn id,h₂ urn id]
  refine and_congr_right ?_
  rintro ⟨t,ht,rfl⟩
  exact h t ht id

theorem passA_filled (h : passA env now (regulars dh_sources) s = .ok (a,ids)) :
    Filled env (regularsOf dh_sources) s a ∧ IdsOf (regularsOf dh_sources) a ids :=
  ⟨Filled.nil.foldlM h,idsOf_nil.foldlM h⟩

theorem passA_present (h : ∀ t ∈ regularsOf dh_sources,
      content env t.1.1 ≠ none ∧ Present s t.1.1.urnText) :
    ∃ a ids, passA env now (regulars dh_sources) s = .ok (a,ids) ∧
      a.rows = s.rows.map (overlay env now (regularsOf dh_sources)) ∧ a.next_id = s.next_id ∧
      IdsOf (regularsOf dh_sources) a ids := by
  obtain ⟨a,ids,hok,hrows,hnext⟩ := foldlM_present h
  exact ⟨a,ids,hok,hrows,hnext,idsOf_nil.foldlM hok⟩

theorem passB_ok {linked : List (Named × Option ℕ)}
    (h : passB env now linked a = .ok b) :
    ∃ ids, linked.foldlM (upsertNext env now) (a,[]) = .ok (b,ids) := by
  obtain ⟨⟨b',ids⟩,hok,rfl⟩ := map_eq_ok.mp h
  exact ⟨ids,hok⟩

theorem passB_ok_iff_sole {linked : List (Named × Option ℕ)} :
    (∃ b, passB env now linked a = .ok b) ↔
      ∀ t ∈ linked, content env t.1.1 ≠ none ∧ Sole a t.1.1.urnText := by
  rw [← upsertAll_ok_iff]
  constructor
  · rintro ⟨b,hb⟩
    obtain ⟨r,hr,-⟩ := map_eq_ok.mp hb
    exact ⟨r,hr⟩
  · rintro ⟨r,hr⟩
    exact ⟨r.1,map_eq_ok.mpr ⟨r,hr,rfl⟩⟩

theorem sole_map {f : IngestionSource → IngestionSource} (hf : ∀ row, Kin row (f row))
    {s' : Sources} (hs : s'.rows = s.rows.map f) {urn : Str} : Sole s' urn ↔ Sole s urn := by
  rw [Sole,hs]
  constructor
  · intro h r hr r' hr' hm hm'
    have he := h (f r) (List.mem_map.mpr ⟨r,hr,rfl⟩) (f r') (List.mem_map.mpr ⟨r',hr',rfl⟩)
      (((hf r).isManaged urn).trans hm) (((hf r').isManaged urn).trans hm')
    refine Sources.ext_id hr hr' ?_
    rw [← (hf r).id,he,(hf r').id]
  · intro h r hr r' hr' hm hm'
    obtain ⟨x,hx,rfl⟩ := List.mem_map.mp hr
    obtain ⟨x',hx',rfl⟩ := List.mem_map.mp hr'
    rw [(hf x).isManaged] at hm
    rw [(hf x').isManaged] at hm'
    rw [h x hx x' hx' hm hm']

/-- What a second run of step 1 does. -/
structure SourcesAgain (r r' : Sources × Except SweepError SourceCounts) : Prop where
  same : SameSources r.1 r'.1
  error : ∀ e, r.2 = .error e → ∃ e', r'.2 = .error e'
  ok : ∀ counts, r.2 = .ok counts → ∃ counts', r'.2 = .ok counts' ∧ counts'.sources_removed = 0

theorem again_passA {e : SweepError} (h : passA env now (regulars dh_sources) s = .error e) :
    SourcesAgain (s,.error e) (sweepSources env now' dh_sources s) := by
  have hno : ¬ ∃ r, passA env now' (regulars dh_sources) s = .ok r := by
    rw [passA_ok_iff,← passA_ok_iff,h]
    simp
  cases hA : passA env now' (regulars dh_sources) s with
  | ok r => exact absurd ⟨r,hA⟩ hno
  | error e' =>
    rw [sweepSources,hA]
    exact ⟨sameSources_refl s,fun _ _ => ⟨e',rfl⟩,fun _ h => by cases h⟩

theorem again_passB {e : SweepError} (hA : passA env now (regulars dh_sources) s = .ok (a,ids))
    (h : passB env now (linkedOf env dh_sources ids) a = .error e ∨
      (wrappers dh_sources).all (·.1.isHashable env) = false) :
    SourcesAgain (a,.error e) (sweepSources env now' dh_sources a) := by
  obtain ⟨hfilled,hids⟩ := passA_filled hA
  obtain ⟨a₂,ids₂,hA₂,hrows,hnext,hids₂⟩ := passA_present hfilled.present
  have hkin : ∀ row, Kin row (overlay env now' (regularsOf dh_sources) row) :=
    fun row => overlay_kin _ row
  have hlinked : linkedOf env dh_sources ids₂ = linkedOf env dh_sources ids :=
    linkedWrappers_congr (ids_congr hids₂ hids fun t _ id => hasId_map hkin hrows)
  have hsame : SameSources a a₂ := by
    refine ⟨?_,hnext⟩
    rw [hrows,List.map_map]
    exact List.map_congr_left fun row hrow => hfilled.fixed now' row hrow
  have hended := @sweepSources_ended env now' dh_sources a
  generalize sweepSources env now' dh_sources a = r at hended ⊢
  cases hended with
  | passA hA' =>
    rw [hA'] at hA₂
    cases hA₂
  | passB hA' h' =>
    rw [hA'] at hA₂
    cases hA₂
    exact ⟨hsame,fun _ _ => ⟨_,rfl⟩,fun _ h => by cases h⟩
  | done hA' hB hall =>
    rw [hA'] at hA₂
    cases hA₂
    rcases h with herror | hno
    · rw [hlinked] at hB
      have hok := passB_ok_iff_sole.mp ⟨_,hB⟩
      simp only [sole_map hkin hrows] at hok
      obtain ⟨b',hb'⟩ := (passB_ok_iff_sole).mpr hok
      rw [herror] at hb'
      cases hb'
    · rw [hno] at hall
      cases hall

theorem mem_seenOf {urn : Str} : urn ∈ seenOf env dh_sources ids ↔
    ∃ t ∈ regularsOf dh_sources ++ linkedOf env dh_sources ids, t.1.1.urnText = urn := by
  have hmap : seenOf env dh_sources ids =
      (regularsOf dh_sources ++ linkedOf env dh_sources ids).map (·.1.1.urnText) := by
    rw [List.map_append,regularsOf,List.map_map]
    rfl
  rw [hmap,List.mem_map]

theorem not_stale {t : Named × Option ℕ} {row : IngestionSource}
    (ht : t ∈ regularsOf dh_sources ++ linkedOf env dh_sources ids)
    (hm : row.isManaged t.1.1.urnText = true) : ¬ Stale (seenOf env dh_sources ids) row := by
  rintro ⟨-,urn,hurn,-,hno⟩
  rw [(isManaged_iff.mp hm).1,Option.some.injEq] at hurn
  exact hno (mem_seenOf.mpr ⟨t,ht,hurn⟩)

/-- What the two passes have made of the rows before the removal. -/
structure BothPasses (env : Runtime) (dh_sources : List ManagedSource) (ids : List (Str × ℕ))
    (a b : Sources) : Prop where
  regular : IdsOf (regularsOf dh_sources) a ids
  there : ∀ t ∈ regularsOf dh_sources, Present a t.1.1.urnText
  kept : ∀ row ∈ a.rows, ∃ row' ∈ b.rows, row'.id = row.id ∧
    ∀ urn, row'.isManaged urn = row.isManaged urn
  present : ∀ t ∈ regularsOf dh_sources ++ linkedOf env dh_sources ids,
    content env t.1.1 ≠ none ∧ Present b t.1.1.urnText
  fixed : ∀ now, ∀ row ∈ b.rows,
    (overlay env now (regularsOf dh_sources ++ linkedOf env dh_sources ids) row).unstamped =
      row.unstamped
  parent : ∀ row ∈ b.rows,
    (∃ t ∈ regularsOf dh_sources ++ linkedOf env dh_sources ids,
      row.isManaged t.1.1.urnText = true) →
    ∃ t ∈ regularsOf dh_sources ++ linkedOf env dh_sources ids,
      row.isManaged t.1.1.urnText = true ∧ row.parent_source_id = t.2

theorem bothPasses (hA : passA env now (regulars dh_sources) s = .ok (a,ids))
    (hB : passB env now (linkedOf env dh_sources ids) a = .ok b) :
    BothPasses env dh_sources ids a b := by
  obtain ⟨hfilled,hids⟩ := passA_filled hA
  obtain ⟨ids',hok⟩ := passB_ok hB
  have hboth := hfilled.foldlM hok
  have hlast := Filled.nil.foldlM hok
  exact ⟨hids,fun t ht => (hfilled.present t ht).2,hlast.kept,hboth.present,hboth.fixed,
    hboth.parent⟩

/-- The removal takes no row with a parent that stays, and none whose parent it takes. -/
theorem BothPasses.closed (h : BothPasses env dh_sources ids a b) {row : IngestionSource}
    (hrow : row ∈ b.rows) {parent : IngestionSource} (hparent : parent ∈ b.rows)
    (hlink : row.parent_source_id = some parent.id)
    (hstale : Stale (seenOf env dh_sources ids) parent) :
    Stale (seenOf env dh_sources ids) row := by
  by_contra hkept
  obtain ⟨hmode,urn,hurn,hne⟩ := b.linked row hrow (by simp [hlink])
  have hm : row.isManaged urn = true := isManaged_iff.mpr ⟨hurn,hmode⟩
  have hseen : urn ∈ seenOf env dh_sources ids := by
    by_contra hno
    exact hkept ⟨hmode,urn,hurn,hne,hno⟩
  obtain ⟨t,ht,rfl⟩ := mem_seenOf.mp hseen
  obtain ⟨u,hu,-,hp⟩ := h.parent row hrow ⟨t,ht,hm⟩
  rw [hlink] at hp
  rcases List.mem_append.mp hu with hreg | hwrap
  · obtain ⟨w,-,rfl⟩ := List.mem_map.mp hreg
    cases hp
  · -- the parent of a wrapper has the URN of a regular source
    obtain ⟨w,-,hw⟩ := List.mem_filterMap.mp hwrap
    obtain ⟨id,hid,rfl⟩ := Option.map_eq_some_iff.mp hw
    obtain ⟨name,-,hget⟩ := Option.bind_eq_some_iff.mp hid
    obtain ⟨⟨v,hv,rfl⟩,q,hq,hqm,rfl⟩ := (h.regular name id).mp hget
    obtain ⟨q',hq',hqid,hqm'⟩ := h.kept q hq
    have he : parent = q' := Sources.ext_id hparent hq' ((Option.some.inj hp).trans hqid.symm)
    exact not_stale (List.mem_append_left _ hv) ((hqm' _).trans hqm) (he ▸ hstale)

theorem BothPasses.mem_removed (h : BothPasses env dh_sources ids a b) {row : IngestionSource} :
    row ∈ (b.delete fun row => decide (Stale (seenOf env dh_sources ids) row)).rows ↔
      row ∈ b.rows ∧ ¬ Stale (seenOf env dh_sources ids) row :=
  Sources.mem_delete fun _ hrow _ hparent => h.closed hrow hparent

theorem BothPasses.present_removed (h : BothPasses env dh_sources ids a b)
    {t : Named × Option ℕ} (ht : t ∈ regularsOf dh_sources ++ linkedOf env dh_sources ids) :
    Present (b.delete fun row => decide (Stale (seenOf env dh_sources ids) row))
      t.1.1.urnText := by
  obtain ⟨hsole,row,hrow,hm⟩ := (h.present t ht).2
  refine ⟨fun r hr r' hr' => ?_,row,h.mem_removed.mpr ⟨hrow,not_stale ht hm⟩,hm⟩
  exact hsole r (h.mem_removed.mp hr).1 r' (h.mem_removed.mp hr').1

/-- The ids of the regular sources are those from pass A. -/
theorem BothPasses.hasId (h : BothPasses env dh_sources ids a b) {t : Named × Option ℕ}
    (ht : t ∈ regularsOf dh_sources) (id : ℕ) :
    HasId (b.delete fun row => decide (Stale (seenOf env dh_sources ids) row)) t.1.1.urnText id ↔
      HasId a t.1.1.urnText id := by
  have hin := List.mem_append_left (linkedOf env dh_sources ids) ht
  constructor
  · rintro ⟨row,hrow,hm,rfl⟩
    obtain ⟨-,q,hq,hqm⟩ := h.there t ht
    obtain ⟨q',hq',hid,hqm'⟩ := h.kept q hq
    have he := (h.present t hin).2.1 row (h.mem_removed.mp hrow).1 q' hq' hm ((hqm' _).trans hqm)
    exact ⟨q,hq,hqm,by rw [he,hid]⟩
  · rintro ⟨q,hq,hqm,rfl⟩
    obtain ⟨q',hq',hid,hqm'⟩ := h.kept q hq
    have hm := (hqm' _).trans hqm
    exact ⟨q',h.mem_removed.mpr ⟨hq',not_stale hin hm⟩,hm,hid⟩

theorem delete_rows {p : IngestionSource → Prop} [DecidablePred p] (h : ∀ row ∈ s.rows, ¬ p row) :
    (s.delete fun row => decide (p row)).rows = s.rows := by
  refine List.filter_eq_self.mpr fun row hrow => ?_
  have hno : row.id ∉ s.cascade (fun row => decide (p row)) s.rows.length :=
    fun hin => Sources.cascade_subset (Q:=fun _ => False) h (fun _ _ _ _ _ hq => hq) _ row hrow hin
  simp [hno]

theorem again_done (hA : passA env now (regulars dh_sources) s = .ok (a,ids))
    (hB : passB env now (linkedOf env dh_sources ids) a = .ok b)
    (hall : (wrappers dh_sources).all (·.1.isHashable env) = true) (counts : SourceCounts) :
    SourcesAgain (b.delete fun row => decide (Stale (seenOf env dh_sources ids) row),.ok counts)
      (sweepSources env now' dh_sources
        (b.delete fun row => decide (Stale (seenOf env dh_sources ids) row))) := by
  have hp := bothPasses hA hB
  generalize hd : (b.delete fun row => decide (Stale (seenOf env dh_sources ids) row)) = d
  have hpresent : ∀ t ∈ regularsOf dh_sources ++ linkedOf env dh_sources ids,
      content env t.1.1 ≠ none ∧ Present d t.1.1.urnText :=
    fun t ht => ⟨(hp.present t ht).1,hd ▸ hp.present_removed ht⟩
  obtain ⟨a₂,ids₂,hA₂,hrows,hnext,hids₂⟩ := passA_present (s:=d)
    fun t ht => hpresent t (List.mem_append_left _ ht)
  have hkin : ∀ todo row, Kin row (overlay env now' todo row) := fun todo row => overlay_kin _ row
  have hlinked : linkedOf env dh_sources ids₂ = linkedOf env dh_sources ids := by
    refine linkedWrappers_congr (ids_congr hids₂ hp.regular fun t ht id => ?_)
    rw [hasId_map (hkin _) hrows,← hd,hp.hasId ht]
  have hseen : seenOf env dh_sources ids₂ = seenOf env dh_sources ids := by
    rw [seenOf,seenOf,hlinked]
  obtain ⟨b₂,ids',hB₂,hrows₂,hnext₂⟩ := @foldlM_present env now' (linkedOf env dh_sources ids)
    a₂ [] fun t ht => ⟨(hpresent t (List.mem_append_right _ ht)).1,
      present_map (hkin _) hrows (hpresent t (List.mem_append_right _ ht)).2⟩
  have hmap : b₂.rows = d.rows.map
      (overlay env now' (regularsOf dh_sources ++ linkedOf env dh_sources ids)) := by
    rw [hrows₂,hrows,List.map_map]
    refine List.map_congr_left fun row _ => ?_
    simp only [Function.comp,overlay,List.foldl_append]
  have hnone : ∀ row ∈ b₂.rows, ¬ Stale (seenOf env dh_sources ids) row := by
    intro row hrow hstale
    rw [hmap] at hrow
    obtain ⟨r,hr,rfl⟩ := List.mem_map.mp hrow
    have hk := hkin (regularsOf dh_sources ++ linkedOf env dh_sources ids) r
    rw [Stale,hk.mode,hk.urn] at hstale
    rw [← hd] at hr
    exact (hp.mem_removed.mp hr).2 hstale
  have hend : sweepSources env now' dh_sources d =
      (b₂.delete fun row => decide (Stale (seenOf env dh_sources ids) row),
        .ok ⟨(seenOf env dh_sources ids).length,
          b₂.rows.countP fun row => decide (Stale (seenOf env dh_sources ids) row)⟩) := by
    have hpassB : passB env now' (linkedOf env dh_sources ids₂) a₂ = .ok b₂ := by
      rw [hlinked,passB,upsertAll,hB₂]
      rfl
    have hended := @sweepSources_ended env now' dh_sources d
    generalize sweepSources env now' dh_sources d = r at hended
    cases hended with
    | passA hA' =>
      rw [hA'] at hA₂
      cases hA₂
    | passB hA' h' =>
      rw [hA'] at hA₂
      cases hA₂
      rw [hpassB,hall] at h'
      rcases h' with h' | h' <;> cases h'
    | done hA' hB' hall' =>
      rw [hA'] at hA₂
      cases hA₂
      rw [hpassB] at hB'
      cases hB'
      rw [hseen]
  rw [hend]
  refine ⟨⟨?_,hnext₂.trans hnext⟩,fun _ h => (by cases h),fun _ _ => ⟨_,rfl,?_⟩⟩
  · rw [delete_rows hnone,hmap,List.map_map]
    refine List.map_congr_left fun row hrow => hp.fixed now' row ?_
    rw [← hd] at hrow
    exact (hp.mem_removed.mp hrow).1
  · exact List.countP_eq_zero.mpr fun row hrow => by simpa using hnone row hrow

/-- Step 1 on its own result writes only times, and ends the same way. -/
theorem sweepSources_again : SourcesAgain (sweepSources env now dh_sources s)
    (sweepSources env now' dh_sources (sweepSources env now dh_sources s).1) := by
  have hended := @sweepSources_ended env now dh_sources s
  generalize sweepSources env now dh_sources s = r at hended ⊢
  cases hended with
  | passA h => exact again_passA h
  | passB hA h => exact again_passB hA h
  | done hA hB hall => exact again_done hA hB hall _

end Again

end Ingestion
end Dataspoke
