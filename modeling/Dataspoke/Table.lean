import Mathlib.Data.List.Nodup
import Mathlib.Data.List.Perm.Lattice
import Mathlib.Tactic.Common

/-! # Tables of rows with a primary key -/

namespace Dataspoke

variable {ρ κ : Type}

/-- The rows of a table in insertion order, no two with the same key. -/
structure Table (key : ρ → κ) where
  rows : List ρ
  nodup : (rows.map key).Nodup

namespace Table

def empty (key : ρ → κ) : Table key := ⟨[],List.nodup_nil⟩

variable {key : ρ → κ}

theorem eq_of_key_eq {t : Table key} {r r' : ρ} (h : r ∈ t.rows) (h' : r' ∈ t.rows)
    (hk : key r = key r') : r = r' :=
  List.inj_on_of_nodup_map t.nodup h h' hk

theorem filter_key [DecidableEq κ] {t : Table key} {r : ρ}
    (h : r ∈ t.rows) : t.rows.filter (fun r' => key r' = key r) = [r] := by
  obtain ⟨before,after,heq⟩ := List.append_of_mem h
  have hn := t.nodup
  rw [heq,List.map_append,List.map_cons,List.nodup_middle,List.nodup_cons,List.mem_append,
    List.mem_map,List.mem_map] at hn
  have hbefore : before.filter (fun r' => key r' = key r) = [] :=
    List.filter_eq_nil_iff.mpr fun r' hr' hk =>
      hn.1 (.inl ⟨r',hr',of_decide_eq_true hk⟩)
  have hafter : after.filter (fun r' => key r' = key r) = [] :=
    List.filter_eq_nil_iff.mpr fun r' hr' hk =>
      hn.1 (.inr ⟨r',hr',of_decide_eq_true hk⟩)
  simp [heq,hbefore,hafter]

/-- Rewrite the rows that satisfy `p` by a function that keeps the key. -/
def modify (t : Table key) (p : ρ → Bool) (f : ρ → ρ) (hf : ∀ r, key (f r) = key r) :
    Table key where
  rows := t.rows.map fun r => if p r then f r else r
  nodup := by
    have h : (t.rows.map fun r => if p r then f r else r).map key = t.rows.map key := by
      rw [List.map_map]
      refine List.map_congr_left fun r _ => ?_
      simp only [Function.comp]
      split
      · exact hf r
      · rfl
    rw [h]
    exact t.nodup

theorem mem_modify {t : Table key} {p : ρ → Bool} {f : ρ → ρ} {hf : ∀ r, key (f r) = key r}
    {r : ρ} : r ∈ (t.modify p f hf).rows ↔ ∃ r' ∈ t.rows, (if p r' then f r' else r') = r := by
  simp [modify]

theorem countP_modify [DecidableEq κ] {t : Table key} {r : ρ} (h : r ∈ t.rows) {f : ρ → ρ}
    {hf : ∀ r, key (f r) = key r} (p : ρ → Bool) :
    (t.modify (fun r' => key r' = key r) f hf).rows.countP p + (if p r then 1 else 0) =
      t.rows.countP p + if p (f r) then 1 else 0 := by
  obtain ⟨before,after,heq⟩ := List.append_of_mem h
  have hn := t.nodup
  rw [heq,List.map_append,List.map_cons,List.nodup_middle,List.nodup_cons,List.mem_append,
    List.mem_map,List.mem_map] at hn
  have hsame : ∀ rows : List ρ, (∀ r' ∈ rows, key r' ≠ key r) →
      (rows.map fun r' => if decide (key r' = key r) then f r' else r') = rows := by
    intro rows hne
    refine (List.map_congr_left fun r' hr' => ?_).trans (List.map_id rows)
    simp [hne r' hr']
  have hbefore := hsame before fun r' hr' hk => hn.1 (.inl ⟨r',hr',hk⟩)
  have hafter := hsame after fun r' hr' hk => hn.1 (.inr ⟨r',hr',hk⟩)
  have hrows : (t.modify (fun r' => key r' = key r) f hf).rows = before ++ f r::after := by
    show (t.rows.map fun r' => if decide (key r' = key r) then f r' else r') = _
    rw [heq,List.map_append,List.map_cons,hbefore,hafter,decide_eq_true rfl,if_pos rfl]
  rw [hrows,heq,List.countP_append,List.countP_append,List.countP_cons,List.countP_cons]
  omega

/-- Rewriting rows that are counted then only if they were before. -/
theorem countP_modify_le {t : Table key} {q : ρ → Bool} {f : ρ → ρ}
    {hf : ∀ r, key (f r) = key r} {p : ρ → Bool} (h : ∀ r, p (f r) = true → p r = true) :
    (t.modify q f hf).rows.countP p ≤ t.rows.countP p := by
  rw [modify,List.countP_map]
  refine List.countP_mono_left fun r _ hr => ?_
  by_cases hq : q r = true
  · exact h r (by simpa [hq] using hr)
  · simpa [hq] using hr

/-- Delete the rows that satisfy `p`. -/
def remove (t : Table key) (p : ρ → Bool) : Table key where
  rows := t.rows.filter fun r => !p r
  nodup := t.nodup.sublist (List.filter_sublist.map key)

theorem mem_remove {t : Table key} {p : ρ → Bool} {r : ρ} :
    r ∈ (t.remove p).rows ↔ r ∈ t.rows ∧ p r = false := by
  simp [remove]

theorem countP_rows {t : Table key} {p : ρ → Bool} {q : κ → Bool} {l : List κ} (hl : l.Nodup)
    (hp : ∀ r ∈ t.rows, p r = true → key r ∈ l ∧ q (key r) = true)
    (hq : ∀ k ∈ l, q k = true → ∃ r ∈ t.rows, key r = k ∧ p r = true) :
    t.rows.countP p = l.countP q := by
  have hperm : ((t.rows.filter p).map key).Perm (l.filter q) := by
    refine (List.perm_ext_iff_of_nodup ?_ (hl.filter q)).mpr fun k => ?_
    · exact t.nodup.sublist (List.filter_sublist.map key)
    · simp only [List.mem_map,List.mem_filter]
      constructor
      · rintro ⟨r,hr,rfl⟩
        exact hp r hr.1 hr.2
      · rintro ⟨hk,hqk⟩
        obtain ⟨r,hr,he,hpr⟩ := hq k hk hqk
        exact ⟨r,⟨hr,hpr⟩,he⟩
  have hlen := hperm.length_eq
  rwa [List.length_map,← List.countP_eq_length_filter,← List.countP_eq_length_filter] at hlen

variable [DecidableEq κ] (t : Table key)

def get? (k : κ) : Option ρ := t.rows.find? fun r => key r = k

/-- Replace the row with the key of `r`, or append `r`. -/
def put (r : ρ) : Table key where
  rows := if t.rows.any fun x => key x = key r
    then t.rows.map fun x => if key x = key r then r else x else t.rows ++ [r]
  nodup := by
    split
    · have h : (t.rows.map fun x => if key x = key r then r else x).map key =
          t.rows.map key := by
        rw [List.map_map]
        refine List.map_congr_left fun x _ => ?_
        simp only [Function.comp]
        split
        · rename_i hk
          exact hk.symm
        · rfl
      rw [h]
      exact t.nodup
    · rename_i h
      rw [List.map_append,List.nodup_append]
      refine ⟨t.nodup,by simp,?_⟩
      have hnone : ∀ x ∈ t.rows, key x ≠ key r := by simpa using h
      simpa using hnone

variable {t}

theorem get?_eq_some {k : κ} {r : ρ} : t.get? k = some r ↔ r ∈ t.rows ∧ key r = k := by
  constructor
  · intro h
    exact ⟨List.mem_of_find?_eq_some h,by simpa using List.find?_some h⟩
  · rintro ⟨hr,rfl⟩
    obtain ⟨r',hr'⟩ : ∃ r', t.get? (key r) = some r' :=
      Option.isSome_iff_exists.mp (List.find?_isSome.mpr ⟨r,hr,by simp⟩)
    have hk : key r' = key r := by simpa using List.find?_some hr'
    rw [hr',eq_of_key_eq (List.mem_of_find?_eq_some hr') hr hk]

theorem get?_eq_none {k : κ} : t.get? k = none ↔ ∀ r ∈ t.rows, key r ≠ k := by
  simp [get?]

theorem mem_rows {r : ρ} : r ∈ t.rows ↔ t.get? (key r) = some r := by
  simp [get?_eq_some]

@[simp] theorem get?_empty (k : κ) : (empty key).get? k = none := rfl

theorem mem_put {r r' : ρ} : r' ∈ (t.put r).rows ↔ r' = r ∨ r' ∈ t.rows ∧ key r' ≠ key r := by
  unfold put
  dsimp only
  split
  · rename_i h
    obtain ⟨x,hx,hk⟩ := by simpa using h
    simp only [List.mem_map]
    constructor
    · rintro ⟨y,hy,rfl⟩
      split
      · exact .inl rfl
      · exact .inr ⟨hy,‹_›⟩
    · rintro (rfl | ⟨hr,hne⟩)
      · exact ⟨x,hx,by rw [if_pos hk]⟩
      · exact ⟨r',hr,by rw [if_neg hne]⟩
  · rename_i h
    have hnone : ∀ x ∈ t.rows, key x ≠ key r := by simpa using h
    simp only [List.mem_append,List.mem_singleton]
    exact ⟨fun h => h.elim (fun hr => .inr ⟨hr,hnone _ hr⟩) .inl,
      fun h => h.elim .inr fun hr => .inl hr.1⟩

theorem put_rows {r : ρ} (h : t.get? (key r) = none) : (t.put r).rows = t.rows ++ [r] := by
  have hnone : ¬ (t.rows.any fun x => decide (key x = key r)) = true := by
    simpa using get?_eq_none.mp h
  exact if_neg hnone

theorem get?_put (r : ρ) (k : κ) :
    (t.put r).get? k = if key r = k then some r else t.get? k := by
  split
  · rename_i hk
    exact get?_eq_some.mpr ⟨mem_put.mpr (.inl rfl),hk⟩
  · rename_i hk
    refine Option.ext fun r' => ?_
    rw [get?_eq_some,get?_eq_some,mem_put]
    constructor
    · rintro ⟨rfl | h,hk'⟩
      · exact absurd hk' hk
      · exact ⟨h.1,hk'⟩
    · rintro ⟨h,rfl⟩
      exact ⟨.inr ⟨h,fun he => hk he.symm⟩,rfl⟩

@[simp] theorem get?_put_self (r : ρ) : (t.put r).get? (key r) = some r := by
  rw [get?_put,if_pos rfl]

/-- Writing a row that is there changes nothing. -/
theorem put_eq_self {r : ρ} (h : t.get? (key r) = some r) : t.put r = t := by
  have hmem := (get?_eq_some.mp h).1
  have hrows : t.rows.map (fun x => if key x = key r then r else x) = t.rows.map id := by
    refine List.map_congr_left fun x hx => ?_
    split
    · exact eq_of_key_eq hmem hx (Eq.symm ‹_›)
    · rfl
  cases t
  rw [put,Table.mk.injEq,if_pos (by simpa using ⟨r,hmem,rfl⟩),hrows,List.map_id]

theorem get?_modify {p : ρ → Bool} {f : ρ → ρ} {hf : ∀ r, key (f r) = key r} {k : κ} :
    (t.modify p f hf).get? k = (t.get? k).map fun r => if p r then f r else r := by
  refine Option.ext fun r => ?_
  rw [get?_eq_some,mem_modify,Option.map_eq_some_iff]
  constructor
  · rintro ⟨⟨r',hr',rfl⟩,hk⟩
    have hk' : key (if p r' then f r' else r') = key r' := by
      split
      · exact hf r'
      · rfl
    exact ⟨r',get?_eq_some.mpr ⟨hr',hk'.symm.trans hk⟩,rfl⟩
  · rintro ⟨r',hget,rfl⟩
    obtain ⟨hr',rfl⟩ := get?_eq_some.mp hget
    refine ⟨⟨r',hr',rfl⟩,?_⟩
    split
    · exact hf r'
    · rfl

theorem get?_remove {p : ρ → Bool} {k : κ} :
    (t.remove p).get? k = (t.get? k).filter fun r => !p r := by
  refine Option.ext fun r => ?_
  rw [get?_eq_some,mem_remove,Option.filter_eq_some_iff,get?_eq_some]
  simp only [Bool.not_eq_true']
  tauto

theorem get?_foldl {ι γ : Type} {f : Table key × γ → ι → Table key × γ} {k : ι → κ}
    {g : ι → ρ} {o : ι → Option ρ}
    (hf : ∀ s a, s.1.get? (k a) = o a →
      ∀ x, (f s a).1.get? x = if k a = x then some (g a) else s.1.get? x)
    (as : List ι) (hn : (as.map k).Nodup) (s : Table key × γ)
    (hs : ∀ a ∈ as, s.1.get? (k a) = o a) :
    (∀ a ∈ as, (as.foldl f s).1.get? (k a) = some (g a)) ∧
      ∀ x, x ∉ as.map k → (as.foldl f s).1.get? x = s.1.get? x := by
  induction as generalizing s with
  | nil => simp
  | cons a as ih =>
    rw [List.map_cons,List.nodup_cons] at hn
    have ha := hf s a (hs a List.mem_cons_self)
    have hrest : ∀ b ∈ as, (f s a).1.get? (k b) = o b := by
      intro b hb
      have hne : k a ≠ k b := fun he => hn.1 (he ▸ List.mem_map_of_mem hb)
      rw [ha,if_neg hne]
      exact hs b (List.mem_cons_of_mem _ hb)
    have hih := ih hn.2 _ hrest
    rw [List.foldl_cons]
    constructor
    · intro b hb
      rcases List.mem_cons.mp hb with rfl | hb
      · rw [hih.2 _ hn.1,ha,if_pos rfl]
      · exact hih.1 b hb
    · intro x hx
      rw [List.map_cons,List.mem_cons,not_or] at hx
      rw [hih.2 x hx.2,ha,if_neg (Ne.symm hx.1)]

/-- Folding such steps over the rows of a table that satisfy `p`. -/
theorem get?_foldl_rows {γ : Type} {f : Table key × γ → ρ → Table key × γ} {g : ρ → ρ}
    (hf : ∀ s r, s.1.get? (key r) = some r →
      ∀ x, (f s r).1.get? x = if key r = x then some (g r) else s.1.get? x)
    (p : ρ → Bool) (s : Table key × γ)
    (hs : ∀ r ∈ t.rows, p r = true → s.1.get? (key r) = some r) (x : κ) :
    ((t.rows.filter p).foldl f s).1.get? x =
      if (t.get? x).any p then (t.get? x).map g else s.1.get? x := by
  have hn : ((t.rows.filter p).map key).Nodup := t.nodup.sublist (List.filter_sublist.map key)
  have h := get?_foldl hf (t.rows.filter p) hn s (o:=some) (by simpa using hs)
  have hnot : (t.get? x).any p = false → x ∉ (t.rows.filter p).map key := by
    intro hp hx
    obtain ⟨r,hr,rfl⟩ := List.mem_map.mp hx
    rw [List.mem_filter,mem_rows] at hr
    simp [hr.1,hr.2] at hp
  by_cases hp : (t.get? x).any p = true
  · obtain ⟨r,hr,hpr⟩ := (Option.any_eq_true _ _).mp hp
    obtain ⟨hmem,rfl⟩ := get?_eq_some.mp hr
    rw [if_pos hp,hr]
    exact h.1 r (List.mem_filter.mpr ⟨hmem,hpr⟩)
  · rw [if_neg hp]
    exact h.2 x (hnot (by simpa using hp))

section Upsert

variable {mk : κ → ρ} {update : ρ → Option ρ} {counted : κ → Bool}

/-- `INSERT … ON CONFLICT DO UPDATE … WHERE`: the table, and whether a row was written. -/
def upsert (t : Table key) (new : ρ) (update : ρ → Option ρ) : Table key × Bool :=
  match t.get? (key new) with
  | none => (t.put new,true)
  | some r =>
    match update r with
    | none => (t,false)
    | some r' => (t.put r',true)

/-- The row that an upsert leaves. -/
def merged (new : ρ) (update : ρ → Option ρ) : Option ρ → ρ
  | none => new
  | some r => (update r).getD r

/-- Whether an upsert writes a row. -/
def writes (update : ρ → Option ρ) (old : Option ρ) : Bool := old.all fun r => (update r).isSome

theorem get?_upsert {new : ρ} (hu : ∀ r r', update r = some r' → key r' = key r) (k : κ) :
    (t.upsert new update).1.get? k =
      if key new = k then some (merged new update (t.get? k)) else t.get? k := by
  have hput : ∀ r', key r' = key new → merged new update (t.get? (key new)) = r' →
      (t.put r').get? k = if key new = k then some (merged new update (t.get? k)) else t.get? k := by
    intro r' hr' hm
    rw [get?_put,hr']
    by_cases hk : key new = k
    · rw [if_pos hk,if_pos hk,← hk,hm]
    · rw [if_neg hk,if_neg hk]
  rw [upsert]
  cases hget : t.get? (key new) with
  | none => exact hput new rfl (by rw [hget,merged])
  | some r =>
    have hr := (get?_eq_some.mp hget).2
    cases hup : update r with
    | none =>
      by_cases hk : key new = k
      · rw [if_pos hk,← hk,hget,merged,hup]
        simpa [hup] using hget
      · rw [if_neg hk]
        simp [hup]
    | some r' =>
      have hup' := hput r' ((hu r r' hup).trans hr) (by rw [hget,merged,hup]; rfl)
      simpa [hup] using hup'

theorem upsert_snd {new : ρ} : (t.upsert new update).2 = writes update (t.get? (key new)) := by
  rw [upsert]
  cases t.get? (key new) with
  | none => rfl
  | some r => cases hup : update r <;> simp [writes,hup]

/-- Upserts of new rows for the keys, with a count of those that write and are counted. -/
def upserts (mk : κ → ρ) (update : ρ → Option ρ) (counted : κ → Bool) (keys : List κ)
    (acc : Table key × ℕ) : Table key × ℕ :=
  keys.foldl (fun acc k =>
    let r := acc.1.upsert (mk k) update
    (r.1,if r.2 && counted k then acc.2+1 else acc.2)) acc

theorem get?_upserts (hmk : ∀ k, key (mk k) = k)
    (hu : ∀ r r', update r = some r' → key r' = key r)
    (hidem : ∀ k o, merged (mk k) update (some (merged (mk k) update o)) = merged (mk k) update o)
    (keys : List κ) (acc : Table key × ℕ) (k : κ) :
    (upserts mk update counted keys acc).1.get? k =
      if k ∈ keys then some (merged (mk k) update (acc.1.get? k)) else acc.1.get? k := by
  induction keys generalizing acc with
  | nil => simp [upserts]
  | cons k' keys ih =>
    rw [upserts,List.foldl_cons]
    refine (ih _).trans ?_
    rw [get?_upsert hu,hmk]
    by_cases hk : k' = k
    · subst hk
      simp [hidem]
    · simp [hk,Ne.symm hk]

theorem upserts_snd (hmk : ∀ k, key (mk k) = k)
    (hu : ∀ r r', update r = some r' → key r' = key r) {keys : List κ} (hn : keys.Nodup)
    (acc : Table key × ℕ) : (upserts mk update counted keys acc).2 =
      acc.2 + keys.countP fun k => writes update (acc.1.get? k) && counted k := by
  induction keys generalizing acc with
  | nil => simp [upserts]
  | cons k keys ih =>
    obtain ⟨hk,hn⟩ := List.nodup_cons.mp hn
    rw [upserts,List.foldl_cons]
    refine (ih hn _).trans ?_
    have hrest : (keys.countP fun k' =>
        writes update ((acc.1.upsert (mk k) update).1.get? k') && counted k') =
        keys.countP fun k' => writes update (acc.1.get? k') && counted k' := by
      refine List.countP_congr fun k' hk' => ?_
      have hne : k ≠ k' := fun he => hk (he ▸ hk')
      rw [get?_upsert hu,hmk,if_neg hne]
    dsimp only
    rw [hrest,upsert_snd,hmk,List.countP_cons]
    split <;> omega

/-- Upserts of keys that are not counted, or whose row stays, leave the count. -/
theorem upserts_snd_eq (hmk : ∀ k, key (mk k) = k)
    (hu : ∀ r r', update r = some r' → key r' = key r) {keys : List κ} {acc : Table key × ℕ}
    (hc : ∀ k ∈ keys, counted k = false ∨ ∃ r, acc.1.get? k = some r ∧ update r = none) :
    (upserts mk update counted keys acc).2 = acc.2 := by
  induction keys generalizing acc with
  | nil => rfl
  | cons k keys ih =>
    rw [List.forall_mem_cons] at hc
    have hno : (writes update (acc.1.get? k) && counted k) = false := by
      rcases hc.1 with h | ⟨r,hr,hup⟩
      · rw [h,Bool.and_false]
      · rw [hr,writes,Option.all_some,hup]
        rfl
    rw [upserts,List.foldl_cons]
    refine (ih fun k' hk' => (hc.2 k' hk').imp_right ?_).trans ?_
    · rintro ⟨r,hr,hup⟩
      refine ⟨r,?_,hup⟩
      rw [get?_upsert hu,hmk]
      by_cases hk : k = k'
      · rw [if_pos hk,hr,merged,hup,Option.getD_none]
      · rw [if_neg hk,hr]
    · dsimp only
      rw [upsert_snd,hmk,hno]
      rfl

/-- The same rows, up to what `f` forgets of them. -/
def Same {α : Type} (f : ρ → α) (t t' : Table key) : Prop :=
  ∀ k, (t'.get? k).map f = (t.get? k).map f

theorem Same.refl {α : Type} (f : ρ → α) (t : Table key) : Same f t t := fun _ => rfl

theorem Same.trans {α : Type} {f : ρ → α} {t t' t'' : Table key} (h : Same f t t')
    (h' : Same f t' t'') : Same f t t'' :=
  fun k => (h' k).trans (h k)

end Upsert

end Table
end Dataspoke
