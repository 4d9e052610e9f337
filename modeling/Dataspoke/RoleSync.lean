import Dataspoke.RoleProjection
import Dataspoke.Transition

/-!
# Reconciling the projection of roles

What one pass leaves in DataHub and reports of it, what many passes converge to, and whose
corpusers are ever written.
-/

namespace Dataspoke
namespace Projection

open Python Transition RemoteCall
open Auth.Credentials (User Role)

variable {σ : Type*} {H : DataHub σ} {lower : Str → Str} {s : σ} {g v : Str} {user : User}
  {users : Users lower} {a : Attempt} {events : List FixedEvent}

theorem Users.ordered_perm (users : Users lower) : users.ordered.Perm users.table.rows :=
  List.mergeSort_perm _ _

theorem Users.mem_ordered : user ∈ users.ordered ↔ user ∈ users.table.rows :=
  users.ordered_perm.mem_iff

theorem Users.urns (users : Users lower) :
    (users.ordered.map fun user => corpuser_urn lower user.email).Nodup := by
  have hperm := users.ordered_perm.map fun user => lower user.email
  have hn := hperm.nodup_iff.mpr users.emails
  have hmap : (users.ordered.map fun user => corpuser_urn lower user.email) =
      (users.ordered.map fun user => lower user.email).map ("urn:li:corpuser:".toList ++ ·) := by
    rw [List.map_map]
    rfl
  rw [hmap]
  exact hn.map (List.append_right_injective _)

theorem loop_fst (calls : Str → Calls) (users : List User) (s : σ) :
    (loop H lower g calls users s).1 =
      users.foldl (fun s user => (sync_user H lower g (calls user.id) user s).1) s :=
  LocalFold.foldl_fst (fun s (user : User) => sync_user H lower g (calls user.id) user s)
    Tally.count _ _ _

theorem loop_moved (g : Str) (calls : Str → Calls) (hH : H.Documented) (hu : user ∈ users.table.rows)
    (hp : Provisioned H lower user s) :
    Moved user.role (calls user.id).Assigns (fun x => x = g ∧ (calls user.id).Adds)
      (H.corpuser s (corpuser_urn lower user.email))
      (H.corpuser (loop H lower g calls users.ordered s).1 (corpuser_urn lower user.email)) := by
  obtain ⟨t,ht,hend⟩ := LocalFold.view_foldl H.corpuser
    (fun s user => (sync_user H lower g (calls user.id) user s).1)
    (fun user => corpuser_urn lower user.email) (fun s a k hk => sync_user_other hH hk)
    users.urns (Users.mem_ordered.mpr hu) s
  have hpt : Provisioned H lower user t := by
    refine ⟨hp.1,?_⟩
    rw [ht]
    exact hp.2
  have hmoved := (sync_user_projected g (calls user.id) hH hpt).moved
  rw [ht,← hend] at hmoved
  rw [loop_fst]
  exact hmoved

theorem loop_other (g : Str) (calls : Str → Calls) (hH : H.Documented)
    (hv : ∀ user ∈ users.table.rows, Provisioned H lower user s →
      corpuser_urn lower user.email ≠ v) :
    H.corpuser (loop H lower g calls users.ordered s).1 v = H.corpuser s v := by
  rw [loop_fst]
  by_cases hmem : v ∈ users.ordered.map fun user => corpuser_urn lower user.email
  · obtain ⟨user,hu,rfl⟩ := List.mem_map.mp hmem
    obtain ⟨t,ht,hend⟩ := LocalFold.view_foldl H.corpuser
      (fun s user => (sync_user H lower g (calls user.id) user s).1)
      (fun user => corpuser_urn lower user.email) (fun s a k hk => sync_user_other hH hk)
      users.urns hu s
    have hskip : ¬ Provisioned H lower user t := by
      intro hp
      refine hv user (Users.mem_ordered.mp hu) ⟨hp.1,?_⟩ rfl
      rw [← ht]
      exact hp.2
    rw [hend,sync_user_skipped hskip,ht]
  · exact LocalFold.view_foldl_of_not_mem H.corpuser
      (fun s user => (sync_user H lower g (calls user.id) user s).1)
      (fun user => corpuser_urn lower user.email) (fun s a k hk => sync_user_other hH hk) hmem

theorem ensure_corpuser (hH : H.Documented) (status info : Fate) :
    H.corpuser (ensure_marker_group_exists H g status info s).1 = H.corpuser s :=
  inTurn_view H.corpuser (hH.emitStatus g) (hH.emitCorpGroupInfo g)

/-- The pass reaches its loop, with the marker group `g`. -/
structure Attempt.Ready (a : Attempt) (g : Str) : Prop where
  configured : a.configured = true
  group : corpgroup_urn a.group_name = some g
  status : a.status = .done
  info : a.info = .done
  select : a.select = true

/-- A pass that reaches its loop is the loop over what it finds of the corpusers. -/
theorem auth_role_sync_ready (users : Users lower) (s : σ) (events : List FixedEvent)
    (hH : H.Documented) (hr : a.Ready g) : ∃ s',
    H.corpuser s' = H.corpuser s ∧
    auth_role_sync H a users s events =
      let r := loop H lower g a.calls users.ordered s'
      if a.commit then (r.1,events ++ r.2.event_rows,.summary r.2)
      else (r.1,events,.retryable) := by
  refine ⟨_,ensure_corpuser (g:=g) hH a.status a.info,?_⟩
  have hens : (ensure_marker_group_exists H g a.status a.info s).2 = true :=
    inTurn_answers.mpr ⟨hr.status,hr.info⟩
  unfold auth_role_sync
  rw [hr.configured,hr.group]
  dsimp only
  rw [hens,hr.select]
  rfl

/-- A pass that does not reach its loop changes no corpuser and records nothing. -/
theorem auth_role_sync_idle (hH : H.Documented) (hr : ∀ g, ¬ a.Ready g) :
    H.corpuser (auth_role_sync H a users s events).1 = H.corpuser s ∧
      (auth_role_sync H a users s events).2.1 = events := by
  unfold auth_role_sync
  cases hc : a.configured with
  | false => exact ⟨rfl,rfl⟩
  | true =>
    cases hg : corpgroup_urn a.group_name with
    | none => exact ⟨rfl,rfl⟩
    | some g =>
      have hstop : ((ensure_marker_group_exists H g a.status a.info s).2 && a.select) = false := by
        by_contra hgo
        rw [Bool.not_eq_false,Bool.and_eq_true_iff,ensure_marker_group_exists,inTurn_answers] at hgo
        exact hr g ⟨hc,hg,hgo.1.1,hgo.1.2,hgo.2⟩
      dsimp only
      rw [hstop]
      exact ⟨ensure_corpuser hH _ _,rfl⟩

/-- The pass gets the role of the user through. -/
def Attempt.Assigns (a : Attempt) (id : Str) : Prop := (∃ g, a.Ready g) ∧ (a.calls id).Assigns

/-- The pass gets the user into the group `x`. -/
def Attempt.Adds (a : Attempt) (id x : Str) : Prop := a.Ready x ∧ (a.calls id).Adds

theorem auth_role_sync_moved (a : Attempt) (events : List FixedEvent) (hH : H.Documented)
    (hu : user ∈ users.table.rows)
    (hp : Provisioned H lower user s) :
    Moved user.role (a.Assigns user.id) (a.Adds user.id)
      (H.corpuser s (corpuser_urn lower user.email))
      (H.corpuser (auth_role_sync H a users s events).1 (corpuser_urn lower user.email)) := by
  by_cases hr : ∃ g, a.Ready g
  · obtain ⟨g,hr⟩ := hr
    obtain ⟨s',hs',heq⟩ := auth_role_sync_ready users s events hH hr
    have hp' : Provisioned H lower user s' := by
      refine ⟨hp.1,?_⟩
      rw [hs']
      exact hp.2
    have hmoved := loop_moved g a.calls hH hu hp'
    have hfst : (auth_role_sync H a users s events).1 =
        (loop H lower g a.calls users.ordered s').1 := by
      rw [heq]
      dsimp only
      split <;> rfl
    rw [hfst]
    rw [hs'] at hmoved
    refine hmoved.congr ⟨fun h => ⟨⟨g,hr⟩,h⟩,fun h => h.2⟩ fun x => ⟨?_,fun h => ⟨?_,h.2⟩⟩
    · rintro ⟨rfl,h⟩
      exact ⟨hr,h⟩
    · exact Option.some.inj (h.1.group.symm.trans hr.group)
  · rw [(auth_role_sync_idle hH fun g hg => hr ⟨g,hg⟩).1]
    exact .refl (fun h => absurd h.1 hr) fun x h => absurd ⟨x,h.1⟩ hr

theorem auth_role_sync_other (hH : H.Documented)
    (hv : ∀ user ∈ users.table.rows, Provisioned H lower user s →
      corpuser_urn lower user.email ≠ v) :
    H.corpuser (auth_role_sync H a users s events).1 v = H.corpuser s v := by
  by_cases hr : ∃ g, a.Ready g
  · obtain ⟨g,hr⟩ := hr
    obtain ⟨s',hs',heq⟩ := auth_role_sync_ready users s events hH hr
    have hv' : ∀ user ∈ users.table.rows, Provisioned H lower user s' →
        corpuser_urn lower user.email ≠ v := by
      refine fun user hu hp => hv user hu ⟨hp.1,?_⟩
      rw [← hs']
      exact hp.2
    have hother := loop_other g a.calls hH hv'
    rw [heq]
    rw [hs'] at hother
    dsimp only
    split
    · exact hother
    · exact hother
  · rw [(auth_role_sync_idle hH fun g hg => hr ⟨g,hg⟩).1]

/-- A pass neither provisions nor removes a corpuser. -/
theorem auth_role_sync_exists (hH : H.Documented) (users : Users lower) (a : Attempt) (s : σ)
    (events : List FixedEvent) (v : Str) :
    corpuser_exists (H.corpuser (auth_role_sync H a users s events).1 v) =
      corpuser_exists (H.corpuser s v) := by
  by_cases hv : ∃ user ∈ users.table.rows, Provisioned H lower user s ∧
      corpuser_urn lower user.email = v
  · obtain ⟨user,hu,hp,rfl⟩ := hv
    exact (auth_role_sync_moved a events hH hu hp).exists_eq
  · rw [auth_role_sync_other hH fun user hu hp heq => hv ⟨user,hu,hp,heq⟩]

def memory : DataHub (Str → Corpuser) where
  corpuser s := s
  emitStatus _ s := s
  emitCorpGroupInfo _ s := s
  batchAssignRole r u s :=
    if (s u).key then Function.update s u { s u with roles := some [r] } else s
  addGroupMembers g u s :=
    if (s u).key then
      Function.update s u { s u with nativeGroups := some (g::(s u).nativeGroups.getD []) }
    else s
  hardDelete u s := Function.update s u ⟨false,none,none,none⟩

theorem memory_documented : memory.Documented where
  emitStatus _ _ := rfl
  emitCorpGroupInfo _ _ := rfl
  assign _ _ _ hkey := if_pos hkey
  assign_absent _ _ _ hkey := if_neg (Bool.eq_false_iff.mp hkey)
  add _ _ _ hkey := ⟨_,if_pos hkey,fun _ => List.mem_cons⟩
  delete _ _ _ hne := Function.update_of_ne hne.symm _ _

def ada : User := ⟨"u1".toList,"ada@x.io".toList,.Editor,none,some "1".toList,0⟩

def oneUser : Users id := ⟨⟨[ada],by decide⟩,by decide⟩

theorem oneUser_ordered : oneUser.ordered = [ada] := List.mergeSort_singleton _

def smooth : Attempt :=
  ⟨true,"marker".toList,.done,.done,true,fun _ => ⟨true,true,.done,true,.done⟩,true⟩

def marker : Str := "urn:li:corpGroup:marker".toList

theorem smooth_ready : smooth.Ready marker := ⟨rfl,by decide,rfl,rfl,rfl⟩

def readers : Str → Corpuser := fun _ => ⟨true,none,some ["urn:li:dataHubRole:Reader".toList],none⟩

theorem ada_provisioned : Provisioned memory id ada readers := ⟨by decide,rfl⟩

/-- Passes one after the other, over the same rows. -/
def passes (H : DataHub σ) (users : Users lower) (as : List Attempt) (s : σ)
    (events : List FixedEvent) : σ × List FixedEvent :=
  as.foldl (fun st a =>
    let r := auth_role_sync H a users st.1 st.2
    (r.1,r.2.1)) (s,events)

theorem passes_moved (hH : H.Documented) (hu : user ∈ users.table.rows)
    (hp : Provisioned H lower user s) (as : List Attempt) (events : List FixedEvent) :
    Moved user.role (∃ a ∈ as, a.Assigns user.id) (fun x => ∃ a ∈ as, a.Adds user.id x)
      (H.corpuser s (corpuser_urn lower user.email))
      (H.corpuser (passes H users as s events).1 (corpuser_urn lower user.email)) := by
  induction as generalizing s events with
  | nil =>
    refine .refl ?_ fun x => ?_
    · rintro ⟨a,ha,-⟩
      cases ha
    · rintro ⟨a,ha,-⟩
      cases ha
  | cons a as ih =>
    have hfirst := auth_role_sync_moved a events hH hu hp
    have hp' : Provisioned H lower user (auth_role_sync H a users s events).1 :=
      ⟨hp.1,hfirst.exists_eq.trans hp.2⟩
    refine (hfirst.trans (ih hp' _)).congr ?_ fun x => ?_
    · simp only [List.mem_cons,exists_eq_or_imp]
    · simp only [List.mem_cons,exists_eq_or_imp]

theorem passes_other (hH : H.Documented)
    (hv : ∀ user ∈ users.table.rows, Provisioned H lower user s →
      corpuser_urn lower user.email ≠ v) (as : List Attempt) (events : List FixedEvent) :
    H.corpuser (passes H users as s events).1 v = H.corpuser s v := by
  induction as generalizing s events with
  | nil => rfl
  | cons a as ih =>
    have hfirst : H.corpuser (auth_role_sync H a users s events).1 v = H.corpuser s v :=
      auth_role_sync_other hH hv
    refine (ih ?_ _).trans hfirst
    intro user hu hp
    exact hv user hu ⟨hp.1,(auth_role_sync_exists hH users a s events _).symm.trans hp.2⟩

/-- After any passes, each corpuser of a bound user has the role and the groups that one of the
passes got through, and no other corpuser was written. -/
theorem role_sync_converges (hH : H.Documented) (users : Users lower) (as : List Attempt) (s : σ)
    (events : List FixedEvent) :
    let t := (passes H users as s events).1
    (∀ user ∈ users.table.rows, Provisioned H lower user s →
      Moved user.role (∃ a ∈ as, a.Assigns user.id) (fun x => ∃ a ∈ as, a.Adds user.id x)
        (H.corpuser s (corpuser_urn lower user.email))
        (H.corpuser t (corpuser_urn lower user.email))) ∧
    ∀ v, (∀ user ∈ users.table.rows, Provisioned H lower user s →
      corpuser_urn lower user.email ≠ v) → H.corpuser t v = H.corpuser s v :=
  ⟨fun _ hu hp => passes_moved hH hu hp as events,fun _ hv => passes_other hH hv as events⟩

theorem role_sync_converges_memory :
    let t := (passes memory oneUser [smooth,smooth] readers []).1
    read_role (t "urn:li:corpuser:ada@x.io".toList) = some .Editor ∧
    marker ∈ read_native_group_membership (t "urn:li:corpuser:ada@x.io".toList) ∧
    t "urn:li:corpuser:bob@x.io".toList = readers "urn:li:corpuser:bob@x.io".toList := by
  obtain ⟨hmoved,hother⟩ :=
    role_sync_converges memory_documented oneUser [smooth,smooth] readers []
  have hada := hmoved ada (.head _) ada_provisioned
  have hcalls : (smooth.calls ada.id).Assigns ∧ (smooth.calls ada.id).Adds := by
    refine ⟨⟨rfl,rfl,?_⟩,rfl,rfl,?_⟩ <;> decide
  refine ⟨hada.assign.mpr (.inr ?_),(hada.add marker).mpr (.inr ?_),hother _ fun user hu _ => ?_⟩
  · exact ⟨smooth,.head _,⟨marker,smooth_ready⟩,hcalls.1⟩
  · exact ⟨smooth,.head _,smooth_ready,hcalls.2⟩
  · obtain rfl := List.mem_singleton.mp hu
    decide

/-- What a pass makes of a user, from what its corpuser is beforehand. -/
def outcome (group_urn : Str) (calls : Calls) (user : User) (c : Corpuser) : Outcome :=
  if user.google_sub = none then .skipped_unbound
  else if !calls.probe then .probe_failed
  else if !corpuser_exists c then .skipped_unprovisioned
  else
    let role := facet calls.readRole (read_role c = some user.role) calls.assign id
      (user.role,read_role c) ()
    let group := facet calls.readGroups (group_urn ∈ read_native_group_membership c) calls.add id
      group_urn ()
    .facets role.repaired group.repaired (role.failed || group.failed)

def Outcome.event (user : User) : Outcome → Option FixedEvent
  | .facets role group _ =>
    if (FixedEvent.mk user.id role group).repaired_facets = [] then none
    else some ⟨user.id,role,group⟩
  | _ => none

def Outcome.unbound : Outcome → Bool
  | .skipped_unbound => true
  | _ => false

def Outcome.unprovisioned : Outcome → Bool
  | .skipped_unprovisioned => true
  | _ => false

def Outcome.erred : Outcome → Bool
  | .probe_failed => true
  | .facets _ _ failed => failed
  | _ => false

/-- The tally in closed form. -/
def Tally.of (users : List User) (o : User → Outcome) : Tally :=
  let rows := users.filterMap fun user => (o user).event user
  ⟨users.length,rows.length,users.countP fun user => (o user).unprovisioned,
    users.countP fun user => (o user).unbound,users.countP fun user => (o user).erred,rows⟩

theorem foldl_count (users : List User) (o : User → Outcome) (t : Tally) :
    users.foldl (fun t user => t.count user (o user)) t =
      ⟨t.checked+(Tally.of users o).checked,t.fixed+(Tally.of users o).fixed,
        t.skipped_unprovisioned+(Tally.of users o).skipped_unprovisioned,
        t.skipped_unbound+(Tally.of users o).skipped_unbound,
        t.errors+(Tally.of users o).errors,t.event_rows ++ (Tally.of users o).event_rows⟩ := by
  induction users generalizing t with
  | nil => simp [Tally.of]
  | cons user users ih =>
    rw [List.foldl_cons,ih]
    cases ho : o user with
    | skipped_unbound =>
      simp [Tally.of,Tally.count,ho,Outcome.event,Outcome.unbound,Outcome.unprovisioned,
        Outcome.erred]
      omega
    | probe_failed =>
      simp [Tally.of,Tally.count,ho,Outcome.event,Outcome.unbound,Outcome.unprovisioned,
        Outcome.erred]
      omega
    | skipped_unprovisioned =>
      simp [Tally.of,Tally.count,ho,Outcome.event,Outcome.unbound,Outcome.unprovisioned,
        Outcome.erred]
      omega
    | facets role group failed =>
      cases failed <;> by_cases he : (FixedEvent.mk user.id role group).repaired_facets = [] <;>
        simp [Tally.of,Tally.count,ho,he,Outcome.event,Outcome.unbound,Outcome.unprovisioned,
          Outcome.erred] <;> omega

theorem facet_report {α : Type*} (read synced : Bool) (fate : Fate) (write : σ → σ) (detail : α)
    (s : σ) : (facet read synced fate write detail s).repaired =
        (facet read synced fate id detail ()).repaired ∧
      (facet read synced fate write detail s).failed =
        (facet read synced fate id detail ()).failed := by
  cases read <;> cases synced <;> exact ⟨rfl,rfl⟩

theorem facet_repaired {α : Type*} {read synced : Bool} {fate : Fate} {detail x : α}
    (h : (facet read synced fate id detail ()).repaired = some x) :
    x = detail ∧ synced = false ∧ read = true ∧ fate = .done := by
  have heq : (facet read synced fate id detail ()).repaired =
      if synced = false ∧ read = true ∧ fate = .done then some detail else none := by
    cases read <;> cases synced <;> cases fate <;> rfl
  rw [heq,Option.ite_none_right_eq_some] at h
  exact ⟨(Option.some.inj h.2).symm,h.1⟩

theorem sync_user_snd (g : Str) (calls : Calls) (hH : H.Documented) (user : User) (s : σ) :
    (sync_user H lower g calls user s).2 =
      outcome g calls user (H.corpuser s (corpuser_urn lower user.email)) := by
  unfold sync_user outcome
  by_cases hb : user.google_sub = none
  · rw [if_pos hb,if_pos hb]
  · rw [if_neg hb,if_neg hb]
    dsimp only
    cases calls.probe with
    | false => rfl
    | true =>
      cases he : corpuser_exists (H.corpuser s (corpuser_urn lower user.email)) with
      | false => rfl
      | true =>
        have hkey := (Bool.and_eq_true_iff.mp he).1
        have hgroups := (roleFacet_projected user.role calls hH hkey).moved.add g
        rw [or_false] at hgroups
        have hrole := facet_report calls.readRole
          (read_role (H.corpuser s (corpuser_urn lower user.email)) = some user.role) calls.assign
          (H.batchAssignRole (role_urn user.role) (corpuser_urn lower user.email))
          (user.role,read_role (H.corpuser s (corpuser_urn lower user.email))) s
        have hgroup := facet_report calls.readGroups
          (g ∈ read_native_group_membership (H.corpuser s (corpuser_urn lower user.email)))
          calls.add (H.addGroupMembers g (corpuser_urn lower user.email)) g
          (roleFacet H user.role (corpuser_urn lower user.email) calls s).hub
        simp only [Bool.not_true,Bool.false_eq_true,if_false]
        unfold groupFacet
        simp only [hgroups]
        rw [hgroup.1,hgroup.2,← hrole.1,← hrole.2]
        rfl

/-- The report of the loop is made of what the corpusers were before it. -/
theorem loop_snd (g : Str) (calls : Str → Calls) (hH : H.Documented) (users : Users lower) (s : σ) :
    (loop H lower g calls users.ordered s).2 = Tally.of users.ordered fun user =>
      outcome g (calls user.id) user (H.corpuser s (corpuser_urn lower user.email)) := by
  have hreport := LocalFold.foldl_report H.corpuser (fun user => corpuser_urn lower user.email)
    (fun s (user : User) => sync_user H lower g (calls user.id) user s)
    (fun user c => outcome g (calls user.id) user c) Tally.count
    (fun s user k hk => sync_user_other hH hk) (fun s user => sync_user_snd g _ hH user s)
    users.urns s .zero
  refine hreport.trans ?_
  rw [foldl_count]
  simp [Tally.zero]

variable {calls : Calls} {c : Corpuser} {e : FixedEvent}

theorem outcome_event (h : (outcome g calls user c).event user = some e) :
    (user.google_sub ≠ none ∧ calls.probe = true ∧ corpuser_exists c = true) ∧
    (e.entity_id = user.id ∧ e.repaired_facets ≠ []) ∧
    (∀ x, e.role = some x → x = (user.role,read_role c) ∧ read_role c ≠ some user.role ∧
      calls.readRole = true ∧ calls.assign = .done) ∧
    ∀ x, e.marker_group_urn = some x → x = g ∧ g ∉ read_native_group_membership c ∧
      calls.readGroups = true ∧ calls.add = .done := by
  unfold outcome at h
  by_cases hb : user.google_sub = none
  · rw [if_pos hb] at h
    cases h
  rw [if_neg hb] at h
  cases hprobe : calls.probe with
  | false =>
    rw [hprobe] at h
    cases h
  | true =>
    cases he : corpuser_exists c with
    | false =>
      rw [hprobe,he] at h
      cases h
    | true =>
      rw [hprobe,he] at h
      simp only [Bool.not_true,Bool.false_eq_true,if_false,Outcome.event] at h
      split at h
      · cases h
      · rename_i hne
        cases h
        refine ⟨⟨hb,rfl,rfl⟩,⟨rfl,hne⟩,fun x hx => ?_,fun x hx => ?_⟩
        · obtain ⟨heq,hsynced,hdone⟩ := facet_repaired hx
          exact ⟨heq,of_decide_eq_false hsynced,hdone⟩
        · obtain ⟨heq,hsynced,hdone⟩ := facet_repaired hx
          exact ⟨heq,of_decide_eq_false hsynced,hdone⟩

/-- The report of a pass that gets through is the one of what it met; what it says it repaired
was out of step before it, and is in step after it. -/
theorem role_sync_report (hH : H.Documented) (users : Users lower) (s : σ)
    (events : List FixedEvent) (hr : a.Ready g) (hc : a.commit = true) :
    let t := Tally.of users.ordered fun user =>
      outcome g (a.calls user.id) user (H.corpuser s (corpuser_urn lower user.email))
    let r := auth_role_sync H a users s events
    r.2 = (events ++ t.event_rows,.summary t) ∧
    ∀ e ∈ t.event_rows, ∃ user ∈ users.table.rows, Provisioned H lower user s ∧
      e.entity_id = user.id ∧
      let c := H.corpuser s (corpuser_urn lower user.email)
      let c' := H.corpuser r.1 (corpuser_urn lower user.email)
      (∀ x, e.role = some x → x = (user.role,read_role c) ∧ read_role c ≠ some user.role ∧
        read_role c' = some user.role) ∧
      ∀ x, e.marker_group_urn = some x → x ∉ read_native_group_membership c ∧
        x ∈ read_native_group_membership c' := by
  intro t r
  have hrep : r.2 = (events ++ t.event_rows,.summary t) := by
    obtain ⟨s',hs',heq⟩ := auth_role_sync_ready users s events hH hr
    change (auth_role_sync H a users s events).2 = _
    rw [heq]
    dsimp only
    rw [if_pos hc,loop_snd g a.calls hH users s',hs']
  refine ⟨hrep,fun e he => ?_⟩
  obtain ⟨user,hu,hev⟩ := List.mem_filterMap.mp he
  have hmem := Users.mem_ordered.mp hu
  obtain ⟨⟨hb,hprobe,hex⟩,⟨hid,-⟩,hrole,hgroup⟩ := outcome_event hev
  have hmoved := auth_role_sync_moved a events hH hmem ⟨hb,hex⟩
  refine ⟨user,hmem,⟨hb,hex⟩,hid,fun x hx => ?_,fun x hx => ?_⟩
  · obtain ⟨rfl,hne,hread,hdone⟩ := hrole x hx
    refine ⟨rfl,hne,hmoved.assign.mpr (.inr ⟨⟨g,hr⟩,hprobe,hread,?_⟩)⟩
    rw [hdone]
    exact Fate.noConfusion
  · obtain ⟨rfl,hne,hread,hdone⟩ := hgroup x hx
    refine ⟨hne,(hmoved.add x).mpr (.inr ⟨hr,hprobe,hread,?_⟩)⟩
    rw [hdone]
    exact Fate.noConfusion

theorem role_sync_report_memory :
    (auth_role_sync memory smooth oneUser readers []).2.1.map FixedEvent.repaired_facets =
      [["role".toList,"group".toList]] := by
  have hreport :=
    (role_sync_report memory_documented oneUser readers [] smooth_ready rfl).1
  rw [hreport,oneUser_ordered]
  decide

/-- Every provisioned user has its role and is in the group `g`. -/
def InStep (H : DataHub σ) (users : Users lower) (g : Str) (s : σ) : Prop :=
  ∀ user ∈ users.table.rows, Provisioned H lower user s →
    let c := H.corpuser s (corpuser_urn lower user.email)
    read_role c = some user.role ∧ g ∈ read_native_group_membership c

/-- In step, a pass for the same group writes no corpuser and records nothing. -/
theorem InStep.pass (hs : InStep H users g s) (events : List FixedEvent) (hH : H.Documented)
    (ha : ∀ x, a.Ready x → x = g) :
    H.corpuser (auth_role_sync H a users s events).1 = H.corpuser s ∧
      (auth_role_sync H a users s events).2.1 = events := by
  constructor
  · funext v
    by_cases hv : ∃ user ∈ users.table.rows, Provisioned H lower user s ∧
        corpuser_urn lower user.email = v
    · obtain ⟨user,hu,hp,rfl⟩ := hv
      have hmoved := auth_role_sync_moved a events hH hu hp
      refine hmoved.still (fun _ => (hs user hu hp).1) fun x hx => ?_
      rw [ha x hx.1]
      exact (hs user hu hp).2
    · exact auth_role_sync_other hH fun user hu hp heq => hv ⟨user,hu,hp,heq⟩
  · by_cases hr : ∃ x, a.Ready x
    · obtain ⟨x,hr⟩ := hr
      obtain rfl := ha x hr
      obtain ⟨s',hs',heq⟩ := auth_role_sync_ready users s events hH hr
      have hrows : (loop H lower x a.calls users.ordered s').2.event_rows = [] := by
        rw [loop_snd x a.calls hH users s',hs']
        refine List.filterMap_eq_nil_iff.mpr fun user hu => ?_
        rw [Option.eq_none_iff_forall_not_mem]
        intro e he
        obtain ⟨⟨hb,-,hex⟩,⟨-,hne⟩,hrole,hgroup⟩ := outcome_event he
        have hin := hs user (Users.mem_ordered.mp hu) ⟨hb,hex⟩
        have hr0 : e.role = none := Option.eq_none_iff_forall_not_mem.mpr fun y hy =>
          (hrole y hy).2.1 hin.1
        have hg0 : e.marker_group_urn = none := Option.eq_none_iff_forall_not_mem.mpr fun y hy =>
          (hgroup y hy).2.1 hin.2
        rw [FixedEvent.repaired_facets,hr0,hg0] at hne
        exact hne rfl
      rw [heq]
      dsimp only
      split
      · rw [hrows,List.append_nil]
      · rfl
    · exact (auth_role_sync_idle hH fun x hx => hr ⟨x,hx⟩).2

theorem InStep.passes (hs : InStep H users g s) (hH : H.Documented) (as : List Attempt)
    (has : ∀ a ∈ as, ∀ x, a.Ready x → x = g) (events : List FixedEvent) :
    H.corpuser (passes H users as s events).1 = H.corpuser s ∧
      (Projection.passes H users as s events).2 = events := by
  induction as generalizing s events with
  | nil => exact ⟨rfl,rfl⟩
  | cons a as ih =>
    obtain ⟨hcorp,hev⟩ := hs.pass events hH (has a List.mem_cons_self)
    have hs' : InStep H users g (auth_role_sync H a users s events).1 := by
      unfold InStep Provisioned
      rw [hcorp]
      exact hs
    obtain ⟨hc,he⟩ := ih hs' (fun b hb => has b (List.mem_cons_of_mem _ hb))
      (auth_role_sync H a users s events).2.1
    exact ⟨hc.trans hcorp,he.trans hev⟩

end Projection
end Dataspoke
