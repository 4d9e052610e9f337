import Dataspoke.ApiTokens
import Dataspoke.LocalFold
import Dataspoke.RemoteCall
import Mathlib.Data.Char
import Mathlib.Data.List.Lex
import Mathlib.Logic.Function.Basic

/-!
# The projection of roles on DataHub

The role and the marker group of a user on the corpuser of its address: the nightly
reconciliation, the write-through of a role change and the retraction with a user, with any
remote call failing.
-/

namespace Dataspoke
namespace Projection

open Python Transition
open RemoteCall (Fate inTurn)
open Auth.Credentials (User Role)

/-- The aspects of a corpuser that are read: `corpUserKey`, `Status`, `RoleMembership` and
`NativeGroupMembership`. -/
structure Corpuser where
  key : Bool
  removed : Option Bool
  roles : Option (List Str)
  nativeGroups : Option (List Str)

/-- DataHub: what it holds of a corpuser, and its mutations. -/
structure DataHub (σ : Type*) where
  corpuser : σ → Str → Corpuser
  emitStatus : Str → σ → σ
  emitCorpGroupInfo : Str → σ → σ
  batchAssignRole : Str → Str → σ → σ
  addGroupMembers : Str → Str → σ → σ
  hardDelete : Str → σ → σ

variable {σ : Type*} {H : DataHub σ} {lower : Str → Str}

/-- The documented mutations. An assignment replaces the role, and is skipped where the actor
does not exist. -/
structure DataHub.Documented (H : DataHub σ) : Prop where
  emitStatus : ∀ g s, H.corpuser (H.emitStatus g s) = H.corpuser s
  emitCorpGroupInfo : ∀ g s, H.corpuser (H.emitCorpGroupInfo g s) = H.corpuser s
  assign : ∀ r u s, (H.corpuser s u).key = true → H.corpuser (H.batchAssignRole r u s) =
    Function.update (H.corpuser s) u { H.corpuser s u with roles := some [r] }
  assign_absent : ∀ r u s, (H.corpuser s u).key = false →
    H.corpuser (H.batchAssignRole r u s) = H.corpuser s
  add : ∀ g u s, (H.corpuser s u).key = true → ∃ gs, H.corpuser (H.addGroupMembers g u s) =
      Function.update (H.corpuser s) u { H.corpuser s u with nativeGroups := some gs } ∧
    ∀ x, x ∈ gs ↔ x = g ∨ x ∈ (H.corpuser s u).nativeGroups.getD []
  delete : ∀ u v s, u ≠ v → H.corpuser (H.hardDelete u s) v = H.corpuser s v

def Role.name : Role → Str
  | .Reader => "Reader".toList
  | .Editor => "Editor".toList
  | .Admin => "Admin".toList

def corpGroupChar (c : Char) : Bool := c.isAlphanum || c ∈ "._@-".toList

/-- The whole text matches `CORP_GROUP_NAME_PATTERN`. -/
def corpGroupName (name : Str) : Bool :=
  name.head?.any Char.isAlphanum && name.tail.all corpGroupChar && decide (name.length ≤ 128)

def corpuser_urn (lower : Str → Str) (email : Str) : Str :=
  "urn:li:corpuser:".toList ++ lower email

/-- The `ValueError` is `none`. -/
def corpgroup_urn (name : Str) : Option Str :=
  if corpGroupName name then some ("urn:li:corpGroup:".toList ++ name) else none

def rolePrefix : Str := "urn:li:dataHubRole:".toList

def role_urn (role : Role) : Str := rolePrefix ++ Role.name role

def corpuser_exists (c : Corpuser) : Bool := c.key && c.removed.all (!·)

def read_native_group_membership (c : Corpuser) : List Str := c.nativeGroups.getD []

def removePrefix (p s : Str) : Str := if p.isPrefixOf s then s.drop p.length else s

def read_role (c : Corpuser) : Option Role :=
  match c.roles with
  | some (r::_) => [Role.Admin,.Editor,.Reader].find? fun role =>
      Role.name role = removePrefix rolePrefix r
  | _ => none

/-- Both aspects of the group are emitted, the second one where the first call returned. -/
def ensure_marker_group_exists (H : DataHub σ) (group_urn : Str) (status info : Fate) (s : σ) :
    σ × Bool :=
  inTurn status info (H.emitStatus group_urn) (H.emitCorpGroupInfo group_urn) s

/-- What becomes of the calls for one user; a read that is `false` raises. -/
structure Calls where
  probe : Bool
  readRole : Bool
  assign : Fate
  readGroups : Bool
  add : Fate

structure Facet (σ α : Type*) where
  hub : σ
  repaired : Option α
  failed : Bool

/-- One facet of a corpuser: read it, and write it on divergence. -/
def facet {α : Type*} (read synced : Bool) (fate : Fate) (write : σ → σ) (detail : α) (s : σ) :
    Facet σ α :=
  if !read then ⟨s,none,true⟩
  else if synced then ⟨s,none,false⟩
  else ⟨fate.apply write s,if fate = .done then some detail else none,decide (fate ≠ .done)⟩

def roleFacet (H : DataHub σ) (role : Role) (urn : Str) (calls : Calls) (s : σ) :
    Facet σ (Role × Option Role) :=
  let observed := read_role (H.corpuser s urn)
  facet calls.readRole (observed = some role) calls.assign
    (H.batchAssignRole (role_urn role) urn) (role,observed) s

def groupFacet (H : DataHub σ) (group_urn urn : Str) (calls : Calls) (s : σ) : Facet σ Str :=
  facet calls.readGroups (group_urn ∈ read_native_group_membership (H.corpuser s urn)) calls.add
    (H.addGroupMembers group_urn urn) group_urn s

/-- What the pass did for a user. -/
inductive Outcome
  | skipped_unbound
  | probe_failed
  | skipped_unprovisioned
  | facets (role : Option (Role × Option Role)) (group : Option Str) (failed : Bool)

def sync_user (H : DataHub σ) (lower : Str → Str) (group_urn : Str) (calls : Calls) (user : User)
    (s : σ) : σ × Outcome :=
  if user.google_sub = none then (s,.skipped_unbound)
  else
    let urn := corpuser_urn lower user.email
    if !calls.probe then (s,.probe_failed)
    else if !corpuser_exists (H.corpuser s urn) then (s,.skipped_unprovisioned)
    else
      let role := roleFacet H user.role urn calls s
      -- the group is attempted whatever became of the role
      let group := groupFacet H group_urn urn calls role.hub
      (group.hub,.facets role.repaired group.repaired (role.failed || group.failed))

/-- An `AUTH.ROLE_SYNC_FIXED` event: the user, the role that was asserted and the one observed,
and the marker group. -/
structure FixedEvent where
  entity_id : Str
  role : Option (Role × Option Role)
  marker_group_urn : Option Str

def FixedEvent.repaired_facets (e : FixedEvent) : List Str :=
  (e.role.map fun _ => "role".toList).toList ++ (e.marker_group_urn.map fun _ => "group".toList).toList

structure Tally where
  checked : ℕ
  fixed : ℕ
  skipped_unprovisioned : ℕ
  skipped_unbound : ℕ
  errors : ℕ
  event_rows : List FixedEvent

def Tally.zero : Tally := ⟨0,0,0,0,0,[]⟩

/-- The counters and the event rows after one more user. -/
def Tally.count (t : Tally) (user : User) (o : Outcome) : Tally :=
  let t := { t with checked := t.checked+1 }
  match o with
  | .skipped_unbound => { t with skipped_unbound := t.skipped_unbound+1 }
  | .probe_failed => { t with errors := t.errors+1 }
  | .skipped_unprovisioned => { t with skipped_unprovisioned := t.skipped_unprovisioned+1 }
  | .facets role group failed =>
    let t := if failed then { t with errors := t.errors+1 } else t
    let e : FixedEvent := ⟨user.id,role,group⟩
    if e.repaired_facets = [] then t
    else { t with fixed := t.fixed+1,event_rows := t.event_rows ++ [e] }

/-- The rows of `users` under `uq_users_email`, in the comparison of `CITEXT`. -/
structure Users (lower : Str → Str) where
  table : Table User.id
  emails : (table.rows.map fun user => lower user.email).Nodup

/-- `select(User).order_by(User.id)`. -/
def Users.ordered (users : Users lower) : List User :=
  users.table.rows.mergeSort fun u v => u.id ≤ v.id

/-- What a pass meets: its configuration, and what becomes of its calls and of its commit. -/
structure Attempt where
  configured : Bool
  group_name : Str
  status : Fate
  info : Fate
  select : Bool
  calls : Str → Calls
  commit : Bool

inductive Answer
  | summary (tally : Tally)
  | retryable

def loop (H : DataHub σ) (lower : Str → Str) (group_urn : Str) (calls : Str → Calls)
    (users : List User) (s : σ) : σ × Tally :=
  users.foldl (fun st user =>
    let r := sync_user H lower group_urn (calls user.id) user st.1
    (r.1,st.2.count user r.2)) (s,.zero)

def auth_role_sync (H : DataHub σ) (a : Attempt) (users : Users lower) (s : σ)
    (events : List FixedEvent) : σ × List FixedEvent × Answer :=
  if !a.configured then (s,events,.summary .zero)
  else
    match corpgroup_urn a.group_name with
    | none => (s,events,.retryable)
    | some group_urn =>
      let r := ensure_marker_group_exists H group_urn a.status a.info s
      if !(r.2 && a.select) then (r.1,events,.retryable)
      else
        let r := loop H lower group_urn a.calls users.ordered r.1
        if a.commit then (r.1,events ++ r.2.event_rows,.summary r.2)
        else (r.1,events,.retryable)

variable {s : σ} {urn v g : Str} {role : Role} {calls : Calls} {user : User}

theorem removePrefix_append (p s : Str) : removePrefix p (p ++ s) = s := by
  have hp : p.isPrefixOf (p ++ s) = true := List.isPrefixOf_iff_prefix.mpr (List.prefix_append p s)
  rw [removePrefix,if_pos hp,List.drop_left]

theorem read_role_assigned (c : Corpuser) (role : Role) :
    read_role { c with roles := some [role_urn role] } = some role := by
  have hname : removePrefix rolePrefix (role_urn role) = Role.name role :=
    removePrefix_append _ _
  rw [read_role]
  simp only [hname]
  cases role <;> decide

theorem facet_hub {α : Type*} (read synced : Bool) (fate : Fate) (write : σ → σ) (detail : α) :
    (facet read synced fate write detail s).hub =
      if read = true ∧ synced = false ∧ fate ≠ .refused then write s else s := by
  cases read <;> cases synced <;> cases fate <;> rfl

/-- The role of a corpuser that exists is replaced where it is read, differs and the call gets
through. -/
theorem roleFacet_corpuser (role : Role) (calls : Calls) (hH : H.Documented)
    (hkey : (H.corpuser s urn).key = true) :
    H.corpuser (roleFacet H role urn calls s).hub =
      if calls.readRole = true ∧ read_role (H.corpuser s urn) ≠ some role ∧ calls.assign ≠ .refused
      then Function.update (H.corpuser s) urn
        { H.corpuser s urn with roles := some [role_urn role] }
      else H.corpuser s := by
  unfold roleFacet
  rw [facet_hub]
  simp only [decide_eq_false_iff_not,ne_eq]
  split
  · exact hH.assign _ _ _ hkey
  · rfl

/-- A corpuser before and after: the role is asserted where `P`, and the group `x` is added
where `Q x`. -/
structure Moved (role : Role) (P : Prop) (Q : Str → Prop) (c c' : Corpuser) : Prop where
  key : c'.key = c.key
  removed : c'.removed = c.removed
  assign : read_role c' = some role ↔ read_role c = some role ∨ P
  add : ∀ x, x ∈ read_native_group_membership c' ↔ x ∈ read_native_group_membership c ∨ Q x
  /-- What is in step is left as it is. -/
  still : (P → read_role c = some role) → (∀ x, Q x → x ∈ read_native_group_membership c) → c' = c

namespace Moved

variable {P P' : Prop} {Q Q' : Str → Prop} {c c' c'' : Corpuser}

theorem exists_eq (h : Moved role P Q c c') : corpuser_exists c' = corpuser_exists c := by
  rw [corpuser_exists,corpuser_exists,h.key,h.removed]

theorem refl (hP : P → read_role c = some role)
    (hQ : ∀ x, Q x → x ∈ read_native_group_membership c) : Moved role P Q c c :=
  ⟨rfl,rfl,(or_iff_left_of_imp hP).symm,fun x => (or_iff_left_of_imp (hQ x)).symm,fun _ _ => rfl⟩

theorem trans (h : Moved role P Q c c') (h' : Moved role P' Q' c' c'') :
    Moved role (P ∨ P') (fun x => Q x ∨ Q' x) c c'' := by
  refine ⟨h'.key.trans h.key,h'.removed.trans h.removed,?_,fun x => ?_,fun hP hQ => ?_⟩
  · rw [h'.assign,h.assign,or_assoc]
  · rw [h'.add,h.add,or_assoc]
  · obtain rfl := h.still (fun hp => hP (.inl hp)) fun x hx => hQ x (.inl hx)
    exact h'.still (fun hp => hP (.inr hp)) fun x hx => hQ x (.inr hx)

theorem congr (h : Moved role P Q c c') (hP : P ↔ P') (hQ : ∀ x, Q x ↔ Q' x) :
    Moved role P' Q' c c' := by
  obtain rfl : P = P' := propext hP
  obtain rfl : Q = Q' := funext fun x => propext (hQ x)
  exact h

end Moved

/-- A state before and after, where only the corpuser `urn` moved. -/
structure Projected (H : DataHub σ) (urn : Str) (role : Role) (P : Prop) (Q : Str → Prop)
    (s t : σ) : Prop where
  other : ∀ v, v ≠ urn → H.corpuser t v = H.corpuser s v
  moved : Moved role P Q (H.corpuser s urn) (H.corpuser t urn)

theorem roleFacet_projected (role : Role) (calls : Calls) (hH : H.Documented)
    (hkey : (H.corpuser s urn).key = true) :
    Projected H urn role (calls.readRole = true ∧ calls.assign ≠ .refused) (fun _ => False) s
      (roleFacet H role urn calls s).hub := by
  have heq := roleFacet_corpuser role calls hH hkey
  by_cases hw : calls.readRole = true ∧ read_role (H.corpuser s urn) ≠ some role ∧
      calls.assign ≠ .refused
  · rw [if_pos hw] at heq
    refine ⟨fun v hv => by rw [heq,Function.update_of_ne hv],?_⟩
    rw [heq,Function.update_self]
    refine ⟨rfl,rfl,iff_of_true (read_role_assigned _ _) (.inr ⟨hw.1,hw.2.2⟩),fun x => ?_,?_⟩
    · exact (or_false _).symm ▸ Iff.rfl
    · exact fun hP _ => absurd (hP ⟨hw.1,hw.2.2⟩) hw.2.1
  · rw [if_neg hw] at heq
    refine ⟨fun v _ => by rw [heq],?_⟩
    rw [heq]
    refine .refl (fun h => ?_) fun _ => False.elim
    by_contra hne
    exact hw ⟨h.1,hne,h.2⟩

theorem groupFacet_projected (role : Role) (g : Str) (calls : Calls) (hH : H.Documented)
    (hkey : (H.corpuser s urn).key = true) :
    Projected H urn role False
      (fun x => x = g ∧ calls.readGroups = true ∧ calls.add ≠ .refused) s
      (groupFacet H g urn calls s).hub := by
  have hhub : (groupFacet H g urn calls s).hub = if calls.readGroups = true ∧
      g ∉ read_native_group_membership (H.corpuser s urn) ∧ calls.add ≠ .refused
      then H.addGroupMembers g urn s else s := by
    unfold groupFacet
    rw [facet_hub]
    simp only [decide_eq_false_iff_not]
  by_cases hw : calls.readGroups = true ∧
      g ∉ read_native_group_membership (H.corpuser s urn) ∧ calls.add ≠ .refused
  · rw [if_pos hw] at hhub
    obtain ⟨gs,heq,hgs⟩ := hH.add g urn s hkey
    rw [← hhub] at heq
    refine ⟨fun v hv => by rw [heq,Function.update_of_ne hv],?_⟩
    rw [heq,Function.update_self]
    refine ⟨rfl,rfl,(or_false _).symm ▸ Iff.rfl,fun x => ?_,?_⟩
    · have hx : x ∈ gs ↔ x = g ∨ x ∈ read_native_group_membership (H.corpuser s urn) := hgs x
      change x ∈ gs ↔ _
      rw [hx,or_comm,and_iff_left ⟨hw.1,hw.2.2⟩]
    · exact fun _ hQ => absurd (hQ g ⟨rfl,hw.1,hw.2.2⟩) hw.2.1
  · rw [if_neg hw] at hhub
    rw [hhub]
    refine ⟨fun _ _ => rfl,.refl False.elim ?_⟩
    rintro x ⟨rfl,h⟩
    by_contra hne
    exact hw ⟨h.1,hne,h.2⟩

/-- The user is bound to a Google identity, and its corpuser exists. -/
def Provisioned (H : DataHub σ) (lower : Str → Str) (user : User) (s : σ) : Prop :=
  user.google_sub ≠ none ∧ corpuser_exists (H.corpuser s (corpuser_urn lower user.email)) = true

def Calls.Assigns (calls : Calls) : Prop :=
  calls.probe = true ∧ calls.readRole = true ∧ calls.assign ≠ .refused

def Calls.Adds (calls : Calls) : Prop :=
  calls.probe = true ∧ calls.readGroups = true ∧ calls.add ≠ .refused

theorem sync_user_projected (g : Str) (calls : Calls) (hH : H.Documented) (hp : Provisioned H lower user s) :
    Projected H (corpuser_urn lower user.email) user.role calls.Assigns
      (fun x => x = g ∧ calls.Adds) s (sync_user H lower g calls user s).1 := by
  have hkey : (H.corpuser s (corpuser_urn lower user.email)).key = true :=
    (Bool.and_eq_true_iff.mp hp.2).1
  unfold sync_user Calls.Assigns Calls.Adds
  rw [if_neg hp.1]
  dsimp only
  rw [hp.2]
  cases hprobe : calls.probe with
  | false =>
    refine ⟨fun _ _ => rfl,.refl (fun h => Bool.noConfusion h.1) ?_⟩
    exact fun _ h => Bool.noConfusion h.2.1
  | true =>
    have hr := roleFacet_projected user.role calls hH hkey
    have hg := groupFacet_projected user.role g calls hH
      (hr.moved.key.trans hkey)
    refine ⟨fun v hv => (hg.other v hv).trans (hr.other v hv),?_⟩
    refine (hr.moved.trans hg.moved).congr ?_ fun x => ?_
    · simp
    · simp

theorem sync_user_skipped (hp : ¬ Provisioned H lower user s) :
    (sync_user H lower g calls user s).1 = s := by
  unfold sync_user
  by_cases hb : user.google_sub = none
  · rw [if_pos hb]
  · have he : corpuser_exists (H.corpuser s (corpuser_urn lower user.email)) = false :=
      Bool.eq_false_iff.mpr fun he => hp ⟨hb,he⟩
    rw [if_neg hb]
    dsimp only
    rw [he]
    cases calls.probe <;> rfl

theorem sync_user_other (hH : H.Documented) (hv : v ≠ corpuser_urn lower user.email) :
    H.corpuser (sync_user H lower g calls user s).1 v = H.corpuser s v := by
  by_cases hp : Provisioned H lower user s
  · exact (sync_user_projected _ _ hH hp).other v hv
  · rw [sync_user_skipped hp]

end Projection
end Dataspoke
