import Dataspoke.OntogenIntegrity

/-!
# Verdicts across runs

A run upserts the dataset maps of every node it stages, and rewrites a rejected row whose id
it hands out again. Runs that do neither to a row with a verdict leave the verdicts alone.
-/

namespace Dataspoke
namespace Ontogen

open Python Pydantic Slug Fold Debate Transition

/-- A status that only a review sets. -/
def Status.human (s : Status) : Bool := s = .approved || s = .rejected

def mapStatusAt (db : Db) (k : Str × Str) : Option Status := (db.maps.get? k).map (·.status)

/-- The step is an accepted review of the node. -/
def Decides (id : Str) (p : Db × Action) (v : Verdict) : Prop :=
  (p.1.nodes.get? id).isSome ∧
    ∃ verdict, p.2 = .review (.node id verdict) ∧ parseVerdict verdict = some v

/-- The last accepted review of the node, and the tables it was made on. -/
def LatestVerdict (h : List (Db × Action)) (id : Str) (v : Verdict) (db : Db) : Prop :=
  ∃ later earlier a, h = later ++ (db,a)::earlier ∧ Decides id (db,a) v ∧
    ∀ q ∈ later, ∀ w, ¬ Decides id q w

/-- The node has the status of the verdict and the name and description it was given for, and
the map rows of that time have the status of the verdict. -/
def VerdictKept (db : Db) (id : Str) (v : Verdict) (t : Db) : Prop :=
  (∃ row row', db.nodes.get? id = some row ∧ t.nodes.get? id = some row' ∧
    row'.name = row.name ∧ row'.description = row.description ∧ row'.status = v.status) ∧
  ∀ urn, (db.maps.get? (urn,id)).isSome → mapStatusAt t (urn,id) = some v.status

def VerdictsKept (h : List (Db × Action)) (t : Db) : Prop :=
  ∀ id v db, LatestVerdict h id v db → VerdictKept db id v t

/-- The map rows that existed when a node was approved are approved while the node is. -/
def ApprovedMaps (h : List (Db × Action)) (t : Db) : Prop :=
  ∀ p ∈ h, ∀ id, Decides id p .approve → ∀ urn, (p.1.maps.get? (urn,id)).isSome →
    nodeApproved t id = true → mapStatusAt t (urn,id) = some .approved

/-- The staged node rewrites no stored row, and none of its URNs has a map row with a
verdict. -/
def Spares (db : Db) (n : NodeUpsert) : Prop :=
  (n.is_reuse = false → ∀ row, db.nodes.get? n.id = some row →
    row.name = n.name ∧ row.description = n.description) ∧
  ∀ urn ∈ n.dataset_urns, ∀ m, db.maps.get? (urn,n.id) = some m → m.status.human = false

/-- A run whose node phase commits spares the rows with a verdict. -/
def SparesVerdicts (L : Lib) (db : Db) : Action → Prop
  | .run i => ∀ result output t, Persists L i result output →
      persistNodes i.run_id (staged L i db result.outcome output).nodes db = .ok t →
      ∀ n ∈ (staged L i db result.outcome output).nodes, Spares db n
  | .review _ => True

section Run

variable {db : Db}

/-- The stored nodes and the map rows with a verdict are as they were. -/
structure Spared (db t : Db) : Prop where
  ok : NodesOk t.nodes
  nodes : ∀ id row, db.nodes.get? id = some row → t.nodes.get? id = some row
  maps : ∀ k, (db.maps.get? k).isSome → (t.maps.get? k).isSome
  verdicts : ∀ k st, mapStatusAt db k = some st → st.human = true → mapStatusAt t k = some st

theorem Spared.refl (h : NodesOk db.nodes) : Spared db db :=
  ⟨h,fun _ _ h => h,fun _ h => h,fun _ _ h _ => h⟩

/-- Map rows of spared URNs may be written. -/
theorem Spared.of_maps {s t : Db} {n : NodeUpsert} (hs : Spared db s) (hn : Spares db n)
    (hsame : SameButMaps s t) (hmaps : ∀ k, t.maps.get? k = s.maps.get? k ∨
      k.2 = n.id ∧ k.1 ∈ n.dataset_urns ∧ (t.maps.get? k).isSome) : Spared db t := by
  refine ⟨by rw [hsame.1]; exact hs.ok,by rw [hsame.1]; exact hs.nodes,fun k hk => ?_,
    fun k st hk hst => ?_⟩
  · rcases hmaps k with h | ⟨-,-,hsome⟩
    · rw [h]
      exact hs.maps k hk
    · exact hsome
  · rcases hmaps k with h | ⟨hid,hurn,-⟩
    · rw [mapStatusAt,h]
      exact hs.verdicts k st hk hst
    · obtain ⟨m,hm,rfl⟩ := Option.map_eq_some_iff.mp hk
      have hfalse := hn.2 k.1 hurn m (by rw [← hid]; exact hm)
      rw [hst] at hfalse
      cases hfalse

theorem spared_persistNode {run_id : Str} {s t : Db} {n : NodeUpsert} (hs : Spared db s)
    (hn : Spares db n) (ht : persistNode run_id s n = .ok t) : Spared db t := by
  have hok := persistNode_nodesOk hs.ok ht
  obtain ⟨-,rfl⟩ | ⟨-,hmaps⟩ | ⟨-,hnew,rfl⟩ := persistNode_ok ht
  · exact hs
  · obtain ⟨hsame,hmaps⟩ := upsert_dataset_node_maps_ok hmaps
    refine hs.of_maps hn hsame fun k => (hmaps k).imp_right ?_
    rintro ⟨hid,hurn,row,hrow,-⟩
    exact ⟨hid,hurn,by rw [hrow]; rfl⟩
  · refine ⟨hok,fun id row hrow => ?_,hs.maps,hs.verdicts⟩
    dsimp only
    have hrow' := hs.nodes id row hrow
    rw [Table.get?_put,(writtenNode_spec run_id s.nodes n).1]
    split
    · rename_i hid
      -- a row that is there has the name and the description already
      obtain ⟨hname,hdesc⟩ := hn.1 hnew row (by rw [hid]; exact hrow)
      rw [hid,hrow',writtenNode,if_neg (by simp [hname,hdesc])]
    · exact hrow'

theorem spared_persistNodes {run_id : Str} {ns : List NodeUpsert} {t : Db}
    (hdb : NodesOk db.nodes) (hns : ∀ n ∈ ns, Spares db n)
    (ht : persistNodes run_id ns db = .ok t) : Spared db t := by
  obtain ⟨db₁,h₁,h₂⟩ := bind_eq_ok.mp ht
  have hloop : Spared db db₁ := foldlM_invariant
    (fun s n hn t hs ht => spared_persistNode hs (hns n hn) ht) (Spared.refl hdb) h₁
  refine foldlM_invariant (fun s n hn t hs ht => ?_) hloop h₂
  obtain ⟨hsame,hmaps⟩ := persistMaps_ok ht
  refine hs.of_maps (hns n hn) hsame fun k => (hmaps k).imp_right ?_
  rintro ⟨-,hid,hurn,row,hrow,-⟩
  exact ⟨hid,hurn,by rw [hrow]; rfl⟩

theorem spared_run {L : Lib} {i : RunInput} (hdb : NodesOk db.nodes)
    (hg : SparesVerdicts L db (.run i)) : Spared db (run_inner L i db).1 := by
  rcases run_inner_cases L i db with h | ⟨result,output,hpersists,h⟩
  · rw [h]
    exact .refl hdb
  · rw [h]
    refine persist_invariant (.refl hdb) (fun t ht => ?_) (fun s t hs ht => ?_)
      fun s t hs ht => ?_
    · exact spared_persistNodes hdb (hg result output t hpersists ht) ht
    · obtain ⟨hnodes,hmaps,-⟩ := persistEdges_ok ht
      exact ⟨by rw [hnodes]; exact hs.ok,by rw [hnodes]; exact hs.nodes,
        by rw [hmaps]; exact hs.maps,by unfold mapStatusAt; rw [hmaps]; exact hs.verdicts⟩
    · obtain ⟨hnodes,hmaps,-⟩ := persistTriples_ok ht
      exact ⟨by rw [hnodes]; exact hs.ok,by rw [hnodes]; exact hs.nodes,
        by rw [hmaps]; exact hs.maps,by unfold mapStatusAt; rw [hmaps]; exact hs.verdicts⟩

end Run

section Steps

variable {L : Lib} {s t : Db} {a : Action}

/-- What the review of a node does to the nodes and the map rows. -/
structure Decided (id : Str) (v : Verdict) (s t : Db) : Prop where
  node : ∃ row, s.nodes.get? id = some row ∧
    t.nodes.get? id = some { row with status := v.status }
  others : ∀ x, x ≠ id → t.nodes.get? x = s.nodes.get? x
  maps : ∀ urn, mapStatusAt t (urn,id) = (mapStatusAt s (urn,id)).map fun _ => v.status
  others_maps : ∀ urn x, x ≠ id → mapStatusAt t (urn,x) = mapStatusAt s (urn,x)

theorem mapStatusAt_setMapStatus (db : Db) (id : Str) (status : Status) (k : Str × Str) :
    mapStatusAt (db.setMapStatus id status) k =
      if k.2 = id then (mapStatusAt db k).map fun _ => status else mapStatusAt db k := by
  refine (congrArg (Option.map DatasetNodeMap.status)
    (@Table.get?_modify _ _ _ _ db.maps (fun m => m.node_id = id)
      (fun m => { m with status := status }) (fun _ => rfl) k)).trans ?_
  unfold mapStatusAt
  cases hm : db.maps.get? k with
  | none => simp
  | some m =>
    have hid : m.node_id = k.2 := congrArg Prod.snd (Table.get?_eq_some.mp hm).2
    by_cases hk : k.2 = id <;> simp [hid,hk]

theorem decided_review_node {id verdict : Str} {v : Verdict}
    (hv : parseVerdict verdict = some v) (h : review_node s id verdict = .ok t) :
    Decided id v s t := by
  obtain ⟨row,w,hrow,hw,rfl⟩ := review_node_ok h
  obtain rfl : v = w := Option.some.inj (hv.symm.trans hw)
  have hid : row.id = id := (Table.get?_eq_some.mp hrow).2
  refine ⟨⟨row,hrow,?_⟩,fun x hx => ?_,fun urn => ?_,fun urn x hx => ?_⟩
  · exact (Table.get?_put _ _).trans (if_pos hid)
  · exact (Table.get?_put _ _).trans (if_neg fun he => hx (he.symm.trans hid))
  · rw [mapStatusAt_setMapStatus,if_pos rfl]
    rfl
  · rw [mapStatusAt_setMapStatus,if_neg hx]
    rfl

/-- A step is an accepted review of one node, or spares the nodes and the verdicts. -/
theorem step_cases (hs : NodesOk s.nodes) (hg : SparesVerdicts L s a)
    (hstep : (ontology L).step s a t) :
    (∃ id v, Decides id (s,a) v ∧ (∀ id' v', Decides id' (s,a) v' → id' = id ∧ v' = v) ∧
      Decided id v s t) ∨
    ((∀ id v, ¬ Decides id (s,a) v) ∧ Spared s t) := by
  cases a with
  | run i =>
    obtain ⟨-,rfl⟩ := hstep
    refine .inr ⟨?_,spared_run hs hg⟩
    rintro _ _ ⟨-,verdict,he,-⟩
    cases he
  | review r =>
    have hdb : (r.run s).toOption.getD s = t := Option.some.inj hstep
    have hnone : (∀ id v, ¬ Decides id (s,.review r) v) → s.nodes = t.nodes → s.maps = t.maps →
        (∀ id v, ¬ Decides id (s,.review r) v) ∧ Spared s t := by
      intro hnot hnodes hmaps
      refine ⟨hnot,by rw [← hnodes]; exact hs,by rw [← hnodes]; exact fun _ _ h => h,
        by rw [← hmaps]; exact fun _ h => h,?_⟩
      unfold mapStatusAt
      rw [← hmaps]
      exact fun _ _ h _ => h
    cases hrun : r.run s with
    | error e =>
      obtain rfl : s = t := by simpa [hrun,Except.toOption] using hdb
      refine .inr (hnone ?_ rfl rfl)
      rintro id v ⟨hsome,verdict,he,hv⟩
      obtain ⟨row,hrow⟩ := Option.isSome_iff_exists.mp hsome
      cases he
      dsimp only at hrow
      rw [Review.run,review_node,hrow] at hrun
      simp [hv] at hrun
    | ok db₁ =>
      obtain rfl : db₁ = t := by simpa [hrun,Except.toOption] using hdb
      cases r with
      | node id verdict =>
        obtain ⟨row,v,hrow,hv,-⟩ := review_node_ok hrun
        refine .inl ⟨id,v,⟨by simp [hrow],verdict,rfl,hv⟩,?_,decided_review_node hv hrun⟩
        rintro id' v' ⟨-,verdict',he,hv'⟩
        cases he
        exact ⟨rfl,Option.some.inj (hv'.symm.trans hv)⟩
      | edge id verdict =>
        obtain ⟨row,v,-,-,rfl⟩ := review_edge_ok hrun
        refine .inr (hnone ?_ rfl rfl)
        rintro _ _ ⟨-,verdict',he,-⟩
        cases he
      | triple id verdict =>
        obtain ⟨row,v,-,-,-,rfl⟩ := review_triple_ok hrun
        refine .inr (hnone ?_ rfl rfl)
        rintro _ _ ⟨-,verdict',he,-⟩
        cases he

def RowsKept (h : List (Db × Action)) (t : Db) : Prop :=
  ∀ p ∈ h, (∀ id, (p.1.nodes.get? id).isSome → (t.nodes.get? id).isSome) ∧
    ∀ k, (p.1.maps.get? k).isSome → (t.maps.get? k).isSome

theorem isSome_mapStatusAt {db : Db} {k : Str × Str} :
    (mapStatusAt db k).isSome = (db.maps.get? k).isSome := by
  simp [mapStatusAt]

theorem Decided.rows {id : Str} {v : Verdict} (hd : Decided id v s t) :
    (∀ x, (s.nodes.get? x).isSome → (t.nodes.get? x).isSome) ∧
      ∀ k, (s.maps.get? k).isSome → (t.maps.get? k).isSome := by
  constructor
  · intro x hx
    by_cases he : x = id
    · obtain ⟨row,-,hrow⟩ := hd.node
      rw [he,hrow]
      rfl
    · rw [hd.others x he]
      exact hx
  · rintro ⟨urn,x⟩ hk
    rw [← isSome_mapStatusAt] at hk ⊢
    by_cases he : x = id
    · rw [he] at hk ⊢
      rw [hd.maps urn]
      simpa using hk
    · rw [hd.others_maps urn x he]
      exact hk

theorem Spared.rows (hs : Spared s t) :
    (∀ x, (s.nodes.get? x).isSome → (t.nodes.get? x).isSome) ∧
      ∀ k, (s.maps.get? k).isSome → (t.maps.get? k).isSome := by
  refine ⟨fun x hx => ?_,hs.maps⟩
  obtain ⟨row,hrow⟩ := Option.isSome_iff_exists.mp hx
  rw [hs.nodes x row hrow]
  rfl

theorem RowsKept.cons {h : List (Db × Action)} (hk : RowsKept h s)
    (hstep : (∀ x, (s.nodes.get? x).isSome → (t.nodes.get? x).isSome) ∧
      ∀ k, (s.maps.get? k).isSome → (t.maps.get? k).isSome) : RowsKept ((s,a)::h) t :=
  List.forall_mem_cons.mpr ⟨hstep,fun p hp =>
    ⟨fun id hid => hstep.1 id ((hk p hp).1 id hid),fun k hks => hstep.2 k ((hk p hp).2 k hks)⟩⟩

theorem LatestVerdict.of_cons {h : List (Db × Action)} {id : Str} {v : Verdict} {db : Db}
    (hl : LatestVerdict ((s,a)::h) id v db) :
    (db = s ∧ Decides id (s,a) v) ∨ ((∀ w, ¬ Decides id (s,a) w) ∧ LatestVerdict h id v db) := by
  obtain ⟨later,earlier,b,he,hd,hlater⟩ := hl
  cases later with
  | nil =>
    obtain ⟨he',-⟩ := List.cons.inj he
    obtain ⟨rfl,rfl⟩ := Prod.mk.inj he'
    exact .inl ⟨rfl,hd⟩
  | cons q later =>
    obtain ⟨rfl,hh⟩ := List.cons.inj he
    obtain ⟨hq,hlater'⟩ := List.forall_mem_cons.mp hlater
    exact .inr ⟨hq,later,earlier,b,hh,hd,hlater'⟩

theorem human_status (v : Verdict) : v.status.human = true := by
  cases v <;> rfl

theorem verdictsKept_step {h : List (Db × Action)} (hk : VerdictsKept h s)
    (hs : NodesOk s.nodes) (hg : SparesVerdicts L s a) (hstep : (ontology L).step s a t) :
    VerdictsKept ((s,a)::h) t := by
  intro id v db hl
  obtain ⟨id₀,v₀,hd,huniq,hdec⟩ | ⟨hnot,hspared⟩ := step_cases hs hg hstep
  · rcases hl.of_cons with ⟨rfl,hdv⟩ | ⟨hnot,hl⟩
    · obtain ⟨rfl,rfl⟩ := huniq id v hdv
      obtain ⟨row,hrow,hrow'⟩ := hdec.node
      refine ⟨⟨row,_,hrow,hrow',rfl,rfl,rfl⟩,fun urn hurn => ?_⟩
      rw [hdec.maps urn]
      obtain ⟨m,hm⟩ := Option.isSome_iff_exists.mp hurn
      simp [mapStatusAt,hm]
    · have hne : id ≠ id₀ := by
        rintro rfl
        exact hnot v₀ hd
      obtain ⟨⟨row,row',hrow,hrow',hsame⟩,hmaps⟩ := hk id v db hl
      refine ⟨⟨row,row',hrow,(hdec.others id hne).trans hrow',hsame⟩,fun urn hurn => ?_⟩
      rw [hdec.others_maps urn id hne]
      exact hmaps urn hurn
  · rcases hl.of_cons with ⟨-,hd⟩ | ⟨-,hl⟩
    · exact absurd hd (hnot id v)
    · obtain ⟨⟨row,row',hrow,hrow',hsame⟩,hmaps⟩ := hk id v db hl
      exact ⟨⟨row,row',hrow,hspared.nodes id row' hrow',hsame⟩,
        fun urn hurn => hspared.verdicts _ _ (hmaps urn hurn) (human_status v)⟩

theorem approvedMaps_step {h : List (Db × Action)} (hk : ApprovedMaps h s)
    (hrows : RowsKept h s) (hs : NodesOk s.nodes) (hg : SparesVerdicts L s a)
    (hstep : (ontology L).step s a t) : ApprovedMaps ((s,a)::h) t := by
  intro p hp id hd urn hurn happ
  have hurn' : p ∈ h → (s.maps.get? (urn,id)).isSome := fun hp => (hrows p hp).2 _ hurn
  obtain ⟨id₀,v₀,-,huniq,hdec⟩ | ⟨hnot,hspared⟩ := step_cases hs hg hstep
  · by_cases hid : id = id₀
    · subst hid
      -- the review sets the rows of the node to the status of its verdict
      have hv : v₀.status = .approved := by
        obtain ⟨row,-,hrow⟩ := hdec.node
        simpa [nodeApproved,hrow] using happ
      have hsome : (s.maps.get? (urn,id)).isSome := by
        rcases List.mem_cons.mp hp with rfl | hp
        · exact hurn
        · exact hurn' hp
      obtain ⟨m,hm⟩ := Option.isSome_iff_exists.mp hsome
      rw [hdec.maps urn,mapStatusAt,hm,hv]
      rfl
    · rcases List.mem_cons.mp hp with rfl | hp
      · exact absurd (huniq id _ hd).1 hid
      · rw [hdec.others_maps urn id hid]
        refine hk p hp id hd urn hurn ?_
        rwa [nodeApproved,hdec.others id hid] at happ
  · rcases List.mem_cons.mp hp with rfl | hp
    · exact absurd hd (hnot id _)
    · obtain ⟨row,hrow⟩ := Option.isSome_iff_exists.mp ((hrows p hp).1 id hd.1)
      refine hspared.verdicts _ _ (hk p hp id hd urn hurn ?_) rfl
      rw [nodeApproved,hspared.nodes id row hrow] at happ
      rwa [nodeApproved,hrow]

/-- Along runs that spare the rows with a verdict, every verdict on a node is kept, and the
map rows it covered stay approved while the node is approved. -/
theorem verdicts_kept {h : List (Db × Action)} {t : Db} (hr : Run (ontology L) .empty h t)
    (hg : Meets (SparesVerdicts L) h) : VerdictsKept h t ∧ ApprovedMaps h t := by
  suffices hall : RowsKept h t ∧ VerdictsKept h t ∧ ApprovedMaps h t from hall.2
  induction hr with
  | refl =>
    refine ⟨by simp [RowsKept],?_,by simp [ApprovedMaps]⟩
    rintro id v db ⟨later,earlier,a,he,-⟩
    simp at he
  | step hr hstep ih =>
    rw [meets_cons] at hg
    obtain ⟨hrows,hkept,happ⟩ := ih hg.2
    have hs := nodesOk_reachable ⟨_,_,rfl,hr⟩
    refine ⟨hrows.cons ?_,verdictsKept_step hkept hs hg.1 hstep,
      approvedMaps_step happ hrows hs hg.1 hstep⟩
    obtain ⟨id₀,v₀,-,-,hdec⟩ | ⟨-,hspared⟩ := step_cases hs hg.1 hstep
    · exact hdec.rows
    · exact hspared.rows

end Steps

def proposingRun : RunInput :=
  { sampleRun with
    producer := fun _ _ => .message [⟨"ontogen_validate".toList,[("payload".toList,
      obj [("nodes",.arr [obj [("name",str "Order"),("dataset_urns",.arr [str "urn"])]])])]⟩] }

def proposedDb : Db := (run_inner sampleLib proposingRun .empty).1

def approvedDb : Db :=
  ((Review.node "order".toList "approve".toList).run proposedDb).toOption.getD proposedDb

theorem approved_history : Run (ontology sampleLib) .empty
    [(proposedDb,.review (.node "order".toList "approve".toList)),(.empty,.run proposingRun)]
    approvedDb :=
  .step (.step .refl ⟨nofun,rfl⟩) rfl

theorem mapStatus_not_human (confidence : Number) : (mapStatus confidence).human = false := by
  unfold mapStatus
  split <;> rfl

/-- The next run proposes the approved node again and takes its map row back. -/
theorem approval_lost :
    ¬ ∀ (L : Lib) (h : List (Db × Action)) (t : Db), Run (ontology L) .empty h t →
      VerdictsKept h t ∧ ApprovedMaps h t := by
  intro hall
  have hstep : (ontology sampleLib).step approvedDb (.run proposingRun)
      (run_inner sampleLib proposingRun approvedDb).1 := ⟨nofun,rfl⟩
  have hkept := (hall sampleLib _ _ (.step approved_history hstep)).1
  have hmap := (hkept "order".toList .approve proposedDb ⟨[_],_,_,rfl,⟨rfl,_,rfl,rfl⟩,
    by rintro q hq w ⟨-,_,he,-⟩; rw [List.mem_singleton.mp hq] at he; cases he⟩).2 "urn".toList rfl
  have hstatus : mapStatusAt (run_inner sampleLib proposingRun approvedDb).1
      ("urn".toList,"order".toList) = some (mapStatus (.fin 0)) := rfl
  have hhuman := mapStatus_not_human (.fin 0)
  rw [Option.some.inj (hstatus.symm.trans hmap)] at hhuman
  cases hhuman

theorem verdicts_kept_sample :
    VerdictsKept [(proposedDb,.review (.node "order".toList "approve".toList)),
      (.empty,.run proposingRun)] approvedDb ∧
    ApprovedMaps [(proposedDb,.review (.node "order".toList "approve".toList)),
      (.empty,.run proposingRun)] approvedDb := by
  refine verdicts_kept approved_history ?_
  simp only [meets_cons,meets_nil,and_true]
  refine ⟨trivial,fun result output t _ _ n _ => ⟨fun _ row hrow => ?_,fun _ _ m hm => ?_⟩⟩
  · cases hrow
  · cases hm

end Ontogen
end Dataspoke
