import Dataspoke.OntogenStore
import Dataspoke.Transition

/-!
# Reviews and the approved graph

Sequences of review requests. Approving a triple needs its nodes and its edge approved, and
rejecting one of these leaves the triple as it is.
-/

namespace Dataspoke
namespace Ontogen

open Python Transition

inductive Review
  | node (node_id verdict : Str)
  | edge (edge_id verdict : Str)
  | triple (triple_id verdict : Str)
  deriving DecidableEq

def Review.run (db : Db) : Review → Except ReviewError Db
  | .node id verdict => review_node db id verdict
  | .edge id verdict => review_edge db id verdict
  | .triple id verdict => review_triple db id verdict

/-- A refused request leaves the tables as they are. -/
def review (db : Db) (r : Review) : Option Db := some ((r.run db).toOption.getD db)

/-- Review requests in any order, from tables without approved triples. -/
def reviews : System Db Review :=
  ofFun (fun db => ∀ row ∈ db.triples.rows, row.status ≠ .approved) review

theorem parseVerdict_eq {verdict : Str} {v : Verdict} (h : parseVerdict verdict = some v) :
    verdict = (match v with | .approve => "approve" | .reject => "reject").toList := by
  unfold parseVerdict at h
  split at h
  · cases h
    assumption
  split at h
  · cases h
    assumption
  · cases h

theorem review_node_ok {db db' : Db} {id verdict : Str} (h : review_node db id verdict = .ok db') :
    ∃ row v, db.nodes.get? id = some row ∧ parseVerdict verdict = some v ∧
      db' = { db with nodes := db.nodes.put { row with status := v.status } }.setMapStatus
        id v.status := by
  unfold review_node at h
  split at h
  · cases h
  rename_i row hrow
  split at h
  · cases h
  rename_i v hv
  cases h
  exact ⟨row,v,hrow,hv,rfl⟩

theorem review_edge_ok {db db' : Db} {id verdict : Str} (h : review_edge db id verdict = .ok db') :
    ∃ row v, db.edges.get? id = some row ∧ parseVerdict verdict = some v ∧
      db' = { db with edges := db.edges.put { row with status := v.status } } := by
  unfold review_edge at h
  split at h
  · cases h
  rename_i row hrow
  split at h
  · cases h
  rename_i v hv
  cases h
  exact ⟨row,v,hrow,hv,rfl⟩

/-- The nodes and the edge of a triple are approved. -/
def DependenciesApproved (db : Db) (row : OntogenTriple) : Prop :=
  nodeApproved db row.subject_node_id = true ∧ edgeApproved db row.edge_id = true ∧
    nodeApproved db row.object_node_id = true

theorem review_triple_ok {db db' : Db} {id verdict : Str}
    (h : review_triple db id verdict = .ok db') :
    ∃ row v, db.triples.get? id = some row ∧ parseVerdict verdict = some v ∧
      (v = .approve → DependenciesApproved db row) ∧
      db' = { db with triples := db.triples.put { row with status := v.status } } := by
  unfold review_triple at h
  split at h
  · cases h
  rename_i row hrow
  split at h
  · cases h
  · rename_i hv
    split at h
    · rename_i hdeps
      cases h
      simp only [Bool.and_eq_true] at hdeps
      exact ⟨row,.approve,hrow,hv,fun _ => ⟨hdeps.1.1,hdeps.1.2,hdeps.2⟩,rfl⟩
    · cases h
  · rename_i hv
    cases h
    exact ⟨row,.reject,hrow,hv,fun h => (by cases h),rfl⟩

/-- The request rejects a node or the edge of the triple. -/
def RejectsDependency (row : OntogenTriple) (p : Db × Review) : Prop :=
  (∃ db, p.2.run p.1 = .ok db) ∧ ∃ id,
    (p.2 = .node id "reject".toList ∧ (id = row.subject_node_id ∨ id = row.object_node_id)) ∨
    (p.2 = .edge id "reject".toList ∧ id = row.edge_id)

def Approves (row : OntogenTriple) (p : Db × Review) : Prop :=
  p.2 = .triple row.id "approve".toList ∧ ∃ db, p.2.run p.1 = .ok db

/-- A dependency of the triple was rejected since the triple was last approved. -/
def RejectedSince (row : OntogenTriple) (h : List (Db × Review)) : Prop :=
  ∃ later earlier p, h = later ++ p::earlier ∧ RejectsDependency row p ∧
    ∀ q ∈ later, ¬ Approves row q

theorem RejectedSince.cons {row : OntogenTriple} {h : List (Db × Review)} {p : Db × Review}
    (hr : RejectedSince row h) (hp : ¬ Approves row p) : RejectedSince row (p::h) := by
  obtain ⟨later,earlier,q,rfl,hq,hlater⟩ := hr
  exact ⟨p::later,earlier,q,rfl,hq,List.forall_mem_cons.mpr ⟨hp,hlater⟩⟩

/-- Every approved triple has its dependencies approved, or lost one since. -/
def Closed (h : List (Db × Review)) (db : Db) : Prop :=
  ∀ row ∈ db.triples.rows, row.status = .approved →
    DependenciesApproved db row ∨ RejectedSince row h

theorem nodeApproved_review {db : Db} {row : OntogenNode} {id : Str} {status : Status}
    (hrow : db.nodes.get? id = some row) (x : Str) :
    nodeApproved ({ db with nodes := db.nodes.put { row with status := status } }.setMapStatus
      id status) x = if x = id then decide (status = .approved) else nodeApproved db x := by
  have hid : row.id = id := (Table.get?_eq_some.mp hrow).2
  simp only [nodeApproved,Db.setMapStatus,Table.get?_put,hid,eq_comm (a:=id)]
  split <;> simp

theorem edgeApproved_review {db : Db} {row : OntogenEdge} {id : Str} {status : Status}
    (hrow : db.edges.get? id = some row) (x : Str) :
    edgeApproved { db with edges := db.edges.put { row with status := status } } x =
      if x = id then decide (status = .approved) else edgeApproved db x := by
  have hid : row.id = id := (Table.get?_eq_some.mp hrow).2
  simp only [edgeApproved,Table.get?_put,hid,eq_comm (a:=id)]
  split <;> simp

theorem closed_node {h : List (Db × Review)} {db db' : Db} {id verdict : Str}
    (hc : Closed h db) (hok : review_node db id verdict = .ok db') :
    Closed ((db,.node id verdict)::h) db' := by
  obtain ⟨node,v,hnode,hv,rfl⟩ := review_node_ok hok
  intro row hrow happ
  rcases hc row hrow happ with ⟨hs,he,ho⟩ | hsince
  · cases v with
    | approve =>
      refine .inl ⟨?_,he,?_⟩
      · rw [nodeApproved_review hnode]
        split
        · rfl
        · exact hs
      · rw [nodeApproved_review hnode]
        split
        · rfl
        · exact ho
    | reject =>
      by_cases hdep : id = row.subject_node_id ∨ id = row.object_node_id
      · refine .inr ⟨[],h,_,rfl,⟨⟨_,hok⟩,id,.inl ⟨?_,hdep⟩⟩,by simp⟩
        rw [parseVerdict_eq hv]
      · rw [not_or] at hdep
        refine .inl ⟨?_,he,?_⟩
        · rw [nodeApproved_review hnode,if_neg (Ne.symm hdep.1)]
          exact hs
        · rw [nodeApproved_review hnode,if_neg (Ne.symm hdep.2)]
          exact ho
  · exact .inr (hsince.cons (by rintro ⟨⟨⟩,-⟩))

theorem closed_edge {h : List (Db × Review)} {db db' : Db} {id verdict : Str}
    (hc : Closed h db) (hok : review_edge db id verdict = .ok db') :
    Closed ((db,.edge id verdict)::h) db' := by
  obtain ⟨edge,v,hedge,hv,rfl⟩ := review_edge_ok hok
  intro row hrow happ
  rcases hc row hrow happ with ⟨hs,he,ho⟩ | hsince
  · cases v with
    | approve =>
      refine .inl ⟨hs,?_,ho⟩
      rw [edgeApproved_review hedge]
      split
      · rfl
      · exact he
    | reject =>
      by_cases hdep : id = row.edge_id
      · refine .inr ⟨[],h,_,rfl,⟨⟨_,hok⟩,id,.inr ⟨?_,hdep⟩⟩,by simp⟩
        rw [parseVerdict_eq hv]
      · refine .inl ⟨hs,?_,ho⟩
        rw [edgeApproved_review hedge,if_neg (Ne.symm hdep)]
        exact he
  · exact .inr (hsince.cons (by rintro ⟨⟨⟩,-⟩))

theorem closed_triple {h : List (Db × Review)} {db db' : Db} {id verdict : Str}
    (hc : Closed h db) (hok : review_triple db id verdict = .ok db') :
    Closed ((db,.triple id verdict)::h) db' := by
  obtain ⟨triple,v,htriple,hv,hdeps,rfl⟩ := review_triple_ok hok
  obtain ⟨-,rfl⟩ := Table.get?_eq_some.mp htriple
  intro row hrow happ
  rcases Table.mem_put.mp hrow with rfl | ⟨hrow,hne⟩
  · cases v with
    | approve => exact .inl (hdeps rfl)
    | reject => cases happ
  · rcases hc row hrow happ with hall | hsince
    · exact .inl hall
    · refine .inr (hsince.cons ?_)
      rintro ⟨he,-⟩
      exact hne (Review.triple.inj he).1.symm

theorem closed_step {h : List (Db × Review)} {db db' : Db} {r : Review} (hc : Closed h db)
    (hstep : review db r = some db') : Closed ((db,r)::h) db' := by
  have hdb : (r.run db).toOption.getD db = db' := Option.some.inj hstep
  cases hrun : r.run db with
  | error e =>
    have : db = db' := by simpa [hrun,Except.toOption] using hdb
    subst this
    intro row hrow happ
    refine (hc row hrow happ).imp_right fun hsince => hsince.cons ?_
    rintro ⟨-,db',hok⟩
    cases hrun.symm.trans hok
  | ok db₁ =>
    have : db₁ = db' := by simpa [hrun,Except.toOption] using hdb
    subst this
    cases r with
    | node id verdict => exact closed_node hc hrun
    | edge id verdict => exact closed_edge hc hrun
    | triple id verdict => exact closed_triple hc hrun

theorem closed_run {s t : Db} {h : List (Db × Review)} (hs : reviews.init s)
    (hr : Run reviews s h t) : Closed h t := by
  induction hr with
  | refl => exact fun row hrow happ => absurd happ (hs row hrow)
  | step _ hstep ih => exact closed_step ih hstep

/-- An approval finds the nodes and the edge of the triple approved, and they stay so until
one of them is rejected. -/
theorem approved_triples_closed {s t : Db} {h : List (Db × Review)} (hs : reviews.init s)
    (hr : Run reviews s h t) :
    (∀ row ∈ t.triples.rows, row.status = .approved →
      DependenciesApproved t row ∨ RejectedSince row h) ∧
    ∀ p ∈ h, ∀ row, p.1.triples.get? row.id = some row → Approves row p →
      DependenciesApproved p.1 row := by
  refine ⟨closed_run hs hr,?_⟩
  rintro ⟨db,r⟩ - row hrow ⟨rfl,db',hok⟩
  have hok : review_triple db row.id "approve".toList = .ok db' := hok
  obtain ⟨row',v,hrow',hv,hdeps,-⟩ := review_triple_ok hok
  obtain rfl : row = row' := Option.some.inj (hrow.symm.trans hrow')
  refine hdeps ?_
  cases v with
  | approve => rfl
  | reject => exact absurd (parseVerdict_eq hv) (by decide)

def sampleNode (id : String) : OntogenNode :=
  ⟨id.toList,id.toList,[],.fin 1,.llm_approved,none⟩

def sampleEdge : OntogenEdge := ⟨"has".toList,"has".toList,none,.fin 1,.llm_approved,none⟩

def sampleTriple : OntogenTriple :=
  ⟨"order__has__item".toList,"order".toList,"has".toList,"item".toList,.fin 1,.llm_approved,none⟩

def sampleDb : Db where
  nodes := (Table.empty _).put (sampleNode "order") |>.put (sampleNode "item")
  edges := (Table.empty _).put sampleEdge
  triples := (Table.empty _).put sampleTriple
  maps := .empty _

def approveAll : List Review :=
  [.node "order".toList "approve".toList,.node "item".toList "approve".toList,
    .edge "has".toList "approve".toList,.triple "order__has__item".toList "approve".toList]

theorem sampleDb_init : reviews.init sampleDb := by
  intro row hrow
  have : row = sampleTriple := by simpa [sampleDb,Table.mem_put,Table.empty] using hrow
  rw [this]
  decide

/-- A node is rejected after the triple over it is approved. -/
theorem approved_triple_with_rejected_subject :
    ¬ ∀ (s t : Db) (h : List (Db × Review)), reviews.init s → Run reviews s h t →
      ∀ row ∈ t.triples.rows, row.status = .approved → DependenciesApproved t row := by
  intro hall
  obtain ⟨⟨h,t⟩,he⟩ : ∃ r, replay review [] sampleDb
      (approveAll ++ [.node "order".toList "reject".toList]) = some r := ⟨_,rfl⟩
  have hrun : Run reviews sampleDb h t := run_of_replay .refl he
  have hdeps := hall sampleDb t h sampleDb_init hrun { sampleTriple with status := .approved }
  cases he
  exact absurd (hdeps (by decide) rfl).1 (by decide)

theorem approved_triples_closed_sample :
    ∃ h t, replay review [] sampleDb approveAll = some (h,t) ∧
      (∀ row ∈ t.triples.rows, row.status = .approved →
        DependenciesApproved t row ∨ RejectedSince row h) ∧
      ∀ p ∈ h, ∀ row, p.1.triples.get? row.id = some row → Approves row p →
        DependenciesApproved p.1 row := by
  obtain ⟨⟨h,t⟩,he⟩ : ∃ r, replay review [] sampleDb approveAll = some r := ⟨_,rfl⟩
  exact ⟨h,t,he,approved_triples_closed sampleDb_init (run_of_replay .refl he)⟩

end Ontogen
end Dataspoke
