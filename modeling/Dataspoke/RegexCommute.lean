import Dataspoke.Regex

/-!
# Replacing the matches of two expressions

Where the matches of two expressions share no character, with one another or with the text that
replaces them, it does not matter which of them are replaced first.
-/

namespace Dataspoke
namespace Regex

section First

variable {r s : Re}

/-- The expression matches the text, whatever is around it. -/
def Spells (r : Re) (u : List Char) : Prop := ∃ g, Matches r [] u [] g

/-- The text of the match that is found at the beginning of a text. -/
def first (r : Re) (x : List Char) : Option (List Char) := ((run r [] x).head?).map Match.text

theorem run_free (hr : Free r) (before before' text : List Char) :
    run r before text = run r before' text := by
  induction r generalizing before before' text with
  | cls p => rfl
  | rep p min max => rfl
  | seq r s ihr ihs =>
    simp only [run]
    rw [ihr hr.1 before before']
    refine List.flatMap_congr fun m _ => ?_
    rw [ihs hr.2 (m.text.reverse ++ before) (m.text.reverse ++ before')]
  | alt r s ihr ihs => rw [run,run,ihr hr.1 before before',ihs hr.2 before before']
  | group i r ih => rw [run,run,ih hr before before']
  | look p => rw [run,run,if_pos (hr before text),if_pos (hr before' text)]

theorem spells_of_first (hr : Free r) {x u : List Char} (h : first r x = some u) :
    ∃ rest, x = u ++ rest ∧ Spells r u := by
  obtain ⟨m,hm,rfl⟩ := Option.map_eq_some_iff.mp h
  obtain ⟨rest,hx,hmatch⟩ := mem_run.mp (List.mem_of_head? hm)
  exact ⟨rest,hx,_,hmatch.free hr [] []⟩

theorem first_ne_none (hr : Free r) {u : List Char} (h : Spells r u) (rest : List Char) :
    first r (u ++ rest) ≠ none := by
  obtain ⟨g,hg⟩ := h
  have hmem : (⟨u,g⟩ : Match) ∈ run r [] (u ++ rest) := mem_run.mpr ⟨rest,rfl,hg.free hr [] rest⟩
  intro hnone
  rw [first,Option.map_eq_none_iff,List.head?_eq_none_iff] at hnone
  rw [hnone] at hmem
  cases hmem

theorem first_alt (x : List Char) : first (.alt r s) x = (first r x).or (first s x) := by
  rw [first,run,List.head?_append,Option.map_or]
  rfl

theorem first_seq (hs : Free s) (x : List Char) : first (.seq r s) x =
    (run r [] x).findSome? fun m => (first s (x.drop m.text.length)).map (m.text ++ ·) := by
  rw [first,run,List.head?_flatMap,List.map_findSome?]
  refine congrArg (fun f => List.findSome? f (run r [] x)) (funext fun m => ?_)
  rw [first,Function.comp_apply,run_free hs (m.text.reverse ++ []) [],List.head?_map,
    Option.map_map,Option.map_map]
  rfl

theorem first_seq_cls (hs : Free s) (p : Char → Bool) (c : Char) (x : List Char) :
    first (.seq (.cls p) s) (c::x) = if p c then (first s x).map (c::·) else none := by
  rw [first_seq hs,run]
  by_cases hp : p c = true
  · rw [if_pos hp,if_pos hp,List.findSome?_singleton]
    rfl
  · rw [if_neg hp,if_neg hp,List.findSome?_nil]

theorem first_seq_rep (hs : Free s) (p : Char → Bool) (min : ℕ) (max : Option ℕ) (x : List Char) :
    first (.seq (.rep p min max) s) x = (repLengths p min max x).findSome? fun n =>
      (first s (x.drop n)).map (x.take n ++ ·) := by
  rw [first_seq hs,run,List.findSome?_map]
  refine congrArg (fun f => List.findSome? f _) (funext fun n => ?_)
  have hdrop : x.drop (x.take n).length = x.drop n := by
    rcases Nat.le_total n x.length with hle | hle
    · rw [List.length_take_of_le hle]
    · rw [List.take_of_length_le hle,List.drop_length,List.drop_of_length_le hle]
  rw [Function.comp_apply,hdrop]

/-- A greedy repetition takes the most characters that let the rest match. -/
theorem first_rep_greedy (hs : Free s) {p : Char → Bool} {x u : List Char}
    (h : first (.seq (.rep p 0 none) s) x = some u) : ∃ n v, u = x.take n ++ v ∧
      n ≤ (x.takeWhile p).length ∧ first s (x.drop n) = some v ∧
      ∀ n', n < n' → n' ≤ (x.takeWhile p).length → first s (x.drop n') = none := by
  let lengths := (List.range ((x.takeWhile p).length + 1)).reverse
  have hlengths : repLengths p 0 none x = lengths :=
    List.filter_eq_self.mpr fun n _ => decide_eq_true (Nat.zero_le n)
  have hsorted : lengths.Pairwise (· > ·) := List.pairwise_reverse.mpr List.pairwise_lt_range
  have hmem : ∀ n, n ∈ lengths ↔ n ≤ (x.takeWhile p).length := by
    intro n
    rw [List.mem_reverse,List.mem_range,Nat.lt_succ_iff]
  rw [first_seq_rep hs,hlengths] at h
  obtain ⟨longer,n,shorter,hsplit,hn,hnone⟩ := List.findSome?_eq_some_iff.mp h
  obtain ⟨v,hv,rfl⟩ := Option.map_eq_some_iff.mp hn
  refine ⟨n,v,rfl,(hmem n).mp (by rw [hsplit]; simp),hv,fun n' hlt hle => ?_⟩
  have hin := (hmem n').mpr hle
  rw [hsplit] at hin hsorted
  have hshorter := (List.pairwise_cons.mp (List.pairwise_append.mp hsorted).2.1).1
  rcases List.mem_append.mp hin with hin | hin
  · exact Option.map_eq_none_iff.mp (hnone n' hin)
  · rcases List.mem_cons.mp hin with rfl | hin
    · omega
    · have := hshorter n' hin
      omega

end First

section Replaced

variable {r s : Re} {out x : List Char}

/-- The text with its matches replaced. -/
def replaced (r : Re) (out x : List Char) : List Char := sub r (fun _ => out) 0 [] x

theorem sub_free (hr : Free r) (before : List Char) :
    sub r (fun _ => out) 0 before x = replaced r out x := by
  unfold replaced
  suffices h : ∀ n before before', sub r (fun _ => out) n before x =
      sub r (fun _ => out) n before' x from h 0 before []
  induction x with
  | nil => intro n _ _; rw [sub,sub]
  | cons c x ih =>
    intro n before before'
    cases n with
    | succ n => rw [sub,sub,ih]
    | zero =>
      rw [sub,sub,run_free hr before before']
      cases (run r before' (c::x)).head? with
      | none => exact congrArg (c::·) (ih 0 _ _)
      | some m => exact congrArg (out ++ ·) (ih _ _ _)

@[simp] theorem replaced_nil : replaced r out [] = [] := by rw [replaced,sub]

theorem replaced_copy (hr : Free r) {c : Char} (h : first r (c::x) = none) :
    replaced r out (c::x) = c::replaced r out x := by
  rw [first,Option.map_eq_none_iff,List.head?_eq_none_iff] at h
  rw [replaced,sub_copy h,sub_free hr]

theorem replaced_match (hr : Free r) (hp : Proper r) {u rest : List Char}
    (h : first r (u ++ rest) = some u) :
    replaced r out (u ++ rest) = out ++ replaced r out rest := by
  obtain ⟨m,hm,rfl⟩ := Option.map_eq_some_iff.mp h
  obtain ⟨_,_,hmatch⟩ := mem_run.mp (List.mem_of_head? hm)
  rw [replaced,sub_replace (hp _ _ _ _ hmatch) hm rfl,sub_free hr]

/-- Characters at which no match begins are copied. -/
theorem replaced_append (hr : Free r) {w y : List Char}
    (h : ∀ a c w', w = a ++ c::w' → first r (c::w' ++ y) = none) :
    replaced r out (w ++ y) = w ++ replaced r out y := by
  induction w with
  | nil => rfl
  | cons c w ih =>
    have hcopy : replaced r out (c::(w ++ y)) = c::replaced r out (w ++ y) :=
      replaced_copy hr (h [] c w rfl)
    rw [List.cons_append,hcopy,ih fun a d w' hw => h (c::a) d w' (by rw [hw]; rfl)]
    rfl

/-- The induction over a text as it is read: what is found at its beginning, or a character. -/
theorem first_induction (hr : Free r) (hp : Proper r) {motive : List Char → Prop} (nil : motive [])
    (copy : ∀ c x, first r (c::x) = none → motive x → motive (c::x))
    (found : ∀ u rest, u ≠ [] → first r (u ++ rest) = some u → motive rest → motive (u ++ rest))
    (x : List Char) : motive x := by
  induction hn : x.length using Nat.strongRecOn generalizing x with
  | _ n ih =>
    subst hn
    cases x with
    | nil => exact nil
    | cons c x =>
      cases h : first r (c::x) with
      | none => exact copy c x h (ih _ (by simp) x rfl)
      | some u =>
        obtain ⟨rest,hx,g,hg⟩ := spells_of_first hr h
        have hne := hp _ _ _ _ hg
        have hlt : rest.length < (c::x).length := by
          rw [hx,List.length_append]
          exact Nat.lt_add_of_pos_left (List.length_pos_iff.mpr hne)
        rw [hx] at h ⊢
        exact found u rest hne h (ih _ hlt rest rfl)

theorem replaced_congr (hr : Free r) (hp : Proper r) (hs : Free s) (hps : Proper s)
    (h : ∀ a y, x = a ++ y → first r y = first s y) : replaced r out x = replaced s out x := by
  induction x using first_induction hr hp with
  | nil => rw [replaced_nil,replaced_nil]
  | copy c x hc ih =>
    have hsame := h [] (c::x) rfl
    rw [replaced_copy hr hc,replaced_copy hs (hsame ▸ hc),
      ih fun a y hy => h (c::a) y (by rw [hy]; rfl)]
  | found u rest _ hu ih =>
    have hsame := h [] (u ++ rest) rfl
    rw [replaced_match hr hp hu,replaced_match hs hps (hsame ▸ hu),
      ih fun a y hy => h (u ++ a) y (by rw [hy,List.append_assoc])]

theorem head?_replaced (hr : Free r) (hp : Proper r) {c : Char} (hout : out ≠ [])
    (h : c ∈ (replaced r out x).head?) : c ∈ x.head? ∨ c ∈ out.head? := by
  induction x using first_induction hr hp with
  | nil =>
    rw [replaced_nil] at h
    cases h
  | copy d x hd _ =>
    rw [replaced_copy hr hd] at h
    exact Or.inl h
  | found u rest _ hu _ =>
    rw [replaced_match hr hp hu,List.head?_append_of_ne_nil _ hout] at h
    exact Or.inr h

/-- A prefix of the output is one of the text, or reaches into a replacement. -/
theorem prefix_replaced (hr : Free r) (hp : Proper r) {v z : List Char}
    (h : replaced r out x = v ++ z) : v <+: x ∨
      ∃ p y, replaced r out x = p ++ (out ++ y) ∧ p.length < v.length := by
  induction x using first_induction hr hp generalizing v with
  | nil =>
    rw [replaced_nil] at h
    rw [(List.append_eq_nil_iff.mp h.symm).1]
    exact Or.inl List.nil_prefix
  | copy c x hc ih =>
    rw [replaced_copy hr hc] at h ⊢
    cases v with
    | nil => exact Or.inl List.nil_prefix
    | cons d v =>
      obtain ⟨rfl,hrest⟩ := List.cons.inj h
      rcases ih hrest with hv | ⟨p,y,hy,hlt⟩
      · exact Or.inl (List.cons_prefix_cons.mpr ⟨rfl,hv⟩)
      · exact Or.inr ⟨c::p,y,by rw [hy]; rfl,Nat.succ_lt_succ hlt⟩
  | found u rest _ hu _ =>
    cases v with
    | nil => exact Or.inl List.nil_prefix
    | cons d v =>
      exact Or.inr ⟨[],replaced r out rest,replaced_match hr hp hu,Nat.zero_lt_succ _⟩

end Replaced

section Apart

/-- Stretches of the two kinds that share a character of a text are the same stretch. -/
def Apart (N : Char → Prop) (P Q : List Char → Prop) : Prop :=
  ∀ a u b a' u' b', P u → Q u' → a ++ (u ++ b) = a' ++ (u' ++ b') → (∀ c ∈ a ++ (u ++ b), N c) →
    a.length < a'.length + u'.length → a'.length < a.length + u.length → a = a' ∧ u = u'

variable {N : Char → Prop} {P Q : List Char → Prop}

theorem Apart.symm (h : Apart N P Q) : Apart N Q P := by
  intro a u b a' u' b' hu hu' heq hN hlt hlt'
  obtain ⟨ha,hu⟩ := h a' u' b' a u b hu' hu heq.symm (heq ▸ hN) hlt' hlt
  exact ⟨ha.symm,hu.symm⟩

/-- Stretches that begin at the same place. -/
theorem Apart.eq_of_append (h : Apart N P Q) {u b u' b' : List Char} (hu : P u) (hu' : Q u')
    (hne : u ≠ []) (hne' : u' ≠ []) (heq : u ++ b = u' ++ b') (hN : ∀ c ∈ u ++ b, N c) : u = u' :=
  (h [] u b [] u' b' hu hu' heq hN (by simpa using List.length_pos_iff.mpr hne')
    (by simpa using List.length_pos_iff.mpr hne)).2

end Apart

section Commute

/-- What is found at the beginning of a text stays so where other characters of the text or a
replacement follow. -/
def Steady (r : Re) (out : List Char) : Prop :=
  ∀ u rest rest', first r (u ++ rest) = some u →
    (∀ c ∈ rest'.head?, c ∈ rest.head? ∨ c ∈ out.head?) → first r (u ++ rest') = some u

/-- An expression whose matches can be replaced by `out`. -/
structure Replaceable (r : Re) (out : List Char) : Prop where
  free : Free r
  proper : Proper r
  steady : Steady r out

variable {r s : Re} {out x : List Char} {N : Char → Prop}

theorem Replaceable.ne_nil (hr : Replaceable r out) {u : List Char} (h : Spells r u) : u ≠ [] := by
  obtain ⟨g,hg⟩ := h
  exact hr.proper _ _ _ _ hg

/-- A replacement is copied, or replaced by itself. -/
theorem replaced_out (hr : Replaceable r out) (hout : out ≠ []) (ho : Apart N (Spells r) (· = out))
    {y : List Char} (hN : ∀ c ∈ out ++ y, N c) :
    replaced r out (out ++ y) = out ++ replaced r out y := by
  cases h : first r (out ++ y) with
  | some u =>
    obtain ⟨rest,heq,hu⟩ := spells_of_first hr.free h
    have hwhole : u = out := (ho.symm.eq_of_append rfl hu hout (hr.ne_nil hu) heq hN).symm
    exact replaced_match hr.free hr.proper (hwhole ▸ h)
  | none =>
    refine replaced_append hr.free fun a c w hw => ?_
    by_contra hne
    obtain ⟨u,hu⟩ := Option.ne_none_iff_exists'.mp hne
    obtain ⟨rest,heq,hspells⟩ := spells_of_first hr.free hu
    have htext : out ++ y = a ++ (u ++ rest) := by rw [hw,List.append_assoc,heq]
    have hlt : a.length < out.length := by
      rw [hw,List.length_append,List.length_cons]
      omega
    have hpos : 0 < a.length + u.length := by
      have := List.length_pos_iff.mpr (hr.ne_nil hspells)
      omega
    obtain ⟨ha,hwhole⟩ := ho.symm [] out y a u rest rfl hspells htext hN hpos (by simpa using hlt)
    rw [← ha,List.nil_append] at hw
    rw [← hw,h] at hu
    cases hu

/-- No match reaches into a replacement. -/
theorem replaced_around (hr : Replaceable r out) (hout : out ≠ [])
    (ho : Apart N (Spells r) (· = out)) {l y : List Char} (hN : ∀ c ∈ l ++ (out ++ y), N c) :
    replaced r out (l ++ (out ++ y)) = replaced r out l ++ (out ++ replaced r out y) := by
  induction l using first_induction hr.free hr.proper with
  | nil =>
    rw [replaced_nil,List.nil_append,List.nil_append]
    exact replaced_out hr hout ho hN
  | copy c l hc ih =>
    have hcopy : first r (c::(l ++ (out ++ y))) = none := by
      by_contra hne
      obtain ⟨u,hu⟩ := Option.ne_none_iff_exists'.mp hne
      obtain ⟨z,heq,hspells⟩ := spells_of_first hr.free hu
      have hpos := List.length_pos_iff.mpr (hr.ne_nil hspells)
      rcases Nat.lt_or_ge (c::l).length u.length with hlt | hle
      · have hab := ho [] u z (c::l) out y hspells rfl heq.symm (heq ▸ hN)
          (by rw [List.length_nil,List.length_cons]; omega) (by rw [List.length_nil]; omega)
        exact List.cons_ne_nil c l hab.1.symm
      · obtain ⟨l',hl⟩ := List.prefix_of_prefix_length_le (List.prefix_append u z)
          (heq ▸ List.prefix_append (c::l) (out ++ y)) hle
        exact first_ne_none hr.free hspells l' (hl ▸ hc)
    rw [List.cons_append,replaced_copy hr.free hcopy,replaced_copy hr.free hc,
      ih fun d hd => hN d (List.mem_cons_of_mem c hd)]
    rfl
  | found u l _ hu ih =>
    have hfound : first r (u ++ (l ++ (out ++ y))) = some u := by
      refine hr.steady u l _ hu fun c hc => ?_
      cases l with
      | nil =>
        rw [List.nil_append,List.head?_append_of_ne_nil _ hout] at hc
        exact Or.inr hc
      | cons d l => exact Or.inl hc
    rw [List.append_assoc,replaced_match hr.free hr.proper hfound,
      replaced_match hr.free hr.proper hu,ih fun d hd => hN d (by
        rw [List.append_assoc]
        exact List.mem_append_right u hd),List.append_assoc]

/-- A stretch of another kind is copied where nothing is found at its beginning. -/
theorem replaced_other (hr : Replaceable r out)
    (hrs : Apart N (Spells r) (Spells s)) {u rest : List Char} (hu : Spells s u)
    (hnone : first r (u ++ rest) = none) (hN : ∀ c ∈ u ++ rest, N c) :
    replaced r out (u ++ rest) = u ++ replaced r out rest := by
  refine replaced_append hr.free fun a c w hw => ?_
  by_contra hne
  obtain ⟨v,hv⟩ := Option.ne_none_iff_exists'.mp hne
  obtain ⟨rest',heq,hspells⟩ := spells_of_first hr.free hv
  have htext : u ++ rest = a ++ (v ++ rest') := by rw [hw,List.append_assoc,heq]
  have hlt : a.length < u.length := by
    rw [hw,List.length_append,List.length_cons]
    omega
  have hpos : 0 < a.length + v.length := by
    have := List.length_pos_iff.mpr (hr.ne_nil hspells)
    omega
  obtain ⟨ha,-⟩ := hrs.symm [] u rest a v rest' hu hspells htext hN hpos (by simpa using hlt)
  rw [← ha,List.nil_append] at hw
  rw [← hw,hnone] at hv
  cases hv

theorem forall_replaced (hr : Replaceable r out) (hNout : ∀ c ∈ out, N c) (hN : ∀ c ∈ x, N c) :
    ∀ c ∈ replaced r out x, N c := by
  induction x using first_induction hr.free hr.proper with
  | nil =>
    rw [replaced_nil]
    exact hN
  | copy c x hc ih =>
    rw [List.forall_mem_cons] at hN
    rw [replaced_copy hr.free hc]
    exact List.forall_mem_cons.mpr ⟨hN.1,ih hN.2⟩
  | found u rest _ hu ih =>
    rw [List.forall_mem_append] at hN
    rw [replaced_match hr.free hr.proper hu]
    exact List.forall_mem_append.mpr ⟨hNout,ih hN.2⟩

/-- Two replacements one after the other are one of both. -/
theorem replaced_replaced (hr : Replaceable r out) (hs : Replaceable s out) (hout : out ≠ [])
    (hNout : ∀ c ∈ out, N c) (hrs : Apart N (Spells r) (Spells s))
    (ho : Apart N (Spells s) (· = out)) (hN : ∀ c ∈ x, N c) :
    replaced s out (replaced r out x) = replaced (.alt r s) out x := by
  have hfree : Free (.alt r s) := ⟨hr.free,hs.free⟩
  have hproper : Proper (.alt r s) := fun b t rest g h => h.elim (hr.proper b t rest g)
    (hs.proper b t rest g)
  induction x using first_induction hfree hproper with
  | nil => rw [replaced_nil,replaced_nil,replaced_nil]
  | copy c x hc ih =>
    rw [List.forall_mem_cons] at hN
    have hnone := hc
    rw [first_alt,Option.or_eq_none_iff] at hnone
    rw [replaced_copy hfree hc,replaced_copy hr.free hnone.1,← ih hN.2]
    refine replaced_copy hs.free ?_
    -- what would be found now was there before, or reaches into a replacement
    by_contra hne
    obtain ⟨u,hu⟩ := Option.ne_none_iff_exists'.mp hne
    obtain ⟨z,heq,hspells⟩ := spells_of_first hs.free hu
    cases u with
    | nil => exact hs.ne_nil hspells rfl
    | cons d v =>
      obtain ⟨rfl,hv⟩ := List.cons.inj heq
      have hv : replaced r out x = v ++ z := hv
      rcases prefix_replaced hr.free hr.proper hv with ⟨rest,hrest⟩ | ⟨p,y,hy,hlt⟩
      · refine first_ne_none hs.free hspells rest ?_
        rw [List.cons_append,hrest]
        exact hnone.2
      · have htext : [] ++ ((c::v) ++ z) = (c::p) ++ (out ++ y) := by
          rw [List.nil_append,List.cons_append,List.cons_append,← hv,hy]
        have hall : ∀ d ∈ [] ++ ((c::v) ++ z), N d := by
          show ∀ d ∈ c::(v ++ z), N d
          rw [← hv]
          exact List.forall_mem_cons.mpr ⟨hN.1,forall_replaced hr hNout hN.2⟩
        have hle : (c::p).length < ([] : List Char).length + (c::v).length := by
          rw [List.length_nil,Nat.zero_add]
          exact Nat.succ_lt_succ hlt
        have hpos : ([] : List Char).length < (c::p).length + out.length := by
          rw [List.length_nil,List.length_cons]
          omega
        exact absurd (ho [] (c::v) z (c::p) out y hspells rfl htext hall hpos hle).1
          (List.cons_ne_nil c p).symm
  | found u rest hne hu ih =>
    have hrest : ∀ c ∈ rest, N c := fun c hc => hN c (List.mem_append_right _ hc)
    rw [replaced_match hfree hproper hu,← ih hrest]
    rw [first_alt,Option.or_eq_some_iff] at hu
    rcases hu with hu | ⟨hnone,hu⟩
    · rw [replaced_match hr.free hr.proper hu]
      have hnext := forall_replaced hr hNout hrest
      exact replaced_out hs hout ho (List.forall_mem_append.mpr ⟨hNout,hnext⟩)
    · obtain ⟨_,-,hspells⟩ := spells_of_first hs.free hu
      rw [replaced_other hr hrs hspells hnone hN]
      refine replaced_match hs.free hs.proper (hs.steady u rest _ hu fun c hc => ?_)
      exact head?_replaced hr.free hr.proper hout hc

/-- Two replacements commute where the stretches they replace are apart. -/
theorem replaced_comm (hr : Replaceable r out) (hs : Replaceable s out) (hout : out ≠ [])
    (hNout : ∀ c ∈ out, N c) (hrs : Apart N (Spells r) (Spells s))
    (hro : Apart N (Spells r) (· = out)) (hso : Apart N (Spells s) (· = out))
    (hN : ∀ c ∈ x, N c) :
    replaced s out (replaced r out x) = replaced r out (replaced s out x) := by
  have hproper : ∀ {r s : Re}, Proper r → Proper s → Proper (.alt r s) :=
    fun hr hs b t rest g h => h.elim (hr b t rest g) (hs b t rest g)
  rw [replaced_replaced hr hs hout hNout hrs hso hN,
    replaced_replaced hs hr hout hNout hrs.symm hro hN]
  refine replaced_congr ⟨hr.free,hs.free⟩ (hproper hr.proper hs.proper) ⟨hs.free,hr.free⟩
    (hproper hs.proper hr.proper) fun a y hy => ?_
  rw [first_alt,first_alt]
  cases hu : first r y with
  | none => rw [Option.none_or,Option.or_none]
  | some u =>
    cases hv : first s y with
    | none => rfl
    | some v =>
      obtain ⟨b,hb,hsu⟩ := spells_of_first hr.free hu
      obtain ⟨b',hb',hsv⟩ := spells_of_first hs.free hv
      have heq : u = v := hrs.eq_of_append hsu hsv (hr.ne_nil hsu) (hs.ne_nil hsv)
        (hb.symm.trans hb') fun c hc => hN c (by rw [hy,hb]; exact List.mem_append_right _ hc)
      rw [heq]

end Commute

end Regex
end Dataspoke
