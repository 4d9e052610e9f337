import Dataspoke.ChartGrain
import Mathlib.Data.List.Pairwise

/-!
# The windows of a chart

A bucket label names an hour, a day or a week in UTC. Labels are compared as text, so the order
of the points is the order of the windows where every label has a year of four digits.
-/

namespace Dataspoke
namespace Charts

open Python Calendar DecimalText LastPerKey

/-- The window of an instant: the hour, the day, or the week from Monday. -/
def window : ChartGrain → ℤ → ℤ
  | .hourly, t => t/msPerHour
  | .daily, t => dayOf t
  | .weekly, t => (dayOf t + 3)/7

/-- The Monday of a week. -/
def mondayOf (t : ℤ) : ℤ := 7*((dayOf t + 3)/7) - 3

def label (grain : ChartGrain) (t : ℤ) : Str := bucketOf grain (utcParts t)

def dateText (d : ℤ) : Str := ymd (yearFromDay d) (monthFromDay d) (dateFromDay d)

theorem window_mono (grain : ChartGrain) {s t : ℤ} (h : s ≤ t) : window grain s ≤ window grain t := by
  cases grain <;> simp only [window,dayOf,msPerHour,msPerDay] <;> omega

theorem numeral_eq {n : ℤ} (h : 0 ≤ n) : numeral n = Nat.toDigits 10 n.toNat :=
  if_neg (by omega)

theorem pad_eq_pad {n : ℤ} (h : 0 ≤ n) : pad n = DecimalText.pad n.toNat := by
  rw [pad,numeral_eq h,DecimalText.pad]

theorem length_pad {n : ℤ} (h : 0 ≤ n ∧ n < 100) : (pad n).length = 2 := by
  rw [pad_eq_pad h.1]
  exact DecimalText.length_pad (by omega)

theorem pad_lt {m n : ℤ} (h : m < n) (hm : 0 ≤ m) (hn : n < 100) : pad m < pad n := by
  rw [pad_eq_pad hm,pad_eq_pad (by omega)]
  exact DecimalText.pad_lt (by omega) (by omega)

theorem length_numeral {y : ℤ} (h : 1000 ≤ y ∧ y ≤ 9999) : (numeral y).length = 4 := by
  rw [numeral_eq (by omega)]
  have hle : (Nat.toDigits 10 y.toNat).length ≤ 4 :=
    (Nat.length_toDigits_le_iff (by decide) (by decide)).mpr (by omega)
  have hnot : ¬ (Nat.toDigits 10 y.toNat).length ≤ 3 := fun hle =>
    absurd ((Nat.length_toDigits_le_iff (by decide) (by decide)).mp hle) (by omega)
  omega

theorem length_dateText {d : ℤ} (h : 1000 ≤ yearFromDay d ∧ yearFromDay d ≤ 9999) :
    (dateText d).length = 10 := by
  have hmonth := (monthFromDay_spec d).1
  have hdate := dateFromDay_range d
  have hm : (pad (monthFromDay d + 1)).length = 2 := length_pad (by omega)
  have hd : (pad (dateFromDay d)).length = 2 := length_pad (by omega)
  simp only [dateText,ymd,List.length_append,List.length_cons,length_numeral h,hm,hd]

theorem dateText_lt {d d' : ℤ} (h : d < d') (hy : 1000 ≤ yearFromDay d)
    (hy' : yearFromDay d' ≤ 9999) : dateText d < dateText d' := by
  have hyear := yearFromDay_mono h.le
  have hmonth := (monthFromDay_spec d).1
  have hmonth' := (monthFromDay_spec d').1
  have hdate := dateFromDay_range d
  have hdate' := dateFromDay_range d'
  have hlen : (numeral (yearFromDay d)).length = (numeral (yearFromDay d')).length := by
    rw [length_numeral (by omega),length_numeral (by omega)]
  have hlen' : (pad (monthFromDay d + 1)).length = (pad (monthFromDay d' + 1)).length := by
    rw [length_pad (by omega),length_pad (by omega)]
  unfold dateText ymd
  rw [List.append_assoc,List.append_assoc]
  rcases fields_lt h with hlt | ⟨heq,hlt | ⟨heq',hlt⟩⟩
  · refine append_lt hlen ?_ _ _
    rw [numeral_eq (by omega),numeral_eq (by omega)] at hlen ⊢
    exact toDigits_lt hlen (by omega)
  · rw [heq]
    refine List.append_left_lt (List.cons_lt_cons_iff.mpr (Or.inr ⟨rfl,?_⟩))
    exact append_lt hlen' (pad_lt (by omega) (by omega) (by omega)) _ _
  · rw [heq,heq']
    refine List.append_left_lt (List.cons_lt_cons_iff.mpr (Or.inr ⟨rfl,?_⟩))
    refine List.append_left_lt (List.cons_lt_cons_iff.mpr (Or.inr ⟨rfl,?_⟩))
    exact pad_lt hlt (by omega) (by omega)

theorem label_hourly (t : ℤ) : label .hourly t =
    dateText (dayOf t) ++ (' ' :: pad (t/msPerHour%24) ++ ":00".toList) := by
  simp only [label,bucketOf,utcParts,dateText,List.append_assoc]

theorem label_daily (t : ℤ) : label .daily t = dateText (dayOf t) := rfl

theorem label_weekly {t : ℤ} (h : 1000 ≤ yearFromDay (dayOf t)) :
    label .weekly t = dateText (mondayOf t) := by
  have hyear : ¬ (0 ≤ yearFromDay (dayOf t) ∧ yearFromDay (dayOf t) ≤ 99) := by omega
  have hmonday : dateUTC (yearFromDay (dayOf t)) (monthFromDay (dayOf t))
      (dateFromDay (dayOf t) - (weekDay (dayOf t) + 6)%7) = mondayOf t := by
    rw [dateUTC,if_neg hyear,makeDay_fields]
    unfold weekDay mondayOf
    omega
  simp only [label,bucketOf,utcParts,hmonday,dateText]

theorem label_eq {grain : ChartGrain} {s t : ℤ} (h : window grain s = window grain t)
    (hs : 1000 ≤ yearFromDay (dayOf s)) (ht : 1000 ≤ yearFromDay (dayOf t)) :
    label grain s = label grain t := by
  cases grain with
  | hourly =>
    have hday : dayOf s = dayOf t := by
      simp only [window,msPerHour] at h
      unfold dayOf msPerDay
      omega
    have hhour : s/msPerHour = t/msPerHour := h
    rw [label_hourly,label_hourly,hday,hhour]
  | daily =>
    have hday : dayOf s = dayOf t := h
    rw [label_daily,label_daily,hday]
  | weekly =>
    have hweek : (dayOf s + 3)/7 = (dayOf t + 3)/7 := h
    rw [label_weekly hs,label_weekly ht,mondayOf,mondayOf,hweek]

theorem mondayOf_le (t : ℤ) : mondayOf t ≤ dayOf t ∧ dayOf t ≤ mondayOf t + 6 := by
  unfold mondayOf
  omega

/-- A week of the year 1000 that starts before it starts on the same Monday. -/
theorem mondayOf_eq {t : ℤ} (h : 1000 ≤ yearFromDay (dayOf t))
    (hmonday : yearFromDay (mondayOf t) < 1000) : mondayOf t = -354287 := by
  have hday : dayFromYear 1000 ≤ dayOf t := (dayFromYear_le h).trans (yearFromDay_spec _).1
  have hbefore : mondayOf t < dayFromYear 1000 :=
    (yearFromDay_spec _).2.trans_le (dayFromYear_le hmonday)
  have hstart : dayFromYear 1000 = -354285 := rfl
  have hrange := mondayOf_le t
  unfold mondayOf at *
  omega

theorem dateText_999 : dateText (-354287) = "999-12-30".toList := by decide

/-- The year of a text of a date without its last digit. -/
theorem numeral_split {y : ℤ} (h : 10 ≤ y) :
    numeral y = Nat.toDigits 10 (y.toNat/10) ++ [(y.toNat%10).digitChar] := by
  rw [numeral_eq (by omega)]
  exact Nat.toDigits_of_base_le (by decide) (by omega)

/-- A label without a fourth digit in its year comes after most of the others. -/
theorem dateText_lt_999 {d : ℤ} (h : 1000 ≤ yearFromDay d) (h' : yearFromDay d < 9990) :
    dateText d < dateText (-354287) := by
  have hlen := length_numeral (y:=yearFromDay d) (by omega)
  rw [numeral_split (by omega),List.length_append] at hlen
  have hnine : Nat.toDigits 10 999 = ['9','9','9'] := rfl
  have hdigits : Nat.toDigits 10 ((yearFromDay d).toNat/10) < Nat.toDigits 10 999 := by
    refine toDigits_lt ?_ (by omega)
    rw [hnine]
    exact Nat.succ.inj hlen
  rw [dateText_999]
  show _ < Nat.toDigits 10 999 ++ "-12-30".toList
  unfold dateText ymd
  rw [numeral_split (by omega),List.append_assoc,List.append_assoc]
  exact append_lt (by rw [hnine]; exact Nat.succ.inj hlen) hdigits _ _

theorem dateText_999_lt {d : ℤ} (h : 9990 ≤ yearFromDay d) (h' : yearFromDay d ≤ 9999) :
    dateText (-354287) < dateText d := by
  have hyear : (yearFromDay d).toNat/10 = 999 := by omega
  have hdigit : '-' < ((yearFromDay d).toNat%10).digitChar := by
    have hall : ∀ n < 10, '-' < n.digitChar := by decide
    exact hall _ (Nat.mod_lt _ (by decide))
  rw [dateText_999]
  show Nat.toDigits 10 999 ++ "-12-30".toList < _
  unfold dateText ymd
  rw [numeral_split (by omega),hyear,List.append_assoc,List.append_assoc]
  exact List.append_left_lt (List.cons_lt_cons_iff.mpr (Or.inl hdigit))

/-- A later window has a later label, where the label has a year of four digits. -/
theorem label_lt {grain : ChartGrain} {s t : ℤ} (h : window grain s < window grain t)
    (hs : 1000 ≤ yearFromDay (dayOf s)) (ht : yearFromDay (dayOf t) ≤ 9999)
    (hweek : grain = .weekly → 1000 ≤ yearFromDay (mondayOf s)) : label grain s < label grain t := by
  have hst : s < t := by
    by_contra hle
    exact absurd (window_mono grain (not_lt.mp hle)) (not_le.mpr h)
  have hday : dayOf s ≤ dayOf t := by
    unfold dayOf msPerDay
    omega
  have hyear := yearFromDay_mono hday
  cases grain with
  | hourly =>
    rw [label_hourly,label_hourly]
    by_cases hsame : dayOf s = dayOf t
    · have hhour : s/msPerHour%24 < t/msPerHour%24 := by
        simp only [window,dayOf,msPerHour,msPerDay] at *
        omega
      rw [hsame]
      refine List.append_left_lt (List.cons_lt_cons_iff.mpr (Or.inr ⟨rfl,?_⟩))
      have hlen : (pad (s/msPerHour%24)).length = (pad (t/msPerHour%24)).length := by
        rw [length_pad (by omega),length_pad (by omega)]
      exact append_lt hlen (pad_lt hhour (by omega) (by omega)) _ _
    · have hlt : dayOf s < dayOf t := lt_of_le_of_ne hday hsame
      have hlen : (dateText (dayOf s)).length = (dateText (dayOf t)).length := by
        rw [length_dateText (by omega),length_dateText (by omega)]
      exact append_lt hlen (dateText_lt hlt hs ht) _ _
  | daily => exact dateText_lt h hs ht
  | weekly =>
    have hmonday : mondayOf s < mondayOf t := by
      simp only [window] at h
      unfold mondayOf
      omega
    rw [label_weekly hs,label_weekly (by omega)]
    exact dateText_lt hmonday (hweek rfl) ((yearFromDay_mono (mondayOf_le t).1).trans ht)

section Points

variable {T V : Type} {host : Host} {grain : ChartGrain} {timeOf : T → Str}
  {valuesOf : T → List (Str × V)} {rows : List T}

/-- The instant of a row, none if it is invalid. -/
def instantOf (host : Host) (timeOf : T → Str) (row : T) : Option ℤ :=
  if timeOf row = [] then none else host.date (timeOf row)

def measured (host : Host) (timeOf : T → Str) (rows : List T) : List (ℤ × T) :=
  rows.filterMap fun row => (instantOf host timeOf row).map fun t => (t,row)

def latest (grain : ChartGrain) (ms : List (ℤ × T)) : List (Str × ℤ × T) :=
  sorted (collapse Prod.fst (fun m => label grain m.1) ms)

def pointOf (valuesOf : T → List (Str × V)) (entry : Str × ℤ × T) : GrainPoint V :=
  grainPoint valuesOf entry.1 entry.2.1 entry.2.2

theorem keepLatest_eq (latest : List (Str × ℤ × T)) (row : T) :
    keepLatest host grain .utc timeOf latest row =
      match instantOf host timeOf row with
      | none => latest
      | some t => hold Prod.fst (fun m => label grain m.1) latest (t,row) := by
  unfold keepLatest grainBucket tzParts instantOf
  dsimp only
  by_cases hiso : timeOf row = []
  · rw [if_pos hiso,if_pos hiso]
    rfl
  · rw [if_neg hiso,if_neg hiso]
    cases host.date (timeOf row) with
    | none => rfl
    | some t =>
      have hlabel : bucketOf grain (utcParts t) = label grain t := rfl
      unfold hold
      simp only [Option.map_some,hlabel]
      cases get? (label grain t) latest <;> rfl

/-- The loop over the rows, as the last item of each label. -/
theorem toGrainPoints_eq (rows : List T) : toGrainPoints host grain .utc timeOf valuesOf rows =
    (latest grain (measured host timeOf rows)).map (pointOf valuesOf) := by
  have hloop : ∀ (rows : List T) (held : List (Str × ℤ × T)),
      rows.foldl (keepLatest host grain .utc timeOf) held =
        (measured host timeOf rows).foldl (hold Prod.fst fun m => label grain m.1) held := by
    intro rows
    induction rows with
    | nil => exact fun _ => rfl
    | cons row rows ih =>
      intro held
      rw [List.foldl_cons,keepLatest_eq,ih]
      unfold measured
      cases hrow : instantOf host timeOf row with
      | none => rw [List.filterMap_cons_none (by rw [hrow]; rfl)]
      | some t => rw [List.filterMap_cons_some (b:=(t,row)) (by rw [hrow]; rfl),List.foldl_cons]
  unfold toGrainPoints
  rw [hloop]
  rfl

theorem mem_latest {ms : List (ℤ × T)} {entry : Str × ℤ × T} (h : entry ∈ latest grain ms) :
    IsLast Prod.fst (ms.filter fun m => label grain m.1 = entry.1) entry.2 :=
  latestOf_isLast (mem_collapse.mp ((List.perm_insertionSort _ _).subset h))

theorem latest_pairwise (ms : List (ℤ × T)) :
    (latest grain ms).Pairwise fun a b => a.1 < b.1 :=
  sorted_pairwise (nodup_collapse ms)

theorem mem_latest_label {ms : List (ℤ × T)} {entry : Str × ℤ × T} (h : entry ∈ latest grain ms) :
    entry.2 ∈ ms ∧ label grain entry.2.1 = entry.1 := by
  obtain ⟨hmem,hlabel⟩ := List.mem_filter.mp (mem_latest h).mem
  exact ⟨hmem,of_decide_eq_true hlabel⟩

theorem exists_latest {ms : List (ℤ × T)} {m : ℤ × T} (h : m ∈ ms) :
    ∃ entry ∈ latest grain ms, entry.1 = label grain m.1 := by
  have hmem : m ∈ ms.filter fun x => label grain x.1 = label grain m.1 :=
    List.mem_filter.mpr ⟨h,decide_eq_true rfl⟩
  have hsome : ∃ k, latestOf Prod.fst (ms.filter fun x => label grain x.1 = label grain m.1) =
      some k := latestOf_isSome hmem
  obtain ⟨k,hk⟩ := hsome
  have hentry : (label grain m.1,k) ∈ collapse Prod.fst (fun m => label grain m.1) ms :=
    mem_collapse.mpr hk
  exact ⟨_,(List.perm_insertionSort _ _).symm.subset hentry,rfl⟩

/-- One point for each window of the rows, made of the last measurement of the window, with the
points ascending both as labels and as instants. -/
structure OnePerWindow (grain : ChartGrain) (valuesOf : T → List (Str × V)) (ms : List (ℤ × T))
    (points : List (GrainPoint V)) : Prop where
  kept : ∃ kept : List (ℤ × T),
    points = kept.map (fun k => grainPoint valuesOf (label grain k.1) k.1 k.2) ∧
    (kept.map fun k => window grain k.1).Nodup ∧
    (∀ m ∈ ms, ∃ k ∈ kept, window grain k.1 = window grain m.1) ∧
    ∀ k ∈ kept, IsLast Prod.fst (ms.filter fun m => window grain m.1 = window grain k.1) k
  labels : points.Pairwise fun p q => p.date < q.date
  instants : points.Pairwise fun p q => p.timestamp < q.timestamp

/-- The year of every valid row has four digits. -/
def FourDigits (ms : List (ℤ × T)) : Prop :=
  ∀ m ∈ ms, 1000 ≤ yearFromDay (dayOf m.1) ∧ yearFromDay (dayOf m.1) ≤ 9999

/-- A week is labelled by a Monday of the year 999, whose text sorts after that of another. -/
def ShortYear (grain : ChartGrain) (ms : List (ℤ × T)) : Prop :=
  grain = .weekly ∧ (∃ m ∈ ms, yearFromDay (mondayOf m.1) < 1000) ∧
    ∃ m ∈ ms, 1000 ≤ yearFromDay (mondayOf m.1) ∧ yearFromDay (mondayOf m.1) < 9990

/-- The labels of the rows are ordered as their windows. -/
def Ordered (grain : ChartGrain) (ms : List (ℤ × T)) : Prop :=
  ∀ a ∈ ms, ∀ b ∈ ms, window grain a.1 < window grain b.1 → label grain a.1 < label grain b.1

theorem ordered_of_not {ms : List (ℤ × T)} (hyears : FourDigits ms) (h : ¬ ShortYear grain ms) :
    Ordered grain ms := by
  intro a ha b hb hlt
  by_cases hweek : grain = .weekly → 1000 ≤ yearFromDay (mondayOf a.1)
  · exact label_lt hlt (hyears a ha).1 (hyears b hb).2 hweek
  obtain ⟨rfl,hshort⟩ := Classical.not_imp.mp hweek
  have hshort : yearFromDay (mondayOf a.1) < 1000 := not_le.mp hshort
  have hmonday := mondayOf_eq (hyears a ha).1 hshort
  have hlater : mondayOf a.1 < mondayOf b.1 := by
    simp only [window] at hlt
    unfold mondayOf
    omega
  have hyear : 1000 ≤ yearFromDay (mondayOf b.1) := by
    by_contra hno
    have := mondayOf_eq (hyears b hb).1 (not_le.mp hno)
    omega
  have hlate : 9990 ≤ yearFromDay (mondayOf b.1) := by
    by_contra hno
    exact h ⟨rfl,⟨a,ha,hshort⟩,b,hb,hyear,not_le.mp hno⟩
  have hlast := (yearFromDay_mono (mondayOf_le b.1).1).trans (hyears b hb).2
  rw [label_weekly (hyears a ha).1,label_weekly (hyears b hb).1,hmonday]
  exact dateText_999_lt hlate hlast

/-- Where labels are ordered as windows, they name them. -/
theorem Ordered.label_iff {ms : List (ℤ × T)} (h : Ordered grain ms) (hyears : FourDigits ms)
    {a b : ℤ × T} (ha : a ∈ ms) (hb : b ∈ ms) :
    label grain a.1 = label grain b.1 ↔ window grain a.1 = window grain b.1 := by
  constructor
  · intro heq
    rcases lt_trichotomy (window grain a.1) (window grain b.1) with hlt | hw | hlt
    · exact absurd heq (h a ha b hb hlt).ne
    · exact hw
    · exact absurd heq.symm (h b hb a ha hlt).ne
  · exact fun hw => label_eq hw (hyears a ha).1 (hyears b hb).1

theorem Ordered.window_lt {ms : List (ℤ × T)} (h : Ordered grain ms) (hyears : FourDigits ms)
    {a b : ℤ × T} (ha : a ∈ ms) (hb : b ∈ ms) (hlt : label grain a.1 < label grain b.1) :
    window grain a.1 < window grain b.1 := by
  rcases lt_trichotomy (window grain a.1) (window grain b.1) with hw | hw | hw
  · exact hw
  · exact absurd ((h.label_iff hyears ha hb).mpr hw) hlt.ne
  · exact absurd (h b hb a ha hw) hlt.asymm

theorem onePerWindow_of_ordered {ms : List (ℤ × T)} (h : Ordered grain ms)
    (hyears : FourDigits ms) :
    OnePerWindow grain valuesOf ms ((latest grain ms).map (pointOf valuesOf)) := by
  have hlt : (latest grain ms).Pairwise fun a b => a.1 < b.1 := latest_pairwise ms
  have hinstants : (latest grain ms).Pairwise fun a b =>
      window grain a.2.1 < window grain b.2.1 := by
    refine hlt.imp_of_mem fun {a b} ha hb hab => ?_
    obtain ⟨hma,hla⟩ := mem_latest_label ha
    obtain ⟨hmb,hlb⟩ := mem_latest_label hb
    rw [← hla,← hlb] at hab
    exact h.window_lt hyears hma hmb hab
  refine ⟨⟨(latest grain ms).map Prod.snd,?_,?_,?_,?_⟩,?_,?_⟩
  · rw [List.map_map]
    refine List.map_congr_left fun entry hentry => ?_
    simp only [pointOf,Function.comp,(mem_latest_label hentry).2]
  · rw [List.map_map]
    exact List.pairwise_map.mpr (hinstants.imp fun hlt => hlt.ne)
  · intro m hm
    have hentries : ∃ entry ∈ latest grain ms, entry.1 = label grain m.1 := exists_latest hm
    obtain ⟨entry,hentry,hlabel⟩ := hentries
    obtain ⟨hmem,hentry'⟩ := mem_latest_label hentry
    refine ⟨entry.2,List.mem_map_of_mem hentry,?_⟩
    exact (h.label_iff hyears hmem hm).mp (hentry'.trans hlabel)
  · intro k hk
    obtain ⟨entry,hentry,rfl⟩ := List.mem_map.mp hk
    obtain ⟨hmem,hlabel⟩ := mem_latest_label hentry
    have hsame : (ms.filter fun m => window grain m.1 = window grain entry.2.1) =
        ms.filter fun m => label grain m.1 = entry.1 := by
      refine List.filter_congr fun m hm => decide_eq_decide.mpr ?_
      rw [← hlabel]
      exact (h.label_iff hyears hm hmem).symm
    rw [hsame]
    exact mem_latest hentry
  · exact List.pairwise_map.mpr hlt
  · refine List.pairwise_map.mpr (hinstants.imp fun {a b} hw => ?_)
    by_contra hle
    exact absurd (window_mono grain (not_lt.mp hle)) (not_le.mpr hw)

theorem either_of_pairwise {α : Type} {R : α → α → Prop} {l : List α} (h : l.Pairwise R) {x y : α}
    (hx : x ∈ l) (hy : y ∈ l) (hne : x ≠ y) : R x y ∨ R y x := by
  have hsymm : Std.Symm fun x y => R x y ∨ R y x := ⟨fun _ _ h => h.symm⟩
  have hpair : l.Pairwise fun x y => R x y ∨ R y x := h.imp Or.inl
  exact hpair.forall hx hy hne

/-- The week of the year 999 is before the other one, and its label after. -/
theorem label_short_lt {s t : ℤ} (hs : 1000 ≤ yearFromDay (dayOf s))
    (ht : 1000 ≤ yearFromDay (dayOf t)) (hshort : yearFromDay (mondayOf s) < 1000)
    (hyear : 1000 ≤ yearFromDay (mondayOf t)) (hearly : yearFromDay (mondayOf t) < 9990) :
    window .weekly s < window .weekly t ∧ label .weekly t < label .weekly s := by
  constructor
  · have hmonday : mondayOf s < mondayOf t := by
      by_contra hle
      have := yearFromDay_mono (not_lt.mp hle)
      omega
    show (dayOf s + 3)/7 < (dayOf t + 3)/7
    unfold mondayOf at hmonday
    omega
  · rw [label_weekly hs,label_weekly ht,mondayOf_eq hs hshort]
    exact dateText_lt_999 hyear hearly

/-- With such a week the points are not ascending both ways. -/
theorem not_onePerWindow {ms : List (ℤ × T)} (hyears : FourDigits ms) (h : ShortYear grain ms)
    (points : List (GrainPoint V)) : ¬ OnePerWindow grain valuesOf ms points := by
  obtain ⟨rfl,⟨a,ha,hshort⟩,b,hb,hyear,hearly⟩ := h
  intro hone
  obtain ⟨kept,rfl,-,hcovers,hlast⟩ := hone.kept
  have hmem : ∀ k ∈ kept, k ∈ ms := fun k hk => (List.mem_filter.mp (hlast k hk).mem).1
  have hlabels := List.pairwise_map.mp hone.labels
  have hinstants := List.pairwise_map.mp hone.instants
  obtain ⟨ka,hka,hwa⟩ := hcovers a ha
  obtain ⟨kb,hkb,hwb⟩ := hcovers b hb
  obtain ⟨hwindow,hlabel⟩ :=
    label_short_lt (hyears a ha).1 (hyears b hb).1 hshort hyear hearly
  rw [← label_eq hwa (hyears _ (hmem ka hka)).1 (hyears a ha).1,
    ← label_eq hwb (hyears _ (hmem kb hkb)).1 (hyears b hb).1] at hlabel
  rw [← hwa,← hwb] at hwindow
  have hinstant : ka.1 < kb.1 := by
    by_contra hle
    exact absurd (window_mono .weekly (not_lt.mp hle)) (not_le.mpr hwindow)
  have hne : ka ≠ kb := by
    rintro rfl
    exact lt_irrefl _ hinstant
  rcases either_of_pairwise (hlabels.and hinstants) hka hkb hne with h | h
  · exact lt_asymm hlabel h.1
  · exact lt_asymm hinstant h.2

/-- The points of rows with distinct instants do not depend on the order of the rows. -/
def OrderFree (host : Host) (grain : ChartGrain) (timeOf : T → Str)
    (valuesOf : T → List (Str × V)) (rows : List T) : Prop :=
  ((measured host timeOf rows).map Prod.fst).Nodup → ∀ rows', rows.Perm rows' →
    toGrainPoints host grain .utc timeOf valuesOf rows' =
      toGrainPoints host grain .utc timeOf valuesOf rows

theorem orderFree (host : Host) (grain : ChartGrain) (timeOf : T → Str)
    (valuesOf : T → List (Str × V)) (rows : List T) :
    OrderFree host grain timeOf valuesOf rows := by
  intro hn rows' hperm
  have hmeasured : (measured host timeOf rows).Perm (measured host timeOf rows') :=
    hperm.filterMap _
  rw [toGrainPoints_eq,toGrainPoints_eq,latest,latest,sorted_collapse_perm hmeasured hn]

/-- The points are as they should be unless a week is labelled by a Monday of the year 999 and
another by one before 9990. -/
theorem toGrainPoints_iff (host : Host) (grain : ChartGrain) (timeOf : T → Str)
    (valuesOf : T → List (Str × V)) (rows : List T)
    (hyears : FourDigits (measured host timeOf rows)) :
    OnePerWindow grain valuesOf (measured host timeOf rows)
        (toGrainPoints host grain .utc timeOf valuesOf rows) ∧
      OrderFree host grain timeOf valuesOf rows ↔
    ¬ ShortYear grain (measured host timeOf rows) := by
  constructor
  · intro h hshort
    exact not_onePerWindow hyears hshort _ h.1
  · intro hno
    refine ⟨?_,orderFree host grain timeOf valuesOf rows⟩
    rw [toGrainPoints_eq]
    exact onePerWindow_of_ordered (ordered_of_not hyears hno) hyears

def sampleHost : Host where
  date iso :=
    if iso = "1000-01-01".toList then some (-354285*msPerDay)
    else if iso = "1000-01-06".toList then some (-354280*msPerDay)
    else if iso = "2026-05-04".toList then some (20577*msPerDay)
    else none
  localParts := utcParts

def noValues (_ : Str) : List (Str × Unit) := []

/-- The week of 999-12-30 comes after the week of 1000-01-06. -/
theorem short_year_last : ¬ ∀ (host : Host) (grain : ChartGrain) (rows : List Str),
    FourDigits (measured host id rows) →
    OnePerWindow grain noValues (measured host id rows)
        (toGrainPoints host grain .utc id noValues rows) ∧
      OrderFree host grain id noValues rows := by
  intro hall
  have hyears : FourDigits (measured sampleHost id ["1000-01-01".toList,"1000-01-06".toList]) := by
    unfold FourDigits
    decide +kernel
  have hshort : ShortYear .weekly
      (measured sampleHost id ["1000-01-01".toList,"1000-01-06".toList]) := by
    unfold ShortYear
    decide +kernel
  exact not_onePerWindow hyears hshort _ (hall sampleHost .weekly _ hyears).1

theorem toGrainPoints_sample :
    OnePerWindow .weekly noValues
        (measured sampleHost id ["2026-05-04".toList,"never".toList,"1000-01-06".toList])
        (toGrainPoints sampleHost .weekly .utc id noValues
          ["2026-05-04".toList,"never".toList,"1000-01-06".toList]) ∧
      OrderFree sampleHost .weekly id noValues
        ["2026-05-04".toList,"never".toList,"1000-01-06".toList] := by
  refine (toGrainPoints_iff sampleHost .weekly id noValues _ ?_).mpr ?_
  · unfold FourDigits
    decide +kernel
  · unfold ShortYear
    decide +kernel

end Points

end Charts
end Dataspoke
