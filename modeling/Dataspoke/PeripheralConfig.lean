import Dataspoke.Interleave
import Dataspoke.Python

/-!
# Peripheral settings

`patch_peripheral_config` cut where it awaits the database, for calls on one row. The
settings are one JSON document that a call rewrites whole; only a call that bumps the
password version locks the row before it reads it. Statements see what is committed, and a
row that a transaction has written or locked stays locked until its end.
-/

namespace Dataspoke
namespace Peripheral

open Python Interleave Transition

inductive Value
  | null
  | bool (b : Bool)
  | int (n : ℤ)
  | str (s : Str)
  deriving DecidableEq

/-- The `settings` document: `kafka_sasl_password_version`, an integer where it is there,
and the other keys. -/
structure Settings where
  version : Option ℤ
  fields : List (Str × Value)
  deriving DecidableEq

structure Call where
  bump_kafka_sasl_password_version : Bool
  updates : List (Str × Option Value)

/-- The counter as the increment reads it. -/
def Settings.counter (settings : Settings) : ℤ := settings.version.getD 0

def mergeFields (base : List (Str × Value)) (updates : List (Str × Option Value)) :
    List (Str × Value) :=
  updates.foldl (fun merged u => u.2.elim merged fun v => setItem u.1 v merged) base

def merge (call : Call) (base : Settings) : Settings where
  version :=
    if call.bump_kafka_sasl_password_version then some (base.counter+1) else base.version
  fields := mergeFields base.fields call.updates

/-- The committed row, the transaction that holds its lock or has its key inserted, and the
calls committed so far, the latest first. -/
structure Shared where
  row : Option Settings
  lock : Option ℕ
  log : List Call

inductive Phase
  | start (call : Call)
  /-- There was no row. -/
  | absent (call : Call)
  /-- The insertion failed on the row of another transaction. -/
  | retry (call : Call)
  | selected (call : Call) (base : Settings)
  /-- Flushed, with an INSERT or UPDATE unless the merge changed nothing. -/
  | flushed (call : Call) (base : Settings) (written : Bool)
  | committed (call : Call)
  /-- Nothing to write. -/
  | returned
  | failed

def Shared.free (s : Shared) (i : ℕ) : Bool := s.lock = none || s.lock = some i

def Shared.acquire (s : Shared) (i : ℕ) : Shared := { s with lock := some i }

def Shared.release (s : Shared) (i : ℕ) : Shared :=
  if s.lock = some i then { s with lock := none } else s

variable (i : ℕ)

/-- `SELECT`, with `FOR UPDATE` where the call bumps; where there is no row, the first of
them leads to an INSERT. -/
def select (call : Call) (s : Shared) (orElse : Phase) : Option (Shared × Phase) :=
  match s.row with
  | none => some (s,orElse)
  | some base =>
    if call.bump_kafka_sasl_password_version then
      if s.free i then some (s.acquire i,.selected call base) else none
    else some (s,.selected call base)

def insert (call : Call) (s : Shared) : Option (Shared × Phase) :=
  if s.free i then
    match s.row with
    | none => some (s.acquire i,.flushed call ⟨none,[]⟩ true)
    | some _ => some (s,.retry call)
  else none

/-- The flush: an UPDATE waits for the row lock. -/
def flush (call : Call) (base : Settings) (s : Shared) : Option (Shared × Phase) :=
  if merge call base = base then some (s,.flushed call base false)
  else if s.free i then some (s.acquire i,.flushed call base true)
  else none

def commit (call : Call) (base : Settings) (written : Bool) (s : Shared) : Shared :=
  let s := s.release i
  { s with row := if written then some (merge call base) else s.row, log := call::s.log }

/-- One step of a call; where `fail`, the database raises and the transaction ends. -/
def patch_peripheral_config : Program Shared Phase Bool := fun i fail s p =>
  match p with
  | .committed _ | .returned | .failed => none
  | p =>
    if fail then some (s.release i,.failed)
    else
      match p with
      | .start call =>
        if call.updates = [] ∧ call.bump_kafka_sasl_password_version = false then
          some (s,.returned)
        else select i call s (.absent call)
      | .absent call => insert i call s
      | .retry call => select i call s .failed
      | .selected call base => flush i call base s
      | .flushed call base written => some (commit i call base written s,.committed call)
      | .committed _ | .returned | .failed => none

/-- The value that a call writes under a key, if it writes one. -/
def writes (call : Call) (key : Str) : Option Value := get? key (mergeFields [] call.updates)

theorem get?_mergeFields (base : List (Str × Value)) (updates : List (Str × Option Value))
    (key : Str) :
    get? key (mergeFields base updates) =
      (get? key (mergeFields [] updates)).or (get? key base) := by
  induction updates generalizing base with
  | nil => rfl
  | cons u updates ih =>
    obtain ⟨k,v⟩ := u
    cases v with
    | none => exact ih base
    | some v =>
      show get? key (mergeFields (setItem k v base) updates) =
        (get? key (mergeFields (setItem k v []) updates)).or (get? key base)
      rw [ih,ih (setItem k v []),get?_setItem,get?_setItem]
      by_cases hk : key = k <;> simp [hk,get?]

theorem get?_merge (call : Call) (base : Settings) (key : Str) :
    get? key (merge call base).fields = (writes call key).or (get? key base.fields) :=
  get?_mergeFields base.fields call.updates key

/-- The value of the latest committed call that wrote the key. -/
def lastWrite (log : List Call) (key : Str) : Option Value := log.findSome? (writes · key)

def bumps (log : List Call) : ℕ := log.countP (·.bump_kafka_sasl_password_version)

theorem lastWrite_cons (call : Call) (log : List Call) (key : Str) :
    lastWrite (call::log) key = (writes call key).or (lastWrite log key) := by
  rw [lastWrite,List.findSome?_cons]
  cases writes call key <;> rfl

/-- A key that no call of a longer log wrote, no call of the shorter one wrote. -/
theorem lastWrite_suffix {log log' : List Call} (h : log <:+ log') {key : Str}
    (hn : lastWrite log' key = none) : lastWrite log key = none := by
  rw [lastWrite,List.findSome?_eq_none_iff] at *
  exact fun call hc => hn call (h.subset hc)

theorem merge_eq_self {call : Call} {base : Settings} (h : merge call base = base) :
    call.bump_kafka_sasl_password_version = false ∧
      ∀ key v, writes call key = some v → get? key base.fields = some v := by
  constructor
  · by_contra hb
    have hv := congrArg Settings.version h
    simp only [merge,Settings.counter] at hv
    cases hbase : base.version <;> simp_all
  · intro key v hw
    rw [← h,get?_merge,hw]
    rfl

theorem counter_merge (call : Call) (base : Settings) :
    (merge call base).counter =
      base.counter+if call.bump_kafka_sasl_password_version then 1 else 0 := by
  rw [merge]
  split <;> simp [Settings.counter]

section LostUpdate

variable (s₀ : Settings)

/-- The row has counted every committed bump, and has the value of the latest committed call
under every key that one wrote. -/
def Kept (s : Shared) : Prop :=
  ∃ settings, s.row = some settings ∧ settings.counter = s₀.counter+bumps s.log ∧
    ∀ key v, lastWrite s.log key = some v → get? key settings.fields = some v

/-- As `Kept`, and the other keys are as at the start. -/
def Exact (s : Shared) : Prop :=
  ∃ settings, s.row = some settings ∧ settings.counter = s₀.counter+bumps s.log ∧
    ∀ key, get? key settings.fields = (lastWrite s.log key).or (get? key s₀.fields)

/-- A document that a call read. -/
def Read (s : Shared) (base : Settings) : Prop :=
  ∀ key, lastWrite s.log key = none → get? key base.fields = get? key s₀.fields

/-- What holds of a call at its suspension points: one that bumps works on the row it has
locked. -/
def Local (i : ℕ) (s : Shared) : Phase → Prop
  | .absent _ | .retry _ => False
  | .selected call base => Read s₀ s base ∧
    (call.bump_kafka_sasl_password_version = true → s.lock = some i ∧ s.row = some base)
  | .flushed call base written => Read s₀ s base ∧
    (call.bump_kafka_sasl_password_version = true → s.lock = some i ∧ s.row = some base) ∧
    (if written then s.lock = some i else merge call base = base)
  | _ => True

/-- What a step of one call does to the others: it neither takes a lock that is held nor
changes a row that another has locked. -/
structure Rely (i : ℕ) (s s' : Shared) : Prop where
  lock : ∀ j, j ≠ i → s.lock = some j → s'.lock = some j ∧ s'.row = s.row
  log : s.log <:+ s'.log

/-- The row still has what the call read under the keys that it does not write, or under
those that it does, where the flush wrote nothing; a call that bumps is safe. -/
def Undisturbed (_ : ℕ) (fail : Bool) (s : Shared) (p : Phase) : Prop :=
  ∀ call base written current, p = .flushed call base written → fail = false →
    call.bump_kafka_sasl_password_version = false → s.row = some current →
    if written then
      base.counter = current.counter ∧
        ∀ key, writes call key = none → get? key base.fields = get? key current.fields
    else ∀ key, writes call key ≠ none → get? key base.fields = get? key current.fields

variable {s₀} {i : ℕ} {s s' : Shared}

theorem Exact.kept (h : Exact s₀ s) : Kept s₀ s := by
  obtain ⟨settings,hrow,hc,hf⟩ := h
  refine ⟨settings,hrow,hc,fun key v hk => ?_⟩
  rw [hf,hk]
  rfl

theorem Exact.read (h : Exact s₀ s) {base : Settings} (hrow : s.row = some base) :
    Read s₀ s base := by
  obtain ⟨settings,hs,-,hf⟩ := h
  cases hs.symm.trans hrow
  intro key hk
  rw [hf,hk]
  rfl

theorem Exact.congr (h : Exact s₀ s) (hrow : s'.row = s.row) (hlog : s'.log = s.log) :
    Exact s₀ s' := by
  rwa [Exact,hrow,hlog]

theorem Read.mono {base : Settings} (h : Read s₀ s base) (hlog : s.log <:+ s'.log) :
    Read s₀ s' base :=
  fun key hk => h key (lastWrite_suffix hlog hk)

theorem Local.stable {j : ℕ} {p : Phase} (hij : i ≠ j) (h : Local s₀ j s p)
    (hr : Rely i s s') : Local s₀ j s' p := by
  have hlocked : ∀ base, s.lock = some j ∧ s.row = some base →
      s'.lock = some j ∧ s'.row = some base := by
    rintro base ⟨hl,hrow⟩
    have h' := hr.lock j (Ne.symm hij) hl
    exact ⟨h'.1,h'.2.trans hrow⟩
  cases p with
  | selected call base => exact ⟨h.1.mono hr.log,fun hb => hlocked base (h.2 hb)⟩
  | flushed call base written =>
    refine ⟨h.1.mono hr.log,fun hb => hlocked base (h.2.1 hb),?_⟩
    cases written with
    | false => exact h.2.2
    | true => exact (hr.lock j (Ne.symm hij) h.2.2).1
  | _ => exact h

@[simp] theorem release_row : (s.release i).row = s.row := by
  rw [Shared.release]
  split <;> rfl

@[simp] theorem release_log : (s.release i).log = s.log := by
  rw [Shared.release]
  split <;> rfl

theorem release_rely : Rely i s (s.release i) := by
  constructor
  · intro j hj hl
    have hne : s.lock ≠ some i := fun h => hj (Option.some.inj (hl.symm.trans h))
    rw [Shared.release,if_neg hne]
    exact ⟨hl,rfl⟩
  · simp only [release_log,List.suffix_refl]

theorem acquire_rely (h : s.free i = true) : Rely i s (s.acquire i) := by
  constructor
  · intro j hj hl
    simp [Shared.free,hl,hj] at h
  · exact List.suffix_refl _

theorem Rely.refl (s : Shared) : Rely i s s := ⟨fun _ _ hl => ⟨hl,rfl⟩,List.suffix_refl _⟩

theorem select_own {call : Call} {p' orElse : Phase} (hs : Exact s₀ s)
    (h : select i call s orElse = some (s',p')) :
    Exact s₀ s' ∧ Local s₀ i s' p' ∧ Rely i s s' := by
  obtain ⟨settings,hrow,-⟩ := id hs
  simp only [select,hrow] at h
  by_cases hb : call.bump_kafka_sasl_password_version = true
  · rw [if_pos hb] at h
    by_cases hf : s.free i = true
    · rw [if_pos hf] at h
      cases h
      exact ⟨hs.congr rfl rfl,⟨hs.read hrow,fun _ => ⟨rfl,hrow⟩⟩,acquire_rely hf⟩
    · rw [if_neg hf] at h
      cases h
  · rw [if_neg hb] at h
    cases h
    exact ⟨hs,⟨hs.read hrow,fun hb' => absurd hb' hb⟩,.refl _⟩

theorem flush_own {call : Call} {base : Settings} {p' : Phase} (hs : Exact s₀ s)
    (hl : Local s₀ i s (.selected call base)) (h : flush i call base s = some (s',p')) :
    Exact s₀ s' ∧ Local s₀ i s' p' ∧ Rely i s s' := by
  rw [flush] at h
  by_cases hm : merge call base = base
  · rw [if_pos hm] at h
    cases h
    exact ⟨hs,⟨hl.1,hl.2,hm⟩,.refl _⟩
  · rw [if_neg hm] at h
    by_cases hf : s.free i = true
    · rw [if_pos hf] at h
      cases h
      exact ⟨hs.congr rfl rfl,⟨hl.1,fun hb => ⟨rfl,(hl.2 hb).2⟩,rfl⟩,acquire_rely hf⟩
    · rw [if_neg hf] at h
      cases h

theorem bumps_cons (call : Call) (log : List Call) : (bumps (call::log) : ℤ) =
    bumps log+if call.bump_kafka_sasl_password_version then 1 else 0 := by
  rw [bumps,List.countP_cons,bumps]
  split <;> simp

/-- The commit of a call whose row is as it read it, as far as it matters. -/
theorem commit_exact {call : Call} {base : Settings} {written : Bool} (hs : Exact s₀ s)
    (hl : Local s₀ i s (.flushed call base written))
    (hg : Undisturbed i false s (.flushed call base written)) :
    Exact s₀ (commit i call base written s) := by
  obtain ⟨current,hrow,hc,hf⟩ := id hs
  obtain ⟨-,hbump,hw⟩ := hl
  have hg' := hg call base written current rfl rfl
  cases written with
  | true =>
    have hsame : base.counter = current.counter ∧
        ∀ key, writes call key = none → get? key base.fields = get? key current.fields := by
      by_cases hb : call.bump_kafka_sasl_password_version = true
      · cases (hbump hb).2.symm.trans hrow
        exact ⟨rfl,fun _ _ => rfl⟩
      · exact hg' (by simpa using hb) hrow
    refine ⟨merge call base,rfl,?_,fun key => ?_⟩
    · show (merge call base).counter = s₀.counter+bumps (call::(s.release i).log)
      rw [counter_merge,bumps_cons,release_log,hsame.1,hc,add_assoc]
    · show get? key (merge call base).fields =
        (lastWrite (call::(s.release i).log) key).or (get? key s₀.fields)
      rw [get?_merge,lastWrite_cons,release_log]
      cases hk : writes call key with
      | some v => rfl
      | none =>
        rw [hsame.2 key hk,hf]
        rfl
  | false =>
    obtain ⟨hb,hsame⟩ := merge_eq_self hw
    refine ⟨current,?_,?_,fun key => ?_⟩
    · simpa [commit] using hrow
    · show current.counter = s₀.counter+bumps (call::(s.release i).log)
      rw [bumps_cons,release_log,hb,hc]
      simp
    · show get? key current.fields =
        (lastWrite (call::(s.release i).log) key).or (get? key s₀.fields)
      rw [lastWrite_cons,release_log]
      cases hk : writes call key with
      | some v =>
        rw [← hg' hb hrow key (by simp [hk]),hsame key v hk]
        rfl
      | none => exact hf key

theorem commit_rely {call : Call} {base : Settings} {written : Bool}
    (hl : Local s₀ i s (.flushed call base written)) :
    Rely i s (commit i call base written s) := by
  constructor
  · intro j hj hlock
    have hrel := (release_rely (i:=i) (s:=s)).lock j hj hlock
    cases written with
    | false => exact hrel
    | true => exact absurd (Option.some.inj (hl.2.2.symm.trans hlock)) (Ne.symm hj)
  · simp [commit]

theorem patch_own {fail : Bool} {p p' : Phase} (hs : Exact s₀ s) (hl : Local s₀ i s p)
    (hg : Undisturbed i fail s p) (h : patch_peripheral_config i fail s p = some (s',p')) :
    Exact s₀ s' ∧ Local s₀ i s' p' ∧ Rely i s s' := by
  have hfailed : some (s.release i,Phase.failed) = some (s',p') →
      Exact s₀ s' ∧ Local s₀ i s' p' ∧ Rely i s s' := by
    intro he
    cases he
    exact ⟨hs.congr release_row release_log,trivial,release_rely⟩
  cases p with
  | committed | returned | failed => cases h
  | absent | retry => exact hl.elim
  | start call =>
    cases fail with
    | true => exact hfailed h
    | false =>
      by_cases hn : call.updates = [] ∧ call.bump_kafka_sasl_password_version = false
      · have he : some (s,Phase.returned) = some (s',p') := (if_pos hn).symm.trans h
        cases he
        exact ⟨hs,trivial,.refl _⟩
      · exact select_own hs ((if_neg hn).symm.trans h)
  | selected call base =>
    cases fail with
    | true => exact hfailed h
    | false => exact flush_own hs hl h
  | flushed call base written =>
    cases fail with
    | true => exact hfailed h
    | false =>
      cases h
      exact ⟨commit_exact hs hl hg,trivial,commit_rely hl⟩

/-- A commit over a row that another call has changed loses an update. -/
theorem patch_disturbed {fail : Bool} {p p' : Phase} (hs : Exact s₀ s) (hl : Local s₀ i s p)
    (hg : ¬ Undisturbed i fail s p) (h : patch_peripheral_config i fail s p = some (s',p')) :
    ¬ Kept s₀ s' := by
  intro hk
  apply hg
  rintro call base written current rfl rfl hb hrow
  obtain ⟨settings,hs',hc,hf⟩ := hs
  cases hs'.symm.trans hrow
  cases h
  obtain ⟨settings',hrow',hc',hf'⟩ := hk
  replace hf' : ∀ key v, lastWrite (call::s.log) key = some v →
      get? key settings'.fields = some v := by
    intro key v hv
    refine hf' key v ?_
    simpa [commit] using hv
  replace hc' : settings'.counter = s₀.counter+bumps (call::s.log) := by
    simpa [commit] using hc'
  cases written with
  | true =>
    have he : merge call base = settings' := Option.some.inj hrow'
    subst he
    rw [counter_merge,bumps_cons,hb] at hc'
    refine ⟨by simpa [hc] using hc',fun key hkey => ?_⟩
    cases hw : lastWrite s.log key with
    | none => rw [hf,hw,hl.1 key hw,Option.none_or]
    | some v =>
      have hv := hf' key v (by rw [lastWrite_cons,hkey,hw]; rfl)
      rw [get?_merge,hkey,Option.none_or] at hv
      rw [hv,hf,hw]
      rfl
  | false =>
    have he : s.row = some settings' := by simpa [commit] using hrow'
    cases he.symm.trans hrow
    intro key hkey
    obtain ⟨v,hv⟩ := Option.ne_none_iff_exists'.mp hkey
    rw [(merge_eq_self hl.2.2).2 key v hv,hf' key v (by rw [lastWrite_cons,hv]; rfl)]

/-- The calls before any of them has begun, on a row that is there. -/
def Initial (s₀ : Settings) (w : World Shared Phase) : Prop :=
  w.shared = ⟨some s₀,none,[]⟩ ∧ ∀ i, ∃ call, w.proc i = .start call

def system (s₀ : Settings) : System (World Shared Phase) (ℕ × Bool) :=
  Interleave.system patch_peripheral_config (Initial s₀)

def counter (w : World Shared Phase) : ℤ := (w.shared.row.elim 0 Settings.counter)

theorem Initial.holds {w : World Shared Phase} (h : Initial s₀ w) :
    Holds (Exact s₀) (Local s₀) w := by
  constructor
  · rw [h.1]
    exact ⟨s₀,rfl,by simp [bumps],fun _ => rfl⟩
  · intro i
    obtain ⟨call,hc⟩ := h.2 i
    rw [hc]
    trivial

theorem patch_step {w w' : World Shared Phase} {l : ℕ × Bool} (hw : Holds (Exact s₀) (Local s₀) w)
    (hg : lift Undisturbed w l) (h : Interleave.step patch_peripheral_config w l = some w') :
    Holds (Exact s₀) (Local s₀) w' :=
  hw.step hg (R:=Rely) (fun _ _ _ _ _ _ hs hl hg h => patch_own hs hl hg h)
    (fun _ _ _ _ _ hij hl hr => hl.stable hij hr) h

theorem run_log {w w' : World Shared Phase} {h : List (World Shared Phase × (ℕ × Bool))}
    (hr : Run (system s₀) w h w') (hw : Holds (Exact s₀) (Local s₀) w)
    (hg : Meets (lift Undisturbed) h) : ∀ p ∈ h, p.1.shared.log <:+ w'.shared.log := by
  induction hr with
  | refl => simp
  | @step h t u a hr ht ih =>
    rw [meets_cons] at hg
    have ht' := (hr.visits hw (fun _ _ _ hw hg hs => patch_step hw hg hs) hg.2).1
    obtain ⟨s',p',hp,rfl⟩ := step_eq_some.mp ht
    have hlog := (patch_own ht'.1 (ht'.2 a.1) hg.1 hp).2.2.log
    intro p hp
    rcases List.mem_cons.mp hp with rfl | hp
    · exact hlog
    · exact (ih hg.2 p hp).trans hlog

theorem Exact.counter {w : World Shared Phase} (h : Exact s₀ w.shared) :
    counter w = s₀.counter+bumps w.shared.log := by
  obtain ⟨settings,hrow,hc,-⟩ := h
  rw [Peripheral.counter,hrow]
  exact hc

/-- No update is lost, in any state of the run, just where no call commits over a row that
another has changed since it read it. -/
theorem patches_kept {w w' : World Shared Phase} {h : List (World Shared Phase × (ℕ × Bool))}
    (hr : Run (system s₀) w h w') (hw : Initial s₀ w) :
    (Visits (fun w => Kept s₀ w.shared) h w' ∧ ∀ p ∈ h, counter p.1 ≤ counter w') ↔
      Meets (lift Undisturbed) h := by
  have hstep : ∀ w l w', Holds (Exact s₀) (Local s₀) w → lift Undisturbed w l →
      (system s₀).step w l w' → Holds (Exact s₀) (Local s₀) w' :=
    fun _ _ _ hw hg hs => patch_step hw hg hs
  have hbad : ∀ w l w', Holds (Exact s₀) (Local s₀) w → ¬ lift Undisturbed w l →
      (system s₀).step w l w' → ¬ Kept s₀ w'.shared := by
    intro w l w' hw hg hs
    obtain ⟨s',p',hp,rfl⟩ := step_eq_some.mp hs
    exact patch_disturbed hw.1 (hw.2 l.1) hg hp
  have hiff := hr.visits_iff_meets (P:=fun w => Kept s₀ w.shared) hw.holds
    (fun _ hw => hw.1.kept) hstep hbad
  refine ⟨fun hv => hiff.mp hv.1,fun hg => ⟨hiff.mpr hg,fun p hp => ?_⟩⟩
  have hv := hr.visits hw.holds hstep hg
  rw [(hv.2 p hp).1.counter,hv.1.1.counter]
  have hbumps : bumps p.1.shared.log ≤ bumps w'.shared.log :=
    (run_log hr hw.holds hg p hp).sublist.countP_le
  omega

end LostUpdate

def sampleSettings : Settings := ⟨some 4,[("default_env".toList,.str "DEV".toList)]⟩

def sampleWorld : World Shared Phase where
  shared := ⟨some sampleSettings,none,[]⟩
  proc
    | 0 => .start ⟨true,[]⟩
    | _ => .start ⟨false,[("default_env".toList,some (.str "PROD".toList))]⟩

theorem sampleWorld_initial : Initial sampleSettings sampleWorld := by
  refine ⟨rfl,fun i => ?_⟩
  cases i <;> exact ⟨_,rfl⟩

theorem patches_kept_sample : ∃ h w', Run (system sampleSettings) sampleWorld h w' ∧
    (Visits (fun w => Kept sampleSettings w.shared) h w' ∧
      ∀ p ∈ h, counter p.1 ≤ counter w') ∧
    counter w' = 5 := by
  have hr := run_of_replay (i:=Initial sampleSettings)
    (f:=Interleave.step patch_peripheral_config)
    (l:=[(0,false),(0,false),(0,false),(1,false),(1,false),(1,false)])
    (.refl (s:=sampleWorld)) rfl
  refine ⟨_,_,hr,(patches_kept hr sampleWorld_initial).mpr ?_,rfl⟩
  simp only [meets_cons,meets_nil,and_true]
  refine ⟨?_,?_,?_,?_,?_,?_⟩
  case' refine_2 | refine_3 | refine_5 | refine_6 =>
    intro call base written current hp
    cases hp
  · rintro call base written current hp - - hrow
    cases hp
    cases hrow
    exact ⟨rfl,fun _ _ => rfl⟩
  · rintro call base written current hp - hb
    cases hp
    cases hb

/-- A field changed by a call that read the row before a bump committed takes the bump
back. -/
theorem bump_lost : ¬ ∀ s₀ w h w', Initial s₀ w → Run (system s₀) w h w' →
    counter w' = s₀.counter+bumps w'.shared.log := by
  intro hall
  have hr := run_of_replay (i:=Initial sampleSettings)
    (f:=Interleave.step patch_peripheral_config)
    (l:=[(1,false),(0,false),(0,false),(0,false),(1,false),(1,false)])
    (.refl (s:=sampleWorld)) rfl
  exact absurd (hall _ _ _ _ sampleWorld_initial hr) (by decide)

end Peripheral
end Dataspoke
