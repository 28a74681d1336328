import LinuxSamples.Run

/-!
The suspend package of `susp.c`.

`array` lists the threads that are suspended, with null entries in between. The searches in it are
made with sentinels that are not there: that for a free entry goes on to the next null thread,
wherever that is, and that for a thread looks at an entry before it looks at the index. What lies
behind the array in memory is an argument of the calls.
-/

namespace LinuxSamples.Susp

open LinuxSamples.Run

inductive Sig
  | usr1
  | usr2
  deriving DecidableEq

/-- The entries of `array`, `bottom` in number: threads and nulls. The rest is what the calls have
brought about: who is suspended, the elements that were read and written, each with the value of
`bottom` at that time, and the signals, each with whether its target was suspended. After a crash,
or when a call does not return, there are no more calls. -/
structure St (Tid : Type) where
  inited : Bool
  array : List (Option Tid)
  suspended : Tid → Bool
  accesses : List (ℕ × ℕ)
  signals : List (Sig × Tid × Bool)
  stopped : Bool

variable {Tid : Type} [DecidableEq Tid]

namespace St

def bottom (s : St Tid) : ℕ := s.array.length

/-- The elements `array[0]` to `array[n - 1]` are read. -/
def read (s : St Tid) (n : ℕ) : St Tid :=
  { s with accesses := s.accesses ++ (List.range n).map (·, s.bottom) }

def write (s : St Tid) (i : ℕ) (x : Option Tid) : St Tid :=
  { s with array := s.array.set i x, accesses := s.accesses ++ [(i, s.bottom)] }

/-- `pthread_kill`, and for `SIGUSR1` the wait for `sentinel`. A thread that is suspended blocks
the signal, and does not set it. -/
def kill (s : St Tid) (sig : Sig) (t : Tid) : St Tid :=
  { s with
    signals := s.signals ++ [(sig, t, s.suspended t)]
    suspended := Function.update s.suspended t (sig = .usr1)
    stopped := s.stopped || (sig = .usr1 && s.suspended t) }

end St

/-- `suspend_init_routine`, called by `pthread_once`. -/
def suspendInit (s : St Tid) : St Tid :=
  if s.inited then s else { s with inited := true, array := List.replicate 10 none }

/-- The `realloc` for one more entry, and the write that is meant to clear it. -/
def grow (s : St Tid) (fresh : Option Tid) : St Tid :=
  let s := { s with array := s.array ++ [fresh] }
  s.write s.bottom none

/-- The thread is suspended and gets the entry `i`. -/
def suspendAt (s : St Tid) (target : Tid) (i : ℕ) : St Tid :=
  let s := s.kill .usr1 target
  if s.stopped then s else s.write i (some target)

/-- `thd_suspend` for a thread that is not listed. Behind the array there is `beyond` in the memory,
up to the end of what can be read, and `realloc` makes room for an entry with the contents
`fresh`. -/
def suspendNew (s : St Tid) (target : Tid) (beyond : List (Option Tid)) (fresh : Option Tid) :
    St Tid :=
  let i := (s.array ++ beyond).idxOf none
  let s' := s.read (i + 1)
  if i < (s.array ++ beyond).length then
    suspendAt (if i = s.bottom then grow s' fresh else s') target i
  else { s' with stopped := true }

def thdSuspend (s : St Tid) (target : Tid) (beyond : List (Option Tid)) (fresh : Option Tid) :
    St Tid :=
  let s := suspendInit s
  let i := s.array.idxOf (some target)
  let s := s.read (min (i + 1) s.bottom)
  if i < s.bottom then s else suspendNew s target beyond fresh

def thdContinue (s : St Tid) (target : Tid) : St Tid :=
  if s.inited then
    let i := s.array.idxOf (some target)
    let s := s.read (i + 1)
    if i ≥ s.bottom then s else (s.kill .usr2 target).write i none
  else s

inductive Act (Tid : Type)
  | suspend (target : Tid) (beyond : List (Option Tid)) (fresh : Option Tid)
  | continue (target : Tid)
  deriving DecidableEq

def step (s : St Tid) (a : Act Tid) : Option (St Tid) :=
  if s.stopped then none
  else
    match a with
    | .suspend target beyond fresh => some (thdSuspend s target beyond fresh)
    | .continue target => some (thdContinue s target)

def init : St Tid := ⟨false, [], fun _ => false, [], [], false⟩

omit [DecidableEq Tid] in
@[simp] lemma bottom_read (s : St Tid) (n : ℕ) : (s.read n).bottom = s.bottom := rfl

lemma idxOf_lt_bottom {s : St Tid} {x : Option Tid} : s.array.idxOf x < s.bottom ↔ x ∈ s.array :=
  List.idxOf_lt_length_iff

/-! ### The record -/

/-- The signal goes to a thread that it is for. -/
def Fitting : Sig × Tid × Bool → Prop
  | (.usr1, _, suspended) => suspended = false
  | (.usr2, _, suspended) => suspended = true

/-- The array is an exact record of the suspended threads, and every access was inside it. -/
structure Exact (s : St Tid) : Prop where
  record : ∀ t, s.array.count (some t) = if s.suspended t then 1 else 0
  signals : ∀ x ∈ s.signals, Fitting x
  inside : ∀ x ∈ s.accesses, x.1 < x.2

/-- There is an entry for what the call searches: the thread, or if it is to be suspended a free
one. -/
def Room (s : St Tid) : Act Tid → Prop
  | .suspend target _ _ => some target ∈ (suspendInit s).array ∨ none ∈ (suspendInit s).array
  | .continue target => s.inited = true → some target ∈ s.array

instance (s : St Tid) (a : Act Tid) : Decidable (Room s a) :=
  match a with
  | .suspend _ _ _ => inferInstanceAs (Decidable (_ ∨ _))
  | .continue _ => inferInstanceAs (Decidable (_ → _))

structure Inv (s : St Tid) : Prop extends Exact s where
  fresh : s.inited = false → s.array = []

lemma inv_init : Inv (init : St Tid) where
  record _ := rfl
  signals _ h := absurd h List.not_mem_nil
  inside _ h := absurd h List.not_mem_nil
  fresh _ := rfl

lemma Exact.read {s : St Tid} (h : Exact s) {n : ℕ} (hn : n ≤ s.bottom) : Exact (s.read n) where
  record := h.record
  signals := h.signals
  inside x hx := by
    rcases List.mem_append.mp hx with hx | hx
    · exact h.inside x hx
    · obtain ⟨i, hi, rfl⟩ := List.mem_map.mp hx
      exact (List.mem_range.mp hi).trans_le hn

lemma Exact.kill_write {s : St Tid} (h : Exact s) {sig : Sig} {t : Tid} {i : ℕ} {x : Option Tid}
    (hi : i < s.array.length) (hfits : Fitting (sig, t, s.suspended t))
    (hrecord : ∀ u, (s.array.set i x).count (some u) =
      if Function.update s.suspended t (sig = .usr1) u then 1 else 0) :
    Exact ((s.kill sig t).write i x) where
  record := hrecord
  signals y hy := by
    rcases List.mem_append.mp hy with hy | hy
    · exact h.signals y hy
    · rw [List.mem_singleton.mp hy]
      exact hfits
  inside y hy := by
    rcases List.mem_append.mp hy with hy | hy
    · exact h.inside y hy
    · rw [List.mem_singleton.mp hy]
      exact hi

lemma Exact.suspended_iff {s : St Tid} (h : Exact s) (t : Tid) :
    s.suspended t = true ↔ some t ∈ s.array := by
  rw [← List.count_pos_iff, h.record t]
  split <;> simp_all

lemma Exact.suspend {s : St Tid} (h : Exact s) {t : Tid} {i : ℕ} (ht : some t ∉ s.array)
    (hi : i < s.array.length) (hfree : s.array[i] = none) :
    s.suspended t = false ∧ Exact ((s.kill .usr1 t).write i (some t)) := by
  have hrunning : s.suspended t = false := by
    rwa [← h.suspended_iff, Bool.not_eq_true] at ht
  refine ⟨hrunning, h.kill_write hi hrunning fun u => ?_⟩
  have hu := h.record u
  rw [List.count_set hi, hfree]
  by_cases htu : u = t
  · subst htu
    rw [hrunning] at hu
    simpa using hu
  · have hne : ¬ t = u := fun hc => htu hc.symm
    simpa [Function.update_of_ne htu, hne] using hu

lemma Exact.continue {s : St Tid} (h : Exact s) {t : Tid} {i : ℕ} (hi : i < s.array.length)
    (hlisted : s.array[i] = some t) : Exact ((s.kill .usr2 t).write i none) := by
  have hsusp : s.suspended t = true := (h.suspended_iff t).mpr (hlisted ▸ List.getElem_mem hi)
  refine h.kill_write hi hsusp fun u => ?_
  have hu := h.record u
  rw [List.count_set hi, hlisted]
  by_cases htu : u = t
  · subst htu
    rw [hsusp] at hu
    simp [hu]
  · have hne : ¬ t = u := fun hc => htu hc.symm
    simpa [Function.update_of_ne htu, hne] using hu

/-! ### Calls -/

lemma inv_suspendInit {s : St Tid} (h : Inv s) : Inv (suspendInit s) := by
  unfold suspendInit
  split
  · exact h
  · next hinited =>
    have hempty := h.fresh (Bool.eq_false_of_not_eq_true hinited)
    refine ⟨⟨fun t => ?_, h.signals, h.inside⟩, fun hc => by cases hc⟩
    have ht := h.record t
    rw [hempty, List.count_nil] at ht
    rw [← ht, List.count_eq_zero]
    simp

lemma suspendAt_eq {s : St Tid} {target : Tid} (hstopped : s.stopped = false)
    (hrunning : s.suspended target = false) (i : ℕ) :
    suspendAt s target i = (s.kill .usr1 target).write i (some target) := by
  have hreturns : (s.kill .usr1 target).stopped = false := by simp [St.kill, hstopped, hrunning]
  exact if_neg (by rw [hreturns]; exact Bool.false_ne_true)

lemma inv_suspendNew {s : St Tid} (h : Inv s) (hstopped : s.stopped = false) {target : Tid}
    (beyond : List (Option Tid)) (fresh : Option Tid) (hnew : some target ∉ s.array)
    (hfree : none ∈ s.array) : Inv (suspendNew s target beyond fresh) := by
  have hi : s.array.idxOf none < s.bottom := idxOf_lt_bottom.mpr hfree
  have hread : Exact (s.read (s.array.idxOf none + 1)) := h.toExact.read hi
  have hmemory : (s.array ++ beyond).idxOf none = s.array.idxOf none :=
    List.idxOf_append_of_mem hfree
  obtain ⟨hrunning, hexact⟩ := hread.suspend hnew hi (List.getElem_idxOf hi)
  unfold suspendNew
  dsimp only
  rw [hmemory, if_pos (hi.trans_le (by simp [St.bottom])), if_neg hi.ne,
    suspendAt_eq (s := s.read _) hstopped hrunning]
  refine ⟨hexact, fun hinited => ?_⟩
  rw [h.fresh hinited] at hfree
  cases hfree

omit [DecidableEq Tid] in
lemma suspendInit_stopped (s : St Tid) : (suspendInit s).stopped = s.stopped := by
  unfold suspendInit
  split <;> rfl

lemma inv_thdSuspend {s : St Tid} (h : Inv s) (hstopped : s.stopped = false) {target : Tid}
    {beyond : List (Option Tid)} {fresh : Option Tid}
    (hroom : Room s (.suspend target beyond fresh)) :
    Inv (thdSuspend s target beyond fresh) := by
  have hinit := inv_suspendInit h
  rw [← suspendInit_stopped] at hstopped
  change some target ∈ (suspendInit s).array ∨ none ∈ (suspendInit s).array at hroom
  unfold thdSuspend
  generalize suspendInit s = s at *
  dsimp only
  rw [bottom_read]
  have hread : Inv (s.read (min (s.array.idxOf (some target) + 1) s.bottom)) :=
    ⟨hinit.toExact.read (min_le_right _ _), hinit.fresh⟩
  by_cases hlisted : some target ∈ s.array
  · rw [if_pos (idxOf_lt_bottom.mpr hlisted)]
    exact hread
  · rw [if_neg (mt idxOf_lt_bottom.mp hlisted)]
    exact inv_suspendNew hread hstopped beyond fresh hlisted (hroom.resolve_left hlisted)

lemma inv_thdContinue {s : St Tid} (h : Inv s) {target : Tid}
    (hroom : Room s (.continue target)) : Inv (thdContinue s target) := by
  unfold thdContinue
  split
  · next hinited =>
    have hlt : s.array.idxOf (some target) < s.bottom := idxOf_lt_bottom.mpr (hroom hinited)
    have hread : Exact (s.read (s.array.idxOf (some target) + 1)) := h.toExact.read hlt
    dsimp only
    rw [bottom_read, if_neg (by omega)]
    exact ⟨hread.continue hlt (List.getElem_idxOf hlt), fun hc => by
      have hc : s.inited = false := hc
      rw [hinited] at hc
      cases hc⟩
  · exact h

lemma inv_step {s t : St Tid} {a : Act Tid} (h : Inv s) (hroom : Room s a)
    (hs : step s a = some t) : Inv t := by
  obtain ⟨hstopped, hs⟩ := Option.ite_none_left_eq_some.mp hs
  rw [Bool.not_eq_true] at hstopped
  cases a with
  | suspend target beyond fresh =>
    cases hs
    exact inv_thdSuspend h hstopped hroom
  | «continue» target =>
    cases hs
    exact inv_thdContinue h hroom

/-! ### Accesses outside -/

omit [DecidableEq Tid] in
lemma mem_accesses_read (s : St Tid) {i n : ℕ} (hi : i < n) :
    (i, s.bottom) ∈ (s.read n).accesses :=
  List.mem_append_right _ (List.mem_map.mpr ⟨i, List.mem_range.mpr hi, rfl⟩)

lemma accesses_suspendAt (s : St Tid) (target : Tid) (i : ℕ) {x : ℕ × ℕ} (hx : x ∈ s.accesses) :
    x ∈ (suspendAt s target i).accesses := by
  unfold suspendAt
  dsimp only
  split
  · exact hx
  · exact List.mem_append_left _ hx

lemma outside_suspendNew {s : St Tid} {target : Tid} (beyond : List (Option Tid))
    (fresh : Option Tid) (hfull : none ∉ s.array) :
    (s.bottom, s.bottom) ∈ (suspendNew s target beyond fresh).accesses := by
  have hi : s.bottom < (s.array ++ beyond).idxOf none + 1 := by
    rw [List.idxOf_append_of_notMem hfull]
    exact Nat.lt_succ_of_le (Nat.le_add_right _ _)
  have hread := mem_accesses_read s hi
  unfold suspendNew
  dsimp only
  split
  · refine accesses_suspendAt _ _ _ ?_
    split
    · exact List.mem_append_left _ hread
    · exact hread
  · exact hread

lemma not_exact_of_not_room {s t : St Tid} {a : Act Tid} (hbad : ¬ Room s a)
    (hs : step s a = some t) : ¬ Exact t := by
  obtain ⟨-, hs⟩ := Option.ite_none_left_eq_some.mp hs
  cases a with
  | suspend target beyond fresh =>
    cases hs
    unfold Room at hbad
    rw [not_or] at hbad
    intro hexact
    have hmem : ((suspendInit s).bottom, (suspendInit s).bottom) ∈
        (thdSuspend s target beyond fresh).accesses := by
      unfold thdSuspend
      dsimp only
      rw [bottom_read, if_neg (mt idxOf_lt_bottom.mp hbad.1)]
      exact outside_suspendNew (s := St.read _ _) beyond fresh hbad.2
    exact absurd (hexact.inside _ hmem) (lt_irrefl _)
  | «continue» target =>
    cases hs
    unfold Room at hbad
    rw [Classical.not_imp] at hbad
    intro hexact
    have hidx : s.array.idxOf (some target) = s.bottom := List.idxOf_eq_length_iff.mpr hbad.2
    have hmem : (s.bottom, s.bottom) ∈ (thdContinue s target).accesses := by
      unfold thdContinue
      dsimp only
      rw [if_pos hbad.1, bottom_read, if_pos hidx.ge]
      exact mem_accesses_read s (by omega)
    exact absurd (hexact.inside _ hmem) (lt_irrefl _)

/-- **The suspend package keeps its record exactly as long as it finds its entries**: a thread that
is to be suspended is listed or there is a free entry, and a thread that is to be continued is
listed. -/
theorem susp_exact_iff {s : St Tid} {as : List (Act Tid)} (h : exec step init as = some s) :
    Always step Exact init as ↔ Guarded step Room init as :=
  always_iff_guarded (I := Inv) (fun _ hi => hi.toExact)
    (fun _ _ _ hi hroom hs => inv_step hi hroom hs)
    (fun _ _ _ _ hbad hs => not_exact_of_not_room hbad hs) h inv_init

/-- Ten threads are suspended, one of them is continued, and suspended again twice. -/
def tenThreads : List (Act ℕ) :=
  (List.range 10).map (fun t => .suspend t [] none) ++
    [.continue 3, .suspend 3 [] none, .suspend 3 [] none]

theorem susp_exact_iff_tenThreads :
    ∃ s, exec step init tenThreads = some s ∧
      (s.array = (List.range 10).map some ∧ s.signals.length = 12) ∧
      Always step Exact init tenThreads := by
  obtain ⟨s, hrun, hfacts⟩ : ∃ s, exec step init tenThreads = some s ∧
      (s.array = (List.range 10).map some ∧ s.signals.length = 12) := by
    apply exists_exec_of_any
    decide +kernel
  exact ⟨s, hrun, hfacts, (susp_exact_iff hrun).mpr (by decide +kernel)⟩

/-- An eleventh thread, with a null behind the array: the search reads it, and the new entry is
cleared behind the array that has grown. And a thread that is not suspended is continued. -/
theorem susp_outside :
    (∃ s, exec step init ((List.range 11).map fun t : ℕ => .suspend t [none] none) = some s ∧
        (s.bottom = 11 ∧ (10, 10) ∈ s.accesses ∧ (11, 11) ∈ s.accesses) ∧ ¬ Exact s) ∧
      ∃ s, exec step init [.suspend 1 [] none, Act.continue 2] = some s ∧
        (10, 10) ∈ s.accesses ∧ ¬ Exact s := by
  constructor
  · obtain ⟨s, hrun, hfacts⟩ :
        ∃ s, exec step init ((List.range 11).map fun t : ℕ => .suspend t [none] none) = some s ∧
          (s.bottom = 11 ∧ (10, 10) ∈ s.accesses ∧ (11, 11) ∈ s.accesses) := by
      apply exists_exec_of_any
      decide +kernel
    exact ⟨s, hrun, hfacts, fun h => absurd (h.inside _ hfacts.2.1) (lt_irrefl _)⟩
  · obtain ⟨s, hrun, hmem⟩ :
        ∃ s, exec step init [.suspend 1 [] none, Act.continue 2] = some s ∧
          (10, 10) ∈ s.accesses := by
      apply exists_exec_of_any
      decide +kernel
    exact ⟨s, hrun, hmem, fun h => absurd (h.inside _ hmem) (lt_irrefl _)⟩

end LinuxSamples.Susp
