import LinuxSamples.Run
import LinuxSamples.CondVar

/-!
The thread pool of `thread_pool.cpp`.

A worker waits on the condition variable without looking at the task list first, and takes
a task without looking at the list afterwards. So a signal that finds nobody waiting is
forgotten, and a wake-up that no task stands behind makes the worker dereference the end of
the list. `MoveToBusy` has the same trouble with the vector of idle threads, to which a worker
is never returned.

A run ends where the program has no defined behaviour any more: at the dereferencing or
erasing of an end iterator.
-/

namespace LinuxSamples.ThreadPool

open LinuxSamples.Run LinuxSamples.Tally LinuxSamples.CondVar

/-- A worker has not been created, is about to lock the mutex and wait, is in the wait, or has
left its locked section with a task. -/
inductive Pc (α : Type)
  | absent
  | top
  | wait (woken : Bool)
  | running (task : α)
  deriving DecidableEq, Repr

def Pc.blocked {α : Type} : Pc α → Bool
  | .wait woken => !woken
  | _ => false

def Pc.wake {α : Type} : Pc α → Pc α
  | .wait _ => .wait true
  | pc => pc

def Pc.runs {α : Type} [DecidableEq α] (x : α) : Pc α → Bool
  | .running task => task = x
  | _ => false

/-- The pool of `n` workers. The last three lists record the tasks that were added, taken from
the list, and run. -/
structure St (α : Type) (n : ℕ) where
  taskList : List α
  idleThread : List (Fin n)
  busyThread : List (Fin n)
  pc : Fin n → Pc α
  created : ℕ
  registered : ℕ
  undefined : Bool
  added : List α
  taken : List α
  ran : List α

variable {α : Type} {n : ℕ}

/-- `MoveToBusy`: the first entry of the idle vector that is `tid` moves to the busy vector.
Without one, the end of the idle vector is erased. -/
def moveToBusy (s : St α n) (tid : Fin n) : Option (St α n) :=
  if tid ∈ s.idleThread then
    some { s with idleThread := s.idleThread.erase tid, busyThread := s.busyThread ++ [tid] }
  else none

/-- `ThreadFunc` from the return of `pthread_cond_wait` to the unlock. -/
def takeTask (s : St α n) (tid : Fin n) : Option (St α n) :=
  match s.taskList with
  | [] => none
  | task :: rest =>
    (moveToBusy s tid).map fun s =>
      { s with
        taskList := rest
        pc := Function.update s.pc tid (.running task)
        taken := s.taken ++ [task] }

inductive Act (α : Type) (n : ℕ)
  /-- `pthread_create` in `Create` -/
  | create
  /-- `m_vecIdleThread.push_back(tid)` in `Create` -/
  | register
  /-- `AddTask`; `c` is the worker that the signal wakes -/
  | addTask (task : α) (c : Option (Fin n))
  | wait (t : Fin n)
  | spurious (t : Fin n)
  | resume (t : Fin n)
  /-- `task->Run()` -/
  | run (t : Fin n)
  deriving DecidableEq, Repr

/-- What an action does while the program is defined. -/
def act (s : St α n) : Act α n → Option (St α n)
  | .create =>
    if h : s.created < n ∧ s.created = s.registered then
      some { s with
        pc := Function.update s.pc ⟨s.created, h.1⟩ .top
        created := s.created + 1 }
    else none
  | .register =>
    if h : s.registered < n ∧ s.registered < s.created then
      some { s with
        idleThread := s.idleThread ++ [⟨s.registered, h.1⟩]
        registered := s.registered + 1 }
    else none
  | .addTask task c =>
    -- the client gets the pool when its constructor has returned
    if s.registered = n then
      (signal Pc.blocked Pc.wake s.pc c).map fun pc =>
        { s with taskList := s.taskList ++ [task], pc := pc, added := s.added ++ [task] }
    else none
  | .wait t =>
    match s.pc t with
    | .top => some { s with pc := Function.update s.pc t (.wait false) }
    | _ => none
  | .spurious t =>
    if (s.pc t).blocked then some { s with pc := Function.update s.pc t (s.pc t).wake } else none
  | .resume t =>
    match s.pc t with
    | .wait true => some ((takeTask s t).getD { s with undefined := true })
    | _ => none
  | .run t =>
    match s.pc t with
    | .running task => some { s with pc := Function.update s.pc t .top, ran := s.ran ++ [task] }
    | _ => none

def step (s : St α n) (a : Act α n) : Option (St α n) := if s.undefined then none else act s a

def init : St α n := ⟨[], [], [], fun _ => .absent, 0, 0, false, [], [], []⟩

/-- Every task is in the list, with one worker, or run, and no worker can be needed while all
are asleep. -/
structure Sound [DecidableEq α] (s : St α n) : Prop where
  defined : s.undefined = false
  order : s.taken ++ s.taskList = s.added
  once : ∀ x, s.ran.count x + count (Pc.runs x) s.pc = s.taken.count x
  awake : s.taskList ≠ [] → ∃ t, ¬ (s.pc t).blocked

/-- No worker starts to wait while a task is in the list and all others are asleep, and a woken
worker finds a task in the list and itself in the idle vector. -/
def Served (s : St α n) : Act α n → Prop
  | .wait t => s.taskList ≠ [] → ∃ u, u ≠ t ∧ ¬ (s.pc u).blocked
  | .resume t => s.taskList ≠ [] ∧ t ∈ s.idleThread
  | _ => True

/-! ### Steps -/

section

variable [DecidableEq α]

/-- What is kept of the runs whose steps are all served. -/
structure Inv (s : St α n) : Prop extends Sound s where
  fresh : ∀ t : Fin n, s.created ≤ t → s.pc t = .absent

lemma inv_init : Inv (init : St α n) where
  defined := rfl
  order := rfl
  once x := by
    have hno : count (Pc.runs x) (init : St α n).pc = 0 :=
      (count_eq_zero_iff _ _).mpr fun t => Bool.false_ne_true
    rw [hno]
    rfl
  awake h := absurd rfl h
  fresh _ _ := rfl

omit [DecidableEq α] in
lemma fresh_update {s : St α n} (h : ∀ t : Fin n, s.created ≤ t → s.pc t = .absent) {t : Fin n}
    (ht : s.pc t ≠ .absent) (y : Pc α) (u : Fin n) (hu : s.created ≤ u) :
    Function.update s.pc t y u = .absent := by
  have hut : u ≠ t := by
    rintro rfl
    exact ht (h u hu)
  rw [Function.update_of_ne hut, h u hu]

lemma count_runs_update {pc : Fin n → Pc α} {t : Fin n} {y : Pc α} (x : α)
    (hy : y.runs x = (pc t).runs x) :
    count (Pc.runs x) (Function.update pc t y) = count (Pc.runs x) pc := by
  have h := count_update (Pc.runs x) pc t y
  have hi : ind (Pc.runs x) y = ind (Pc.runs x) (pc t) := by simp [ind, hy]
  omega

lemma ind_runs_running (x task : α) :
    ind (Pc.runs x) (.running task) = ([task].count x : ℤ) := by
  by_cases hx : task = x <;> simp [ind, Pc.runs, hx]

lemma runs_wake (y : Pc α) (x : α) : y.wake.runs x = y.runs x := by
  cases y <;> rfl

lemma count_runs_signal {pc pc' : Fin n → Pc α} {c : Option (Fin n)}
    (h : signal Pc.blocked Pc.wake pc c = some pc') (x : α) :
    count (Pc.runs x) pc' = count (Pc.runs x) pc := by
  unfold count
  simp only [map_signal (Pc.runs x) (fun y _ => runs_wake y x) h]

omit [DecidableEq α] in
lemma not_blocked_wake (y : Pc α) : ¬ y.wake.blocked := by
  cases y <;> exact Bool.false_ne_true

omit [DecidableEq α] in
lemma exists_awake_update {pc : Fin n → Pc α} {t : Fin n} {y : Pc α} (hy : ¬ y.blocked) :
    ∃ u, ¬ (Function.update pc t y u).blocked := ⟨t, by rwa [Function.update_self]⟩

omit [DecidableEq α] in
lemma exists_awake_of_signal (hn : 0 < n) {pc pc' : Fin n → Pc α} {c : Option (Fin n)}
    (h : signal Pc.blocked Pc.wake pc c = some pc') : ∃ t, ¬ (pc' t).blocked := by
  obtain ⟨-, hno, rfl⟩ | ⟨t, -, -, rfl⟩ := signal_cases h
  · exact ⟨⟨0, hn⟩, hno _⟩
  · exact exists_awake_update (not_blocked_wake _)

lemma Inv.goto {s : St α n} (h : Inv s) {t : Fin n} {y : Pc α} (ht : s.pc t ≠ .absent)
    (hruns : ∀ x, y.runs x = (s.pc t).runs x)
    (hawake : s.taskList ≠ [] → ∃ u, ¬ (Function.update s.pc t y u).blocked) :
    Inv { s with pc := Function.update s.pc t y } where
  defined := h.defined
  order := h.order
  once x := by
    rw [count_runs_update x (hruns x)]
    exact h.once x
  awake := hawake
  fresh := fresh_update h.fresh ht y

lemma Inv.takeTask {s : St α n} (h : Inv s) {t : Fin n} (hpc : s.pc t = .wait true)
    (hne : s.taskList ≠ []) (hidle : t ∈ s.idleThread) :
    ∃ s', takeTask s t = some s' ∧ Inv s' := by
  obtain ⟨task, rest, htasks⟩ := List.exists_cons_of_ne_nil hne
  simp only [ThreadPool.takeTask, htasks, moveToBusy, if_pos hidle, Option.map_some]
  refine ⟨_, rfl, ⟨h.defined, ?_, fun x => ?_, fun _ => exists_awake_update Bool.false_ne_true⟩, ?_⟩
  · rw [List.append_assoc, List.singleton_append, ← htasks]
    exact h.order
  · have honce := h.once x
    have hcount := count_update (Pc.runs x) s.pc t (.running task)
    have h0 : ind (Pc.runs x) (s.pc t) = 0 := by rw [hpc]; rfl
    rw [ind_runs_running] at hcount
    simp only [List.count_append]
    omega
  · exact fresh_update h.fresh (by simp [hpc]) _

lemma inv_step (hn : 0 < n) {s s' : St α n} {a : Act α n} (h : Inv s) (hok : Served s a)
    (hs : step s a = some s') : Inv s' := by
  rw [step, h.defined, if_neg Bool.false_ne_true] at hs
  cases a with
  | create =>
    simp only [act, Option.dite_none_right_eq_some, Option.some.injEq] at hs
    obtain ⟨hlt, rfl⟩ := hs
    have hnew : s.pc ⟨s.created, hlt.1⟩ = .absent := h.fresh _ le_rfl
    refine ⟨⟨h.defined, h.order, fun x => ?_, fun _ => exists_awake_update Bool.false_ne_true⟩,
      fun t ht => ?_⟩
    · rw [count_runs_update x (by rw [hnew]; rfl)]
      exact h.once x
    · have hlt' : s.created < t := ht
      have hne : t ≠ ⟨s.created, hlt.1⟩ := fun hc => by simp [hc] at hlt'
      exact (Function.update_of_ne hne _ _).trans (h.fresh t hlt'.le)
  | register =>
    simp only [act, Option.dite_none_right_eq_some, Option.some.injEq] at hs
    obtain ⟨-, rfl⟩ := hs
    exact ⟨⟨h.defined, h.order, h.once, h.awake⟩, h.fresh⟩
  | addTask task c =>
    simp only [act, Option.ite_none_right_eq_some, Option.map_eq_some_iff] at hs
    obtain ⟨-, pc, hsig, rfl⟩ := hs
    refine ⟨⟨h.defined, ?_, fun x => ?_, fun _ => exists_awake_of_signal hn hsig⟩, fun t ht => ?_⟩
    · rw [← List.append_assoc, h.order]
    · rw [count_runs_signal hsig]
      exact h.once x
    · obtain ⟨-, -, rfl⟩ | ⟨u, -, hu, rfl⟩ := signal_cases hsig
      · exact h.fresh t ht
      · exact fresh_update h.fresh (fun hc => by rw [hc] at hu; cases hu) _ t ht
  | wait t =>
    simp only [act] at hs
    split at hs
    · next hpc =>
      obtain rfl := Option.some.inj hs
      refine h.goto (by simp [hpc]) (fun x => by rw [hpc]; rfl) fun hne => ?_
      obtain ⟨u, hut, hu⟩ := hok hne
      exact ⟨u, by simpa only [Function.update_of_ne hut] using hu⟩
    · cases hs
  | spurious t =>
    simp only [act, Option.ite_none_right_eq_some, Option.some.injEq] at hs
    obtain ⟨hb, rfl⟩ := hs
    have hthere : s.pc t ≠ .absent := fun hc => by rw [hc] at hb; cases hb
    exact h.goto hthere (runs_wake _) fun _ => exists_awake_update (not_blocked_wake _)
  | resume t =>
    simp only [act] at hs
    split at hs
    · next hpc =>
      obtain ⟨u, hu, hinv⟩ := h.takeTask hpc hok.1 hok.2
      rw [hu, Option.getD_some, Option.some.injEq] at hs
      exact hs ▸ hinv
    · cases hs
  | run t =>
    simp only [act] at hs
    split at hs
    · next task hpc =>
      obtain rfl := Option.some.inj hs
      refine ⟨⟨h.defined, h.order, fun x => ?_,
        fun _ => exists_awake_update Bool.false_ne_true⟩, ?_⟩
      · have honce := h.once x
        have hcount := count_update (Pc.runs x) s.pc t .top
        have h0 : ind (Pc.runs x) (.top : Pc α) = 0 := rfl
        rw [hpc, ind_runs_running, h0] at hcount
        simp only [List.count_append]
        omega
      · exact fresh_update h.fresh (by simp [hpc]) _
    · cases hs

lemma not_sound_of_not_served {s s' : St α n} {a : Act α n} (h : Inv s) (hbad : ¬ Served s a)
    (hs : step s a = some s') : ¬ Sound s' := by
  rw [step, h.defined, if_neg Bool.false_ne_true] at hs
  cases a with
  | wait t =>
    simp only [act] at hs
    split at hs
    · obtain rfl := Option.some.inj hs
      simp only [Served, Classical.not_imp, not_exists, not_and, not_not] at hbad
      intro hsound
      obtain ⟨u, hu⟩ := hsound.awake hbad.1
      by_cases hut : u = t
      · subst hut
        simp only [Function.update_self] at hu
        exact hu rfl
      · simp only [Function.update_of_ne hut] at hu
        exact hu (hbad.2 u hut)
    · cases hs
  | resume t =>
    simp only [act] at hs
    split at hs
    · have hnone : takeTask s t = none := by
        unfold takeTask
        split
        · rfl
        · next task rest htasks =>
          have hidle : t ∉ s.idleThread := fun hc => hbad ⟨by simp [htasks], hc⟩
          rw [moveToBusy, if_neg hidle]
          rfl
      rw [hnone, Option.getD_none, Option.some.injEq] at hs
      subst hs
      exact fun hsound => Bool.false_ne_true hsound.defined.symm
    · cases hs
  | _ => exact absurd trivial hbad

/-- **The pool runs every task exactly as long as its workers are served**: no worker starts to
wait while a task is in the list and all the others are asleep, and every worker that is
woken finds a task in the list and itself in the idle vector. -/
theorem threadpool_sound_iff (hn : 0 < n) {s : St α n} {as : List (Act α n)}
    (h : exec step init as = some s) : Always step Sound init as ↔ Guarded step Served init as :=
  always_iff_guarded (I := Inv) (fun _ hi => hi.toSound)
    (fun _ _ _ hi hok hs => inv_step hn hi hok hs)
    (fun _ _ _ hi hbad hs => not_sound_of_not_served hi hbad hs) h inv_init

end

/-- One worker, which the client is faster than: the signal finds nobody waiting, and the
worker then sleeps on the queued task. -/
theorem threadpool_loses_signal :
    ∃ s : St ℕ 1, exec step init [.create, .register, .addTask 7 none, .wait 0] = some s ∧
      s.taskList = [7] ∧ (∀ t, (s.pc t).blocked) ∧ ¬ Sound s := by
  refine ⟨_, rfl, rfl, by decide, fun h => ?_⟩
  obtain ⟨t, ht⟩ := h.awake (by decide)
  revert t
  decide

theorem threadpool_sound_iff_in_time :
    ∃ s : St ℕ 1, exec step init [.create, .register, .wait 0, .addTask 7 (some 0), .resume 0,
      .run 0] = some s ∧ s.ran = [7] ∧
      Always step Sound (init : St ℕ 1) [.create, .register, .wait 0, .addTask 7 (some 0),
        .resume 0, .run 0] := by
  refine ⟨_, rfl, rfl, (threadpool_sound_iff (by decide) rfl).mpr ?_⟩
  refine ⟨trivial, fun s hs => ⟨trivial, fun t ht => ⟨?_, fun u hu => ⟨trivial, fun v hv =>
    ⟨?_, fun w _ => ⟨trivial, fun _ _ => trivial⟩⟩⟩⟩⟩⟩
  all_goals
    obtain rfl := Option.some.inj hs
    obtain rfl := Option.some.inj ht
  · exact fun hc => absurd rfl hc
  · obtain rfl := Option.some.inj hu
    obtain rfl := Option.some.inj hv
    exact ⟨by decide, by decide⟩

end LinuxSamples.ThreadPool
