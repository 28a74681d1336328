import LinuxSamples.ThreadPool

/-!
The idle and the busy vector of the thread pool.

A worker moves itself to the busy vector when it takes a task, and nobody calls `MoveToIdle`. So
the vectors say what the workers do until the first task has been run. From then on its worker is
listed as busy while it waits, and with the next task `MoveToBusy` erases the end of the idle
vector.
-/

namespace LinuxSamples.ThreadPool

open LinuxSamples.Run LinuxSamples.CondVar

variable {α : Type} {n : ℕ}

/-- `MoveToIdle`, which is not called. -/
def moveToIdle (s : St α n) (tid : Fin n) : Option (St α n) :=
  if s.busyThread.contains tid then
    some { s with busyThread := s.busyThread.erase tid, idleThread := s.idleThread ++ [tid] }
  else none

/-- The worker has taken a task whose `Run` has not returned. -/
def Pc.busy : Pc α → Bool
  | .running _ => true
  | _ => false

/-- The vectors are right, and `MoveToBusy` finds what it needs. -/
structure Listed (s : St α n) : Prop where
  once : s.registered = n → ∀ t, s.idleThread.count t + s.busyThread.count t = 1
  busy : s.registered = n → ∀ t, t ∈ s.busyThread ↔ (s.pc t).busy = true
  /-- `MoveToBusy` does not come to the end of the idle vector. -/
  move : ∀ t, s.pc t = .wait true → s.taskList ≠ [] → (moveToBusy s t).isSome = true

/-! ### Steps -/

lemma count_move {l k : List (Fin n)} {t : Fin n} (ht : t ∈ l) (u : Fin n) :
    (l.erase t).count u + (k ++ [t]).count u = l.count u + k.count u := by
  have hpos := List.count_pos_iff.mpr ht
  rw [List.count_append, List.count_singleton, List.count_erase]
  by_cases htu : t = u
  · subst htu
    simp only [beq_self_eq_true, if_true]
    omega
  · simp only [beq_iff_eq, htu, if_false]
    omega

/-- What is kept while no `Run` returns. -/
structure ListInv (s : St α n) : Prop where
  members : ∀ t : Fin n, s.idleThread.count t + s.busyThread.count t =
    if t.val < s.registered then 1 else 0
  busy : ∀ t, t ∈ s.busyThread ↔ (s.pc t).busy = true
  early : s.registered ≠ n → s.taskList = [] ∧ s.busyThread = []

namespace ListInv

lemma members_of_registered {s : St α n} (h : ListInv s) (hr : s.registered = n) (t : Fin n) :
    s.idleThread.count t + s.busyThread.count t = 1 := by
  rw [h.members t, if_pos (by omega)]

lemma mem_idle {s : St α n} (h : ListInv s) {t : Fin n} (hpc : (s.pc t).busy = false)
    (htasks : s.taskList ≠ []) : t ∈ s.idleThread := by
  have hr : s.registered = n := by
    by_contra hne
    exact htasks (h.early hne).1
  have hbusy : t ∉ s.busyThread := fun hb => by simp [(h.busy t).mp hb] at hpc
  have hone := h.members_of_registered hr t
  rw [List.count_eq_zero_of_not_mem hbusy] at hone
  exact List.count_pos_iff.mp (by omega)

lemma listed {s : St α n} (h : ListInv s) : Listed s where
  once := h.members_of_registered
  busy _ := h.busy
  move t hpc htasks := by
    rw [moveToBusy, if_pos (h.mem_idle (by rw [hpc]; rfl) htasks)]
    rfl

lemma update {s : St α n} (h : ListInv s) {t : Fin n} {y : Pc α} (hy : y.busy = (s.pc t).busy) :
    ListInv { s with pc := Function.update s.pc t y } where
  members := h.members
  busy u := by
    rw [h.busy u]
    by_cases hu : u = t
    · subst hu
      simp [hy]
    · simp [Function.update_of_ne hu]
  early := h.early

lemma takeTask {s s' : St α n} (h : ListInv s) {t : Fin n} (hpc : s.pc t = .wait true)
    (hs : takeTask s t = some s') : ListInv s' := by
  unfold ThreadPool.takeTask at hs
  split at hs
  · cases hs
  · next task rest htasks =>
    have hne : s.taskList ≠ [] := by simp [htasks]
    have hidle := h.mem_idle (by rw [hpc]; rfl) hne
    rw [moveToBusy, if_pos hidle] at hs
    cases hs
    refine ⟨fun u => ?_, fun u => ?_, fun hr => absurd (h.early hr).1 hne⟩
    · exact (count_move hidle u).trans (h.members u)
    · by_cases hu : u = t
      · subst hu
        simp [Pc.busy]
      · simp [hu, h.busy u]

end ListInv

lemma busy_wake (y : Pc α) : y.wake.busy = y.busy := by cases y <;> rfl

lemma listInv_step {s s' : St α n} {a : Act α n} (h : ListInv s) (hok : ∀ t, a ≠ .run t)
    (hs : step s a = some s') : ListInv s' := by
  obtain ⟨-, hs⟩ := Option.ite_none_left_eq_some.mp hs
  cases a with
  | create =>
    obtain ⟨hlt, hs⟩ := Option.dite_none_right_eq_some.mp hs
    cases hs
    have hnew : (⟨s.created, hlt.1⟩ : Fin n) ∉ s.busyThread := fun hb => by
      have hmem := h.members ⟨s.created, hlt.1⟩
      have hpos := List.count_pos_iff.mpr hb
      rw [if_neg (by simp only; omega)] at hmem
      omega
    have hidle : (s.pc ⟨s.created, hlt.1⟩).busy = false := by
      rwa [h.busy, Bool.not_eq_true] at hnew
    obtain ⟨hm, hb, he⟩ := h.update (y := .top) (t := ⟨s.created, hlt.1⟩) hidle.symm
    exact ⟨hm, hb, he⟩
  | register =>
    obtain ⟨hlt, hs⟩ := Option.dite_none_right_eq_some.mp hs
    cases hs
    refine ⟨fun t => ?_, h.busy, fun _ => h.early (by omega)⟩
    have hmem := h.members t
    simp only [List.count_append, List.count_singleton, beq_iff_eq, Fin.ext_iff]
    split_ifs at hmem ⊢ <;> omega
  | addTask task c =>
    obtain ⟨hr, hs⟩ := Option.ite_none_right_eq_some.mp hs
    obtain ⟨pc, hsig, rfl⟩ := Option.map_eq_some_iff.mp hs
    refine ⟨h.members, fun t => ?_, fun hne => absurd hr hne⟩
    rw [h.busy t]
    change _ ↔ (pc t).busy = true
    rw [map_signal Pc.busy (fun y _ => busy_wake y) hsig]
  | wait t =>
    simp only [act] at hs
    split at hs
    · next hpc =>
      cases hs
      exact h.update (by rw [hpc]; rfl)
    · cases hs
  | spurious t =>
    obtain ⟨-, hs⟩ := Option.ite_none_right_eq_some.mp hs
    cases hs
    exact h.update (busy_wake _)
  | resume t =>
    simp only [act] at hs
    split at hs
    · next hpc =>
      cases htake : takeTask s t with
      | none =>
        rw [htake] at hs
        cases hs
        exact ⟨h.members, h.busy, h.early⟩
      | some u =>
        rw [htake] at hs
        cases hs
        exact h.takeTask hpc htake
    · cases hs
  | run t => exact absurd rfl (hok t)

lemma ListInv.moveToIdle {s s' : St α n} {t : Fin n} (h : ListInv s)
    (hs : step s (.run t) = some s') : ∃ u, moveToIdle s' t = some u ∧ ListInv u := by
  obtain ⟨-, hs⟩ := Option.ite_none_left_eq_some.mp hs
  simp only [act] at hs
  split at hs
  · next task hpc =>
    cases hs
    have hbusy : t ∈ s.busyThread := (h.busy t).mpr (by rw [hpc]; rfl)
    refine ⟨_, if_pos (List.contains_iff_mem.mpr hbusy), fun u => ?_, fun u => ?_, fun hr => ?_⟩
    · have hmove := count_move (k := s.idleThread) hbusy u
      have hu := h.members u
      dsimp only
      omega
    · by_cases hu : u = t
      · subst hu
        have hone : s.busyThread.count u ≤ 1 := by
          have hmem := h.members u
          split_ifs at hmem <;> omega
        have hgone : (s.busyThread.erase u).count u = 0 := by
          rw [List.count_erase_self]
          omega
        simp [Pc.busy, List.count_eq_zero.mp hgone]
      · simp [Function.update_of_ne hu, List.mem_erase_of_ne hu, h.busy u]
    · rw [(h.early hr).2] at hbusy
      cases hbusy
  · cases hs

end LinuxSamples.ThreadPool
