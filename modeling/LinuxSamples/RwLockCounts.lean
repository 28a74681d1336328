import LinuxSamples.RwLock

/-!
The four counters of the read-write lock agree with the threads.

Every section moves one thread and changes the counters by what that thread begins or
ceases to contribute, and wake-ups and cancellations change neither. Exclusion is then a
statement about two of the counters.
-/

namespace LinuxSamples.RwLock

open LinuxSamples.Run LinuxSamples.Tally LinuxSamples.CondVar

variable {ι : Type} [Fintype ι]

/-- The thread is inside the wait of `rwl_readlock`. -/
def Thr.inRead (x : Thr) : Bool :=
  match x.pc with
  | .inRead _ => true
  | _ => false

/-- The thread is inside the wait of `rwl_writelock`. -/
def Thr.inWrite (x : Thr) : Bool :=
  match x.pc with
  | .inWrite _ => true
  | _ => false

/-- The number of read locks a thread holds, as its contribution to `r_active`. -/
def reads (x : Thr) : ℤ := x.rd

/-- The counters are those of the threads, and a writer excludes all others. -/
structure Inv (s : St ι) : Prop where
  valid : s.lock.valid = RWLOCK_VALID
  rActive : s.lock.rActive = tally reads s.thr
  wActive : s.lock.wActive = tally (ind Thr.wr) s.thr
  rWait : s.lock.rWait = tally (ind Thr.inRead) s.thr
  wWait : s.lock.wWait = tally (ind Thr.inWrite) s.thr
  excl : s.lock.wActive = 0 ∨ s.lock.wActive = 1 ∧ s.lock.rActive = 0

/-! ### Wake-ups change no contribution -/

lemma wake_rd (x : Thr) : x.wake.rd = x.rd := by
  unfold Thr.wake; split <;> rfl

lemma wake_wr (x : Thr) : x.wake.wr = x.wr := by
  unfold Thr.wake; split <;> rfl

lemma wake_inRead (x : Thr) : x.wake.inRead = x.inRead := by
  unfold Thr.wake
  split <;> simp [Thr.inRead, *]

lemma wake_inWrite (x : Thr) : x.wake.inWrite = x.inWrite := by
  unfold Thr.wake
  split <;> simp [Thr.inWrite, *]

/-- A contribution that a wake-up does not change. -/
def Steady (g : Thr → ℤ) : Prop := ∀ x : Thr, g x.wake = g x

lemma steady_reads : Steady reads := fun x => by simp [reads, wake_rd]
lemma steady_wr : Steady (ind Thr.wr) := fun x => by simp [ind, wake_wr]
lemma steady_inRead : Steady (ind Thr.inRead) := fun x => by simp [ind, wake_inRead]
lemma steady_inWrite : Steady (ind Thr.inWrite) := fun x => by simp [ind, wake_inWrite]

/-! ### One section -/

/-- The threads `f` are those of `s`, with `t` moved to `x` and perhaps some woken. -/
def Moved (s : St ι) (t : ι) (x : Thr) (f : ι → Thr) : Prop :=
  ∀ g : Thr → ℤ, Steady g → tally g f = tally g s.thr + (g x - g (s.thr t))

/-- **The counting rule**: a move keeps the invariant if it changes each counter by the
change of the moved thread's contribution. -/
lemma Inv.of_moved {s : St ι} (hi : Inv s) {t : ι} {x : Thr} {l : Rwlock} {f : ι → Thr}
    (hf : Moved s t x f) (hvalid : l.valid = s.lock.valid)
    (hr : l.rActive = s.lock.rActive + (reads x - reads (s.thr t)))
    (hw : l.wActive = s.lock.wActive + (ind Thr.wr x - ind Thr.wr (s.thr t)))
    (hrw : l.rWait = s.lock.rWait + (ind Thr.inRead x - ind Thr.inRead (s.thr t)))
    (hww : l.wWait = s.lock.wWait + (ind Thr.inWrite x - ind Thr.inWrite (s.thr t)))
    (hex : l.wActive = 0 ∨ l.wActive = 1 ∧ l.rActive = 0) : Inv ⟨l, f⟩ where
  valid := by rw [hvalid, hi.valid]
  rActive := by rw [hf _ steady_reads, ← hi.rActive, hr]
  wActive := by rw [hf _ steady_wr, ← hi.wActive, hw]
  rWait := by rw [hf _ steady_inRead, ← hi.rWait, hrw]
  wWait := by rw [hf _ steady_inWrite, ← hi.wWait, hww]
  excl := hex

lemma Inv.rActive_nonneg {s : St ι} (hi : Inv s) : 0 ≤ s.lock.rActive := by
  rw [hi.rActive]
  exact tally_nonneg fun i => Int.natCast_nonneg _

lemma Inv.wr_false {s : St ι} (hi : Inv s) (h : s.lock.wActive = 0) (t : ι) :
    (s.thr t).wr = false := by
  have h0 := (tally_eq_zero fun i => ind_nonneg Thr.wr (s.thr i)).mp (hi.wActive ▸ h) t
  exact ind_eq_zero_iff.mp h0

lemma Inv.wActive_one {s : St ι} (hi : Inv s) {t : ι} (h : (s.thr t).wr = true) :
    s.lock.wActive = 1 ∧ s.lock.rActive = 0 := by
  rcases hi.excl with h0 | h1
  · simp [hi.wr_false h0 t] at h
  · exact h1

lemma Inv.rActive_pos {s : St ι} (hi : Inv s) {t : ι} (h : 0 < (s.thr t).rd) :
    0 < s.lock.rActive ∧ s.lock.wActive = 0 := by
  have h1 : reads (s.thr t) ≤ tally reads s.thr :=
    le_tally (fun i => Int.natCast_nonneg _) t
  have h2 : 0 < s.lock.rActive := by
    rw [hi.rActive]
    unfold reads at h1 ⊢
    omega
  rcases hi.excl with h0 | ⟨-, h0⟩ <;> omega

lemma inRead_of_blockedR {x : Thr} (h : x.blockedR = true) : x.inRead = true := by
  simp only [Thr.blockedR, decide_eq_true_eq] at h
  simp [Thr.inRead, h]

lemma inWrite_of_blockedW {x : Thr} (h : x.blockedW = true) : x.inWrite = true := by
  simp only [Thr.blockedW, decide_eq_true_eq] at h
  simp [Thr.inWrite, h]

lemma Inv.wWait_pos {s : St ι} (hi : Inv s) {u : ι} (hu : (s.thr u).blockedW = true) :
    0 < s.lock.wWait := by
  have h1 := le_tally (f := s.thr) (fun i => ind_nonneg Thr.inWrite (s.thr i)) u
  have h2 : ind Thr.inWrite (s.thr u) = 1 := by simp [ind, inWrite_of_blockedW hu]
  have := hi.wWait
  omega

lemma Inv.rWait_pos {s : St ι} (hi : Inv s) {u : ι} (hu : (s.thr u).blockedR = true) :
    0 < s.lock.rWait := by
  have h1 := le_tally (f := s.thr) (fun i => ind_nonneg Thr.inRead (s.thr i)) u
  have h2 : ind Thr.inRead (s.thr u) = 1 := by simp [ind, inRead_of_blockedR hu]
  have := hi.rWait
  omega

lemma inv_init : Inv (init : St ι) where
  valid := rfl
  rActive := (tally_const_zero fun _ => rfl).symm
  wActive := (tally_const_zero fun _ => rfl).symm
  rWait := (tally_const_zero fun _ => rfl).symm
  wWait := (tally_const_zero fun _ => rfl).symm
  excl := Or.inl rfl

section Step

variable [DecidableEq ι]

lemma tally_notify {g : Thr → ℤ} (hg : Steady g) {n : Notify} {f f' : ι → Thr} {c : Option ι}
    (h : notify n f c = some f') : tally g f' = tally g f := by
  cases n with
  | nobody =>
    simp only [notify] at h
    split at h
    · rw [Option.some.inj h]
    · cases h
  | signalWrite => exact tally_congr (map_signal g (fun x _ => hg x) h)
  | broadcastRead =>
    simp only [notify] at h
    split at h
    · obtain rfl := Option.some.inj h
      exact tally_congr (map_broadcast g fun x _ => hg x)
    · cases h

lemma moved_update (s : St ι) (t : ι) (x : Thr) : Moved s t x (Function.update s.thr t x) :=
  fun g _ => tally_update g s.thr t x

lemma moved_notify {s : St ι} {t : ι} {x : Thr} {n : Notify} {c : Option ι} {f : ι → Thr}
    (h : notify n (Function.update s.thr t x) c = some f) : Moved s t x f := fun g hg => by
  rw [tally_notify hg h, tally_update]

lemma afterRead_ret (x : Thr) : x.afterRead (.ret 0) = ⟨x.rd + 1, x.wr, .run⟩ := rfl

lemma afterWrite_ret (x : Thr) : x.afterWrite (.ret 0) = ⟨x.rd, true, .run⟩ := rfl

lemma inRead_run (n : ℕ) (w : Bool) : (⟨n, w, .run⟩ : Thr).inRead = false := rfl
lemma inWrite_run (n : ℕ) (w : Bool) : (⟨n, w, .run⟩ : Thr).inWrite = false := rfl

lemma Inv.readSection {s : St ι} (hi : Inv s) {t : ι} {r : Rwlock × Exit}
    (h : ReadSection s.lock (s.thr t).inRead r) (hW : (s.thr t).inWrite = false) :
    Inv (s.afterRead t r) := by
  cases h with
  | got hw =>
    have hwr := hi.wr_false hw t
    refine hi.of_moved (moved_update s t _) rfl ?_ ?_ ?_ ?_ (Or.inl hw) <;>
      simp [reads, ind, hwr, hW, afterRead_ret, inRead_run, inWrite_run, sub_eq_add_neg]
  | refused hno =>
    refine hi.of_moved (moved_update s t _) rfl ?_ ?_ ?_ ?_ hi.excl <;>
      simp [reads, ind, hno, hW, Thr.afterRead, inRead_run, inWrite_run, EBUSY]
  | wait =>
    have hin : ((s.thr t).afterRead .wait).inRead = true := rfl
    have hout : ((s.thr t).afterRead .wait).inWrite = false := rfl
    have hwr : ind Thr.wr ((s.thr t).afterRead .wait) = ind Thr.wr (s.thr t) := rfl
    refine hi.of_moved (moved_update s t _) rfl ?_ ?_ ?_ ?_ hi.excl
    · simp [reads, Thr.afterRead]
    · simp [hwr]
    · cases hx : (s.thr t).inRead <;> simp [ind, hin, hx]
    · simp [ind, hout, hW]

lemma Inv.writeSection {s : St ι} (hi : Inv s) {t : ι} {r : Rwlock × Exit}
    (h : WriteSection s.lock (s.thr t).inWrite r) (hR : (s.thr t).inRead = false) :
    Inv (s.afterWrite t r) := by
  cases h with
  | got hw hr =>
    have hwr := hi.wr_false hw t
    have hr0 : s.lock.rActive = 0 := by
      have := hi.rActive_nonneg
      omega
    refine hi.of_moved (moved_update s t _) rfl ?_ ?_ ?_ ?_ (Or.inr ⟨rfl, hr0⟩) <;>
      simp [reads, ind, hwr, hw, hR, afterWrite_ret, inRead_run, inWrite_run, sub_eq_add_neg]
  | refused hno =>
    refine hi.of_moved (moved_update s t _) rfl ?_ ?_ ?_ ?_ hi.excl <;>
      simp [reads, ind, hno, hR, Thr.afterWrite, inRead_run, inWrite_run, EBUSY]
  | wait =>
    have hin : ((s.thr t).afterWrite .wait).inWrite = true := rfl
    have hout : ((s.thr t).afterWrite .wait).inRead = false := rfl
    have hwr : ind Thr.wr ((s.thr t).afterWrite .wait) = ind Thr.wr (s.thr t) := rfl
    refine hi.of_moved (moved_update s t _) rfl ?_ ?_ ?_ ?_ hi.excl
    · simp [reads, Thr.afterWrite]
    · simp [hwr]
    · simp [ind, hout, hR]
    · cases hx : (s.thr t).inWrite <;> simp [ind, hin, hx]

lemma inv_step {s s' : St ι} {a : Act ι} (hi : Inv s) (h : step s a = some s') : Inv s' := by
  cases step_cases h with
  | @readlock t hpc =>
    have hR : (s.thr t).inRead = false := by simp [Thr.inRead, hpc]
    exact hi.readSection (hR ▸ rwlReadlock_cases hi.valid) (by simp [Thr.inWrite, hpc])
  | @readtrylock t hpc =>
    have hR : (s.thr t).inRead = false := by simp [Thr.inRead, hpc]
    exact hi.readSection (hR ▸ rwlReadtrylock_cases hi.valid) (by simp [Thr.inWrite, hpc])
  | @readRetry t hpc =>
    have hR : (s.thr t).inRead = true := by simp [Thr.inRead, hpc]
    exact hi.readSection (hR ▸ rwlReadlockWoken_cases) (by simp [Thr.inWrite, hpc])
  | readCleanup hpc =>
    refine hi.of_moved (moved_update s _ _) ?_ ?_ ?_ ?_ ?_ hi.excl <;>
      simp [rwlReadcleanup, reads, ind, Thr.inRead, Thr.inWrite, hpc]
    omega
  | readunlock hpc hrd hf =>
    have hw := (hi.rActive_pos hrd).2
    refine hi.of_moved (moved_notify hf) ?_ ?_ ?_ ?_ ?_ ?_ <;>
      simp [rwlReadunlock, hi.valid, hw, reads, ind, Thr.inRead, Thr.inWrite, hpc]
    omega
  | @writelock t hpc =>
    have hW : (s.thr t).inWrite = false := by simp [Thr.inWrite, hpc]
    exact hi.writeSection (hW ▸ rwlWritelock_cases hi.valid) (by simp [Thr.inRead, hpc])
  | @writetrylock t hpc =>
    have hW : (s.thr t).inWrite = false := by simp [Thr.inWrite, hpc]
    exact hi.writeSection (hW ▸ rwlWritetrylock_cases hi.valid) (by simp [Thr.inRead, hpc])
  | @writeRetry t hpc =>
    have hW : (s.thr t).inWrite = true := by simp [Thr.inWrite, hpc]
    exact hi.writeSection (hW ▸ rwlWritelockWoken_cases) (by simp [Thr.inRead, hpc])
  | writeCleanup hpc =>
    refine hi.of_moved (moved_update s _ _) ?_ ?_ ?_ ?_ ?_ hi.excl <;>
      simp [rwlWritecleanup, reads, ind, Thr.inRead, Thr.inWrite, hpc]
    omega
  | writeunlock hpc hwr hf =>
    obtain ⟨hw, -⟩ := hi.wActive_one hwr
    refine hi.of_moved (moved_notify hf) ?_ ?_ ?_ ?_ ?_ ?_ <;>
      simp [rwlWriteunlock, hi.valid, hw, hwr, reads, ind, Thr.inRead, Thr.inWrite, hpc]
  | @spurious t =>
    refine hi.of_moved (moved_update s t _) rfl ?_ ?_ ?_ ?_ hi.excl <;>
      simp [steady_reads (s.thr t), steady_wr (s.thr t), steady_inRead (s.thr t),
        steady_inWrite (s.thr t)]
  | cancelRead hpc =>
    refine hi.of_moved (moved_update s _ _) rfl ?_ ?_ ?_ ?_ hi.excl <;>
      simp [reads, ind, Thr.inRead, Thr.inWrite, hpc]
  | cancelWrite hpc =>
    refine hi.of_moved (moved_update s _ _) rfl ?_ ?_ ?_ ?_ hi.excl <;>
      simp [reads, ind, Thr.inRead, Thr.inWrite, hpc]

lemma reach_inv {s : St ι} (h : Reach step init s) : Inv s :=
  h.invariant inv_init fun _ _ _ hi hs => inv_step hi hs

/-- **The counters are exact.** In every reachable state `r_active` is the number of read
locks held, hence the number of threads holding one as long as no thread holds two;
`w_active` is one if a single thread holds the write lock and zero if none does; a writer
excludes readers; and the two wait counters are the numbers of threads inside the waits. -/
theorem rwlock_counters_exact {s : St ι} (h : Reach step init s) :
    s.lock.rActive = ∑ t, ((s.thr t).rd : ℤ) ∧
    ((∀ t, (s.thr t).rd ≤ 1) → s.lock.rActive = count (fun x => 0 < x.rd) s.thr) ∧
    (s.lock.wActive = 1 ∧ (∃! t, (s.thr t).wr = true) ∨
      s.lock.wActive = 0 ∧ ∀ t, (s.thr t).wr = false) ∧
    (s.lock.wActive = 1 → s.lock.rActive = 0) ∧
    s.lock.rWait = count Thr.inRead s.thr ∧
    s.lock.wWait = count Thr.inWrite s.thr := by
  have hi := reach_inv h
  refine ⟨hi.rActive, fun hone => ?_, ?_, fun hw => ?_, ?_, ?_⟩
  · rw [hi.rActive, count_eq_tally]
    refine tally_congr fun t => ?_
    have := hone t
    simp only [reads, ind, decide_eq_true_eq]
    split <;> omega
  · rcases hi.excl with hw | ⟨hw, -⟩
    · exact Or.inr ⟨hw, hi.wr_false hw⟩
    · refine Or.inl ⟨hw, (count_eq_one_iff Thr.wr s.thr).mp ?_⟩
      have := count_eq_tally Thr.wr s.thr
      have := hi.wActive
      omega
  · rcases hi.excl with h0 | ⟨-, h0⟩
    · omega
    · exact h0
  · rw [hi.rWait, count_eq_tally]
  · rw [hi.wWait, count_eq_tally]

end Step

/-- A reader holds the lock and a writer waits for it. -/
theorem rwlock_counters_exact_reader_writer :
    ∃ s : St (Fin 2), exec step init [.readlock 0, .writelock 1] = some s ∧
      s.lock.rActive = ∑ t, ((s.thr t).rd : ℤ) ∧ s.lock.rActive = 1 ∧
      s.lock.wWait = count Thr.inWrite s.thr ∧ s.lock.wWait = 1 := by
  refine ⟨_, rfl, ?_⟩
  have h := rwlock_counters_exact (ι := Fin 2) ⟨[.readlock 0, .writelock 1], rfl⟩
  exact ⟨h.1, rfl, h.2.2.2.2.2, rfl⟩

/-- One thread takes the read lock twice: `r_active` counts locks, not threads. -/
theorem rwlock_counts_locks_not_threads :
    ∃ s : St (Fin 1), exec step init [.readlock 0, .readlock 0] = some s ∧
      s.lock.rActive = 2 ∧ count (fun x => 0 < x.rd) s.thr = 1 :=
  ⟨_, rfl, rfl, by decide⟩

end LinuxSamples.RwLock
