import LinuxSamples.RwLockCounts

/-!
When the read-write lock strands a waiter.

An unlock decides whom to wake from the two wait counters, and a cancelled thread is
counted until it has run its handler, which wakes nobody. So `rwl_writeunlock` may
broadcast to readers that have all been cancelled while a writer sleeps, and a thread may
be cancelled between its wake-up and its retry. These are the only two ways: a run strands
no waiter exactly when neither of them happens in it.
-/

namespace LinuxSamples.RwLock

open LinuxSamples.Run LinuxSamples.Tally LinuxSamples.CondVar

def Thr.woken (x : Thr) : Bool := x.pc = .inRead .woken ∨ x.pc = .inWrite .woken

def Thr.blocked (x : Thr) : Bool := x.blockedR ∨ x.blockedW

/-- The thread waits for the lock: a cancelled thread no longer does. -/
def Thr.waiting (x : Thr) : Bool := x.blocked ∨ x.woken

def Thr.waitingR (x : Thr) : Bool := x.pc = .inRead .blocked ∨ x.pc = .inRead .woken

variable {ι : Type}

def Free (s : St ι) : Prop := s.lock.rActive = 0 ∧ s.lock.wActive = 0

/-- If the lock is free and somebody waits for it, somebody has been woken. -/
def NoStrand (s : St ι) : Prop :=
  Free s → (∃ t, (s.thr t).waiting = true) → ∃ t, (s.thr t).woken = true

/-- The step does not lose a wake-up. A write unlock loses it if only cancelled readers are
counted in `r_wait` and every waiting writer is asleep; a cancellation loses it if it hits
the one woken thread of a free lock while another thread is asleep. -/
def KeepsWake (s : St ι) : Act ι → Prop
  | .writeunlock _ _ =>
    ¬ (0 < s.lock.rWait ∧ (∀ u, (s.thr u).waitingR = false) ∧
      (∃ u, (s.thr u).blockedW = true) ∧ ∀ u, (s.thr u).woken = false)
  | .cancel t =>
    ¬ (Free s ∧ (s.thr t).woken = true ∧ (∀ u, u ≠ t → (s.thr u).woken = false) ∧
      ∃ u, (s.thr u).blocked = true)
  | _ => True

/-- While a writer is not active no reader is asleep. -/
def ReadersUp (s : St ι) : Prop := s.lock.wActive = 0 → ∀ t, (s.thr t).blockedR = false

lemma not_free_of_wActive {s : St ι} (h : s.lock.wActive ≠ 0) : ¬ Free s := fun hf => h hf.2

lemma not_free_of_rActive {s : St ι} (h : 0 < s.lock.rActive) : ¬ Free s := fun hf => by
  have := hf.1; omega

lemma not_free_of_held {s : St ι} (h : s.lock.wActive ≠ 0 ∨ 0 < s.lock.rActive) : ¬ Free s :=
  h.elim not_free_of_wActive not_free_of_rActive

lemma noStrand_of_held {s : St ι} (h : ¬ Free s) : NoStrand s := fun hf => absurd hf h

lemma noStrand_of_woken {s : St ι} {t : ι} (h : (s.thr t).woken = true) : NoStrand s :=
  fun _ _ => ⟨t, h⟩

/-! ### Wake-ups -/

lemma woken_wake {x : Thr} (h : x.blockedR = true ∨ x.blockedW = true) : x.wake.woken = true := by
  rcases h with h | h <;> simp only [Thr.blockedR, Thr.blockedW, decide_eq_true_eq] at h <;>
    simp [Thr.wake, Thr.woken, h]

lemma blockedR_wake (x : Thr) : x.wake.blockedR = false := by
  unfold Thr.wake Thr.blockedR
  split <;> simp_all

lemma woken_congr {x y : Thr} (h : x.pc = y.pc) : x.woken = y.woken := by
  simp [Thr.woken, h]

lemma blockedR_congr {x y : Thr} (h : x.pc = y.pc) : x.blockedR = y.blockedR := by
  simp [Thr.blockedR, h]

lemma waitingR_congr {x y : Thr} (h : x.pc = y.pc) : x.waitingR = y.waitingR := by
  simp [Thr.waitingR, h]

lemma blockedW_congr {x y : Thr} (h : x.pc = y.pc) : x.blockedW = y.blockedW := by
  simp [Thr.blockedW, h]

lemma woken_broadcast (f : ι → Thr) (u : ι) :
    (broadcast Thr.blockedR Thr.wake f u).woken = true ↔
      (f u).blockedR = true ∨ (f u).woken = true := by
  by_cases hb : (f u).blockedR = true
  · simp [broadcast_of_blocked hb, woken_wake (Or.inl hb), hb]
  · simp [broadcast_of_not_blocked hb, hb]

lemma blockedR_broadcast (f : ι → Thr) (u : ι) :
    (broadcast Thr.blockedR Thr.wake f u).blockedR = false := by
  by_cases hb : (f u).blockedR = true
  · rw [broadcast_of_blocked hb]
    exact blockedR_wake _
  · rw [broadcast_of_not_blocked hb]
    exact Bool.eq_false_iff.mpr hb

/-- The lock is free after a write unlock that has readers to wake, and nobody is woken
exactly when no reader was left on the condition variable and no thread was awake. -/
lemma noStrand_broadcast_iff {l : Rwlock} {f : ι → Thr}
    (hfree : Free (⟨l, broadcast Thr.blockedR Thr.wake f⟩ : St ι)) :
    NoStrand (⟨l, broadcast Thr.blockedR Thr.wake f⟩ : St ι) ↔
      ¬ ((∀ u, (f u).waitingR = false) ∧ (∃ u, (f u).blockedW = true) ∧
        ∀ u, (f u).woken = false) := by
  constructor
  · rintro h ⟨hR, ⟨u, hu⟩, hW⟩
    have hnb : ∀ v, (f v).blockedR = false := fun v => by
      have := hR v
      simp only [Thr.waitingR, decide_eq_false_iff_not, not_or] at this
      simpa [Thr.blockedR] using this.1
    have hu' : (broadcast Thr.blockedR Thr.wake f u).waiting = true := by
      rw [broadcast_of_not_blocked (by simp [hnb u])]
      simp [Thr.waiting, Thr.blocked, hu]
    obtain ⟨v, hv⟩ := h hfree ⟨u, hu'⟩
    rcases (woken_broadcast f v).mp hv with hb | hb
    · rw [hnb v] at hb; cases hb
    · rw [hW v] at hb; cases hb
  · rintro h - ⟨u, hu⟩
    by_contra hno
    push Not at hno
    have hall : ∀ v, (f v).blockedR = false ∧ (f v).woken = false := fun v => by
      have := mt (woken_broadcast f v).mpr (by simpa using hno v)
      push Not at this
      exact ⟨by simpa using this.1, by simpa using this.2⟩
    refine h ⟨fun v => ?_, ⟨u, ?_⟩, fun v => (hall v).2⟩
    · have h1 := (hall v).1
      have h2 := (hall v).2
      simp only [Thr.blockedR, Thr.woken, decide_eq_false_iff_not] at h1 h2
      simp only [Thr.waitingR, decide_eq_false_iff_not]
      tauto
    · -- the waiting thread is neither a sleeping reader nor awake: it is a sleeping writer
      have he : broadcast Thr.blockedR Thr.wake f u = f u :=
        broadcast_of_not_blocked (by simp [(hall u).1])
      simp only [he] at hu
      simpa [Thr.waiting, Thr.blocked, (hall u).1, (hall u).2] using hu

/-! ### Steps after which the lock is held -/

section Step

variable [DecidableEq ι]

lemma readersUp_update {s : St ι} {l : Rwlock} {t : ι} {x : Thr} (hup : ReadersUp s)
    (h : l.wActive = 0 → s.lock.wActive = 0 ∧ x.blockedR = false) :
    ReadersUp ⟨l, Function.update s.thr t x⟩ := by
  intro hl u
  obtain ⟨hw, hx⟩ := h hl
  by_cases hu : u = t
  · subst hu
    simpa using hx
  · simpa [Function.update_of_ne hu] using hup hw u

/-- The section leaves the lock held, and every sleeping reader faces an active writer. -/
def Held (s : St ι) : Prop := ¬ Free s ∧ ReadersUp s

omit [DecidableEq ι] in
lemma Held.keeps {s : St ι} (h : Held s) : NoStrand s ∧ ReadersUp s := ⟨noStrand_of_held h.1, h.2⟩

lemma update_pc {f : ι → Thr} {t : ι} {x : Thr} (hx : x.pc = (f t).pc) (u : ι) :
    (Function.update f t x u).pc = (f u).pc := by
  by_cases hu : u = t
  · subst hu
    rw [Function.update_self, hx]
  · rw [Function.update_of_ne hu]

lemma update_cases {f : ι → Thr} {t : ι} {x : Thr} (p : Thr → Bool) (hx : p x = false) (u : ι) :
    p (Function.update f t x u) = true ↔ u ≠ t ∧ p (f u) = true := by
  by_cases hu : u = t
  · subst hu
    simp [hx]
  · simp [hu]

omit [DecidableEq ι] in
lemma waiting_eq_false {x : Thr} (h : x.pc = .inRead .cancelled ∨ x.pc = .inWrite .cancelled) :
    x.waiting = false := by
  rcases h with h | h <;>
    simp [Thr.waiting, Thr.blocked, Thr.blockedR, Thr.blockedW, Thr.woken, h]

lemma handler_keeps {s : St ι} {t : ι} {l : Rwlock} (hns : NoStrand s) (hup : ReadersUp s)
    (hr : l.rActive = s.lock.rActive) (hw : l.wActive = s.lock.wActive)
    (ht : (s.thr t).waiting = false) {x : Thr} (hx : x.waiting = false) :
    NoStrand (⟨l, Function.update s.thr t x⟩ : St ι) ∧
      ReadersUp (⟨l, Function.update s.thr t x⟩ : St ι) := by
  have hxs : x.blocked = false ∧ x.woken = false := by simpa [Thr.waiting] using hx
  have hxb : x.blockedR = false ∧ x.blockedW = false := by simpa [Thr.blocked] using hxs.1
  refine ⟨?_, readersUp_update hup fun h0 => ⟨hw ▸ h0, hxb.1⟩⟩
  rintro hfree ⟨u, hu⟩
  obtain ⟨v, hv⟩ := hns ⟨hr ▸ hfree.1, hw ▸ hfree.2⟩
    ⟨u, ((update_cases Thr.waiting hx u).mp hu).2⟩
  refine ⟨v, (update_cases Thr.woken hxs.2 v).mpr ⟨?_, hv⟩⟩
  rintro rfl
  simp [Thr.waiting, hv] at ht

variable [Fintype ι]

/-- A section of a read lock function ends in the wait only against an active writer, and else
takes the lock. -/
lemma held_readSection {s : St ι} (hi : Inv s) (hup : ReadersUp s) {t : ι} {waits : Bool}
    {r : Rwlock × Exit} (h : ReadSection s.lock waits r) : Held (s.afterRead t r) := by
  cases h with
  | got hw =>
    have hr := hi.rActive_nonneg
    exact ⟨not_free_of_rActive (Int.lt_add_one_of_le hr),
      readersUp_update hup fun _ => ⟨hw, rfl⟩⟩
  | refused hno hw =>
    exact ⟨not_free_of_wActive hw, readersUp_update hup fun h0 => absurd h0 hw⟩
  | wait hw => exact ⟨not_free_of_wActive hw, readersUp_update hup fun h0 => absurd h0 hw⟩

omit [Fintype ι] in
/-- A section of a write lock function leaves the lock held, by the thread itself or by whom it
waits for. -/
lemma held_writeSection {s : St ι} (hup : ReadersUp s) {t : ι} {waits : Bool}
    {r : Rwlock × Exit} (h : WriteSection s.lock waits r) : Held (s.afterWrite t r) := by
  cases h with
  | got hw hr =>
    exact ⟨not_free_of_wActive Int.one_ne_zero, readersUp_update hup fun _ => ⟨hw, rfl⟩⟩
  | refused hno hheld =>
    exact ⟨not_free_of_held hheld, readersUp_update hup fun h0 => ⟨h0, rfl⟩⟩
  | wait hheld => exact ⟨not_free_of_held hheld, readersUp_update hup fun h0 => ⟨h0, rfl⟩⟩

/-! ### Unlocks -/

lemma notify_thr {n : Notify} {f f' : ι → Thr} {c : Option ι} (h : notify n f c = some f')
    (u : ι) : f' u = f u ∨ f' u = (f u).wake := by
  cases n with
  | nobody =>
    simp only [notify, Option.ite_none_right_eq_some, Option.some.injEq] at h
    exact Or.inl (by rw [h.2])
  | signalWrite =>
    obtain ⟨-, -, rfl⟩ | ⟨i, -, -, rfl⟩ := signal_cases h
    · exact Or.inl rfl
    · by_cases hu : u = i
      · subst hu; exact Or.inr (Function.update_self ..)
      · exact Or.inl (Function.update_of_ne hu _ _)
  | broadcastRead =>
    simp only [notify, Option.ite_none_right_eq_some, Option.some.injEq] at h
    obtain ⟨-, rfl⟩ := h
    by_cases hb : (f u).blockedR = true
    · exact Or.inr (broadcast_of_blocked hb)
    · exact Or.inl (broadcast_of_not_blocked hb)

lemma blockedR_notify {n : Notify} {f f' : ι → Thr} {c : Option ι} (h : notify n f c = some f')
    {u : ι} (hu : (f u).blockedR = false) : (f' u).blockedR = false := by
  rcases notify_thr h u with he | he <;> rw [he]
  · exact hu
  · exact blockedR_wake _

lemma waiting_notify {n : Notify} {f f' : ι → Thr} {c : Option ι} (h : notify n f c = some f')
    {u : ι} (hu : (f' u).waiting = true) : (f u).waiting = true := by
  rcases notify_thr h u with he | he
  · rwa [he] at hu
  · rw [he] at hu
    revert hu
    unfold Thr.wake
    split <;> simp_all [Thr.waiting, Thr.blocked, Thr.blockedR, Thr.blockedW]

lemma woken_notify {n : Notify} {f f' : ι → Thr} {c : Option ι} (h : notify n f c = some f')
    {u : ι} (hu : (f u).woken = true) : (f' u).woken = true := by
  rcases notify_thr h u with he | he <;> rw [he]
  · exact hu
  · simp only [Thr.woken, decide_eq_true_eq] at hu
    rcases hu with hu | hu <;> simp [Thr.wake, Thr.woken, hu]

lemma exists_woken_signalWrite {f f' : ι → Thr} {c : Option ι}
    (h : notify .signalWrite f c = some f') {u : ι} (hu : (f u).blockedW = true) :
    ∃ v, (f' v).woken = true := by
  obtain ⟨v, hv, he⟩ := exists_woken_of_signal h hu
  exact ⟨v, he ▸ woken_wake (Or.inr hv)⟩

/-- An unlock that finds no reader asleep strands nobody if it signals whenever it frees the
lock and a writer is counted. -/
lemma noStrand_unlock {s : St ι} {l : Rwlock} {n : Notify} {t : ι} {x : Thr} {c : Option ι}
    {f : ι → Thr} (hi : Inv s) (hnb : ∀ u, (s.thr u).blockedR = false)
    (hf : notify n (Function.update s.thr t x) c = some f) (hx : x.pc = (s.thr t).pc)
    (hn : Free (⟨l, f⟩ : St ι) → 0 < s.lock.wWait → n = .signalWrite) :
    NoStrand ⟨l, f⟩ ∧ ReadersUp ⟨l, f⟩ := by
  have hpc := update_pc hx
  refine ⟨?_, fun _ u => blockedR_notify hf (by rw [blockedR_congr (hpc u)]; exact hnb u)⟩
  rintro hfree ⟨u, hu⟩
  have hu' := waiting_notify hf hu
  simp only [Thr.waiting, Thr.blocked, Bool.decide_or, Bool.decide_eq_true, Bool.or_eq_true] at hu'
  rcases hu' with (hb | hb) | hb
  · rw [blockedR_congr (hpc u), hnb u] at hb
    cases hb
  · have hwait := hi.wWait_pos (u := u) (by rw [← blockedW_congr (hpc u)]; exact hb)
    rw [hn hfree hwait] at hf
    exact exists_woken_signalWrite hf hb
  · exact ⟨u, woken_notify hf hb⟩

lemma readunlock_keeps {s s' : St ι} {t : ι} {c : Option ι} (hi : Inv s) (hup : ReadersUp s)
    (h : step s (.readunlock t c) = some s') : NoStrand s' ∧ ReadersUp s' := by
  cases step_cases h with
  | readunlock hpc hrd hf =>
    obtain ⟨-, hw⟩ := hi.rActive_pos hrd
    refine noStrand_unlock hi (hup hw) hf rfl fun hfree hwait => ?_
    -- the last reader leaves while a writer sleeps: the code signals
    have hlast : s.lock.rActive - 1 = 0 := by
      simpa [Free, rwlReadunlock, hi.valid] using hfree.1
    simp [rwlReadunlock, hi.valid, hlast, hwait]

/-- **A write unlock strands nobody exactly when it keeps the wake-up**, and it leaves no
reader asleep. -/
lemma writeunlock_iff {s s' : St ι} {t : ι} {c : Option ι} (hi : Inv s)
    (h : step s (.writeunlock t c) = some s') :
    (NoStrand s' ↔ KeepsWake s (.writeunlock t c)) ∧ ReadersUp s' := by
  cases step_cases h with
  | @writeunlock _ _ f _ hwr hf =>
    obtain ⟨-, hr0⟩ := hi.wActive_one hwr
    by_cases hr : 0 < s.lock.rWait
    · have hpc := update_pc (f := s.thr) (t := t) (x := { s.thr t with wr := false }) rfl
      have hfree : Free (⟨(rwlWriteunlock s.lock).1, f⟩ : St ι) := by
        simp [Free, rwlWriteunlock, hi.valid, hr0]
      have hn : (rwlWriteunlock s.lock).2.1 = .broadcastRead := by
        simp [rwlWriteunlock, hi.valid, hr]
      rw [hn] at hf
      simp only [notify, Option.ite_none_right_eq_some, Option.some.injEq] at hf
      obtain ⟨-, rfl⟩ := hf
      refine ⟨?_, fun _ u => blockedR_broadcast _ u⟩
      rw [noStrand_broadcast_iff hfree]
      simp only [KeepsWake, hr, true_and, blockedW_congr (hpc _), woken_congr (hpc _),
        waitingR_congr (hpc _)]
    · -- no reader is counted: the code signals a writer if one is
      have hnb : ∀ u, (s.thr u).blockedR = false := fun u => by
        by_contra hb
        exact hr (hi.rWait_pos (by simpa using hb))
      obtain ⟨hns', hup'⟩ := noStrand_unlock (l := (rwlWriteunlock s.lock).1) hi hnb hf rfl
        fun _ hwait => by simp [rwlWriteunlock, hi.valid, hr, hwait]
      exact ⟨⟨fun _ hbad => hr hbad.1, fun _ => hns'⟩, hup'⟩

/-! ### Cancellation -/

lemma cancel_cases {s s' : St ι} {t : ι} (h : step s (.cancel t) = some s') :
    ∃ x : Thr, x.waiting = false ∧ s' = ⟨s.lock, Function.update s.thr t x⟩ := by
  cases step_cases h with
  | cancelRead => exact ⟨_, rfl, rfl⟩
  | cancelWrite => exact ⟨_, rfl, rfl⟩

lemma cancel_iff {s s' : St ι} {t : ι} (hns : NoStrand s) (hup : ReadersUp s)
    (h : step s (.cancel t) = some s') :
    (NoStrand s' ↔ KeepsWake s (.cancel t)) ∧ ReadersUp s' := by
  obtain ⟨x, hx, rfl⟩ := cancel_cases h
  have hxs : x.blocked = false ∧ x.woken = false := by simpa [Thr.waiting] using hx
  have hxb : x.blockedR = false ∧ x.blockedW = false := by simpa [Thr.blocked] using hxs.1
  refine ⟨⟨?_, ?_⟩, readersUp_update hup fun h0 => ⟨h0, hxb.1⟩⟩
  · rintro hns' ⟨hfree, hwt, hothers, u, hu⟩
    have hut : u ≠ t := by
      rintro rfl
      simp only [Thr.woken, decide_eq_true_eq] at hwt
      rcases hwt with hw | hw <;> simp [Thr.blocked, Thr.blockedR, Thr.blockedW, hw] at hu
    obtain ⟨v, hv⟩ := hns' hfree ⟨u, (update_cases Thr.waiting hx u).mpr
      ⟨hut, by simp [Thr.waiting, hu]⟩⟩
    obtain ⟨hvt, hv'⟩ := (update_cases Thr.woken hxs.2 v).mp hv
    rw [hothers v hvt] at hv'
    cases hv'
  · rintro hok hfree ⟨u, hu⟩
    obtain ⟨hut, hu'⟩ := (update_cases Thr.waiting hx u).mp hu
    obtain ⟨v, hv⟩ := hns hfree ⟨u, hu'⟩
    -- the woken thread is another one, or the condition gives one
    by_contra hno
    push Not at hno
    have hothers : ∀ w, w ≠ t → (s.thr w).woken = false := fun w hw => by
      by_contra hc
      exact hno w ((update_cases Thr.woken hxs.2 w).mpr ⟨hw, by simpa using hc⟩)
    have hvt : v = t := by
      by_contra hc
      rw [hothers v hc] at hv
      cases hv
    subst hvt
    refine hok ⟨hfree, hv, hothers, u, ?_⟩
    simpa [Thr.waiting, hothers u hut] using hu'

/-! ### Runs -/

/-- The invariant of the runs that keep every wake-up. -/
def Good (s : St ι) : Prop := Inv s ∧ NoStrand s ∧ ReadersUp s

omit [DecidableEq ι] in
lemma good_init : Good (init : St ι) := by
  refine ⟨inv_init, fun _ h => ?_, fun _ _ => rfl⟩
  obtain ⟨t, ht⟩ := h
  cases ht

lemma good_step {s s' : St ι} {a : Act ι} (hg : Good s) (hok : KeepsWake s a)
    (h : step s a = some s') : Good s' := by
  obtain ⟨hi, hns, hup⟩ := hg
  refine ⟨inv_step hi h, ?_⟩
  cases step_cases h with
  | readlock => exact (held_readSection hi hup (rwlReadlock_cases hi.valid)).keeps
  | readtrylock => exact (held_readSection hi hup (rwlReadtrylock_cases hi.valid)).keeps
  | readRetry => exact (held_readSection hi hup rwlReadlockWoken_cases).keeps
  | readCleanup hpc => exact handler_keeps hns hup rfl rfl (waiting_eq_false (Or.inl hpc)) rfl
  | readunlock => exact readunlock_keeps hi hup h
  | writelock => exact (held_writeSection hup (rwlWritelock_cases hi.valid)).keeps
  | writetrylock => exact (held_writeSection hup (rwlWritetrylock_cases hi.valid)).keeps
  | writeRetry => exact (held_writeSection hup rwlWritelockWoken_cases).keeps
  | writeCleanup hpc => exact handler_keeps hns hup rfl rfl (waiting_eq_false (Or.inr hpc)) rfl
  | writeunlock =>
    obtain ⟨hiff, hup'⟩ := writeunlock_iff hi h
    exact ⟨hiff.mpr hok, hup'⟩
  | @spurious t hb =>
    refine ⟨noStrand_of_woken (t := t) ?_, readersUp_update hup fun h0 => ⟨h0, ?_⟩⟩
    · simpa using woken_wake hb
    · exact blockedR_wake _
  | cancelRead =>
    obtain ⟨hiff, hup'⟩ := cancel_iff hns hup h
    exact ⟨hiff.mpr hok, hup'⟩
  | cancelWrite =>
    obtain ⟨hiff, hup'⟩ := cancel_iff hns hup h
    exact ⟨hiff.mpr hok, hup'⟩

lemma strands_of_not_keepsWake {s s' : St ι} {a : Act ι} (hg : Good s) (hbad : ¬ KeepsWake s a)
    (h : step s a = some s') : ¬ NoStrand s' := by
  obtain ⟨hi, hns, hup⟩ := hg
  cases a with
  | writeunlock t c => exact fun hns' => hbad ((writeunlock_iff hi h).1.mp hns')
  | cancel t => exact fun hns' => hbad ((cancel_iff hns hup h).1.mp hns')
  | _ => exact absurd trivial hbad

/-- **A run strands no waiter exactly when all its steps keep the wake-up.** -/
theorem rwlock_no_strand_iff {s : St ι} {as : List (Act ι)} (h : exec step init as = some s) :
    Always step NoStrand init as ↔ Guarded step KeepsWake init as :=
  always_iff_guarded (I := Good) (fun _ hg => hg.2.1) (fun _ _ _ hg hok hs => good_step hg hok hs)
    (fun _ _ _ hg hbad hs => strands_of_not_keepsWake hg hbad hs) h good_init

end Step

/-- A reader and a writer wait for the writer that holds the lock. The reader is cancelled,
the unlock broadcasts to nobody, the reader's handler runs, and the writer sleeps on. -/
theorem rwlock_strands_writer :
    ∃ s : St (Fin 3), exec step init [.writelock 0, .readlock 1, .writelock 2, .cancel 1,
      .writeunlock 0 none, .resume 1] = some s ∧ ¬ NoStrand s := by
  refine ⟨_, rfl, fun h => ?_⟩
  obtain ⟨t, ht⟩ := h ⟨rfl, rfl⟩ ⟨2, rfl⟩
  revert t
  decide

theorem rwlock_no_strand_iff_two_writers :
    ∃ s : St (Fin 2), exec step init [.writelock 0, .writelock 1, .writeunlock 0 (some 1)] =
      some s ∧ Always step NoStrand (init : St (Fin 2))
        [.writelock 0, .writelock 1, .writeunlock 0 (some 1)] := by
  refine ⟨_, rfl, (rwlock_no_strand_iff rfl).mpr ?_⟩
  refine ⟨trivial, fun s hs => ⟨trivial, fun t ht => ⟨?_, fun _ _ => trivial⟩⟩⟩
  obtain rfl := Option.some.inj hs
  obtain rfl := Option.some.inj ht
  rintro ⟨hr, -⟩
  exact absurd hr (by decide)

end LinuxSamples.RwLock
