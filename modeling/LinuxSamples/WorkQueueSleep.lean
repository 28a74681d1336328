import LinuxSamples.WorkQueueDrain

/-!
Who sleeps while there is work.

`idle` is 0 for ever: no server counts itself in when it waits. So `workq_add` never signals
and `workq_destroy` never wakes the servers, and work that comes when all live servers sleep has
to wait until one of them times out. This file says exactly in which runs that does not happen.
-/

namespace LinuxSamples.WorkQueue

open LinuxSamples.Run LinuxSamples.CondVar LinuxSamples.Pool

variable {α : Type}

/-- A live server that does not sleep, or has a wake-up pending. -/
def Thr.awake : Thr α → ℕ
  | .wait .blocked => 0
  | x => x.live

def St.awake (s : St α) : ℕ := total Thr.awake s.thr

/-- If there are live servers and something to do, not all of them sleep. -/
def NoStrand (s : St α) : Prop := 0 < s.servers → s.wq.queue ≠ [] ∨ s.wq.quit → 0 < s.awake

def St.isServer (s : St α) (t : ℕ) : Prop := ∃ x ∈ s.thr[t]?, x.live = 1

/-- Some server is awake when an element is appended for which no server is created and when
`quit` is set, and a server that shuts down because of `quit` is the last one or leaves
another one awake. -/
def LeavesAwake (s : St α) : Act α → Prop
  | .addLock _ _ => s.wq.counter < s.wq.parallelism ∨ 0 < s.awake
  | .destroyLock _ => s.wq.counter ≤ 0 ∨ 0 < s.awake
  | .resume t => s.isServer t → s.wq.queue = [] → s.wq.quit → s.servers ≤ 1 ∨ 2 ≤ s.awake
  | _ => True

instance (s : St α) (t : ℕ) : Decidable (s.isServer t) :=
  inferInstanceAs (Decidable (∃ x ∈ s.thr[t]?, x.live = 1))

instance [DecidableEq α] (s : St α) : (a : Act α) → Decidable (LeavesAwake s a)
  | .addLock _ _ => inferInstanceAs (Decidable (_ ∨ _))
  | .destroyLock _ => inferInstanceAs (Decidable (_ ∨ _))
  | .resume _ => inferInstanceAs (Decidable (_ → _ → _ → _ ∨ _))
  | .addCall _ _ => isTrue trivial
  | .destroyCall _ => isTrue trivial
  | .destroyReturn _ => isTrue trivial
  | .callEngine _ => isTrue trivial
  | .returnEngine _ => isTrue trivial
  | .spurious _ => isTrue trivial
  | .timeout _ => isTrue trivial

lemma awake_wake (x : Thr α) : x.awake ≤ x.wake.awake := by
  cases x with
  | wait z => cases z <;> simp [Thr.awake, Thr.wake, Thr.live]
  | _ => exact le_rfl

lemma NoStrand.mono {s s' : St α} (h : NoStrand s) (hwq : s'.wq = s.wq)
    (hservers : s'.servers = s.servers) (hawake : s.awake ≤ s'.awake) : NoStrand s' := by
  intro hpos hwork
  rw [hservers] at hpos
  rw [hwq] at hwork
  exact lt_of_lt_of_le (h hpos hwork) hawake

lemma NoStrand.moveThread {s : St α} (h : NoStrand s) {t : ℕ} {x y : Thr α}
    (hx : s.thr[t]? = some x) (hl : y.live = x.live) (ha : x.awake ≤ y.awake)
    {called returned : List α} :
    NoStrand ⟨s.wq, s.thr.set t y, s.added, s.taken, called, returned⟩ := by
  refine h.mono rfl (total_set_eq Thr.live hx hl) ?_
  have hawake := total_set Thr.awake hx y
  show total Thr.awake s.thr ≤ total Thr.awake (s.thr.set t y)
  omega

lemma noStrand_addFull_iff {p : ℤ} {s s' : St α} (hi : Inv p s') {t : ℕ} {x : α}
    (hx : s.thr[t]? = some (.adding x)) (hthr : s'.thr = s.thr.set t .out)
    (hqueue : s'.wq.queue ≠ []) : NoStrand s' ↔ 0 < s.awake := by
  have hawake : s'.awake = s.awake := by
    unfold St.awake
    rw [hthr]
    exact total_set_eq Thr.awake hx rfl
  have hpos := hi.served hqueue
  have hlive := hi.live
  rw [← hawake]
  exact ⟨fun h => h (by omega) (Or.inl hqueue), fun h _ _ => h⟩

lemma noStrand_destroy_iff {p : ℤ} {s : St α} (hi : Inv p s) {t : ℕ}
    (hx : s.thr[t]? = some .destroying) :
    NoStrand { s with
      wq := (workqDestroy s.wq).1
      thr := s.move t (workqDestroy s.wq).2.2 (workqDestroy s.wq).2.1 } ↔
      LeavesAwake s (.destroyLock t) := by
  rw [workqDestroy_eq hi.idle]
  obtain ⟨hl, -, -⟩ := destroyLoop_idle s.wq
  have hservers := total_set_eq Thr.live hx (y := destroyLoop s.wq) hl
  have hawake := total_set_eq Thr.awake hx (y := destroyLoop s.wq) (by
    unfold destroyLoop
    split <;> rfl)
  have hlive := hi.live
  simp only [NoStrand, LeavesAwake, St.servers, St.awake, St.move, Bool.false_eq_true, if_false,
    hservers, hawake] at hlive ⊢
  by_cases hc : s.wq.counter > 0
  · simp only [hc, if_true, or_true, true_imp_iff]
    omega
  · exact ⟨fun _ => Or.inl (by omega), fun _ hpos => absurd hpos (by omega)⟩

/-- **Serving**: only a server that shuts down because of `quit` can leave others asleep. -/
lemma noStrand_serve_iff {p : ℤ} {s : St α} (hi : Inv p s) {t : ℕ} {x : Thr α}
    (hx : s.thr[t]? = some x) {r : Section α} (hr : serverSection s.wq x = some r) :
    NoStrand { s with
      wq := r.1, thr := s.move t r.2.2 r.2.1, taken := s.taken ++ r.2.2.dequeued } ↔
      LeavesAwake s (.resume t) := by
  have hi' := hi.serve hx hr
  obtain ⟨hlive, -, -, -, hcases⟩ := serverSection_cases hr
  have hserver : s.isServer t := ⟨x, hx, hlive⟩
  have hxawake : x.awake = 1 := by
    unfold Thr.awake
    split
    · cases hr
    · exact hlive
  rcases hcases with ⟨hq, hquit, rfl⟩ | ⟨y, rest, b, hq, rfl⟩ | ⟨hq, ⟨hquit, rfl⟩ | ⟨hquit, rfl⟩⟩
  · exact ⟨fun _ _ _ hc => absurd hc (by simp [hquit]), fun _ _ hw => by simp [hq, hquit] at hw⟩
  · refine ⟨fun _ _ hc => absurd hc (by simp [hq]), fun _ _ _ => ?_⟩
    have hmem := List.mem_set (List.getElem?_eq_some_iff.mp hx).1 (.took y b)
    exact le_total_of_mem (g := Thr.awake) hmem
  · have hl := hi.live
    have hl' : ((total Thr.live (s.move t .gone (serverQuit s.wq).2.1) : ℕ) : ℤ) =
        s.wq.counter - 1 := hi'.live
    have hgoal : NoStrand { s with
          wq := (serverQuit s.wq).1, thr := s.move t .gone (serverQuit s.wq).2.1
          taken := s.taken ++ [] } ↔
        (0 < total Thr.live (s.move t .gone (serverQuit s.wq).2.1) →
          0 < total Thr.awake (s.move t .gone (serverQuit s.wq).2.1)) :=
      ⟨fun h hpos => h hpos (Or.inr hquit), fun h hpos _ => h hpos⟩
    have hok : LeavesAwake s (.resume t) ↔ s.servers ≤ 1 ∨ 2 ≤ s.awake :=
      ⟨fun h => h hserver hq hquit, fun h _ _ _ => h⟩
    refine hgoal.trans (Iff.trans ?_ hok.symm)
    by_cases hlast : s.servers ≤ 1
    · exact ⟨fun _ => Or.inl hlast, fun _ hpos => absurd hpos (by omega)⟩
    · -- it is not the last one, so it does not broadcast
      have hwake : (serverQuit s.wq).2.1 = false := by
        simp only [serverQuit, decide_eq_false_iff_not]
        omega
      have hawake := total_set Thr.awake hx .gone
      rw [hxawake] at hawake
      simp only [Thr.awake, Thr.live] at hawake
      rw [hwake] at hl' ⊢
      simp only [St.move, Bool.false_eq_true, if_false, St.awake] at hl' ⊢
      omega
  · exact ⟨fun _ _ _ hc => absurd hc (by simp [hquit]),
      fun _ _ hw => by simp [serverExpire, hq, hquit] at hw⟩

lemma noStrand_step_iff {p : ℤ} (hp : 1 ≤ p) {s s' : St α} {a : Act α} (hi : Inv p s)
    (h : NoStrand s) (hs : step s a = some s') : NoStrand s' ↔ LeavesAwake s a := by
  have hi' := inv_step hp hi hs
  cases step_cases hs with
  | addCall hx => exact iff_of_true (h.moveThread hx (y := .adding _) rfl le_rfl) trivial
  | addInvalid => exact iff_of_true h trivial
  | addSignal hx hidle =>
    rw [hi.idle] at hidle
    omega
  | addCreate hx hroom =>
    refine iff_of_true (fun _ _ => ?_) (Or.inl hroom)
    simp [St.awake, total_append, Thr.awake, Thr.live]
  | addFull hx hroom =>
    exact (noStrand_addFull_iff hi' hx rfl (by simp)).trans (or_iff_right hroom).symm
  | destroyCall hx => exact iff_of_true (h.moveThread hx (y := .destroying) rfl le_rfl) trivial
  | destroyInvalid => exact iff_of_true h trivial
  | destroyLock hx => exact noStrand_destroy_iff hi hx
  | destroyReturn hx => exact iff_of_true (h.moveThread hx (y := .out) rfl le_rfl) trivial
  | destroyLoop hx =>
    obtain ⟨hl, -, -⟩ := destroyLoop_idle s.wq
    refine iff_of_true (h.moveThread hx hl (Nat.zero_le _)) ?_
    rintro ⟨x, hmem, hxlive⟩
    rw [hx] at hmem
    obtain rfl := Option.some.inj hmem
    cases hxlive
  | serve hx hr => exact noStrand_serve_iff hi hx hr
  | @callEngine t x timedout hx =>
    exact iff_of_true (h.moveThread hx (y := .engine x timedout) rfl le_rfl) trivial
  | @returnEngine t x timedout hx =>
    exact iff_of_true (h.moveThread hx (y := .back timedout) rfl le_rfl) trivial
  | @spurious t x hx =>
    exact iff_of_true (h.moveThread hx (live_wake x) (awake_wake x)) trivial
  | @timeout t z hx =>
    refine iff_of_true (h.moveThread hx (y := .wait .timedout) rfl ?_) trivial
    cases z <;> simp [Thr.awake, Thr.live]

/-! ### Picking up without a timeout -/

/-- The action is one of a server and no end of a wait. -/
def Act.untimed : Act α → Bool
  | .resume _ => true
  | .callEngine _ => true
  | .returnEngine _ => true
  | _ => false

lemma pickUp {s : St α} {y : α} {rest : List α} (hq : s.wq.queue = y :: rest) {i : ℕ}
    {x : Thr α} (hx : s.thr[i]? = some x) (hawake : 0 < x.awake) :
    ∃ as s' b, (∀ a ∈ as, Act.untimed a) ∧ exec step s as = some s' ∧ s'.wq.queue = rest ∧
      s'.thr[i]? = some (.took y b) := by
  have hlt : i < s.thr.length := (List.getElem?_eq_some_iff.mp hx).1
  -- a server without an element, in any state with this queue
  have htake : ∀ {s : St α} {x : Thr α}, s.wq.queue = y :: rest → s.thr[i]? = some x →
      0 < x.awake → x.work = 0 → ∃ s' b, exec step s [.resume i] = some s' ∧
        s'.wq.queue = rest ∧ s'.thr[i]? = some (.took y b) := by
    intro s x hq hx hawake hwork
    have hne : x ≠ .wait .blocked := by
      rintro rfl
      cases hawake
    have hlive : 0 < x.live := by
      unfold Thr.awake at hawake
      split at hawake
      · cases hawake
      · exact hawake
    obtain ⟨s', b, hs', hq', hx', -⟩ := drain_take hq hx hlive hwork hne
    exact ⟨s', b, by rw [exec_cons, hs']; rfl, hq', hx'⟩
  cases x with
  | took x timedout =>
    obtain ⟨s', b, hs', hq', hx'⟩ := htake
      (s := { s with
        thr := (s.thr.set i (.engine x timedout)).set i (.back timedout)
        called := s.called ++ [x], returned := s.returned ++ [x] }) (x := .back timedout) hq
      (List.getElem?_set_self (by simpa using hlt)) Nat.one_pos rfl
    refine ⟨[.callEngine i, .returnEngine i, .resume i], s', b, by simp [Act.untimed], ?_, hq', hx'⟩
    rw [exec_cons, step, hx, Option.bind_some, exec_cons, step,
      List.getElem?_set_self hlt, Option.bind_some]
    exact hs'
  | engine x timedout =>
    obtain ⟨s', b, hs', hq', hx'⟩ := htake
      (s := { s with thr := s.thr.set i (.back timedout), returned := s.returned ++ [x] })
      (x := .back timedout) hq (List.getElem?_set_self hlt) Nat.one_pos rfl
    refine ⟨[.returnEngine i, .resume i], s', b, by simp [Act.untimed], ?_, hq', hx'⟩
    rw [exec_cons, step, hx, Option.bind_some]
    exact hs'
  | _ =>
    obtain ⟨s', b, hs', hq', hx'⟩ := htake hq hx hawake rfl
    exact ⟨[.resume i], s', b, by simp [Act.untimed], hs', hq', hx'⟩

lemma pickUp_all {s : St α} {i : ℕ} {x : Thr α} (hx : s.thr[i]? = some x) (hawake : 0 < x.awake) :
    ∃ as s', (∀ a ∈ as, Act.untimed a) ∧ exec step s as = some s' ∧ s'.wq.queue = [] := by
  induction hq : s.wq.queue generalizing s x with
  | nil => exact ⟨[], s, by simp, rfl, hq⟩
  | cons y rest ih =>
    obtain ⟨as, u, b, hserver, hu, hq', hx'⟩ := pickUp hq hx hawake
    obtain ⟨bs, v, hserver', hv, hempty⟩ := ih hx' Nat.one_pos hq'
    refine ⟨as ++ bs, v, fun a ha => ?_, ?_, hempty⟩
    · rcases List.mem_append.mp ha with ha | ha
      · exact hserver a ha
      · exact hserver' a ha
    · rw [exec_append, hu]
      exact hv

/-- **Exactly when work never waits for a timeout.** In no state of a run are all live servers
asleep while there is something to do, if and only if at every step somebody is left awake; and
then the servers empty the queue in the state reached without the end of any wait. -/
theorem workq_no_strand_iff {p : ℤ} (hp : 1 ≤ p) {n : ℕ} {as : List (Act α)} {s : St α}
    (hs : exec step (init α p n) as = some s) :
    (Always step NoStrand (init α p n) as ↔ Guarded step LeavesAwake (init α p n) as) ∧
    (Guarded step LeavesAwake (init α p n) as →
      ∃ bs s', (∀ b ∈ bs, Act.untimed b) ∧ exec step s bs = some s' ∧ s'.wq.queue = []) := by
  have h0 : Inv p (init α p n) ∧ NoStrand (init α p n) :=
    ⟨inv_init hp n, fun _ hw => by simp [init, workqInit] at hw⟩
  have hkept : ∀ (u : St α) a v, Inv p u ∧ NoStrand u → LeavesAwake u a → step u a = some v →
      Inv p v ∧ NoStrand v := by
    rintro u a v ⟨hi, hn⟩ hok hv
    exact ⟨inv_step hp hi hv, (noStrand_step_iff hp hi hn hv).mpr hok⟩
  constructor
  · refine always_iff_guarded (fun _ h => h.2) hkept ?_ hs h0
    rintro u a v ⟨hi, hn⟩ hok hv
    exact fun hc => hok ((noStrand_step_iff hp hi hn hv).mp hc)
  · intro hg
    obtain ⟨hi, hn⟩ := hg.invariant hs h0 hkept
    by_cases hq : s.wq.queue = []
    · exact ⟨[], s, by simp, rfl, hq⟩
    · have hpos := hi.served hq
      have hlive := hi.live
      obtain ⟨i, x, hx, hawake⟩ := exists_pos_of_total_pos (hn (by omega) (Or.inl hq))
      exact pickUp_all hx hawake

/-- The server is in the engine when the second element comes. -/
theorem workq_no_strand_iff_busy :
    ∃ s s', exec step (init ℕ 1 1) [.addCall 0 5, .addLock 0 none, .resume 1, .callEngine 1,
        .addCall 0 6, .addLock 0 none] = some s ∧ s.wq.queue = [6] ∧
      Always step NoStrand (init ℕ 1 1) [.addCall 0 5, .addLock 0 none, .resume 1, .callEngine 1,
        .addCall 0 6, .addLock 0 none] ∧
      ∃ bs, (∀ b ∈ bs, Act.untimed b) ∧ exec step s bs = some s' ∧ s'.wq.queue = [] := by
  obtain ⟨s, hs, hq⟩ : ∃ s, exec step (init ℕ 1 1) [.addCall 0 5, .addLock 0 none, .resume 1,
      .callEngine 1, .addCall 0 6, .addLock 0 none] = some s ∧ s.wq.queue = [6] := ⟨_, rfl, rfl⟩
  obtain ⟨hiff, hpick⟩ := workq_no_strand_iff (by decide) hs
  obtain ⟨bs, s', hbs⟩ := hpick (by decide)
  exact ⟨s, s', hs, hq, hiff.mpr (by decide), bs, hbs⟩

/-- The only server has gone to sleep when the second element comes. Nobody is woken. -/
theorem workq_strands :
    ∃ s, exec step (init ℕ 1 1) [.addCall 0 5, .addLock 0 none, .resume 1, .callEngine 1,
        .returnEngine 1, .resume 1, .addCall 0 6, .addLock 0 none] = some s ∧
      s.wq.queue = [6] ∧ s.thr = [.out, .wait .blocked] ∧ ¬ NoStrand s := by
  refine ⟨_, rfl, rfl, rfl, fun h => ?_⟩
  exact absurd (h (by decide) (Or.inl (by decide))) (by decide)

end LinuxSamples.WorkQueue
