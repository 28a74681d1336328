import LinuxSamples.WorkQueue

/-!
The work queue executes every element once.

`counter` is the number of live servers, and a server leaves only when it finds the queue
empty; so while there is something in the queue there is somebody to serve it. An element
goes from the queue to one server, into one call of the engine, and out of it.
-/

namespace LinuxSamples.WorkQueue

open LinuxSamples.Run LinuxSamples.CondVar LinuxSamples.Pool

variable {α : Type}

def Thr.live : Thr α → ℕ
  | .start => 1
  | .wait _ => 1
  | .took _ _ => 1
  | .engine _ _ => 1
  | .back _ => 1
  | _ => 0

/-- The element a server is about to pass to the engine. -/
def Thr.held : Thr α → Multiset α
  | .took x _ => {x}
  | _ => 0

/-- The element a server has passed to the engine, which has not returned. -/
def Thr.inEngine : Thr α → Multiset α
  | .engine x _ => {x}
  | _ => 0

/-- A caller behind the test of `valid` in `workq_add`. -/
def Thr.inAdd : Thr α → Bool
  | .adding _ => true
  | _ => false

def St.servers (s : St α) : ℕ := total Thr.live s.thr

structure Inv (p : ℤ) (s : St α) : Prop where
  parallelism : s.wq.parallelism = p
  idle : s.wq.idle = 0
  live : (s.servers : ℤ) = s.wq.counter
  le : s.wq.counter ≤ p
  served : s.wq.queue ≠ [] → 0 < s.wq.counter
  order : s.taken ++ s.wq.queue = s.added
  calls : (s.called : Multiset α) + total Thr.held s.thr = s.taken
  returns : (s.returned : Multiset α) + total Thr.inEngine s.thr = s.called

lemma inv_init {p : ℤ} (hp : 1 ≤ p) (n : ℕ) : Inv p (init α p n) := by
  have hzero : ∀ {M : Type} [AddCommMonoid M] (g : Thr α → M), g .out = 0 →
      total g (List.replicate n .out) = 0 := by
    intro M _ g hg
    simp [total, hg]
  refine ⟨rfl, rfl, ?_, ?_, fun h => absurd rfl h, rfl, ?_, ?_⟩
  · simp [init, St.servers, hzero Thr.live rfl, workqInit]
  · show (0 : ℤ) ≤ p
    omega
  · simp [init, hzero Thr.held rfl]
  · simp [init, hzero Thr.inEngine rfl]

/-! ### The sections -/

lemma live_wake (x : Thr α) : x.wake.live = x.live := by cases x <;> rfl

lemma held_wake (x : Thr α) : x.wake.held = x.held := by cases x <;> rfl

lemma inEngine_wake (x : Thr α) : x.wake.inEngine = x.inEngine := by cases x <;> rfl

lemma inAdd_wake (x : Thr α) : x.wake.inAdd = x.inAdd := by cases x <;> rfl

lemma total_move {M : Type*} [AddCommMonoid M] {g : Thr α → M} (hg : ∀ x, g x.wake = g x)
    {s : St α} {t : ℕ} {x : Thr α} (h : s.thr[t]? = some x) (y : Thr α) (wake : Bool) :
    total g (s.move t y wake) + g x = total g s.thr + g y := by
  unfold St.move
  split
  · have hget : (Pool.broadcast Thr.blocked Thr.wake s.thr)[t]? =
        some (if x.blocked then x.wake else x) := by
      simp [Pool.broadcast, h]
    have hx : g (if x.blocked then x.wake else x) = g x := by
      split
      · exact hg x
      · rfl
    rw [← hx, total_set g hget, total_broadcast g fun x _ => hg x]
  · exact total_set g h y

/-- **What a section of a server does**: it waits again on an empty queue, takes the first
element, or shuts down on an empty queue. -/
lemma serverSection_cases {wq : Wq α} {x : Thr α} {r : Section α}
    (h : serverSection wq x = some r) :
    x.live = 1 ∧ x.held = 0 ∧ x.inEngine = 0 ∧ x.inAdd = false ∧
    (wq.queue = [] ∧ wq.quit = false ∧ r = (wq, false, .wait .blocked) ∨
      (∃ y rest timedout, wq.queue = y :: rest ∧
        r = ({ wq with queue := rest }, false, .took y timedout)) ∨
      wq.queue = [] ∧ (wq.quit = true ∧ r = serverQuit wq ∨
        wq.quit = false ∧ r = serverExpire wq)) := by
  have htop : ∀ r, serverTop wq = r → wq.queue = [] ∧ wq.quit = false ∧
      r = (wq, false, .wait .blocked) ∨
      (∃ y rest timedout, wq.queue = y :: rest ∧
        r = ({ wq with queue := rest }, false, .took y timedout)) ∨
      wq.queue = [] ∧ (wq.quit = true ∧ r = serverQuit wq ∨
        wq.quit = false ∧ r = serverExpire wq) := by
    rintro r rfl
    unfold serverTop
    split
    · next hq =>
      cases hquit : wq.quit with
      | true => exact Or.inr (Or.inr ⟨hq, Or.inl ⟨rfl, by simp⟩⟩)
      | false => exact Or.inl ⟨hq, rfl, by simp⟩
    · next y rest hq => exact Or.inr (Or.inl ⟨y, rest, false, hq, rfl⟩)
  unfold serverSection at h
  split at h
  · exact ⟨rfl, rfl, rfl, rfl, htop r (Option.some.inj h)⟩
  · exact ⟨rfl, rfl, rfl, rfl, htop r (Option.some.inj h)⟩
  · refine ⟨rfl, rfl, rfl, rfl, ?_⟩
    obtain rfl := Option.some.inj h
    unfold serverTimedout
    split
    · next hq =>
      cases hquit : wq.quit with
      | true => exact Or.inr (Or.inr ⟨hq, Or.inl ⟨rfl, by simp⟩⟩)
      | false => exact Or.inr (Or.inr ⟨hq, Or.inr ⟨rfl, by simp⟩⟩)
    · next y rest hq => exact Or.inr (Or.inl ⟨y, rest, true, hq, rfl⟩)
  · next timedout =>
    refine ⟨rfl, rfl, rfl, rfl, ?_⟩
    have hr := Option.some.inj h
    unfold serverBack at hr
    split at hr
    · next hq => exact Or.inr (Or.inr ⟨hq.1, Or.inl ⟨hq.2, hr.symm⟩⟩)
    · next hnq =>
      split at hr
      · next hq =>
        have hquit : wq.quit = false := by
          by_contra hc
          exact hnq ⟨hq.1, by simpa using hc⟩
        exact Or.inr (Or.inr ⟨hq.1, Or.inr ⟨hquit, hr.symm⟩⟩)
      · exact htop r hr
  · cases h

lemma destroyLoop_idle (wq : Wq α) :
    (destroyLoop wq).live = 0 ∧ (destroyLoop wq).held = 0 ∧ (destroyLoop wq).inEngine = 0 := by
  unfold destroyLoop
  split <;> exact ⟨rfl, rfl, rfl⟩

lemma workqDestroy_eq {wq : Wq α} (hidle : wq.idle = 0) :
    workqDestroy wq =
      ({ wq with valid := 0, quit := if wq.counter > 0 then true else wq.quit }, false,
        destroyLoop wq) := by
  by_cases hc : wq.counter > 0 <;> simp [workqDestroy, destroyLoop, hc, hidle]

lemma Inv.moveThread {p : ℤ} {s : St α} (h : Inv p s) {t : ℕ} {x y : Thr α}
    (hx : s.thr[t]? = some x) (hl : y.live = x.live) (hh : y.held = x.held)
    (he : y.inEngine = x.inEngine) : Inv p { s with thr := s.thr.set t y } where
  parallelism := h.parallelism
  idle := h.idle
  live := by
    have hlive := h.live
    unfold St.servers at hlive ⊢
    rwa [total_set_eq _ hx hl]
  le := h.le
  served := h.served
  order := h.order
  calls := by
    rw [total_set_eq _ hx hh]
    exact h.calls
  returns := by
    rw [total_set_eq _ hx he]
    exact h.returns

lemma Inv.serve {p : ℤ} {s : St α} (h : Inv p s) {t : ℕ} {x : Thr α} (hx : s.thr[t]? = some x)
    {r : Section α} (hr : serverSection s.wq x = some r) :
    Inv p { s with
      wq := r.1, thr := s.move t r.2.2 r.2.1, taken := s.taken ++ r.2.2.dequeued } := by
  obtain ⟨hlive, hheld, heng, -, hcases⟩ := serverSection_cases hr
  have hl := total_move live_wake hx r.2.2 r.2.1
  have hh := total_move held_wake hx r.2.2 r.2.1
  have he := total_move inEngine_wake hx r.2.2 r.2.1
  rw [hlive] at hl
  rw [hheld, add_zero] at hh
  rw [heng, add_zero] at he
  have hl0 := h.live
  unfold St.servers at hl0
  rcases hcases with ⟨hq, -, rfl⟩ | ⟨y, rest, timedout, hq, rfl⟩ | ⟨hq, hleave⟩
  · refine ⟨h.parallelism, h.idle, ?_, h.le, h.served, ?_, ?_, ?_⟩
    · simp only [Thr.live] at hl
      simp only [St.servers]
      omega
    · simpa [Thr.dequeued] using h.order
    · rw [hh]
      simpa [Thr.dequeued, Thr.held] using h.calls
    · rw [he]
      simpa [Thr.inEngine] using h.returns
  · have hpos := h.served (by simp [hq])
    refine ⟨h.parallelism, h.idle, ?_, h.le, fun _ => hpos, ?_, ?_, ?_⟩
    · simp only [Thr.live] at hl
      simp only [St.servers]
      omega
    · have horder := h.order
      rw [hq] at horder
      simpa [Thr.dequeued] using horder
    · simp only [Thr.held] at hh
      rw [hh, ← add_assoc, h.calls]
      exact Multiset.coe_add _ _
    · rw [he]
      simpa [Thr.inEngine] using h.returns
  · have hgone : r.1 = { s.wq with counter := s.wq.counter - 1 } ∧ r.2.2 = .gone := by
      rcases hleave with ⟨-, rfl⟩ | ⟨-, rfl⟩ <;> exact ⟨rfl, rfl⟩
    rw [hgone.2] at hl hh he ⊢
    rw [hgone.1]
    refine ⟨h.parallelism, h.idle, ?_, ?_, fun hne => absurd hq hne, ?_, ?_, ?_⟩
    · simp only [Thr.live] at hl
      simp only [St.servers]
      omega
    · have := h.le
      show s.wq.counter - 1 ≤ p
      omega
    · simpa [Thr.dequeued] using h.order
    · rw [hh]
      simpa [Thr.dequeued, Thr.held] using h.calls
    · rw [he]
      simpa [Thr.inEngine] using h.returns

lemma inv_step {p : ℤ} (hp : 1 ≤ p) {s s' : St α} {a : Act α} (h : Inv p s)
    (hs : step s a = some s') : Inv p s' := by
  cases step_cases hs with
  | addCall hx => exact h.moveThread hx rfl rfl rfl
  | addInvalid => exact h
  | addSignal hx hidle =>
    rw [h.idle] at hidle
    omega
  | addCreate hx hroom =>
    have hl := total_set_eq Thr.live hx (y := .out) rfl
    have hh := total_set_eq Thr.held hx (y := .out) rfl
    have he := total_set_eq Thr.inEngine hx (y := .out) rfl
    have hl0 := h.live
    have hp0 := h.parallelism
    unfold St.servers at hl0
    refine ⟨h.parallelism, h.idle, ?_, ?_, fun _ => ?_, ?_, ?_, ?_⟩
    · simp only [St.servers, total_append, total_singleton, hl, Thr.live]
      push_cast
      omega
    · show s.wq.counter + 1 ≤ p
      omega
    · show 0 < s.wq.counter + 1
      omega
    · rw [← List.append_assoc, h.order]
    · simp only [total_append, total_singleton, hh, Thr.held, add_zero]
      exact h.calls
    · simp only [total_append, total_singleton, he, Thr.inEngine, add_zero]
      exact h.returns
  | addFull hx hroom =>
    have hm := h.moveThread hx (y := .out) rfl rfl rfl
    have hp0 := h.parallelism
    refine ⟨hm.parallelism, hm.idle, hm.live, hm.le, fun _ => ?_, ?_, hm.calls, hm.returns⟩
    · show 0 < s.wq.counter
      omega
    · rw [← List.append_assoc, h.order]
  | destroyCall hx => exact h.moveThread hx rfl rfl rfl
  | destroyInvalid => exact h
  | destroyLock hx =>
    obtain ⟨hl, hh, he⟩ := destroyLoop_idle s.wq
    have hm := h.moveThread hx (y := WorkQueue.destroyLoop s.wq) hl hh he
    rw [workqDestroy_eq h.idle]
    exact ⟨hm.parallelism, hm.idle, hm.live, hm.le, hm.served, hm.order, hm.calls, hm.returns⟩
  | destroyReturn hx => exact h.moveThread hx rfl rfl rfl
  | destroyLoop hx =>
    obtain ⟨hl, hh, he⟩ := destroyLoop_idle s.wq
    exact h.moveThread hx hl hh he
  | serve hx hr => exact h.serve hx hr
  | @callEngine t x timedout hx =>
    have hl := total_set_eq Thr.live hx (y := .engine x timedout) rfl
    refine ⟨h.parallelism, h.idle, ?_, h.le, h.served, h.order, release h.calls hx rfl rfl,
      acquire h.returns hx rfl rfl⟩
    simp only [St.servers, hl]
    exact h.live
  | @returnEngine t x timedout hx =>
    have hl := total_set_eq Thr.live hx (y := .back timedout) rfl
    have hh := total_set_eq Thr.held hx (y := .back timedout) rfl
    refine ⟨h.parallelism, h.idle, ?_, h.le, h.served, h.order, ?_, release h.returns hx rfl rfl⟩
    · simp only [St.servers, hl]
      exact h.live
    · rw [hh]
      exact h.calls
  | @spurious t x hx =>
    exact h.moveThread hx (live_wake x) (held_wake x) (inEngine_wake x)
  | timeout hx => exact h.moveThread hx rfl rfl rfl

lemma reach_inv {p : ℤ} (hp : 1 ≤ p) {n : ℕ} {s : St α} (h : Reach step (init α p n) s) :
    Inv p s :=
  h.invariant (inv_init hp n) fun _ _ _ hi hs => inv_step hp hi hs

end LinuxSamples.WorkQueue
