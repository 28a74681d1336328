import LinuxSamples.WorkQueueOnce

/-!
What becomes of the elements of a work queue.

From every reachable state the servers alone can empty the queue and finish all calls of the
engine. And when a `workq_destroy` issued after the last `workq_add` returns, that is what has
happened, and no server is left.
-/

namespace LinuxSamples.WorkQueue

open LinuxSamples.Run LinuxSamples.CondVar LinuxSamples.Pool

variable {α : Type}

/-- All elements have gone through the engine. -/
def St.Finished (s : St α) : Prop := s.wq.queue = [] ∧ (s.returned : Multiset α) = s.added

lemma Inv.finished {p : ℤ} {s : St α} (h : Inv p s) (hq : s.wq.queue = [])
    (hidle : ∀ x ∈ s.thr, x.held = 0 ∧ x.inEngine = 0) : s.Finished := by
  have hzero : ∀ g : Thr α → Multiset α, (∀ x ∈ s.thr, g x = 0) → total g s.thr = 0 :=
    fun g hg => List.sum_eq_zero (by simpa using hg)
  refine ⟨hq, ?_⟩
  calc (s.returned : Multiset α)
      = s.called := by rw [← h.returns, hzero _ fun x hx => (hidle x hx).2, add_zero]
    _ = s.taken := by rw [← h.calls, hzero _ fun x hx => (hidle x hx).1, add_zero]
    _ = s.added := by rw [← h.order, hq, List.append_nil]

/-! ### Draining -/

def Act.ofServer : Act α → Bool
  | .resume _ => true
  | .callEngine _ => true
  | .returnEngine _ => true
  | .timeout _ => true
  | _ => false

/-- How much a server has still to do with its element. -/
def Thr.work : Thr α → ℕ
  | .took _ _ => 2
  | .engine _ _ => 1
  | _ => 0

def St.work (s : St α) : ℕ := 3 * s.wq.queue.length + total Thr.work s.thr

lemma serverSection_take {wq : Wq α} {y : α} {rest : List α} (hq : wq.queue = y :: rest)
    {x : Thr α} (hlive : 0 < x.live) (hwork : x.work = 0) (hz : x ≠ .wait .blocked) :
    ∃ b, serverSection wq x = some ({ wq with queue := rest }, false, .took y b) := by
  cases x with
  | start => exact ⟨false, by simp [serverSection, serverTop, hq]⟩
  | wait z =>
    cases z with
    | blocked => exact absurd rfl hz
    | woken => exact ⟨false, by simp [serverSection, serverTop, hq]⟩
    | timedout => exact ⟨true, by simp [serverSection, serverTimedout, hq]⟩
  | back timedout => exact ⟨false, by simp [serverSection, serverBack, serverTop, hq]⟩
  | took x timedout => cases hwork
  | engine x timedout => cases hwork
  | _ => exact absurd hlive (by simp [Thr.live])

lemma drain_take {s : St α} {y : α} {rest : List α} (hq : s.wq.queue = y :: rest) {i : ℕ}
    {x : Thr α} (hx : s.thr[i]? = some x) (hlive : 0 < x.live) (hwork : x.work = 0)
    (hz : x ≠ .wait .blocked) :
    ∃ s' b, step s (.resume i) = some s' ∧ s'.wq.queue = rest ∧ s'.thr[i]? = some (.took y b) ∧
      s'.work < s.work ∧ s'.added = s.added := by
  obtain ⟨b, hsec⟩ := serverSection_take hq hlive hwork hz
  have hne : x ≠ .destroyWait true := by
    rintro rfl
    cases hlive
  refine ⟨⟨{ s.wq with queue := rest }, s.thr.set i (.took y b), s.added,
    s.taken ++ [y], s.called, s.returned⟩, b, ?_, rfl, ?_, ?_, rfl⟩
  · simp only [step, hx]
    rw [hsec]
    rfl
  · exact List.getElem?_set_self (List.getElem?_eq_some_iff.mp hx).1
  · have htotal := total_set Thr.work hx (.took y b)
    rw [hwork] at htotal
    simp only [Thr.work] at htotal
    simp only [St.work, hq, List.length_cons]
    omega

lemma drain_step {p : ℤ} {s : St α} (h : Inv p s) (hwork : 0 < s.work) :
    ∃ as s', (∀ a ∈ as, Act.ofServer a) ∧ exec step s as = some s' ∧ s'.work < s.work ∧
      s'.added = s.added := by
  rcases Nat.eq_zero_or_pos (total Thr.work s.thr) with hrest | hbusy
  · -- nobody has an element, so one is in the queue and a live server can take it
    obtain ⟨y, rest, hq⟩ : ∃ y rest, s.wq.queue = y :: rest :=
      List.exists_cons_of_ne_nil fun hc => by simp [St.work, hc, hrest] at hwork
    have hpos := h.served (by simp [hq])
    have hlive := h.live
    obtain ⟨i, x, hx, hxlive⟩ := exists_pos_of_total_pos (g := Thr.live) (l := s.thr)
      (by unfold St.servers at hlive; omega)
    have hxwork := eq_zero_of_total_eq_zero hrest (List.mem_of_getElem? hx)
    by_cases hz : x = .wait .blocked
    · subst hz
      have hlt : i < s.thr.length := (List.getElem?_eq_some_iff.mp hx).1
      obtain ⟨s', b, hs', -, -, hless, hadd⟩ := drain_take
        (s := { s with thr := s.thr.set i (.wait .timedout) }) (x := .wait .timedout) hq
        (List.getElem?_set_self hlt) Nat.one_pos rfl (by simp)
      refine ⟨[.timeout i, .resume i], s', by simp [Act.ofServer], ?_, ?_, hadd⟩
      · rw [exec_cons]
        simp only [step, hx, reduceCtorEq, if_false, Option.bind_some]
        rw [exec_cons, hs']
        rfl
      · have htotal := total_set_eq Thr.work hx (y := .wait .timedout) rfl
        simp only [St.work, htotal] at hless ⊢
        exact hless
    · obtain ⟨s', b, hs', -, -, hless, hadd⟩ := drain_take hq hx hxlive hxwork hz
      exact ⟨[.resume i], s', by simp [Act.ofServer], by rw [exec_cons, hs']; rfl, hless, hadd⟩
  · obtain ⟨i, x, hx, hxwork⟩ := exists_pos_of_total_pos hbusy
    cases x with
    | took y timedout =>
      refine ⟨[.callEngine i], { s with
          thr := s.thr.set i (.engine y timedout), called := s.called ++ [y] },
        by simp [Act.ofServer], by simp [exec_cons, step, hx], ?_, rfl⟩
      have htotal := total_set Thr.work hx (.engine y timedout)
      simp only [Thr.work] at htotal
      simp only [St.work]
      omega
    | engine y timedout =>
      refine ⟨[.returnEngine i], { s with
          thr := s.thr.set i (.back timedout), returned := s.returned ++ [y] },
        by simp [Act.ofServer], by simp [exec_cons, step, hx], ?_, rfl⟩
      have htotal := total_set Thr.work hx (.back timedout)
      simp only [Thr.work] at htotal
      simp only [St.work]
      omega
    | _ => cases hxwork

/-- **The servers can finish everything that was added.** -/
theorem drain {p : ℤ} (hp : 1 ≤ p) {s : St α} (h : Inv p s) :
    ∃ as s', (∀ a ∈ as, Act.ofServer a) ∧ exec step s as = some s' ∧ s'.Finished ∧
      s'.added = s.added := by
  obtain ⟨as, t, hserver, hexec, hzero, hi, hadded⟩ := exists_exec_rank_eq_zero
    (K := fun a => Act.ofServer a) (I := fun u => Inv p u ∧ u.added = s.added) (r := St.work)
    (fun u hu hpos => by
      obtain ⟨as, v, hserver, hv, hless, hadd⟩ := drain_step hu.1 hpos
      have hinv : Inv p v := Reach.invariant ⟨as, hv⟩ hu.1 fun _ _ _ hi hs => inv_step hp hi hs
      exact ⟨as, v, hserver, hv, hless, hinv, hadd.trans hu.2⟩)
    ⟨h, rfl⟩
  unfold St.work at hzero
  refine ⟨as, t, hserver, hexec, hi.finished ?_ fun x hx => ?_, hadded⟩
  · exact List.length_eq_zero_iff.mp (by omega)
  · have hxwork : x.work = 0 := eq_zero_of_total_eq_zero (by omega) hx
    cases x <;> first | exact ⟨rfl, rfl⟩ | cases hxwork

/-! ### Destroying -/

/-- No call of `workq_add` is behind its test of `valid`. -/
def St.NoAdder (s : St α) : Prop := ∀ x ∈ s.thr, ¬ x.inAdd

instance (s : St α) : Decidable s.NoAdder := inferInstanceAs (Decidable (∀ x ∈ s.thr, ¬ x.inAdd))

/-- Nobody adds, and if the call of thread `t` has left its loop, no server is live. -/
structure Closing (t : ℕ) (s : St α) : Prop where
  noAdder : s.NoAdder
  left : s.thr[t]? = some .leaving → s.wq.counter = 0

lemma noAdder_set {l : List (Thr α)} (h : ∀ x ∈ l, ¬ x.inAdd) {y : Thr α} (hy : ¬ y.inAdd)
    (u : ℕ) : ∀ x ∈ l.set u y, ¬ x.inAdd := by
  intro x hx
  rcases List.mem_or_eq_of_mem_set hx with hx | rfl
  · exact h x hx
  · exact hy

lemma noAdder_move {s : St α} (h : s.NoAdder) {y : Thr α} (hy : ¬ y.inAdd) (u : ℕ) (wake : Bool) :
    ∀ x ∈ s.move u y wake, ¬ x.inAdd := by
  unfold St.move
  split
  · refine noAdder_set (fun x hx => ?_) hy u
    obtain ⟨z, hz, rfl⟩ := List.mem_map.mp hx
    split
    · rw [inAdd_wake]
      exact h z hz
    · exact h z hz
  · exact noAdder_set h hy u

lemma eq_leaving_of_wake {x : Thr α} (h : x.wake = .leaving) : x = .leaving := by
  cases x <;> first | rfl | cases h

lemma leaving_set {l : List (Thr α)} {t u : ℕ} {y : Thr α}
    (h : (l.set u y)[t]? = some .leaving) : y = .leaving ∨ l[t]? = some .leaving := by
  by_cases hut : u = t
  · subst hut
    rw [List.getElem?_set_self'] at h
    obtain ⟨_, -, hy⟩ := Option.map_eq_some_iff.mp h
    exact Or.inl hy
  · rw [List.getElem?_set_ne hut] at h
    exact Or.inr h

lemma leaving_move {s : St α} {t u : ℕ} {y : Thr α} {wake : Bool}
    (h : (s.move u y wake)[t]? = some .leaving) : y = .leaving ∨ s.thr[t]? = some .leaving := by
  unfold St.move at h
  split at h
  · rcases leaving_set h with hy | hl
    · exact Or.inl hy
    · rw [Pool.broadcast, List.getElem?_map] at hl
      obtain ⟨x, hx, hw⟩ := Option.map_eq_some_iff.mp hl
      right
      rw [hx]
      split at hw
      · rw [eq_leaving_of_wake hw]
      · rw [hw]
  · exact leaving_set h

lemma Inv.counter_pos {p : ℤ} {s : St α} (h : Inv p s) {u : ℕ} {x : Thr α}
    (hx : s.thr[u]? = some x) (hlive : x.live = 1) : 0 < s.wq.counter := by
  have hl := h.live
  by_contra hc
  have hzero : total Thr.live s.thr = 0 := by unfold St.servers at hl; omega
  have := eq_zero_of_total_eq_zero hzero (List.mem_of_getElem? hx)
  omega

lemma Inv.counter_nonneg {p : ℤ} {s : St α} (h : Inv p s) : 0 ≤ s.wq.counter := by
  rw [← h.live]
  exact Int.natCast_nonneg _

lemma closing_step {p : ℤ} {t : ℕ} {s s' : St α} {a : Act α} (hi : Inv p s) (h : Closing t s)
    (ha : ∀ u x, a ≠ .addCall u x) (hs : step s a = some s') : Closing t s' := by
  -- a thread moves to a place that is neither in `workq_add` nor behind the loop
  have hmove : ∀ (u : ℕ) (y : Thr α), ¬ y.inAdd → y ≠ .leaving →
      (∀ x ∈ s.thr.set u y, ¬ x.inAdd) ∧
      ((s.thr.set u y)[t]? = some .leaving → s.wq.counter = 0) :=
    fun u y hy hy' => ⟨noAdder_set h.noAdder hy u,
      fun hl => h.left ((leaving_set hl).resolve_left hy')⟩
  have hloop : ∀ u, (∀ x ∈ s.thr.set u (destroyLoop s.wq), ¬ x.inAdd) ∧
      ((s.thr.set u (destroyLoop s.wq))[t]? = some .leaving → s.wq.counter = 0) := by
    intro u
    unfold destroyLoop
    split
    · exact hmove u _ Bool.false_ne_true (by simp)
    · next hc =>
      have := hi.counter_nonneg
      exact ⟨noAdder_set h.noAdder (y := .leaving) Bool.false_ne_true u, fun _ => by omega⟩
  cases step_cases hs with
  | addCall => exact absurd rfl (ha _ _)
  | addInvalid => exact h
  | addSignal hx => exact absurd rfl (h.noAdder _ (List.mem_of_getElem? hx))
  | addCreate hx => exact absurd rfl (h.noAdder _ (List.mem_of_getElem? hx))
  | addFull hx => exact absurd rfl (h.noAdder _ (List.mem_of_getElem? hx))
  | @destroyCall u =>
    obtain ⟨h1, h2⟩ := hmove u .destroying Bool.false_ne_true (by simp)
    exact ⟨h1, h2⟩
  | destroyInvalid => exact h
  | @destroyLock u =>
    rw [workqDestroy_eq hi.idle]
    obtain ⟨h1, h2⟩ := hloop u
    exact ⟨h1, h2⟩
  | @destroyReturn u =>
    obtain ⟨h1, h2⟩ := hmove u .out Bool.false_ne_true (by simp)
    exact ⟨h1, h2⟩
  | @destroyLoop u =>
    obtain ⟨h1, h2⟩ := hloop u
    exact ⟨h1, h2⟩
  | @serve u x r hx hr =>
    obtain ⟨hlive, -, -, -, hcases⟩ := serverSection_cases hr
    have hpos := hi.counter_pos hx hlive
    have hout : ¬ r.2.2.inAdd ∧ r.2.2 ≠ .leaving := by
      rcases hcases with ⟨-, -, rfl⟩ | ⟨y, rest, b, -, rfl⟩ | ⟨-, ⟨-, rfl⟩ | ⟨-, rfl⟩⟩ <;>
        exact ⟨Bool.false_ne_true, by simp [serverQuit, serverExpire]⟩
    refine ⟨noAdder_move h.noAdder hout.1 u r.2.1, fun hl => ?_⟩
    have := h.left ((leaving_move hl).resolve_left hout.2)
    omega
  | @callEngine u x timedout =>
    obtain ⟨h1, h2⟩ := hmove u (.engine x timedout) Bool.false_ne_true (by simp)
    exact ⟨h1, h2⟩
  | @returnEngine u x timedout =>
    obtain ⟨h1, h2⟩ := hmove u (.back timedout) Bool.false_ne_true (by simp)
    exact ⟨h1, h2⟩
  | @spurious u x hx hb =>
    have hnl : x.wake ≠ .leaving := by
      intro hl
      rw [eq_leaving_of_wake hl] at hb
      cases hb
    obtain ⟨h1, h2⟩ := hmove u x.wake
      (by rw [inAdd_wake]; exact h.noAdder x (List.mem_of_getElem? hx)) hnl
    exact ⟨h1, h2⟩
  | @timeout u =>
    obtain ⟨h1, h2⟩ := hmove u (.wait .timedout) Bool.false_ne_true (by simp)
    exact ⟨h1, h2⟩

lemma closing_exec {p : ℤ} (hp : 1 ≤ p) {t : ℕ} {s s' : St α} {as : List (Act α)} (hi : Inv p s)
    (h : Closing t s) (ha : ∀ u x, .addCall u x ∉ as) (hs : exec step s as = some s') :
    Inv p s' ∧ Closing t s' := by
  have hg : Guarded step (fun _ a => ∀ u x, a ≠ Act.addCall u x) s as :=
    Guarded.of_forall (fun a hmem _ u x heq => ha u x (by rwa [heq] at hmem)) s
  refine hg.invariant (I := fun s => Inv p s ∧ Closing t s) hs ⟨hi, h⟩ ?_
  rintro u a v ⟨hu, hcl⟩ hne hv
  exact ⟨inv_step hp hu hv, closing_step hu hcl hne hv⟩

/-- **When `workq_destroy` returns, everything is done**, if it was issued after the last
`workq_add`. -/
lemma destroy_done {p : ℤ} (hp : 1 ≤ p) {s s' s'' : St α} (hi : Inv p s) (hno : s.NoAdder)
    {t : ℕ} {as : List (Act α)} (ha : ∀ u x, .addCall u x ∉ as)
    (hs : exec step s (.destroyCall t :: as) = some s')
    (hret : step s' (.destroyReturn t) = some s'') :
    s''.Finished ∧ s''.servers = 0 := by
  have hout : s.thr[t]? = some .out := by
    rw [exec_cons] at hs
    obtain ⟨u, hu, -⟩ := Option.bind_eq_some_iff.mp hs
    cases step_cases hu with
    | destroyCall hx => exact hx
    | destroyInvalid hx => exact hx
  have hcl : Closing t s := ⟨hno, fun hl => by simp [hout] at hl⟩
  obtain ⟨hi', hcl'⟩ := closing_exec hp hi hcl (by simpa using ha) hs
  have hi'' := inv_step hp hi' hret
  cases step_cases hret with
  | destroyReturn hx =>
    have hzero := hcl'.left hx
    have hlive := hi''.live
    have hnone : total Thr.live (s'.thr.set t .out) = 0 := by
      unfold St.servers at hlive
      simp only at hlive
      omega
    have hq : s'.wq.queue = [] := by
      by_contra hc
      have := hi'.served hc
      omega
    refine ⟨hi''.finished hq fun x hmem => ?_, hnone⟩
    have hxlive : x.live = 0 := eq_zero_of_total_eq_zero hnone hmem
    cases x <;> first | exact ⟨rfl, rfl⟩ | cases hxlive

/-- **The work queue executes every element exactly once.**

The elements are dequeued in the order of the appends, and each of them is in one place: in
the queue, with a server, in the engine or finished. `counter` is the number of live servers, at
most `p`, and it is positive while the queue is not empty. The servers alone can always finish
everything that was added; and when a `workq_destroy` that was issued while no `workq_add` was
under way, and followed by none, gets to its return, they have done so and are gone. -/
theorem workq_executes_once {p : ℤ} (hp : 1 ≤ p) {n : ℕ} {s : St α}
    (h : Reach step (init α p n) s) :
    s.taken ++ s.wq.queue = s.added ∧
    (s.called : Multiset α) + total Thr.held s.thr = s.taken ∧
    (s.returned : Multiset α) + total Thr.inEngine s.thr = s.called ∧
    (s.servers : ℤ) = s.wq.counter ∧ s.wq.counter ≤ p ∧
    (s.wq.queue ≠ [] → 0 < s.wq.counter) ∧
    (∃ as s', (∀ a ∈ as, Act.ofServer a) ∧ exec step s as = some s' ∧ s'.Finished ∧
      s'.added = s.added) ∧
    (∀ t as s' s'', s.NoAdder → (∀ u x, .addCall u x ∉ as) →
      exec step s (.destroyCall t :: as) = some s' → step s' (.destroyReturn t) = some s'' →
      s''.Finished ∧ s''.servers = 0) := by
  have hi := reach_inv hp h
  refine ⟨hi.order, hi.calls, hi.returns, hi.live, hi.le, hi.served, drain hp hi, ?_⟩
  intro t as s' s'' hno hadd hs hret
  exact destroy_done hp hi hno hadd hs hret

/-- Two callers and two servers, one of them still with its element. -/
def busyRun : List (Act ℕ) :=
  [.addCall 0 5, .addLock 0 none, .addCall 1 6, .addLock 1 none, .resume 2, .resume 3,
    .callEngine 2, .returnEngine 2]

theorem workq_executes_once_busy :
    ∃ s s' s'', exec step (init ℕ 2 2) busyRun = some s ∧ s.added = [5, 6] ∧ s.returned = [5] ∧
      s.wq.counter = 2 ∧ s.wq.counter ≤ 2 ∧
      exec step s [.destroyCall 0, .destroyLock 0, .resume 2, .callEngine 3, .returnEngine 3,
        .resume 3, .resume 0] = some s' ∧
      step s' (.destroyReturn 0) = some s'' ∧ s''.Finished ∧ s''.servers = 0 := by
  obtain ⟨s, hs, hno, hadded, hreturned, hcounter, s', hs', s'', hs''⟩ :
      ∃ s, exec step (init ℕ 2 2) busyRun = some s ∧ s.NoAdder ∧ s.added = [5, 6] ∧
        s.returned = [5] ∧ s.wq.counter = 2 ∧
        ∃ s', exec step s [.destroyCall 0, .destroyLock 0, .resume 2, .callEngine 3,
          .returnEngine 3, .resume 3, .resume 0] = some s' ∧
        ∃ s'', step s' (.destroyReturn 0) = some s'' :=
    ⟨_, rfl, by decide, rfl, rfl, rfl, _, rfl, _, rfl⟩
  obtain ⟨-, -, -, -, hle, -, -, hdestroy⟩ := workq_executes_once (by decide) ⟨busyRun, hs⟩
  exact ⟨s, s', s'', hs, hadded, hreturned, hcounter, hle, hs', hs'',
    hdestroy 0 _ s' s'' hno (by simp) hs' hs''⟩

end LinuxSamples.WorkQueue
