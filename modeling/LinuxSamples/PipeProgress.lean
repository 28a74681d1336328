import LinuxSamples.PipeOrder

/-!
The pipeline never gets stuck while somebody waits for a result.

The argument is at the last stage that is full. If that is the tail, a caller can take the value.
Otherwise the thread of that stage can go on: nobody holds the mutex of the next stage, which is
empty. And if no stage is full, a value that was counted is still with a caller of `pipe_start`,
who can store it.
-/

namespace LinuxSamples.Pipe

open LinuxSamples.Run LinuxSamples.Tally LinuxSamples.CondVar LinuxSamples.Chain

variable {ι : Type} [Fintype ι] [DecidableEq ι] {n : ℕ}

/-- A thread of a stage, or a caller that waits at one of the ends, goes on. -/
def Act.goesOn : Act ι → Bool
  | .stageLock _ => true
  | .stageSend _ _ => true
  | .stageDone _ _ => true
  | .startSend _ _ => true
  | .resultTake _ _ => true
  | _ => false

def CanGoOn (n : ℕ) (s : St ι) : Prop := ∃ a s', Act.goesOn a ∧ step n s a = some s'

lemma pipeSend_enabled (s : St ι) (k : ℕ) (v : ℤ) : ∃ c s', pipeSend n s k v c = some s' := by
  unfold pipeSend signalAvail
  split
  · exact ⟨none, _, rfl⟩
  · obtain ⟨c, f, hf⟩ := exists_signal (Caller.atAvail false) Caller.wake s.caller
    exact ⟨c, _, by rw [hf]; rfl⟩

lemma clear_enabled (s : St ι) (k : ℕ) : ∃ c s', clear s k c = some s' := by
  unfold clear signalReady
  cases k with
  | zero =>
    obtain ⟨c, f, hf⟩ := exists_signal (Caller.atReady false) Caller.wake s.caller
    exact ⟨c, _, by rw [hf]; rfl⟩
  | succ k => exact ⟨none, _, rfl⟩

lemma stage_goesOn {s : St ι} (h : Inv n s) {k : ℕ} (hk : k < n) (hfull : s.dataReady k = true)
    (hnext : s.dataReady (k + 1) = false) : CanGoOn n s := by
  have hok := h.stages k hk
  have hfree : s.free n (k + 1) = true := by
    refine free_iff.mpr fun hlt => ?_
    by_contra hc
    have := (h.stages (k + 1) hlt).of_holds (by simpa using hc)
    simp [hnext] at this
  have hsend : ∀ v, (s.thr k).sends = some v → CanGoOn n s := by
    intro v hv
    obtain ⟨c, s', hs'⟩ := pipeSend_enabled (n := n) (s.setThr k .sent) (k + 1) v
    exact ⟨.stageSend k c, s', rfl, by simp [step, hv, hk, hfree, hnext, hs']⟩
  cases hthr : s.thr k with
  | start => exact ⟨.stageLock k, _, rfl, if_pos ⟨hk, by rw [hthr]; rfl⟩⟩
  | avail woken =>
    cases woken with
    | true => exact ⟨.stageLock k, _, rfl, if_pos ⟨hk, by rw [hthr]; rfl⟩⟩
    | false =>
      rw [hthr] at hok
      simp [hok rfl] at hfull
  | send v => exact hsend v (by rw [hthr]; rfl)
  | ready v woken =>
    cases woken with
    | true => exact hsend v (by rw [hthr]; rfl)
    | false =>
      rw [hthr] at hok
      simp [hok.2.2 rfl] at hnext
  | sent =>
    obtain ⟨c, s', hs'⟩ := clear_enabled (s.setThr k (.avail false)) k
    exact ⟨.stageDone k c, s', rfl, (if_pos ⟨hk, hthr⟩).trans hs'⟩

lemma tail_goesOn {s : St ι} (h : Inv n s) (htail : s.dataReady n = true) {i : ι}
    (hi : (s.caller i).inResult) : CanGoOn n s := by
  have htake : ∀ i, (s.caller i).takes = true → CanGoOn n s := by
    intro i hi
    obtain ⟨c, s', hs'⟩ := clear_enabled { s with
      caller := Function.update s.caller i .out, results := s.results ++ [s.data n] } n
    exact ⟨.resultTake i c, s', rfl, by simp [step, hi, htail, hs']⟩
  by_cases hb : (s.caller i).atAvail false
  · -- it sleeps, so somebody else has been woken
    have hcov := h.callers.consumers
    rw [htail] at hcov
    obtain ⟨j, hj⟩ := hcov.exists_signalled Nat.one_pos hb
    exact htake j (by cases hx : s.caller j <;> simp_all [Caller.atAvail, Caller.takes])
  · refine htake i ?_
    cases hx : s.caller i <;> simp_all [Caller.atAvail, Caller.takes, Caller.inResult]

lemma head_goesOn {s : St ι} (h : Inv n s) (hhead : s.dataReady 0 = false) {i : ι}
    (hi : (s.caller i).inStart) : CanGoOn n s := by
  have hfree : s.free n 0 = true := by
    refine free_iff.mpr fun hlt => ?_
    by_contra hc
    have := (h.stages 0 hlt).of_holds (by simpa using hc)
    simp [hhead] at this
  have hsend : ∀ i v, (s.caller i).starts = some v → CanGoOn n s := by
    intro i v hv
    obtain ⟨c, s', hs'⟩ := pipeSend_enabled (n := n) { s with
      caller := Function.update s.caller i .out, stored := s.stored ++ [v] } 0 v
    exact ⟨.startSend i c, s', rfl, by simp [step, hv, hfree, hhead, hs']⟩
  have hwoken : ∀ i, (s.caller i).atReady true → CanGoOn n s := by
    intro i hi
    cases hx : s.caller i with
    | startReady v w =>
      simp only [hx, Caller.atReady, decide_eq_true_eq] at hi
      exact hsend i v (by rw [hx, hi]; rfl)
    | _ => simp [hx, Caller.atReady] at hi
  cases hx : s.caller i with
  | start v => exact hsend i v (by rw [hx]; rfl)
  | startReady v w =>
    cases w with
    | true => exact hwoken i (by rw [hx]; rfl)
    | false =>
      have hcov := h.callers.producers
      rw [hhead] at hcov
      obtain ⟨j, hj⟩ := hcov.exists_signalled (i := i) Nat.one_pos (by rw [hx]; rfl)
      exact hwoken j hj
  | _ => simp [hx, Caller.inStart] at hi

/-- **While a caller waits for a result, some thread can go on.** -/
theorem pipe_goesOn {s : St ι} (h : Inv n s) {i : ι} (hi : (s.caller i).inResult) :
    CanGoOn n s := by
  by_cases hfull : ∃ k ≤ n, s.dataReady k = true
  · obtain ⟨k, hk, hready⟩ := hfull
    have hspec := Nat.findGreatest_spec (P := fun k => s.dataReady k = true) hk hready
    have hle : Nat.findGreatest (fun k => s.dataReady k = true) n ≤ n := Nat.findGreatest_le n
    rcases Nat.lt_or_eq_of_le hle with hlt | heq
    · refine stage_goesOn h hlt hspec ?_
      simpa using Nat.findGreatest_is_greatest (P := fun k => s.dataReady k = true)
        (Nat.lt_succ_self _) hlt
    · rw [heq] at hspec
      exact tail_goesOn h hspec hi
  · -- nothing is stored, so the value the caller was admitted for is with a caller at the head
    push Not at hfull
    have hempty : s.inPipe n = [] :=
      contents_eq_nil fun k hk => item_eq_nil (by simpa using hfull k (by omega))
    have hlen := congrArg List.length h.order
    rw [hempty, List.append_nil, List.length_map] at hlen
    have hone : 0 < count Caller.inResult s.caller := by
      rw [Nat.pos_iff_ne_zero, ne_eq, count_eq_zero_iff]
      exact fun hno => hno i hi
    have hstart : count Caller.inStart s.caller ≠ 0 := by
      have := h.callers.starting
      have := h.callers.taking
      have := h.count
      have := h.nonneg
      omega
    rw [ne_eq, count_eq_zero_iff] at hstart
    push Not at hstart
    obtain ⟨j, hj⟩ := hstart
    exact head_goesOn h (by simpa using hfull 0 (by omega)) hj

/-! ### The values -/

lemma iterate_incr (m : ℕ) (x : ℤ) : incr^[m + 1] x = long (x + (m + 1)) := by
  induction m with
  | zero => rfl
  | succ m ih =>
    rw [Function.iterate_succ_apply', ih]
    unfold incr long
    rw [Int.bmod_add_bmod]
    congr 1
    push_cast
    ring

lemma long_of_range {x : ℤ} (hlo : -2 ^ 63 ≤ x) (hhi : x < 2 ^ 63) : long x = x := by
  unfold long
  rw [Int.bmod_eq_of_le] <;> omega

/-- **The pipeline is an order-preserving lossless queue.**

The results and the values in the pipe together are the values stored at the head, in order, each
with `n` added in the arithmetic of `long`. `pipe_result` finds the pipe empty only if `active` is
0, and no more of its calls are admitted than values were started. While one of them waits, some
thread is not blocked. -/
theorem pipe_lossless_queue (hn : 1 ≤ n) {data : ℕ → ℤ} {s : St ι}
    (h : Reach (step n) (init data) s) :
    s.results ++ s.inPipe n = s.stored.map (fun x => long (x + n)) ∧
    (∀ (k : ℕ) (v : ℤ), s.results[k]? = some v → ∃ x, s.stored[k]? = some x ∧ v = long (x + n) ∧
      (-2 ^ 63 ≤ x → x + n < 2 ^ 63 → v = x + n)) ∧
    (∀ i s', step n s (.resultCall i) = some s' → s'.caller i = .empty → s.active = 0) ∧
    s.admitted ≤ s.started ∧
    (∀ i, (s.caller i).inResult → CanGoOn n s) := by
  have hi := reach_inv hn h
  have hincr : incr^[n] = fun x => long (x + n) := by
    obtain ⟨m, rfl⟩ : ∃ m, n = m + 1 := ⟨n - 1, by omega⟩
    funext x
    rw [iterate_incr]
    push_cast
    rfl
  have horder := hi.order
  rw [hincr] at horder
  refine ⟨horder, ?_, ?_, ?_, fun i hw => pipe_goesOn hi hw⟩
  · intro k v hv
    have hget : (s.stored.map fun x => long (x + n))[k]? = some v := by
      rw [← horder, List.getElem?_append_left (List.getElem?_eq_some_iff.mp hv).1]
      exact hv
    rw [List.getElem?_map] at hget
    obtain ⟨x, hx, rfl⟩ := Option.map_eq_some_iff.mp hget
    exact ⟨x, hx, rfl, fun hlo hhi => long_of_range (by omega) hhi⟩
  · intro i s' hs hempty
    have := hi.nonneg
    simp only [step, Option.ite_none_right_eq_some] at hs
    obtain ⟨-, hs⟩ := hs
    split at hs
    · omega
    · obtain rfl := Option.some.inj hs
      simp at hempty
  · have := hi.count
    have := hi.nonneg
    omega

/-- Two stages and two callers: 5 comes out as 7 while 8 is on its way and a second result is
waited for. -/
theorem pipe_lossless_queue_two_stages :
    ∃ s : St (Fin 2), exec (step 2) (init fun _ => 0) [.startCall 0 5, .startSend 0 none,
        .stageLock 0, .stageSend 0 none, .stageDone 0 none, .stageLock 1, .stageSend 1 none,
        .stageDone 1 none, .startCall 0 8, .startSend 0 none, .resultCall 1, .resultTake 1 none,
        .resultCall 1, .resultTake 1 none] = some s ∧
      s.stored = [5, 8] ∧ s.results = [7] ∧ s.inPipe 2 = [10] ∧
      s.caller 1 = .resultAvail false ∧ CanGoOn 2 s := by
  obtain ⟨s, hs, hstored, hresults, hpipe, hcaller⟩ :
      ∃ s : St (Fin 2), exec (step 2) (init fun _ => 0) [.startCall 0 5, .startSend 0 none,
        .stageLock 0, .stageSend 0 none, .stageDone 0 none, .stageLock 1, .stageSend 1 none,
        .stageDone 1 none, .startCall 0 8, .startSend 0 none, .resultCall 1, .resultTake 1 none,
        .resultCall 1, .resultTake 1 none] = some s ∧
      s.stored = [5, 8] ∧ s.results = [7] ∧ s.inPipe 2 = [10] ∧
      s.caller 1 = .resultAvail false := ⟨_, rfl, rfl, rfl, rfl, rfl⟩
  have h := pipe_lossless_queue (by decide) ⟨_, hs⟩
  exact ⟨s, hs, hstored, hresults, hpipe, hcaller, h.2.2.2.2 1 (by rw [hcaller]; rfl)⟩

end LinuxSamples.Pipe
