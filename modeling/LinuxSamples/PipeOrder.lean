import LinuxSamples.Pipe

/-!
The pipeline is a queue.

The stages form a chain of cells. A value is in the cell of its stage from the store until its
thread has passed it on; that the thread clears `data_ready` only later, while it still holds the
mutex, is what keeps the next value out. The order of the cells is then the order of the
values, and a thread that sleeps always has a reason to.
-/

namespace LinuxSamples.Pipe

open LinuxSamples.Run LinuxSamples.Tally LinuxSamples.CondVar LinuxSamples.Chain

variable {ι : Type} [Fintype ι] [DecidableEq ι] {n : ℕ}

/-! ### The threads of the stages -/

/-- What the thread of a stage relies on: `here` and `next` are the `data_ready` of its stage
and of the next one, `data` is the value of its stage. -/
def Thr.Ok (here next : Bool) (data : ℤ) : Thr → Prop
  | .start => True
  | .avail woken => woken = false → here = false
  | .send v => here = true ∧ v = incr data
  | .ready v woken => here = true ∧ v = incr data ∧ (woken = false → next = true)
  | .sent => here = true

/-- All threads find what they rely on. -/
def StagesOk (n : ℕ) (dataReady : ℕ → Bool) (data : ℕ → ℤ) (thr : ℕ → Thr) : Prop :=
  ∀ j < n, (thr j).Ok (dataReady j) (dataReady (j + 1)) (data j)

lemma Thr.Ok.of_holds {here next : Bool} {data : ℤ} {x : Thr} (h : x.Ok here next data)
    (hx : x.holds = true) : here = true := by
  cases x with
  | start => cases hx
  | avail woken => cases hx
  | send v => exact h.1
  | ready v woken => exact h.1
  | sent => exact h

lemma Thr.Ok.of_sends {here next : Bool} {data v : ℤ} {x : Thr} (h : x.Ok here next data)
    (hx : x.sends = some v) : here = true ∧ v = incr data := by
  cases x with
  | send w =>
    obtain rfl := Option.some.inj hx
    exact h
  | ready w woken =>
    cases woken with
    | false => cases hx
    | true =>
      obtain rfl := Option.some.inj hx
      exact ⟨h.1, h.2.1⟩
  | _ => cases hx

lemma Thr.ne_sent_of_sends {v : ℤ} {x : Thr} (hx : x.sends = some v) : x ≠ .sent := by
  rintro rfl
  cases hx

lemma Thr.ok_wakeAvail {x : Thr} (hx : x.holds = false) (next : Bool) (data : ℤ) :
    x.wakeAvail.Ok true next data := by
  cases x with
  | start => trivial
  | avail woken => exact fun h => nomatch h
  | _ => cases hx

lemma Thr.Ok.wakeReady {here next : Bool} {data : ℤ} {x : Thr} (h : x.Ok here next data) :
    x.wakeReady.Ok here false data := by
  cases x with
  | ready v woken => exact ⟨h.1, h.2.1, fun hw => nomatch hw⟩
  | _ => exact h

lemma wakeReady_eq_sent_iff {x : Thr} : x.wakeReady = .sent ↔ x = .sent := by
  cases x <;> simp [Thr.wakeReady]

lemma wakeAvail_ne_sent {x : Thr} (hx : x.holds = false) : x.wakeAvail ≠ .sent := by
  cases x <;> simp_all [Thr.wakeAvail, Thr.holds]

section Stages

variable {dataReady : ℕ → Bool} {data : ℕ → ℤ} {thr thr' : ℕ → Thr}

lemma StagesOk.move (h : StagesOk n dataReady data thr) {j : ℕ} {x : Thr}
    (hx : x.Ok (dataReady j) (dataReady (j + 1)) (data j)) :
    StagesOk n dataReady data (Function.update thr j x) := by
  intro k hk
  by_cases hkj : k = j
  · subst hkj
    rw [Function.update_self]
    exact hx
  · rw [Function.update_of_ne hkj]
    exact h k hk

lemma StagesOk.store (h : StagesOk n dataReady data thr) {k : ℕ} {v : ℤ}
    (hself : k < n → (thr k).holds = false ∧ thr' k = (thr k).wakeAvail)
    (hother : ∀ j < n, j ≠ k → thr' j = thr j) :
    StagesOk n (Function.update dataReady k true) (Function.update data k v) thr' := by
  intro j hj
  by_cases hjk : j = k
  · subst hjk
    obtain ⟨hholds, hthr⟩ := hself hj
    rw [Function.update_self, hthr]
    exact Thr.ok_wakeAvail hholds _ _
  · rw [hother j hj hjk, Function.update_of_ne hjk, Function.update_of_ne hjk]
    have hok := h j hj
    by_cases hjk' : j + 1 = k
    · -- the thread before relies on the stage being full at most
      rw [hjk', Function.update_self]
      cases hx : thr j with
      | ready w woken =>
        rw [hx] at hok
        exact ⟨hok.1, hok.2.1, fun _ => rfl⟩
      | _ =>
        rw [hx] at hok
        exact hok
    · rw [Function.update_of_ne hjk']
      exact hok

lemma StagesOk.clear (h : StagesOk n dataReady data thr) {k : ℕ}
    (hself : k < n → thr' k = .avail false)
    (hbefore : ∀ j < n, j + 1 = k → thr' j = (thr j).wakeReady)
    (hother : ∀ j < n, j ≠ k → j + 1 ≠ k → thr' j = thr j) :
    StagesOk n (Function.update dataReady k false) data thr' := by
  intro j hj
  by_cases hjk : j = k
  · subst hjk
    rw [hself hj, Function.update_self]
    exact fun _ => rfl
  · rw [Function.update_of_ne hjk]
    by_cases hjk' : j + 1 = k
    · rw [hbefore j hj hjk', hjk', Function.update_self]
      exact (h j hj).wakeReady
    · rw [hother j hj hjk hjk', Function.update_of_ne hjk']
      exact h j hj

end Stages

/-! ### The callers -/

/-- The caller is in `pipe_start` with a value that is counted and not stored. -/
def Caller.inStart : Caller → Bool
  | .start _ => true
  | .startReady _ _ => true
  | _ => false

/-- The caller was admitted to the tail and has no result yet. -/
def Caller.inResult : Caller → Bool
  | .result => true
  | .resultAvail _ => true
  | _ => false

/-- The sleepers at both ends are covered, and the calls are accounted for; `tail` and `head` are
the `data_ready` there. -/
structure CallersOk (tail head : Bool) (stored results started admitted : ℕ) (f : ι → Caller) :
    Prop where
  consumers : Covered (Caller.atAvail false) (Caller.atAvail true) tail.toNat f
  producers : Covered (Caller.atReady false) (Caller.atReady true) (!head).toNat f
  starting : (started : ℤ) = stored + count Caller.inStart f
  taking : (admitted : ℤ) = results + count Caller.inResult f

section Callers

variable {tail head : Bool} {stored results started admitted : ℕ} {f f' : ι → Caller}

lemma CallersOk.update (h : CallersOk tail head stored results started admitted f) {i : ι}
    {y : Caller} {tail' head' : Bool} {stored' results' started' admitted' : ℕ}
    (htail : tail' = true → tail = true ∧ ¬ y.atAvail false ∧ ¬ (f i).atAvail true)
    (hhead : head' = false → head = false ∧ ¬ y.atReady false ∧ ¬ (f i).atReady true)
    (hstart : (started' : ℤ) - stored' - ind Caller.inStart y =
      started - stored - ind Caller.inStart (f i))
    (htake : (admitted' : ℤ) - results' - ind Caller.inResult y =
      admitted - results - ind Caller.inResult (f i)) :
    CallersOk tail' head' stored' results' started' admitted' (Function.update f i y) where
  consumers := by
    cases tail' with
    | false => exact covered_zero _
    | true =>
      obtain ⟨rfl, hy, hx⟩ := htail rfl
      exact h.consumers.move hy hx
  producers := by
    cases head' with
    | true => exact covered_zero _
    | false =>
      obtain ⟨rfl, hy, hx⟩ := hhead rfl
      exact h.producers.move hy hx
  starting := by
    have hcount := count_update Caller.inStart f i y
    have := h.starting
    omega
  taking := by
    have hcount := count_update Caller.inResult f i y
    have := h.taking
    omega

lemma atReady_wake {x : Caller} (h : x.atAvail false) (w : Bool) :
    x.wake.atReady w = x.atReady w := by
  cases x <;> simp_all [Caller.atAvail, Caller.atReady, Caller.wake]

lemma atAvail_wake {x : Caller} (h : x.atReady false) (w : Bool) :
    x.wake.atAvail w = x.atAvail w := by
  cases x <;> simp_all [Caller.atAvail, Caller.atReady, Caller.wake]

lemma inStart_wake (x : Caller) : x.wake.inStart = x.inStart := by cases x <;> rfl

lemma inResult_wake (x : Caller) : x.wake.inResult = x.inResult := by cases x <;> rfl

lemma wake_atAvail {x : Caller} (h : x.atAvail false) :
    x.wake.atAvail true ∧ ¬ x.atAvail true := by
  cases x <;> simp_all [Caller.atAvail, Caller.wake]

lemma wake_atReady {x : Caller} (h : x.atReady false) :
    x.wake.atReady true ∧ ¬ x.atReady true := by
  cases x <;> simp_all [Caller.atReady, Caller.wake]

lemma CallersOk.signalAvail (h : CallersOk false head stored results started admitted f)
    {c : Option ι} (hs : signal (Caller.atAvail false) Caller.wake f c = some f') :
    CallersOk true head stored results started admitted f' where
  consumers := (covered_zero f).signal (fun _ hx => wake_atAvail hx) hs
  producers := h.producers.congr (map_signal _ (fun _ hx => atReady_wake hx _) hs)
    (map_signal _ (fun _ hx => atReady_wake hx _) hs)
  starting := by
    rw [count_congr (map_signal _ (fun x _ => inStart_wake x) hs)]
    exact h.starting
  taking := by
    rw [count_congr (map_signal _ (fun x _ => inResult_wake x) hs)]
    exact h.taking

lemma CallersOk.signalReady (h : CallersOk tail true stored results started admitted f)
    {c : Option ι} (hs : signal (Caller.atReady false) Caller.wake f c = some f') :
    CallersOk tail false stored results started admitted f' where
  consumers := h.consumers.congr (map_signal _ (fun _ hx => atAvail_wake hx _) hs)
    (map_signal _ (fun _ hx => atAvail_wake hx _) hs)
  producers := (covered_zero f).signal (fun _ hx => wake_atReady hx) hs
  starting := by
    rw [count_congr (map_signal _ (fun x _ => inStart_wake x) hs)]
    exact h.starting
  taking := by
    rw [count_congr (map_signal _ (fun x _ => inResult_wake x) hs)]
    exact h.taking

end Callers

/-! ### The invariant -/

/-- The value in the cell of stage `k`, as it will come out at the tail. -/
def St.item (n : ℕ) (s : St ι) (k : ℕ) : List ℤ :=
  if s.dataReady k = true ∧ (k < n → s.thr k ≠ .sent) then [incr^[n - k] (s.data k)] else []

/-- The values in the pipe, from the tail to the head. -/
def St.inPipe (n : ℕ) (s : St ι) : List ℤ := contents (s.item n) (n + 1)

structure Inv (n : ℕ) (s : St ι) : Prop where
  stages : StagesOk n s.dataReady s.data s.thr
  callers : CallersOk (s.dataReady n) (s.dataReady 0) s.stored.length s.results.length
    s.started s.admitted s.caller
  order : s.results ++ s.inPipe n = s.stored.map incr^[n]
  count : s.active + s.admitted = s.started
  nonneg : 0 ≤ s.active

omit [DecidableEq ι] in
lemma inv_init (data : ℕ → ℤ) : Inv n (init data : St ι) where
  stages := fun _ _ => trivial
  callers := by
    have hzero : ∀ p : Caller → Bool, p .out = false →
        count p (fun _ : ι => Caller.out) = 0 := fun p hp => by
      rw [count_eq_zero_iff]
      simp [hp]
    refine ⟨covered_zero _, fun _ h => (nomatch h), ?_, ?_⟩
    · simp [init, hzero Caller.inStart rfl]
    · simp [init, hzero Caller.inResult rfl]
  order := contents_eq_nil fun _ _ => rfl
  count := rfl
  nonneg := le_rfl

omit [Fintype ι] [DecidableEq ι] in
lemma item_congr {s s' : St ι} {k : ℕ} (hready : s'.dataReady k = s.dataReady k)
    (hdata : s'.data k = s.data k) (hthr : k < n → (s'.thr k = .sent ↔ s.thr k = .sent)) :
    s'.item n k = s.item n k := by
  unfold St.item
  rw [hready, hdata]
  by_cases hk : k < n
  · simp only [hk, true_imp_iff, ne_eq, hthr hk]
  · simp only [hk, false_imp_iff]

omit [Fintype ι] [DecidableEq ι] in
lemma item_eq_nil {s : St ι} {k : ℕ} (h : s.dataReady k = false) : s.item n k = [] := by
  simp [St.item, h]

omit [Fintype ι] [DecidableEq ι] in
lemma item_eq_singleton {s : St ι} {k : ℕ} (h : s.dataReady k = true)
    (hthr : k < n → s.thr k ≠ .sent) : s.item n k = [incr^[n - k] (s.data k)] :=
  if_pos ⟨h, hthr⟩

omit [Fintype ι] [DecidableEq ι] in
lemma item_of_sent {s : St ι} {k : ℕ} (hk : k < n) (h : s.thr k = .sent) : s.item n k = [] := by
  simp [St.item, hk, h]

omit [Fintype ι] [DecidableEq ι] in
lemma free_iff {s : St ι} {k : ℕ} : s.free n k = true ↔ (k < n → (s.thr k).holds = false) :=
  decide_eq_true_iff

/-- What `pipe_send` to stage `k` does behind its loop. -/
structure Sent (n : ℕ) (s : St ι) (k : ℕ) (v : ℤ) (c : Option ι) (s' : St ι) : Prop where
  dataReady : s'.dataReady = Function.update s.dataReady k true
  data : s'.data = Function.update s.data k v
  other : ∀ j, j ≠ k → s'.thr j = s.thr j
  self : k < n → s'.thr k = (s.thr k).wakeAvail ∧ s'.caller = s.caller
  signal : n ≤ k → signal (Caller.atAvail false) Caller.wake s.caller c = some s'.caller
  active : s'.active = s.active
  stored : s'.stored = s.stored
  results : s'.results = s.results
  calls : s'.started = s.started ∧ s'.admitted = s.admitted

lemma pipeSend_spec {s s' : St ι} {k : ℕ} {v : ℤ} {c : Option ι}
    (h : pipeSend n s k v c = some s') : Sent n s k v c s' := by
  unfold pipeSend signalAvail at h
  split at h
  · next hk =>
    obtain rfl := Option.some.inj h
    exact ⟨rfl, rfl, fun j hj => Function.update_of_ne hj _ _,
      fun _ => ⟨Function.update_self .., rfl⟩, fun hn => absurd hk (by omega), rfl, rfl, rfl,
      rfl, rfl⟩
  · next hk =>
    obtain ⟨f, hf, rfl⟩ := Option.map_eq_some_iff.mp h
    exact ⟨rfl, rfl, fun _ _ => rfl, fun hlt => absurd hlt hk, fun _ => hf, rfl, rfl, rfl,
      rfl, rfl⟩

structure Cleared (s : St ι) (k : ℕ) (c : Option ι) (s' : St ι) : Prop where
  dataReady : s'.dataReady = Function.update s.dataReady k false
  data : s'.data = s.data
  other : ∀ j, j + 1 ≠ k → s'.thr j = s.thr j
  before : ∀ j, j + 1 = k → s'.thr j = (s.thr j).wakeReady ∧ s'.caller = s.caller
  signal : k = 0 → signal (Caller.atReady false) Caller.wake s.caller c = some s'.caller
  active : s'.active = s.active
  stored : s'.stored = s.stored
  results : s'.results = s.results
  calls : s'.started = s.started ∧ s'.admitted = s.admitted

lemma clear_spec {s s' : St ι} {k : ℕ} {c : Option ι} (h : clear s k c = some s') :
    Cleared s k c s' := by
  unfold clear signalReady at h
  cases k with
  | zero =>
    obtain ⟨f, hf, rfl⟩ := Option.map_eq_some_iff.mp h
    exact ⟨rfl, rfl, fun _ _ => rfl, fun _ hj => absurd hj (by omega), fun _ => hf, rfl, rfl, rfl,
      rfl, rfl⟩
  | succ k =>
    obtain rfl := Option.some.inj h
    refine ⟨rfl, rfl, fun j hj => Function.update_of_ne (by omega) _ _, fun j hj => ?_,
      fun hk => absurd hk (by omega), rfl, rfl, rfl, rfl, rfl⟩
    obtain rfl : j = k := by omega
    exact ⟨Function.update_self .., rfl⟩

omit [DecidableEq ι] in
lemma Inv.moveThr {s : St ι} (h : Inv n s) {j : ℕ} {x : Thr}
    (hx : x.Ok (s.dataReady j) (s.dataReady (j + 1)) (s.data j)) (hsent : s.thr j ≠ .sent)
    (hsent' : x ≠ .sent) : Inv n (s.setThr j x) where
  stages := h.stages.move hx
  callers := h.callers
  order := by
    have hitems : (s.setThr j x).inPipe n = s.inPipe n := by
      refine contents_congr fun k _ => item_congr rfl rfl fun _ => ?_
      by_cases hkj : k = j
      · subst hkj
        simp [St.setThr, hsent, hsent']
      · simp [St.setThr, Function.update_of_ne hkj]
    rw [hitems]
    exact h.order
  count := h.count
  nonneg := h.nonneg

lemma Inv.pass {s s' : St ι} (h : Inv n s) {j : ℕ} (hj : j < n) {v : ℤ} {c : Option ι}
    (hsends : (s.thr j).sends = some v) (hfree : s.free n (j + 1) = true)
    (hnext : s.dataReady (j + 1) = false) (hs : Sent n (s.setThr j .sent) (j + 1) v c s') :
    Inv n s' := by
  obtain ⟨hhere, rfl⟩ := (h.stages j hj).of_sends hsends
  have hready : s'.dataReady = Function.update s.dataReady (j + 1) true := hs.dataReady
  have hdata : s'.data = Function.update s.data (j + 1) (incr (s.data j)) := hs.data
  have hne : j + 1 ≠ j := by omega
  have hthrj : s'.thr j = .sent := (hs.other j hne.symm).trans (Function.update_self ..)
  have hthr : ∀ k, k ≠ j → k ≠ j + 1 → s'.thr k = s.thr k := fun k hk hk' =>
    (hs.other k hk').trans (Function.update_of_ne hk _ _)
  have hthrnext : j + 1 < n → (s.thr (j + 1)).holds = false ∧
      s'.thr (j + 1) = (s.thr (j + 1)).wakeAvail := by
    intro hlt
    refine ⟨free_iff.mp hfree hlt, (hs.self hlt).1.trans ?_⟩
    simp only [St.setThr, Function.update_of_ne hne]
  refine ⟨?_, ?_, ?_, ?_, ?_⟩
  · rw [hready, hdata]
    refine (h.stages.move (x := .sent) (j := j) hhere).store (fun hlt => ?_) fun k _ => hs.other k
    rw [Function.update_of_ne hne]
    exact hthrnext hlt
  · have h0 : s'.dataReady 0 = s.dataReady 0 := by
      rw [hready, Function.update_of_ne (by omega)]
    rw [h0, hs.stored, hs.results, hs.calls.1, hs.calls.2]
    by_cases hlast : j + 1 < n
    · rw [hready, Function.update_of_ne (by omega), (hs.self hlast).2]
      exact h.callers
    · obtain rfl : j + 1 = n := by omega
      have hcallers := h.callers
      rw [hnext] at hcallers
      rw [hready, Function.update_self]
      exact hcallers.signalAvail (hs.signal le_rfl)
  · have hitems : s'.inPipe n = s.inPipe n := by
      refine contents_pass (j := j) (by omega) (item_eq_nil hnext) (item_of_sent hj hthrj) ?_ ?_
      · have hnot : j + 1 < n → s'.thr (j + 1) ≠ .sent := by
          intro hlt
          obtain ⟨hholds, heq⟩ := hthrnext hlt
          rw [heq]
          exact wakeAvail_ne_sent hholds
        have hsub : n - j = n - (j + 1) + 1 := by omega
        rw [item_eq_singleton hhere fun _ => Thr.ne_sent_of_sends hsends,
          item_eq_singleton (by rw [hready, Function.update_self]) hnot, hdata,
          Function.update_self, hsub, Function.iterate_succ_apply]
      · intro k hk hk' _
        refine item_congr ?_ ?_ fun _ => by rw [hthr k hk hk']
        · rw [hready, Function.update_of_ne hk']
        · rw [hdata, Function.update_of_ne hk']
    rw [hitems, hs.results, hs.stored]
    exact h.order
  · rw [hs.active, hs.calls.1, hs.calls.2]
    exact h.count
  · rw [hs.active]
    exact h.nonneg

lemma Inv.done {s s' : St ι} (h : Inv n s) {j : ℕ} (hj : j < n) {c : Option ι}
    (hsent : s.thr j = .sent) (hs : Cleared (s.setThr j (.avail false)) j c s') : Inv n s' := by
  have hready : s'.dataReady = Function.update s.dataReady j false := hs.dataReady
  have hdata : s'.data = s.data := hs.data
  have hthrj : s'.thr j = .avail false := (hs.other j (by omega)).trans (Function.update_self ..)
  have hthr : ∀ k, k ≠ j → k + 1 ≠ j → s'.thr k = s.thr k := fun k hk hk' =>
    (hs.other k hk').trans (Function.update_of_ne hk _ _)
  have hbefore : ∀ k, k + 1 = j → s'.thr k = (s.thr k).wakeReady := by
    intro k hk
    have hne : k ≠ j := by omega
    rw [(hs.before k hk).1]
    simp only [St.setThr, Function.update_of_ne hne]
  refine ⟨?_, ?_, ?_, ?_, ?_⟩
  · rw [hready, hdata]
    exact h.stages.clear (fun _ => hthrj) (fun k _ => hbefore k) fun k _ => hthr k
  · have hn : s'.dataReady n = s.dataReady n := by
      rw [hready, Function.update_of_ne (by omega)]
    rw [hn, hs.stored, hs.results, hs.calls.1, hs.calls.2, hready]
    have hcallers := h.callers
    cases j with
    | zero =>
      have hfull : s.dataReady 0 = true := by
        have hok := h.stages 0 hj
        rw [hsent] at hok
        exact hok
      rw [hfull] at hcallers
      rw [Function.update_self]
      exact hcallers.signalReady (hs.signal rfl)
    | succ j =>
      rw [Function.update_of_ne (by omega), (hs.before j rfl).2]
      exact hcallers
  · have hitems : s'.inPipe n = s.inPipe n := by
      refine contents_congr fun k hk => ?_
      by_cases hkj : k = j
      · subst hkj
        rw [item_of_sent hj hsent, item_eq_nil (by rw [hready, Function.update_self])]
      · refine item_congr (by rw [hready, Function.update_of_ne hkj]) (by rw [hdata]) fun _ => ?_
        by_cases hk' : k + 1 = j
        · rw [hbefore k hk', wakeReady_eq_sent_iff]
        · rw [hthr k hkj hk']
    rw [hitems, hs.results, hs.stored]
    exact h.order
  · rw [hs.active, hs.calls.1, hs.calls.2]
    exact h.count
  · rw [hs.active]
    exact h.nonneg

lemma ind_out {p : Caller → Bool} (h : p .out = false) : ind p .out = 0 := ind_eq_zero_iff.mpr h

lemma Caller.of_starts {x : Caller} {v : ℤ} (h : x.starts = some v) :
    ind Caller.inStart x = 1 ∧ ind Caller.inResult x = 0 ∧ ∀ w, ¬ x.atAvail w := by
  cases x <;> first | exact ⟨rfl, rfl, fun _ => Bool.false_ne_true⟩ | cases h

lemma Caller.of_takes {x : Caller} (h : x.takes = true) :
    ind Caller.inStart x = 0 ∧ ind Caller.inResult x = 1 ∧ ∀ w, ¬ x.atReady w := by
  cases x <;> first | exact ⟨rfl, rfl, fun _ => Bool.false_ne_true⟩ | cases h

lemma Inv.enter (hn : 1 ≤ n) {s s' : St ι} (h : Inv n s) {i : ι} {v : ℤ} {c : Option ι}
    (hstarts : (s.caller i).starts = some v) (hfree : s.free n 0 = true)
    (hhead : s.dataReady 0 = false)
    (hs : Sent n { s with
      caller := Function.update s.caller i .out, stored := s.stored ++ [v] } 0 v c s') :
    Inv n s' := by
  obtain ⟨hthr0, hcaller⟩ := hs.self (by omega)
  have hholds := free_iff.mp hfree (by omega)
  obtain ⟨hstart, hresult, havail⟩ := Caller.of_starts hstarts
  refine ⟨?_, ?_, ?_, ?_, ?_⟩
  · rw [hs.dataReady, hs.data]
    exact h.stages.store (fun _ => ⟨hholds, hthr0⟩) fun k _ => hs.other k
  · have htail : s'.dataReady n = s.dataReady n := by
      rw [hs.dataReady, Function.update_of_ne (by omega)]
    rw [htail, hs.dataReady, Function.update_self, hs.stored, hs.results, hs.calls.1, hs.calls.2,
      hcaller]
    refine h.callers.update (fun ht => ⟨ht, Bool.false_ne_true, havail true⟩)
      (fun hc => nomatch hc) ?_ ?_
    · rw [hstart, ind_out rfl, List.length_append, List.length_singleton]
      dsimp only
      omega
    · rw [hresult, ind_out rfl]
  · have hitems : s'.inPipe n = s.inPipe n ++ [incr^[n] v] := by
      refine contents_enter (by omega) (item_eq_nil hhead) ?_ fun k hk _ => ?_
      · have hnot : s'.thr 0 ≠ .sent := by
          rw [hthr0]
          exact wakeAvail_ne_sent hholds
        rw [item_eq_singleton (by rw [hs.dataReady, Function.update_self]) fun _ => hnot, hs.data,
          Function.update_self, Nat.sub_zero]
      · have hne : k ≠ 0 := by omega
        refine item_congr ?_ ?_ fun _ => by rw [hs.other k hne]
        · rw [hs.dataReady, Function.update_of_ne hne]
        · rw [hs.data, Function.update_of_ne hne]
    rw [hitems, hs.results, hs.stored, List.map_append, ← h.order, List.append_assoc]
    rfl
  · rw [hs.active, hs.calls.1, hs.calls.2]
    exact h.count
  · rw [hs.active]
    exact h.nonneg

lemma Inv.leave (hn : 1 ≤ n) {s s' : St ι} (h : Inv n s) {i : ι} {c : Option ι}
    (htakes : (s.caller i).takes = true) (htail : s.dataReady n = true)
    (hs : Cleared { s with
      caller := Function.update s.caller i .out, results := s.results ++ [s.data n] } n c s') :
    Inv n s' := by
  obtain ⟨hstart, hresult, hready⟩ := Caller.of_takes htakes
  obtain ⟨m, rfl⟩ : ∃ m, n = m + 1 := ⟨n - 1, by omega⟩
  have hcaller := (hs.before m rfl).2
  refine ⟨?_, ?_, ?_, ?_, ?_⟩
  · rw [hs.dataReady, hs.data]
    exact h.stages.clear (fun hlt => absurd hlt (lt_irrefl _)) (fun k _ hk => (hs.before k hk).1)
      fun k _ _ => hs.other k
  · have hhead : s'.dataReady 0 = s.dataReady 0 := by
      rw [hs.dataReady, Function.update_of_ne (by omega)]
    rw [hhead, hs.dataReady, Function.update_self, hs.stored, hs.results, hs.calls.1, hs.calls.2,
      hcaller]
    refine h.callers.update (fun hc => nomatch hc)
      (fun ht => ⟨ht, Bool.false_ne_true, hready true⟩) ?_ ?_
    · rw [hstart, ind_out rfl]
    · rw [hresult, ind_out rfl, List.length_append, List.length_singleton]
      dsimp only
      omega
  · have hitems : s.inPipe (m + 1) = s.data (m + 1) :: s'.inPipe (m + 1) := by
      refine contents_leave ?_ (item_eq_nil (by rw [hs.dataReady, Function.update_self]))
        fun k hk => ?_
      · rw [item_eq_singleton htail fun hlt => absurd hlt (lt_irrefl _), Nat.sub_self]
        rfl
      · have hne : k ≠ m + 1 := by omega
        refine item_congr (by rw [hs.dataReady, Function.update_of_ne hne]) (by rw [hs.data])
          fun _ => ?_
        by_cases hk' : k + 1 = m + 1
        · rw [(hs.before k hk').1, wakeReady_eq_sent_iff]
        · rw [hs.other k hk']
    rw [hs.stored, hs.results, ← h.order, hitems, List.append_assoc]
    rfl
  · rw [hs.active, hs.calls.1, hs.calls.2]
    exact h.count
  · rw [hs.active]
    exact h.nonneg

lemma Inv.moveCaller {s : St ι} (h : Inv n s) {i : ι} {y : Caller} {active : ℤ}
    {started admitted : ℕ}
    (htail : s.dataReady n = true → ¬ y.atAvail false ∧ ¬ (s.caller i).atAvail true)
    (hhead : s.dataReady 0 = false → ¬ y.atReady false ∧ ¬ (s.caller i).atReady true)
    (hstart : (started : ℤ) - ind Caller.inStart y = s.started - ind Caller.inStart (s.caller i))
    (htake : (admitted : ℤ) - ind Caller.inResult y =
      s.admitted - ind Caller.inResult (s.caller i))
    (hcount : active + admitted = started) (hnonneg : 0 ≤ active) :
    Inv n { s with
      caller := Function.update s.caller i y, active := active, started := started
      admitted := admitted } where
  stages := h.stages
  callers := by
    refine h.callers.update (fun ht => ⟨ht, htail ht⟩) (fun hf => ⟨hf, hhead hf⟩) ?_ ?_ <;>
      dsimp only <;> omega
  order := h.order
  count := hcount
  nonneg := hnonneg

lemma Inv.stageLock {s s' : St ι} {j : ℕ} (h : Inv n s)
    (hs : step n s (.stageLock j) = some s') : Inv n s' := by
  simp only [step, Option.ite_none_right_eq_some, Option.some.injEq] at hs
  obtain ⟨⟨hj, hlocks⟩, rfl⟩ := hs
  have hsent : s.thr j ≠ .sent := by
    intro hc
    rw [hc] at hlocks
    cases hlocks
  cases hready : s.dataReady j with
  | true =>
    simp only [if_true]
    exact h.moveThr ⟨hready, rfl⟩ hsent (by simp)
  | false =>
    simp only [Bool.false_eq_true, if_false]
    exact h.moveThr (fun _ => hready) hsent (by simp)

lemma Inv.stageSend {s s' : St ι} {j : ℕ} {c : Option ι} (h : Inv n s)
    (hs : step n s (.stageSend j c) = some s') : Inv n s' := by
  simp only [step] at hs
  split at hs
  · next v hsends =>
    rw [Option.ite_none_right_eq_some] at hs
    obtain ⟨⟨hj, hfree⟩, hs⟩ := hs
    split at hs
    · next hnext =>
      obtain rfl := Option.some.inj hs
      obtain ⟨hhere, hv⟩ := (h.stages j hj).of_sends hsends
      exact h.moveThr ⟨hhere, hv, fun _ => hnext⟩ (Thr.ne_sent_of_sends hsends) (by simp)
    · next hnext =>
      exact h.pass hj hsends hfree (by simpa using hnext) (pipeSend_spec hs)
  · cases hs

lemma Inv.startSend (hn : 1 ≤ n) {s s' : St ι} {i : ι} {c : Option ι} (h : Inv n s)
    (hs : step n s (.startSend i c) = some s') : Inv n s' := by
  simp only [step] at hs
  split at hs
  · next v hstarts =>
    rw [Option.ite_none_right_eq_some] at hs
    obtain ⟨hfree, hs⟩ := hs
    split at hs
    · next hhead =>
      obtain rfl := Option.some.inj hs
      obtain ⟨hstart, hresult, havail⟩ := Caller.of_starts hstarts
      refine h.moveCaller (fun _ => ⟨Bool.false_ne_true, havail true⟩) (fun hc => ?_) ?_ ?_
        h.count h.nonneg
      · rw [hhead] at hc
        cases hc
      · rw [hstart]
        rfl
      · rw [hresult]
        rfl
    · next hhead => exact h.enter hn hstarts hfree (by simpa using hhead) (pipeSend_spec hs)
  · cases hs

lemma Inv.resultTake (hn : 1 ≤ n) {s s' : St ι} {i : ι} {c : Option ι} (h : Inv n s)
    (hs : step n s (.resultTake i c) = some s') : Inv n s' := by
  simp only [step, Option.ite_none_right_eq_some] at hs
  obtain ⟨htakes, hs⟩ := hs
  split at hs
  · next htail => exact h.leave hn htakes htail (clear_spec hs)
  · next htail =>
    obtain rfl := Option.some.inj hs
    obtain ⟨hstart, hresult, hready⟩ := Caller.of_takes htakes
    refine h.moveCaller (fun hc => absurd hc htail) (fun _ => ⟨Bool.false_ne_true, hready true⟩)
      ?_ ?_ h.count h.nonneg
    · rw [hstart]
      rfl
    · rw [hresult]
      rfl

lemma Inv.spuriousStage {s s' : St ι} {j : ℕ} (h : Inv n s)
    (hs : step n s (.spuriousStage j) = some s') : Inv n s' := by
  simp only [step, Option.ite_none_right_eq_some] at hs
  obtain ⟨hj, hs⟩ := hs
  obtain ⟨x, hx, rfl⟩ := Option.map_eq_some_iff.mp hs
  have hok := h.stages j hj
  unfold Thr.spurious at hx
  split at hx
  · next hthr =>
    obtain rfl := Option.some.inj hx
    exact h.moveThr (fun hc => by cases hc) (by simp [hthr]) (by simp)
  · next v hthr =>
    obtain rfl := Option.some.inj hx
    rw [hthr] at hok
    exact h.moveThr ⟨hok.1, hok.2.1, fun hc => by cases hc⟩ (by simp [hthr]) (by simp)
  · cases hx

lemma inv_step (hn : 1 ≤ n) {s s' : St ι} {a : Act ι} (h : Inv n s) (hs : step n s a = some s') :
    Inv n s' := by
  cases a with
  | stageLock j => exact h.stageLock hs
  | stageSend j c => exact h.stageSend hs
  | stageDone j c =>
    simp only [step, Option.ite_none_right_eq_some] at hs
    exact h.done hs.1.1 hs.1.2 (clear_spec hs.2)
  | startCall i value =>
    simp only [step, Option.ite_none_right_eq_some, Option.some.injEq] at hs
    obtain ⟨hout, rfl⟩ := hs
    have := h.count
    have := h.nonneg
    refine h.moveCaller ?_ ?_ ?_ ?_ (by push_cast; omega) (by omega) <;>
      simp [hout, Caller.atAvail, Caller.atReady, ind, Caller.inStart, Caller.inResult]
  | startSend i c => exact h.startSend hn hs
  | resultCall i =>
    simp only [step, Option.ite_none_right_eq_some] at hs
    obtain ⟨hout, hs⟩ := hs
    have := h.count
    have := h.nonneg
    split at hs <;> obtain rfl := Option.some.inj hs
    · refine h.moveCaller ?_ ?_ ?_ ?_ h.count h.nonneg <;>
        simp [hout, Caller.atAvail, Caller.atReady, ind, Caller.inStart, Caller.inResult]
    · refine h.moveCaller ?_ ?_ ?_ ?_ (by push_cast; omega) (by omega) <;>
        simp [hout, Caller.atAvail, Caller.atReady, ind, Caller.inStart, Caller.inResult]
  | resultEmpty i =>
    simp only [step, Option.ite_none_right_eq_some, Option.some.injEq] at hs
    obtain ⟨hempty, rfl⟩ := hs
    refine h.moveCaller ?_ ?_ ?_ ?_ h.count h.nonneg <;>
      simp [hempty, Caller.atAvail, Caller.atReady, ind, Caller.inStart, Caller.inResult]
  | resultTake i c => exact h.resultTake hn hs
  | spuriousStage j => exact h.spuriousStage hs
  | spuriousCaller i =>
    simp only [step, Option.ite_none_right_eq_some, Option.some.injEq] at hs
    obtain ⟨hb, rfl⟩ := hs
    refine h.moveCaller (fun _ => ?_) (fun _ => ?_) ?_ ?_ h.count h.nonneg
    · cases hx : s.caller i <;> simp_all [Caller.atAvail, Caller.atReady, Caller.wake]
    · cases hx : s.caller i <;> simp_all [Caller.atAvail, Caller.atReady, Caller.wake]
    · simp only [ind, inStart_wake]
    · simp only [ind, inResult_wake]

lemma reach_inv (hn : 1 ≤ n) {data : ℕ → ℤ} {s : St ι} (h : Reach (step n) (init data) s) :
    Inv n s :=
  h.invariant (inv_init data) fun _ _ _ hi hs => inv_step hn hi hs

end LinuxSamples.Pipe
