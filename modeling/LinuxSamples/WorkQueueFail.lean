import LinuxSamples.WorkQueueOnce

/-!
Calls of `workq_add` that fail.

`workq_add` allocates a request, links it to the queue under the mutex and then sees to it that
somebody serves it. Each of these steps can fail. The system of the work queue is run with the
requests as its elements: numbered as they are allocated, so that a request can be told from
another one with the same data.
-/

namespace LinuxSamples.WorkQueue

open LinuxSamples.Run LinuxSamples.Pool

def EINVAL : ℤ := 22
def ENOMEM : ℤ := 12

/-- `workq_ele_t`, as a piece of memory that was allocated. -/
structure Item (α : Type) where
  id : ℕ
  data : α
  deriving DecidableEq, Repr

/-- What `pthread_mutex_lock`, `pthread_cond_signal` and `pthread_create` return. -/
structure Status where
  lock : ℤ
  signal : ℤ
  create : ℤ
  deriving DecidableEq, Repr

/-- How `workq_add` ends: the queue, how the request is served, what is returned, and whether the
request is freed. -/
structure AddResult (α : Type) where
  wq : Wq (Item α)
  service : Service
  status : ℤ
  freed : Bool
  deriving DecidableEq, Repr

variable {α : Type}

/-- `workq_add` up to the allocation of the request; `mem` tells whether `malloc` succeeds. -/
def addEntry (wq : Wq (Item α)) (mem : Bool) : ℤ :=
  if wq.valid ≠ WORKQ_VALID then EINVAL else if mem then 0 else ENOMEM

/-- `workq_add` from the lock on. -/
def addSection (wq : Wq (Item α)) (x : Item α) (f : Status) : AddResult α :=
  if f.lock ≠ 0 then ⟨wq, .nothing, f.lock, true⟩
  else
    let wq := { wq with queue := wq.queue ++ [x] }
    if wq.idle > 0 then
      if f.signal ≠ 0 then ⟨wq, .nothing, f.signal, false⟩ else ⟨wq, .signal, 0, false⟩
    else if wq.counter < wq.parallelism then
      if f.create ≠ 0 then ⟨wq, .nothing, f.create, false⟩
      else ⟨{ wq with counter := wq.counter + 1 }, .create, 0, false⟩
    else ⟨wq, .nothing, 0, false⟩

lemma addSection_of_ok (wq : Wq (Item α)) (x : Item α) :
    addSection wq x ⟨0, 0, 0⟩ = ⟨(workqAdd wq x).1, (workqAdd wq x).2, 0, false⟩ := by
  unfold addSection workqAdd
  rw [if_neg (by simp)]
  dsimp only
  split
  · rfl
  · split <;> rfl

/-- The system with the requests that were allocated and freed. -/
structure FSt (α : Type) where
  st : St (Item α)
  next : ℕ
  freed : List ℕ
  deriving DecidableEq, Repr

inductive FAct (α : Type)
  | addCall (t : ℕ) (data : α) (mem : Bool)
  | addLock (t : ℕ) (c : Option ℕ) (f : Status)
  /-- a step of the system that is not one of `workq_add` -/
  | other (a : Act (Item α))
  deriving DecidableEq, Repr

/-- The threads behind the section of thread `t`. -/
def served (thr : List (Thr (Item α))) (c : Option ℕ) : Service → Option (List (Thr (Item α)))
  | .signal => Pool.signal Thr.blocked Thr.wake thr c
  | .create => some (thr ++ [.start])
  | .nothing => some thr

/-- What a server frees: the request, when the engine has returned. -/
def engineFrees (s : St (Item α)) : Act (Item α) → List ℕ
  | .returnEngine t =>
    match s.thr[t]? with
    | some (.engine x _) => [x.id]
    | _ => []
  | _ => []

/-- A step of `workq_add`, which the system takes in its own way. -/
def Act.isAdd : Act α → Bool
  | .addCall _ _ => true
  | .addLock _ _ => true
  | _ => false

def fstep (s : FSt α) : FAct α → Option (FSt α)
  | .addCall t data mem =>
    match s.st.thr[t]? with
    | some .out =>
      if addEntry s.st.wq mem = 0 then
        some { s with
          st := { s.st with thr := s.st.thr.set t (.adding ⟨s.next, data⟩) }
          next := s.next + 1 }
      else some s
    | _ => none
  | .addLock t c f =>
    match s.st.thr[t]? with
    | some (.adding x) =>
      let r := addSection s.st.wq x f
      (served (s.st.thr.set t .out) c r.service).map fun thr =>
        if r.freed then
          { s with st := { s.st with wq := r.wq, thr := thr }, freed := s.freed ++ [x.id] }
        else { s with st := { s.st with wq := r.wq, thr := thr, added := s.st.added ++ [x] } }
    | _ => none
  | .other a =>
    if a.isAdd then none
    else (step s.st a).map fun st => { s with st := st, freed := s.freed ++ engineFrees s.st a }

/-! ### Where a request is -/

/-- The requests of a thread that the engine has not been called with. -/
def Thr.pending : Thr (Item α) → Multiset ℕ
  | .adding x => {x.id}
  | .took x _ => {x.id}
  | _ => 0

/-- The places of the requests: with a caller, in the queue, with a server, passed to the
engine. -/
def places (s : St (Item α)) : Multiset ℕ :=
  ↑(s.wq.queue.map Item.id) + total Thr.pending s.thr + ↑(s.called.map Item.id)

/-- Every request is in one place. -/
structure Wf (s : FSt α) : Prop where
  nodup : (places s.st).Nodup
  lt_next : ∀ i ∈ places s.st, i < s.next

lemma pending_wake (x : Thr (Item α)) : x.wake.pending = x.pending := by cases x <;> rfl

lemma pending_of_held {x : Thr (Item α)} (hheld : x.held = 0) (hadd : x.inAdd = false) :
    x.pending = 0 := by
  cases x with
  | adding x => cases hadd
  | took x timedout => exact absurd hheld (Multiset.singleton_ne_zero x)
  | _ => rfl

lemma total_pending_move {s : St (Item α)} {t : ℕ} {x y : Thr (Item α)} (h : s.thr[t]? = some x)
    (hx : x.pending = 0) (wake : Bool) :
    total Thr.pending (s.move t y wake) = total Thr.pending s.thr + y.pending := by
  rw [← total_move pending_wake h y wake, hx, add_zero]

lemma pending_workqDestroy (wq : Wq (Item α)) :
    (workqDestroy wq).1.queue = wq.queue ∧ (workqDestroy wq).2.2.pending = 0 := by
  unfold workqDestroy destroyLoop
  dsimp only
  split
  · exact ⟨rfl, rfl⟩
  · exact ⟨rfl, rfl⟩

lemma places_serve {s : St (Item α)} {t : ℕ} {x : Thr (Item α)} {r : Section (Item α)}
    (hx : s.thr[t]? = some x) (hr : serverSection s.wq x = some r) (taken : List (Item α)) :
    places { s with wq := r.1, thr := s.move t r.2.2 r.2.1, taken := taken } = places s := by
  obtain ⟨-, hheld, -, hadd, hcases⟩ := serverSection_cases hr
  have hpending := pending_of_held hheld hadd
  unfold places
  dsimp only
  rw [total_pending_move hx hpending]
  rcases hcases with ⟨-, -, rfl⟩ | ⟨y, rest, timedout, hq, rfl⟩ | ⟨-, ⟨-, rfl⟩ | ⟨-, rfl⟩⟩
  · exact congrArg₂ _ (congrArg₂ _ rfl (add_zero _)) rfl
  · rw [hq, List.map_cons, ← Multiset.cons_coe, ← Multiset.singleton_add]
    simp only [Thr.pending]
    abel
  · exact congrArg₂ _ (congrArg₂ _ rfl (add_zero _)) rfl
  · exact congrArg₂ _ (congrArg₂ _ rfl (add_zero _)) rfl

lemma places_set {s : St (Item α)} {t : ℕ} {x y : Thr (Item α)} (hx : s.thr[t]? = some x)
    (hy : y.pending = x.pending) : places { s with thr := s.thr.set t y } = places s := by
  unfold places
  dsimp only
  rw [total_set_eq _ hx hy]

lemma places_step {s s' : St (Item α)} {a : Act (Item α)} (ha : a.isAdd = false)
    (h : step s a = some s') : places s' = places s := by
  cases step_cases h with
  | addCall | addInvalid | addSignal | addCreate | addFull => cases ha
  | destroyCall hx => exact places_set hx rfl
  | destroyInvalid hx => rfl
  | destroyLock hx =>
    obtain ⟨hqueue, hpending⟩ := pending_workqDestroy s.wq
    unfold places
    dsimp only
    rw [total_pending_move hx rfl, hqueue, hpending, add_zero]
  | destroyReturn hx => exact places_set hx rfl
  | destroyLoop hx =>
    refine places_set hx ?_
    unfold destroyLoop
    split <;> rfl
  | serve hx hr => exact places_serve hx hr _
  | callEngine hx =>
    next t x timedout =>
    have hset := total_set Thr.pending hx (.engine x timedout)
    simp only [Thr.pending, add_zero] at hset
    unfold places
    dsimp only
    rw [← hset, List.map_append, ← Multiset.coe_add]
    simp only [List.map_cons, List.map_nil, Multiset.coe_singleton]
    abel
  | returnEngine hx => exact places_set hx rfl
  | spurious hx hb => exact places_set hx (pending_wake _)
  | timeout hx => exact places_set hx rfl

lemma places_addLock {s : St (Item α)} {t : ℕ} {x : Item α} {c : Option ℕ} {f : Status}
    {thr : List (Thr (Item α))} (hx : s.thr[t]? = some (.adding x))
    (hthr : served (s.thr.set t .out) c (addSection s.wq x f).service = some thr)
    (added : List (Item α)) :
    places s = (if (addSection s.wq x f).freed then {x.id} else 0) +
      places { s with wq := (addSection s.wq x f).wq, thr := thr, added := added } := by
  have htotal : total Thr.pending thr = total Thr.pending (s.thr.set t .out) := by
    cases hservice : (addSection s.wq x f).service <;> rw [hservice] at hthr
    case signal => exact total_signal _ (fun y _ => pending_wake y) hthr
    case create =>
      cases hthr
      rw [total_append, total_singleton]
      exact add_zero _
    case nothing =>
      cases hthr
      rfl
  have hset := total_set Thr.pending hx .out
  simp only [Thr.pending, add_zero] at hset
  unfold places
  dsimp only
  rw [htotal, ← hset]
  by_cases hlock : f.lock ≠ 0
  · have hr : addSection s.wq x f = ⟨s.wq, .nothing, f.lock, true⟩ := if_pos hlock
    rw [hr, if_pos rfl]
    abel
  · have hqueue : (addSection s.wq x f).wq.queue = s.wq.queue ++ [x] ∧
        (addSection s.wq x f).freed = false := by
      unfold addSection
      rw [if_neg hlock]
      dsimp only
      split_ifs <;> exact ⟨rfl, rfl⟩
    rw [hqueue.1, hqueue.2, List.map_append, ← Multiset.coe_add]
    simp only [List.map_cons, List.map_nil, Multiset.coe_singleton, Bool.false_eq_true, if_false]
    abel

lemma places_fstep {s s' : FSt α} {a : FAct α} (h : fstep s a = some s') :
    (s'.next = s.next ∧ places s'.st ≤ places s.st) ∨
      (s'.next = s.next + 1 ∧ places s'.st = s.next ::ₘ places s.st) := by
  cases a with
  | addCall t data mem =>
    simp only [fstep] at h
    split at h
    · next hx =>
      split at h
      · cases h
        right
        refine ⟨rfl, ?_⟩
        have hset := total_set Thr.pending hx (.adding ⟨s.next, data⟩)
        simp only [Thr.pending, add_zero] at hset
        unfold places
        dsimp only
        rw [hset, ← Multiset.singleton_add]
        abel
      · cases h
        exact Or.inl ⟨rfl, le_rfl⟩
    · cases h
  | addLock t c f =>
    simp only [fstep] at h
    split at h
    · next x hx =>
      obtain ⟨thr, hthr, rfl⟩ := Option.map_eq_some_iff.mp h
      left
      split
      · exact ⟨rfl, (places_addLock hx hthr s.st.added).symm ▸ Multiset.le_add_left _ _⟩
      · exact ⟨rfl, (places_addLock hx hthr _).symm ▸ Multiset.le_add_left _ _⟩
    · cases h
  | other a =>
    obtain ⟨ha, h⟩ := Option.ite_none_left_eq_some.mp h
    obtain ⟨st, hst, rfl⟩ := Option.map_eq_some_iff.mp h
    exact Or.inl ⟨rfl, (places_step (Bool.eq_false_of_not_eq_true ha) hst).le⟩

lemma wf_fstep {s s' : FSt α} {a : FAct α} (hw : Wf s) (h : fstep s a = some s') : Wf s' := by
  rcases places_fstep h with ⟨hnext, hle⟩ | ⟨hnext, hcons⟩
  · refine ⟨Multiset.nodup_of_le hle hw.nodup, fun i hi => ?_⟩
    rw [hnext]
    exact hw.lt_next i (Multiset.mem_of_le hle hi)
  · have hfresh : s.next ∉ places s.st := fun hmem => (hw.lt_next _ hmem).false
    refine ⟨hcons ▸ Multiset.nodup_cons.mpr ⟨hfresh, hw.nodup⟩, fun i hi => ?_⟩
    rw [hcons, Multiset.mem_cons] at hi
    rcases hi with rfl | hi
    · omega
    · have := hw.lt_next i hi
      omega

def finit (α : Type) (p : ℤ) (n : ℕ) : FSt α := ⟨init (Item α) p n, 0, []⟩

lemma wf_of_reach {p : ℤ} {n : ℕ} {s : FSt α} (h : Reach fstep (finit α p n) s) : Wf s := by
  refine h.invariant ?_ fun _ _ _ hu hstep => wf_fstep hu hstep
  have hnone : places (finit α p n).st = 0 := by
    simp [places, finit, init, workqInit, total, Thr.pending]
  exact ⟨hnone ▸ Multiset.nodup_zero, fun i hi => by simp [hnone] at hi⟩

lemma never_called {i : ℕ} {s u : FSt α} (hlt : i < s.next) (hgone : i ∉ places s.st)
    (h : Reach fstep s u) : i ∉ u.st.called.map Item.id := by
  have hinv : i < u.next ∧ i ∉ places u.st := by
    refine h.invariant (I := fun s => i < s.next ∧ i ∉ places s.st) ⟨hlt, hgone⟩ ?_
    rintro v a w ⟨hv, hmem⟩ hstep
    rcases places_fstep hstep with ⟨hnext, hle⟩ | ⟨hnext, hcons⟩
    · exact ⟨by omega, fun hi => hmem (Multiset.mem_of_le hle hi)⟩
    · refine ⟨by omega, fun hi => ?_⟩
      rw [hcons, Multiset.mem_cons] at hi
      rcases hi with rfl | hi
      · omega
      · exact hmem hi
  intro hcalled
  exact hinv.2 (Multiset.mem_add.mpr (Or.inr hcalled))

/-! ### Failing calls -/

/-- The call with the request `x` went from `s` to `s'` without effect. -/
structure NoEffect (s s' : FSt α) (x : Item α) : Prop where
  queue : s'.st.wq.queue = s.st.wq.queue
  counter : s'.st.wq.counter = s.st.wq.counter
  parallelism : s'.st.wq.parallelism = s.st.wq.parallelism
  never : ∀ u, Reach fstep s' u → x.id ∉ u.st.called.map Item.id
  freed : x.id ∈ s'.freed

lemma noEffect_of_lock {s s' : FSt α} (hw : Wf s) {t : ℕ} {c : Option ℕ} {f : Status} {x : Item α}
    (hx : s.st.thr[t]? = some (.adding x)) (hs : fstep s (.addLock t c f) = some s')
    (hlock : f.lock ≠ 0) : NoEffect s s' x := by
  have hr : addSection s.st.wq x f = ⟨s.st.wq, .nothing, f.lock, true⟩ := if_pos hlock
  simp only [fstep, hx, hr, served, Option.map_some, if_true] at hs
  cases hs
  have hplaces := places_addLock (c := c) (f := f) hx (by rw [hr]; rfl) s.st.added
  rw [hr, if_pos rfl] at hplaces
  have hmem : x.id ∈ places s.st := by
    rw [hplaces]
    exact Multiset.mem_add.mpr (Or.inl (Multiset.mem_singleton_self _))
  have hnodup := hw.nodup
  rw [hplaces, Multiset.singleton_add, Multiset.nodup_cons] at hnodup
  refine ⟨rfl, rfl, rfl, fun u hu => never_called ?_ hnodup.1 hu, by simp⟩
  exact hw.lt_next _ hmem

lemma queue_of_service {s s' : FSt α} {t : ℕ} {c : Option ℕ} {f : Status} {x : Item α}
    (hx : s.st.thr[t]? = some (.adding x)) (hs : fstep s (.addLock t c f) = some s')
    (hlock : f.lock = 0) : s'.st.wq.queue = s.st.wq.queue ++ [x] := by
  have hqueue : (addSection s.st.wq x f).wq.queue = s.st.wq.queue ++ [x] := by
    unfold addSection
    rw [if_neg (by simpa using hlock)]
    dsimp only
    split_ifs <;> rfl
  simp only [fstep, hx] at hs
  obtain ⟨thr, -, rfl⟩ := Option.map_eq_some_iff.mp hs
  split <;> exact hqueue

/-- **A call of `workq_add` that fails has no effect exactly if it fails early**: at the test of
`valid`, for want of memory or at the lock. Once the request is linked it stays in the queue. -/
theorem workq_add_failure_iff {s : FSt α} (hw : Wf s) :
    (∀ t data mem s', fstep s (.addCall t data mem) = some s' → addEntry s.st.wq mem ≠ 0 →
      s' = s) ∧
    ∀ t c f x s', s.st.thr[t]? = some (.adding x) → fstep s (.addLock t c f) = some s' →
      (addSection s.st.wq x f).status ≠ 0 → (NoEffect s s' x ↔ f.lock ≠ 0) := by
  refine ⟨fun t data mem s' hs hfail => ?_, fun t c f x s' hx hs _ => ⟨fun hno hlock => ?_,
    noEffect_of_lock hw hx hs⟩⟩
  · simp only [fstep] at hs
    split at hs
    · rw [if_neg hfail] at hs
      exact (Option.some.inj hs).symm
    · cases hs
  · have hqueue := hno.queue
    rw [queue_of_service hx hs hlock] at hqueue
    simp at hqueue

theorem workq_add_failure_iff_lock :
    ∃ s s' : FSt ℕ, fstep (finit ℕ 1 1) (.addCall 0 7 true) = some s ∧
      fstep s (.addLock 0 none ⟨22, 0, 0⟩) = some s' ∧ s'.freed = [0] ∧ NoEffect s s' ⟨0, 7⟩ := by
  refine ⟨_, _, rfl, rfl, rfl, ?_⟩
  have hw : Wf _ := wf_of_reach (p := 1) (n := 1) ⟨[.addCall 0 (7 : ℕ) true], rfl⟩
  exact ((workq_add_failure_iff hw).2 0 none ⟨22, 0, 0⟩ ⟨0, 7⟩ _ rfl rfl (by decide)).mpr
    (by decide)

/-- No server can be created for the first call, which returns `EAGAIN`. The server of the second
call passes the element of the first one to the engine. -/
theorem workq_add_failure_served :
    ∃ s s' u : FSt ℕ, exec fstep (finit ℕ 1 1) [.addCall 0 7 true] = some s ∧
      fstep s (.addLock 0 none ⟨0, 0, 11⟩) = some s' ∧
      (addSection s.st.wq ⟨0, 7⟩ ⟨0, 0, 11⟩).status = 11 ∧ s'.freed = [] ∧
      exec fstep s' [.addCall 0 8 true, .addLock 0 none ⟨0, 0, 0⟩, .other (.resume 1),
        .other (.callEngine 1)] = some u ∧
      u.st.called = [⟨0, 7⟩] ∧ ¬ NoEffect s s' ⟨0, 7⟩ := by
  refine ⟨_, _, _, rfl, rfl, rfl, rfl, rfl, rfl, fun h => ?_⟩
  have hqueue := h.queue
  cases hqueue

end LinuxSamples.WorkQueue
