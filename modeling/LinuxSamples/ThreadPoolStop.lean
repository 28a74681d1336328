import LinuxSamples.ThreadPoolLists

/-!
`StopAll` of the thread pool, which goes through the two vectors and cancels and joins the workers
one by one.

A worker that acts on its cancellation in `pthread_cond_wait` takes the mutex up again and ends
with it, as it has no cleanup handler. From then on a worker ends only if it is in the `Run` of a
task, and `StopAll` waits for ever for any other one. It also goes wrong if a worker that is
already cancelled takes a task, as the worker is then listed behind the place `StopAll` is at.
-/

namespace LinuxSamples.ThreadPool

open LinuxSamples.Run LinuxSamples.CondVar

variable {α : Type} {n : ℕ}

inductive Vec
  | idle
  | busy
  deriving DecidableEq

def St.vec (s : St α n) : Vec → List (Fin n)
  | .idle => s.idleThread
  | .busy => s.busyThread

/-- Where `StopAll` is: at the test of one of its two loops, with its iterator at place `i`, or in
the `pthread_join` of the loop. -/
inductive StopPc (n : ℕ)
  | before
  | loop (v : Vec) (i : ℕ)
  | join (v : Vec) (i : ℕ) (t : Fin n)
  | returned
  deriving DecidableEq

def StopPc.joining : StopPc n → Option (Fin n)
  | .join _ _ t => some t
  | _ => none

/-- The place that `StopAll` comes to next. -/
def StopPc.place : StopPc n → Option (Vec × ℕ)
  | .loop v i => some (v, i)
  | .join v i _ => some (v, i + 1)
  | _ => none

/-- The pool with its client in `StopAll`: the workers it has cancelled and joined so far, and
those that have ended. -/
structure Pool (α : Type) (n : ℕ) where
  st : St α n
  stop : StopPc n
  cancelled : List (Fin n)
  joined : List (Fin n)
  ended : Fin n → Bool
  /-- A worker has ended in its wait, and the mutex stays locked. -/
  orphaned : Bool

def start : Pool α n := ⟨init, .before, [], [], fun _ => false, false⟩

/-- A worker that has ended does nothing, and nobody gets a mutex that stays locked. -/
def Pool.lets (p : Pool α n) : Act α n → Bool
  | .wait t | .resume t => !p.ended t && !p.orphaned
  | .spurious t | .run t => !p.ended t
  | _ => true

/-- `StopAll` up to its next call of `pthread_cancel`, or to the return of `pthread_join`. -/
def Pool.next (p : Pool α n) : Option (Pool α n) :=
  match p.stop with
  | .before | .returned => none
  | .loop v i =>
    match (p.st.vec v)[i]? with
    | some t => some { p with cancelled := p.cancelled ++ [t], stop := .join v i t }
    | none => some { p with stop := if v = .idle then .loop .busy 0 else .returned }
  | .join v i t =>
    if p.ended t then some { p with joined := p.joined ++ [t], stop := .loop v (i + 1) } else none

def Pool.isCancelled (p : Pool α n) (t : Fin n) : Bool := p.cancelled.contains t

lemma isCancelled_iff {p : Pool α n} {t : Fin n} : p.isCancelled t = true ↔ t ∈ p.cancelled :=
  List.contains_iff_mem

/-- A cancelled worker ends at a cancellation point: in its wait, once it has the mutex again, or
between the unlock and the next lock, where it runs its task. -/
def Pool.ends (p : Pool α n) (t : Fin n) : Option (Pool α n) :=
  if p.isCancelled t = true ∧ p.ended t = false then
    match p.st.pc t with
    | .wait _ =>
      if p.orphaned then none
      else
        some { p with
          -- it does not wait for a signal any more
          st := { p.st with pc := Function.update p.st.pc t (.wait true) }
          ended := Function.update p.ended t true
          orphaned := true }
    | .running _ => some { p with ended := Function.update p.ended t true }
    | _ => none
  else none

inductive Op (α : Type) (n : ℕ)
  | pool (a : Act α n)
  /-- `StopAll` is called -/
  | stopAll
  /-- `StopAll` goes on -/
  | next
  | ends (t : Fin n)
  deriving DecidableEq

def poolStep (p : Pool α n) (op : Op α n) : Option (Pool α n) :=
  if p.st.undefined then none
  else
    match op with
    | .pool a => if p.lets a then (step p.st a).map fun s => { p with st := s } else none
    | .stopAll =>
      if p.st.registered = n ∧ p.stop = .before then some { p with stop := .loop .idle 0 }
      else none
    | .next => p.next
    | .ends t => p.ends t

/-- The workers that `StopAll` has not come to yet. -/
def Pool.ahead (p : Pool α n) : List (Fin n) :=
  match p.stop.place with
  | some (.idle, k) => p.st.idleThread.drop k ++ p.st.busyThread
  | some (.busy, k) => p.st.busyThread.drop k
  | none => []

/-- The worker that `StopAll` cancels next. -/
def Pool.upcoming (p : Pool α n) : Option (Fin n) :=
  match p.stop with
  | .loop v i => (p.st.vec v)[i]?
  | _ => none

/-- No `Run` returns, no worker takes a task once it is cancelled, and `StopAll` does not come to
a worker outside `Run` when the mutex stays locked. -/
def Orderly (p : Pool α n) : Op α n → Prop
  | .pool (.run _) => False
  | .pool (.resume t) => p.isCancelled t = true → p.st.taskList = []
  | .next => ∀ t ∈ p.upcoming, p.orphaned = true → (p.st.pc t).busy = true
  | _ => True

instance (p : Pool α n) (op : Op α n) : Decidable (Orderly p op) := by
  unfold Orderly
  split <;> infer_instance

/-- What is kept while all is orderly. -/
structure StopInv (p : Pool α n) : Prop where
  lists : ListInv p.st
  registered : p.stop ≠ .before → p.st.registered = n
  quiet : p.stop = .before → p.cancelled = []
  cancels : p.stop ≠ .before → ∀ t, p.cancelled.count t + p.ahead.count t = 1
  joins : p.cancelled = p.joined ++ p.stop.joining.toList
  returns : ∀ t ∈ p.stop.joining,
    p.ended t = true ∨ (p.st.pc t).busy = true ∨ p.orphaned = false
  bounds : ∀ v k, p.stop.place = some (v, k) → k ≤ (p.st.vec v).length
  ended : ∀ t, p.ended t = true → t ∈ p.cancelled
  gone : ∀ t ∈ p.joined, p.ended t = true

lemma vectors_step {s s' : St α n} {a : Act α n} (h : ListInv s) (hr : s.registered = n)
    (hs : step s a = some s') : s'.registered = n ∧
      ((s'.idleThread = s.idleThread ∧ s'.busyThread = s.busyThread) ∧
          (∀ t, a = .resume t → s.taskList = []) ∨
        ∃ t, a = .resume t ∧ s.taskList ≠ [] ∧ t ∈ s.idleThread ∧
          s'.idleThread = s.idleThread.erase t ∧ s'.busyThread = s.busyThread ++ [t]) := by
  obtain ⟨-, hs⟩ := Option.ite_none_left_eq_some.mp hs
  cases a with
  | create =>
    obtain ⟨hlt, hs⟩ := Option.dite_none_right_eq_some.mp hs
    cases hs
    exact ⟨hr, .inl ⟨⟨rfl, rfl⟩, fun _ h => by cases h⟩⟩
  | register =>
    obtain ⟨hlt, -⟩ := Option.dite_none_right_eq_some.mp hs
    omega
  | addTask task c =>
    obtain ⟨-, hs⟩ := Option.ite_none_right_eq_some.mp hs
    obtain ⟨pc, -, rfl⟩ := Option.map_eq_some_iff.mp hs
    exact ⟨hr, .inl ⟨⟨rfl, rfl⟩, fun _ h => by cases h⟩⟩
  | wait t =>
    simp only [act] at hs
    split at hs
    · cases hs
      exact ⟨hr, .inl ⟨⟨rfl, rfl⟩, fun _ h => by cases h⟩⟩
    · cases hs
  | spurious t =>
    obtain ⟨-, hs⟩ := Option.ite_none_right_eq_some.mp hs
    cases hs
    exact ⟨hr, .inl ⟨⟨rfl, rfl⟩, fun _ h => by cases h⟩⟩
  | resume t =>
    simp only [act] at hs
    split at hs
    · next hpc =>
      cases htasks : s.taskList with
      | nil =>
        rw [takeTask, htasks] at hs
        cases hs
        exact ⟨hr, .inl ⟨⟨rfl, rfl⟩, fun _ _ => rfl⟩⟩
      | cons task rest =>
        have hidle := h.mem_idle (by rw [hpc]; rfl) (by simp [htasks])
        rw [takeTask, htasks] at hs
        dsimp only at hs
        rw [moveToBusy, if_pos hidle] at hs
        cases hs
        exact ⟨hr, .inr ⟨t, rfl, List.cons_ne_nil task rest, hidle, rfl, rfl⟩⟩
    · cases hs
  | run t =>
    simp only [act] at hs
    split at hs
    · cases hs
      exact ⟨hr, .inl ⟨⟨rfl, rfl⟩, fun _ h => by cases h⟩⟩
    · cases hs

namespace StopInv

variable {p q : Pool α n}

lemma eq_joining (h : StopInv p) {t : Fin n} (ht : t ∈ p.cancelled) (halive : p.ended t = false) :
    p.stop.joining = some t := by
  rw [h.joins, List.mem_append, Option.mem_toList] at ht
  rcases ht with ht | ht
  · rw [h.gone t ht] at halive
    cases halive
  · exact ht

lemma place_of_idle (h : StopInv p) {t : Fin n} (hbegun : p.stop ≠ .before) (ht : t ∉ p.cancelled)
    (hidle : t ∈ p.st.idleThread) {k : ℕ} {v : Vec} (hplace : p.stop.place = some (v, k)) :
    v = .idle ∧ t ∉ p.st.idleThread.take k ∧ k < p.st.idleThread.length := by
  have hone := h.cancels hbegun t
  rw [List.count_eq_zero_of_not_mem ht, Nat.zero_add] at hone
  have hlist := h.lists.members_of_registered (h.registered hbegun) t
  have hpos := List.count_pos_iff.mpr hidle
  cases v with
  | idle =>
    simp only [Pool.ahead, hplace, List.count_append] at hone
    have hsplit := congrArg (List.count t) (List.take_append_drop k p.st.idleThread)
    rw [List.count_append] at hsplit
    refine ⟨rfl, List.count_eq_zero.mp (by omega), ?_⟩
    by_contra hge
    rw [List.drop_eq_nil_of_le (not_lt.mp hge), List.count_nil] at hsplit hone
    omega
  | busy =>
    simp only [Pool.ahead, hplace] at hone
    have hsub := (List.drop_sublist k p.st.busyThread).count_le t
    omega

/-- A worker that is not cancelled takes a task: it moves from the idle workers that are ahead to
the busy ones, which are ahead too. -/
lemma take (h : StopInv p) {s : St α n} {t : Fin n} (hs : ListInv s) (hr : s.registered = n)
    (ht : t ∉ p.cancelled) (hidle : t ∈ p.st.idleThread)
    (hidle' : s.idleThread = p.st.idleThread.erase t)
    (hbusy' : s.busyThread = p.st.busyThread ++ [t]) : StopInv { p with st := s } where
  lists := hs
  registered _ := hr
  quiet := h.quiet
  cancels hbegun u := by
    rw [← h.cancels hbegun u]
    congr 1
    cases hplace : p.stop.place with
    | none =>
      -- `StopAll` has come to all workers
      have hone := h.cancels hbegun t
      simp [Pool.ahead, hplace, List.count_eq_zero_of_not_mem ht] at hone
    | some place =>
      obtain ⟨v, k⟩ := place
      obtain ⟨rfl, hout, hlt⟩ := h.place_of_idle hbegun ht hidle hplace
      have hin : t ∈ p.st.idleThread.drop k := by
        rw [← List.take_append_drop k p.st.idleThread, List.mem_append] at hidle
        exact hidle.resolve_left hout
      have herase : (p.st.idleThread.erase t).drop k = (p.st.idleThread.drop k).erase t := by
        conv_lhs => rw [← List.take_append_drop k p.st.idleThread]
        rw [List.erase_append_right _ hout, List.drop_left' (by simp [hlt.le])]
      have hmove := count_move (k := p.st.busyThread) hin u
      simp only [Pool.ahead, hplace, hidle', hbusy', herase]
      rw [List.count_append, hmove, List.count_append]
  joins := h.joins
  returns u hu := by
    rcases h.returns u hu with hend | hbusy | horphan
    · exact .inl hend
    · refine .inr (.inl ((hs.busy u).mp ?_))
      rw [hbusy']
      exact List.mem_append_left _ ((h.lists.busy u).mpr hbusy)
    · exact .inr (.inr horphan)
  bounds v k hplace := by
    have hbegun : p.stop ≠ .before := fun hb => by simp [hb, StopPc.place] at hplace
    obtain ⟨rfl, -, hlt⟩ := h.place_of_idle hbegun ht hidle hplace
    simp only [St.vec, hidle', List.length_erase_of_mem hidle]
    omega
  ended := h.ended
  gone := h.gone

/-- A step of the pool that leaves the vectors alone. -/
lemma keep (h : StopInv p) {s : St α n} (hs : ListInv s)
    (hr : p.stop ≠ .before → s.registered = n)
    (hvec : p.stop ≠ .before → s.idleThread = p.st.idleThread ∧ s.busyThread = p.st.busyThread) :
    StopInv { p with st := s } where
  lists := hs
  registered := hr
  quiet := h.quiet
  cancels hbegun u := by
    rw [← h.cancels hbegun u]
    simp only [Pool.ahead, (hvec hbegun).1, (hvec hbegun).2]
  joins := h.joins
  returns u hu := by
    have hbegun : p.stop ≠ .before := fun hb => by simp [hb, StopPc.joining] at hu
    rw [← hs.busy u, (hvec hbegun).2, h.lists.busy u]
    exact h.returns u hu
  bounds v k hplace := by
    have hbegun : p.stop ≠ .before := fun hb => by simp [hb, StopPc.place] at hplace
    have hsame : s.vec v = p.st.vec v := by
      cases v with
      | idle => exact (hvec hbegun).1
      | busy => exact (hvec hbegun).2
    rw [hsame]
    exact h.bounds v k hplace
  ended := h.ended
  gone := h.gone

lemma pool (h : StopInv p) {a : Act α n} (hok : Orderly p (.pool a)) {s : St α n}
    (hs : step p.st a = some s) : StopInv { p with st := s } := by
  have hrun : ∀ t, a ≠ .run t := by
    rintro t rfl
    exact hok
  have hlist := listInv_step h.lists hrun hs
  by_cases hbegun : p.stop = .before
  · exact h.keep hlist (fun hne => absurd hbegun hne) fun hne => absurd hbegun hne
  · obtain ⟨hr, ⟨hsame, -⟩ | ⟨t, rfl, htasks, hidle, hidle', hbusy'⟩⟩ :=
      vectors_step h.lists (h.registered hbegun) hs
    · exact h.keep hlist (fun _ => hr) fun _ => hsame
    · exact h.take hlist hr (fun ht => htasks (hok (isCancelled_iff.mpr ht))) hidle hidle' hbusy'

lemma begin (h : StopInv p) (hr : p.st.registered = n) (hstop : p.stop = .before) :
    StopInv { p with stop := .loop .idle 0 } where
  lists := h.lists
  registered _ := hr
  quiet h := nomatch h
  cancels _ t := by
    simp only [Pool.ahead, StopPc.place, h.quiet hstop, List.drop_zero, List.count_nil,
      List.count_append, Nat.zero_add]
    exact h.lists.members_of_registered hr t
  joins := by
    have hj := h.joins
    rwa [hstop] at hj
  returns _ ht := nomatch ht
  bounds v k hplace := by
    cases hplace
    exact Nat.zero_le _
  ended := h.ended
  gone := h.gone

lemma drop_eq_cons {l : List (Fin n)} {i : ℕ} {t : Fin n} (h : l[i]? = some t) :
    l.drop i = t :: l.drop (i + 1) ∧ i + 1 ≤ l.length := by
  obtain ⟨hlt, rfl⟩ := List.getElem?_eq_some_iff.mp h
  exact ⟨List.drop_eq_getElem_cons hlt, hlt⟩

lemma ahead_eq_cons {v : Vec} {i : ℕ} {t : Fin n} (hstop : p.stop = .loop v i)
    (ht : (p.st.vec v)[i]? = some t) :
    p.ahead = t :: Pool.ahead { p with stop := .join v i t } := by
  have hdrop := (drop_eq_cons ht).1
  cases v with
  | idle =>
    simp only [St.vec] at hdrop
    simp [Pool.ahead, hstop, StopPc.place, hdrop]
  | busy =>
    simp only [St.vec] at hdrop
    simp [Pool.ahead, hstop, StopPc.place, hdrop]

lemma cancel (h : StopInv p) {v : Vec} {i : ℕ} {t : Fin n} (hstop : p.stop = .loop v i)
    (ht : (p.st.vec v)[i]? = some t) (hok : p.orphaned = true → (p.st.pc t).busy = true) :
    StopInv { p with cancelled := p.cancelled ++ [t], stop := .join v i t } where
  lists := h.lists
  registered _ := h.registered (by simp [hstop])
  quiet h := nomatch h
  cancels _ u := by
    have hone := h.cancels (by simp [hstop]) u
    rw [ahead_eq_cons hstop ht, List.count_cons] at hone
    rw [← hone, List.count_append, List.count_singleton]
    simp only [Pool.ahead]
    omega
  joins := by
    have hj := h.joins
    simp only [hstop, StopPc.joining, Option.toList_none, List.append_nil] at hj
    rw [hj]
    rfl
  returns u hu := by
    cases hu
    cases horphan : p.orphaned with
    | false => exact .inr (.inr rfl)
    | true => exact .inr (.inl (hok horphan))
  bounds w k hplace := by
    cases hplace
    exact (drop_eq_cons ht).2
  ended u hu := List.mem_append_left _ (h.ended u hu)
  gone := h.gone

lemma pass (h : StopInv p) {v : Vec} {i : ℕ} (hstop : p.stop = .loop v i)
    (hend : (p.st.vec v)[i]? = none) :
    StopInv { p with stop := if v = .idle then .loop .busy 0 else .returned } := by
  have hle := List.getElem?_eq_none_iff.mp hend
  have hone := h.cancels (by simp [hstop])
  have hj := h.joins
  simp only [hstop, StopPc.joining, Option.toList_none, List.append_nil] at hj
  have hr := h.registered (by simp [hstop])
  cases v with
  | idle =>
    simp only [St.vec] at hle
    refine ⟨h.lists, fun _ => hr, by simp, fun _ t => ?_, ?_, by simp [StopPc.joining],
      fun w k hplace => ?_, h.ended, h.gone⟩
    · rw [← hone t]
      simp [Pool.ahead, StopPc.place, hstop, List.drop_eq_nil_of_le hle]
    · simpa [StopPc.joining] using hj
    · cases hplace
      exact Nat.zero_le _
  | busy =>
    simp only [St.vec] at hle
    refine ⟨h.lists, fun _ => hr, by simp, fun _ t => ?_, ?_, by simp [StopPc.joining],
      by simp [StopPc.place], h.ended, h.gone⟩
    · rw [← hone t]
      simp [Pool.ahead, StopPc.place, hstop, List.drop_eq_nil_of_le hle]
    · simpa [StopPc.joining] using hj

lemma join (h : StopInv p) {v : Vec} {i : ℕ} {t : Fin n} (hstop : p.stop = .join v i t)
    (hend : p.ended t = true) :
    StopInv { p with joined := p.joined ++ [t], stop := .loop v (i + 1) } where
  lists := h.lists
  registered _ := h.registered (by simp [hstop])
  quiet h := nomatch h
  cancels _ u := by
    have hone := h.cancels (by simp [hstop]) u
    simp only [Pool.ahead, StopPc.place, hstop] at hone ⊢
    exact hone
  joins := by
    rw [h.joins, hstop]
    simp [StopPc.joining]
  returns _ ht := nomatch ht
  bounds w k hplace := h.bounds w k (by rw [hstop]; exact hplace)
  ended := h.ended
  gone u hu := by
    rcases List.mem_append.mp hu with hu | hu
    · exact h.gone u hu
    · rwa [List.mem_singleton.mp hu]

lemma next (h : StopInv p) (hok : Orderly p .next) (hs : p.next = some q) : StopInv q := by
  unfold Pool.next at hs
  split at hs
  · cases hs
  · cases hs
  · next v i hstop =>
    split at hs
    · next t ht =>
      cases hs
      exact h.cancel hstop ht (hok t (by simp [Pool.upcoming, hstop, ht]))
    · next hend =>
      cases hs
      exact h.pass hstop hend
  · next v i t hstop =>
    obtain ⟨hend, hs⟩ := Option.ite_none_right_eq_some.mp hs
    cases hs
    exact h.join hstop hend

/-- The worker that ends is the one that `StopAll` waits for. -/
lemma leave (h : StopInv p) {t : Fin n} (ht : t ∈ p.cancelled) (halive : p.ended t = false)
    {s : St α n} (hs : ListInv s) (hr : s.registered = p.st.registered)
    (hidle : s.idleThread = p.st.idleThread) (hbusy : s.busyThread = p.st.busyThread) (b : Bool) :
    StopInv { p with st := s, ended := Function.update p.ended t true, orphaned := b } := by
  have hjoining := h.eq_joining ht halive
  have hkeep := h.keep hs (fun hbegun => hr.trans (h.registered hbegun)) fun _ => ⟨hidle, hbusy⟩
  refine ⟨hs, hkeep.registered, h.quiet, hkeep.cancels, h.joins, fun u hu => .inl ?_,
    hkeep.bounds, fun u hu => ?_, fun u hu => ?_⟩
  · obtain rfl : t = u := Option.some.inj (hjoining.symm.trans hu)
    exact Function.update_self ..
  · by_cases hut : u = t
    · exact hut ▸ ht
    · exact h.ended u (by simpa [hut] using hu)
  · by_cases hut : u = t
    · simp [hut]
    · simpa [hut] using h.gone u hu

lemma ends (h : StopInv p) {t : Fin n} (hs : p.ends t = some q) : StopInv q := by
  obtain ⟨⟨hcancelled, halive⟩, hs⟩ := Option.ite_none_right_eq_some.mp hs
  have ht := isCancelled_iff.mp hcancelled
  split at hs
  · next woken hpc =>
    obtain ⟨-, hs⟩ := Option.ite_none_left_eq_some.mp hs
    cases hs
    exact h.leave ht halive (h.lists.update (by rw [hpc]; rfl)) rfl rfl rfl true
  · cases hs
    exact h.leave ht halive h.lists rfl rfl rfl p.orphaned
  · cases hs

end StopInv

/-- `StopAll` waits for a worker that waits for the mutex itself. -/
structure Hangs (p : Pool α n) (v : Vec) (i : ℕ) (t : Fin n) : Prop where
  stop : p.stop = .join v i t
  orphaned : p.orphaned = true
  alive : p.ended t = false
  idle : (p.st.pc t).busy = false

lemma Hangs.act {p : Pool α n} {v : Vec} {i : ℕ} {t : Fin n} (h : Hangs p v i t) {a : Act α n}
    {s : St α n} (hlets : p.lets a = true) (hs : step p.st a = some s) :
    (s.pc t).busy = false := by
  obtain ⟨-, hs⟩ := Option.ite_none_left_eq_some.mp hs
  have hupdate (u : Fin n) (y : Pc α) (hy : u = t → y.busy = false) :
      (Function.update p.st.pc u y t).busy = false := by
    by_cases hu : t = u
    · subst hu
      simpa using hy rfl
    · simpa [hu] using h.idle
  cases a with
  | create =>
    obtain ⟨hlt, hs⟩ := Option.dite_none_right_eq_some.mp hs
    cases hs
    exact hupdate _ _ fun _ => rfl
  | register =>
    obtain ⟨hlt, hs⟩ := Option.dite_none_right_eq_some.mp hs
    cases hs
    exact h.idle
  | addTask task c =>
    obtain ⟨-, hs⟩ := Option.ite_none_right_eq_some.mp hs
    obtain ⟨pc, hsig, rfl⟩ := Option.map_eq_some_iff.mp hs
    exact (map_signal Pc.busy (fun y _ => busy_wake y) hsig t).trans h.idle
  | wait u => simp [Pool.lets, h.orphaned] at hlets
  | spurious u =>
    obtain ⟨-, hs⟩ := Option.ite_none_right_eq_some.mp hs
    cases hs
    exact hupdate _ _ fun hu => by rw [busy_wake, hu, h.idle]
  | resume u => simp [Pool.lets, h.orphaned] at hlets
  | run u =>
    simp only [ThreadPool.act] at hs
    split at hs
    · cases hs
      exact hupdate _ _ fun _ => rfl
    · cases hs

lemma Hangs.step {p q : Pool α n} {v : Vec} {i : ℕ} {t : Fin n} (h : Hangs p v i t) {op : Op α n}
    (hs : poolStep p op = some q) : Hangs q v i t := by
  obtain ⟨-, hs⟩ := Option.ite_none_left_eq_some.mp hs
  cases op with
  | pool a =>
    obtain ⟨hlets, hs⟩ := Option.ite_none_right_eq_some.mp hs
    obtain ⟨s, hpool, rfl⟩ := Option.map_eq_some_iff.mp hs
    exact ⟨h.stop, h.orphaned, h.alive, h.act hlets hpool⟩
  | stopAll => simp [h.stop] at hs
  | next => simp [Pool.next, h.stop, h.alive] at hs
  | ends u =>
    obtain ⟨⟨-, hu⟩, hs⟩ := Option.ite_none_right_eq_some.mp hs
    split at hs
    · simp [h.orphaned] at hs
    · next task hpc =>
      cases hs
      have hut : t ≠ u := by
        rintro rfl
        have hidle := h.idle
        simp [hpc, Pc.busy] at hidle
      exact ⟨h.stop, h.orphaned, by simpa [hut] using h.alive, h.idle⟩
    · cases hs

end LinuxSamples.ThreadPool
