import LinuxSamples.CondVar
import LinuxSamples.Ring
import LinuxSamples.BoundedQueue

/-!
The bounded buffer of `produce_consume.c`, used by any number of threads.

The buffer is a ring of `BUFFER_SIZE` cells, so it implements the abstract queue of
`BUFFER_SIZE - 1` items. `Produce` and `Consume` signal once for every item stored or taken;
that one signal is enough because the waiters stay covered, whoever gets the mutex first.
-/

namespace LinuxSamples.ProduceConsume

open LinuxSamples.Run LinuxSamples.Tally LinuxSamples.CondVar LinuxSamples.Ring
open LinuxSamples.BoundedQueue

def BUFFER_SIZE : ℕ := 8

/-- `struct Products` besides the mutex and the condition variables. -/
structure Products where
  buffer : ℕ → ℤ
  posReadFrom : ℕ
  posWriteTo : ℕ

def bufferIsFull (p : Products) : Bool := (p.posWriteTo + 1) % BUFFER_SIZE = p.posReadFrom

def bufferIsEmpty (p : Products) : Bool := p.posWriteTo = p.posReadFrom

/-- `Produce` under the mutex: it stores the item, or waits for `notFull`. -/
def produce (p : Products) (item : ℤ) : Option Products :=
  if bufferIsFull p then none
  else some { p with
    buffer := Function.update p.buffer p.posWriteTo item
    posWriteTo := next BUFFER_SIZE p.posWriteTo }

/-- `Consume` under the mutex: it takes an item, or waits for `notEmpty`. -/
def consume (p : Products) : Option (ℤ × Products) :=
  if bufferIsEmpty p then none
  else some (p.buffer p.posReadFrom, { p with posReadFrom := next BUFFER_SIZE p.posReadFrom })

/-! ### The threads -/

/-- A thread in a condition wait sleeps, or has been woken by a signal, or for no reason. -/
inductive Wake
  | blocked | signalled | spurious
  deriving DecidableEq, Repr

/-- A thread is in neither function, or in the wait of `Produce` or of `Consume`. -/
inductive Pc
  | out
  | notFull (item : ℤ) (w : Wake)
  | notEmpty (w : Wake)
  deriving DecidableEq, Repr

def Pc.setWake (w : Wake) : Pc → Pc
  | .out => .out
  | .notFull item _ => .notFull item w
  | .notEmpty _ => .notEmpty w

/-- The thread is in the wait for `notFull`, in the state `w`. -/
def Pc.atNotFull (w : Wake) : Pc → Bool
  | .notFull _ w' => w' = w
  | _ => false

/-- The thread is in the wait for `notEmpty`, in the state `w`. -/
def Pc.atNotEmpty (w : Wake) : Pc → Bool
  | .notEmpty w' => w' = w
  | _ => false

/-- The buffer, the threads, and what has been stored and taken so far. -/
structure St (ι : Type) where
  products : Products
  pc : ι → Pc
  log : List (Event ℤ)

/-- A step of thread `t`; `c` is the thread that the signal at its end wakes. -/
inductive Act (ι : Type)
  | produce (t : ι) (item : ℤ) (c : Option ι)
  | consume (t : ι) (c : Option ι)
  | resume (t : ι) (c : Option ι)
  | spurious (t : ι)
  deriving DecidableEq, Repr

variable {ι : Type} [Fintype ι] [DecidableEq ι]

/-- From the lock, or the return of the wait, to the unlock or the next wait. -/
def produceSection (s : St ι) (t : ι) (item : ℤ) (c : Option ι) : Option (St ι) :=
  match produce s.products item with
  | none => some { s with pc := Function.update s.pc t (.notFull item .blocked) }
  | some p =>
    (signal (Pc.atNotEmpty .blocked) (Pc.setWake .signalled) (Function.update s.pc t .out) c).map
      fun pc => ⟨p, pc, s.log ++ [.write [item]]⟩

/-- From the lock, or the return of the wait, to the unlock or the next wait. -/
def consumeSection (s : St ι) (t : ι) (c : Option ι) : Option (St ι) :=
  match consume s.products with
  | none => some { s with pc := Function.update s.pc t (.notEmpty .blocked) }
  | some (item, p) =>
    (signal (Pc.atNotFull .blocked) (Pc.setWake .signalled) (Function.update s.pc t .out) c).map
      fun pc => ⟨p, pc, s.log ++ [.read [item]]⟩

def step (s : St ι) : Act ι → Option (St ι)
  | .produce t item c => if s.pc t = .out then produceSection s t item c else none
  | .consume t c => if s.pc t = .out then consumeSection s t c else none
  | .resume t c =>
    match s.pc t with
    | .out => none
    | .notFull item w => if w = .blocked then none else produceSection s t item c
    | .notEmpty w => if w = .blocked then none else consumeSection s t c
  | .spurious t =>
    if (s.pc t).atNotFull .blocked ∨ (s.pc t).atNotEmpty .blocked then
      some { s with pc := Function.update s.pc t ((s.pc t).setWake .spurious) }
    else none

def init : St ι := ⟨⟨fun _ => 0, 0, 0⟩, fun _ => .out, []⟩

/-! ### The buffer implements the abstract queue -/

structure Products.Ok (p : Products) : Prop where
  read : p.posReadFrom < BUFFER_SIZE
  write : p.posWriteTo < BUFFER_SIZE

def Products.items (p : Products) : List ℤ :=
  contents p.buffer BUFFER_SIZE p.posReadFrom p.posWriteTo

/-- The abstract queue a buffer stands for. -/
def Products.queue (p : Products) (h : p.Ok) : Q ℤ (BUFFER_SIZE - 1) :=
  ⟨p.items, by
    have := used_lt (w := p.posWriteTo) h.read
    rw [Products.items, length_contents]
    omega⟩

lemma bufferIsFull_iff {p : Products} (h : p.Ok) :
    bufferIsFull p ↔ p.items.length = BUFFER_SIZE - 1 := by
  rw [Products.items, length_contents, ← next_eq_iff h.read h.write, next_eq_mod h.write]
  simp [bufferIsFull]

lemma bufferIsEmpty_iff {p : Products} (h : p.Ok) : bufferIsEmpty p ↔ p.items.length = 0 := by
  rw [Products.items, length_contents, used_eq_zero_iff h.read h.write]
  simp [bufferIsEmpty]

lemma produce_spec {p : Products} (h : p.Ok) (item : ℤ) :
    produce p item = none ∧ p.items.length = BUFFER_SIZE - 1 ∨
    ∃ p', produce p item = some p' ∧ p'.Ok ∧ p'.items = p.items ++ [item] := by
  by_cases hfull : bufferIsFull p
  · exact Or.inl ⟨if_pos hfull, (bufferIsFull_iff h).mp hfull⟩
  · refine Or.inr ⟨_, if_neg hfull, ⟨h.read, next_lt h.write⟩, ?_⟩
    refine contents_write h.read h.write (fun hc => hfull ?_) item
    rw [next_eq_mod h.write] at hc
    simpa [bufferIsFull] using hc

lemma consume_spec {p : Products} (h : p.Ok) :
    consume p = none ∧ p.items.length = 0 ∨
    ∃ item p', consume p = some (item, p') ∧ p'.Ok ∧ p.items = item :: p'.items := by
  by_cases hempty : bufferIsEmpty p
  · exact Or.inl ⟨if_pos hempty, (bufferIsEmpty_iff h).mp hempty⟩
  · refine Or.inr ⟨_, _, if_neg hempty, ⟨next_lt h.read, h.write⟩, ?_⟩
    exact contents_read h.read h.write (by simpa [bufferIsEmpty] using hempty)

/-! ### The invariant -/

/-- The buffer holds what the abstract queue holds after the same events, and the waiters of
either kind are covered. -/
structure Inv (s : St ι) : Prop where
  ok : s.products.Ok
  refines : exec BoundedQueue.step Q.empty s.log = some (s.products.queue ok)
  consumers : Covered (Pc.atNotEmpty .blocked) (Pc.atNotEmpty .signalled)
    s.products.items.length s.pc
  producers : Covered (Pc.atNotFull .blocked) (Pc.atNotFull .signalled)
    (BUFFER_SIZE - 1 - s.products.items.length) s.pc

omit [DecidableEq ι] in
lemma inv_init : Inv (init : St ι) where
  ok := ⟨(by decide : 0 < BUFFER_SIZE), (by decide : 0 < BUFFER_SIZE)⟩
  refines := by
    have hempty : (init : St ι).products.items = [] :=
      contents_self (by decide : 0 < BUFFER_SIZE)
    exact congrArg some (Q.ext hempty.symm)
  consumers := fun _ h => nomatch h
  producers := fun _ h => nomatch h

lemma atNotFull_setWake {x : Pc} (h : x.atNotEmpty .blocked) (w v : Wake) :
    (x.setWake w).atNotFull v = x.atNotFull v := by
  cases x <;> simp_all [Pc.atNotEmpty, Pc.atNotFull, Pc.setWake]

lemma atNotEmpty_setWake {x : Pc} (h : x.atNotFull .blocked) (w v : Wake) :
    (x.setWake w).atNotEmpty v = x.atNotEmpty v := by
  cases x <;> simp_all [Pc.atNotEmpty, Pc.atNotFull, Pc.setWake]

lemma atNotEmpty_wake {x : Pc} (h : x.atNotEmpty .blocked) :
    (x.setWake .signalled).atNotEmpty .signalled ∧ ¬ x.atNotEmpty .signalled := by
  cases x <;> simp_all [Pc.atNotEmpty, Pc.setWake]

lemma atNotFull_wake {x : Pc} (h : x.atNotFull .blocked) :
    (x.setWake .signalled).atNotFull .signalled ∧ ¬ x.atNotFull .signalled := by
  cases x <;> simp_all [Pc.atNotFull, Pc.setWake]

/-- A thread that may run `Produce`: it has just called it, or has been woken in its wait. -/
def Pc.inProduce (x : Pc) : Prop := x = .out ∨ ∃ item w, x = .notFull item w ∧ w ≠ .blocked

/-- A thread that may run `Consume`. -/
def Pc.inConsume (x : Pc) : Prop := x = .out ∨ ∃ w, x = .notEmpty w ∧ w ≠ .blocked

lemma inv_produceSection {s s' : St ι} (h : Inv s) {t : ι} (ht : (s.pc t).inProduce) {item : ℤ}
    {c : Option ι} (hs : produceSection s t item c = some s') : Inv s' := by
  have hE : ¬ (s.pc t).atNotEmpty .signalled := by
    rcases ht with ht | ⟨_, _, ht, -⟩ <;> simp [ht, Pc.atNotEmpty]
  rcases produce_spec h.ok item with ⟨hp, hfull⟩ | ⟨p, hp, hok, hitems⟩
  · simp only [produceSection, hp, Option.some.injEq] at hs
    subst hs
    refine ⟨h.ok, h.refines, h.consumers.move Bool.false_ne_true hE, ?_⟩
    simp only [hfull, Nat.sub_self]
    exact covered_zero _
  · simp only [produceSection, hp, Option.map_eq_some_iff] at hs
    obtain ⟨pc, hsig, rfl⟩ := hs
    have hlen : p.items.length = s.products.items.length + 1 := by simp [hitems]
    refine ⟨hok, ?_, ?_, ?_⟩
    · have hwrite : BoundedQueue.step (s.products.queue h.ok) (.write [item]) =
          some (p.queue hok) := step_write hitems
      rw [exec_append, h.refines, Option.bind_some, exec_cons, hwrite]
      rfl
    · rw [hlen]
      exact (h.consumers.move (x := .out) Bool.false_ne_true hE).signal
        (fun x hx => atNotEmpty_wake hx) hsig
    · -- the room that the item takes up was promised to this thread, if it had been signalled
      have hroom : p.items.length ≤ BUFFER_SIZE - 1 := (p.queue hok).bound
      have hn : BUFFER_SIZE - 1 - s.products.items.length =
          BUFFER_SIZE - 1 - p.items.length + 1 := by omega
      have hcov := h.producers
      rw [hn] at hcov
      exact (hcov.take (i := t) (x := .out) Bool.false_ne_true).congr
        (map_signal _ (fun x hx => atNotFull_setWake hx _ _) hsig)
        (map_signal _ (fun x hx => atNotFull_setWake hx _ _) hsig)

lemma inv_consumeSection {s s' : St ι} (h : Inv s) {t : ι} (ht : (s.pc t).inConsume)
    {c : Option ι} (hs : consumeSection s t c = some s') : Inv s' := by
  have hF : ¬ (s.pc t).atNotFull .signalled := by
    rcases ht with ht | ⟨_, ht, -⟩ <;> simp [ht, Pc.atNotFull]
  rcases consume_spec h.ok with ⟨hp, hempty⟩ | ⟨item, p, hp, hok, hitems⟩
  · simp only [consumeSection, hp, Option.some.injEq] at hs
    subst hs
    refine ⟨h.ok, h.refines, ?_, h.producers.move Bool.false_ne_true hF⟩
    simp only [hempty]
    exact covered_zero _
  · simp only [consumeSection, hp, Option.map_eq_some_iff] at hs
    obtain ⟨pc, hsig, rfl⟩ := hs
    have hlen : s.products.items.length = p.items.length + 1 := by simp [hitems]
    have hroom : s.products.items.length ≤ BUFFER_SIZE - 1 := (s.products.queue h.ok).bound
    refine ⟨hok, ?_, ?_, ?_⟩
    · have hsplit : (s.products.queue h.ok).items = [item] ++ p.items := hitems
      have hread : BoundedQueue.step (s.products.queue h.ok) (.read [item]) =
          some (p.queue hok) := step_read hsplit rfl
      rw [exec_append, h.refines, Option.bind_some, exec_cons, hread]
      rfl
    · have hcov := h.consumers
      rw [hlen] at hcov
      exact (hcov.take (i := t) (x := .out) Bool.false_ne_true).congr
        (map_signal _ (fun x hx => atNotEmpty_setWake hx _ _) hsig)
        (map_signal _ (fun x hx => atNotEmpty_setWake hx _ _) hsig)
    · have hn : BUFFER_SIZE - 1 - p.items.length =
          BUFFER_SIZE - 1 - s.products.items.length + 1 := by omega
      rw [hn]
      exact (h.producers.move (x := .out) Bool.false_ne_true hF).signal
        (fun x hx => atNotFull_wake hx) hsig

lemma inv_step {s s' : St ι} {a : Act ι} (h : Inv s) (hs : step s a = some s') : Inv s' := by
  cases a with
  | produce t item c =>
    simp only [step, Option.ite_none_right_eq_some] at hs
    exact inv_produceSection h (Or.inl hs.1) hs.2
  | consume t c =>
    simp only [step, Option.ite_none_right_eq_some] at hs
    exact inv_consumeSection h (Or.inl hs.1) hs.2
  | resume t c =>
    simp only [step] at hs
    split at hs
    · cases hs
    · next item w hpc =>
      rw [Option.ite_none_left_eq_some] at hs
      exact inv_produceSection h (Or.inr ⟨item, w, hpc, hs.1⟩) hs.2
    · next w hpc =>
      rw [Option.ite_none_left_eq_some] at hs
      exact inv_consumeSection h (Or.inr ⟨w, hpc, hs.1⟩) hs.2
  | spurious t =>
    simp only [step, Option.ite_none_right_eq_some, Option.some.injEq] at hs
    obtain ⟨hb, rfl⟩ := hs
    refine ⟨h.ok, h.refines, h.consumers.move ?_ ?_, h.producers.move ?_ ?_⟩ <;>
      cases hpc : s.pc t <;> simp_all [Pc.setWake, Pc.atNotEmpty, Pc.atNotFull]

lemma reach_inv {s : St ι} (h : Reach step init s) : Inv s :=
  h.invariant inv_init fun _ _ _ hi hs => inv_step hi hs

/-- **The buffer is a correct blocking queue.** In every reachable state the positions are
inside the buffer and leave one cell free; what was consumed followed by what is stored is
what was produced, in order; and while a consumer sleeps although an item is stored, or a
producer although there is room, a signalled one is on its way. -/
theorem produce_consume_blocking_queue {s : St ι} (h : Reach step init s) :
    s.products.posReadFrom < BUFFER_SIZE ∧ s.products.posWriteTo < BUFFER_SIZE ∧
    s.products.items.length ≤ BUFFER_SIZE - 1 ∧
    returned s.log ++ s.products.items = accepted s.log ∧
    (s.products.items ≠ [] → (∃ t, (s.pc t).atNotEmpty .blocked) →
      ∃ t, (s.pc t).atNotEmpty .signalled) ∧
    (s.products.items.length < BUFFER_SIZE - 1 → (∃ t, (s.pc t).atNotFull .blocked) →
      ∃ t, (s.pc t).atNotFull .signalled) := by
  have hi := reach_inv h
  refine ⟨hi.ok.read, hi.ok.write, (s.products.queue hi.ok).bound, history hi.refines, ?_, ?_⟩
  · rintro hne ⟨t, ht⟩
    exact hi.consumers.exists_signalled (List.length_pos_iff.mpr hne) ht
  · rintro hroom ⟨t, ht⟩
    exact hi.producers.exists_signalled (by omega) ht

/-- Two consumers wait; an item is produced and one of them is signalled. -/
theorem produce_consume_blocking_queue_two_consumers :
    ∃ s : St (Fin 3), exec step init [.consume 0 none, .consume 1 none,
      .produce 2 7 (some 0)] = some s ∧ (s.pc 1).atNotEmpty .blocked ∧
      ∃ t, (s.pc t).atNotEmpty .signalled := by
  refine ⟨_, rfl, rfl, ?_⟩
  exact (produce_consume_blocking_queue (ι := Fin 3)
    ⟨[.consume 0 none, .consume 1 none, .produce 2 7 (some 0)], rfl⟩).2.2.2.2.1
    (by decide) ⟨1, rfl⟩

end LinuxSamples.ProduceConsume
