import LinuxSamples.EchoServerEpoll

/-!
The queue of the listening socket of the epoll echo server.

The socket is registered edge-triggered, so an arrival makes at most one event available, and
`AcceptConn` takes one connection for each event. An arrival that finds an event waiting to be
reported, and an `accept` that fails, therefore leave a connection behind for good: the number of
such connections never falls, and the server comes to wait with an empty queue exactly if there
has been none.
-/

namespace LinuxSamples.EchoServerEpoll

open LinuxSamples.Run LinuxSamples.EchoServer

/-- An arrival makes an event available, and an `accept` succeeds. -/
def Timely (s : St) : Act → Prop
  | .arrive => s.registered ∧ s.available = false
  | .accept none _ _ _ => False
  | _ => True

/-- The connections in the queue that no event stands for. -/
def behind (s : St) : ℤ := s.queue - s.available.toNat - s.batch.count .listen

lemma checkSlot_listen (now : ℤ) (s : St) : (checkSlot now s).queue = s.queue ∧
    (checkSlot now s).available = s.available ∧ (checkSlot now s).batch = s.batch := by
  unfold checkSlot
  simp only
  generalize (if s.checkPos = MAX_EVENTS then 0 else s.checkPos) = i
  split <;> exact ⟨rfl, rfl, rfl⟩

lemma check_listen (now : ℤ) (s : St) (n : ℕ) : ((checkSlot now)^[n] s).queue = s.queue ∧
    ((checkSlot now)^[n] s).available = s.available ∧
    ((checkSlot now)^[n] s).batch = s.batch := by
  induction n with
  | zero => exact ⟨rfl, rfl, rfl⟩
  | succ n ih =>
    rw [Function.iterate_succ_apply']
    obtain ⟨h1, h2, h3⟩ := checkSlot_listen now ((checkSlot now)^[n] s)
    exact ⟨h1.trans ih.1, h2.trans ih.2.1, h3.trans ih.2.2⟩

lemma acceptConn_listen (s : St) (nfd : ℕ) (nonblocking add : Bool) (now : ℤ) :
    (acceptConn s nfd nonblocking add now).available = s.available ∧
      (acceptConn s nfd nonblocking add now).waits = s.waits := by
  unfold acceptConn
  simp only
  split <;> exact ⟨rfl, rfl⟩

/-- No event is dispatched while the server waits. -/
def Idle (s : St) : Prop := s.waits → s.batch = []

lemma Idle.of_cons {s s' : St} (h : Idle s) {e : Ready} {rest : List Ready}
    (hb : s.batch = e :: rest) (hwaits : s'.waits = s.waits) : Idle s' := by
  intro hw
  have hnil := h (hwaits ▸ hw)
  rw [hb] at hnil
  cases hnil

lemma behind_wait {s : St} {events : List Ready} (hb : s.batch = [])
    (hnodup : (events.map Ready.fd).Nodup) (hrep : ∀ e ∈ events, reportable s e) :
    behind { s with
      batch := events, available := s.available && !(.listen ∈ events), waits := false } =
      behind s := by
  by_cases hmem : Ready.listen ∈ events
  · have havail : s.available = true := hrep _ hmem
    have honce : events.count .listen = 1 := List.count_eq_one_of_mem hnodup.of_map hmem
    simp [behind, hb, hmem, havail, honce]
  · simp [behind, hb, hmem, List.count_eq_zero_of_not_mem hmem]

lemma behind_step {s s' : St} {a : Act} (h : Idle s) (hs : step s a = some s') :
    Idle s' ∧ (Timely s a → behind s' = behind s) ∧ (¬ Timely s a → behind s < behind s') := by
  cases a with
  | arrive =>
    obtain rfl := Option.some.inj hs
    refine ⟨h, fun hok => ?_, fun hlate => ?_⟩
    · obtain ⟨hreg, hnone⟩ : s.registered ∧ s.available = false := hok
      simp [behind, hreg, hnone]
    · have hsame : (s.available || s.registered) = s.available := by
        cases havail : s.available <;> cases hreg : s.registered <;>
          simp_all [Timely]
      simp only [behind, hsame]
      omega
  | check now =>
    simp only [step, Option.ite_none_right_eq_some, Option.some.injEq] at hs
    obtain ⟨⟨hb, -⟩, rfl⟩ := hs
    obtain ⟨hqueue, havail, hbatch⟩ := check_listen now s 100
    generalize (checkSlot now)^[100] s = t at hqueue havail hbatch
    refine ⟨fun _ => hbatch.trans hb, fun _ => ?_, fun hlate => absurd trivial hlate⟩
    simp only [behind, hqueue, havail, hbatch]
  | wait events =>
    obtain ⟨⟨hwaits, -, hnodup, hrep⟩, hs⟩ := Option.ite_none_right_eq_some.mp hs
    obtain rfl := Option.some.inj hs
    exact ⟨fun hw => absurd hw Bool.false_ne_true, fun _ => behind_wait (h hwaits) hnodup hrep,
      fun hlate => absurd trivial hlate⟩
  | accept nfd nonblocking add now =>
    obtain ⟨rest, hb, ⟨rfl, rfl⟩ | ⟨fd, rfl, hqueue, -, rfl⟩⟩ := accept_cases hs
    · refine ⟨h.of_cons hb rfl, fun hf => hf.elim, fun _ => ?_⟩
      simp only [behind, hb, List.count_cons_self]
      push_cast
      omega
    · obtain ⟨havail, hwaits⟩ := acceptConn_listen s fd nonblocking add now
      refine ⟨h.of_cons hb hwaits, fun _ => ?_, fun hlate => absurd trivial hlate⟩
      simp only [behind, hb, List.count_cons_self, havail]
      push_cast
      omega
  | call o del add now =>
    simp only [step] at hs
    split at hs
    · next fd slot mask rest hb =>
      obtain ⟨-, hs⟩ := Option.ite_none_right_eq_some.mp hs
      obtain ⟨r, -, rfl⟩ := Option.map_eq_some_iff.mp hs
      refine ⟨h.of_cons hb rfl, fun _ => ?_, fun hlate => absurd trivial hlate⟩
      simp [behind, hb, finishCall]
    · cases hs
  | skip =>
    simp only [step] at hs
    split at hs
    · next fd slot mask rest hb =>
      obtain ⟨-, hs⟩ := Option.ite_none_left_eq_some.mp hs
      obtain rfl := Option.some.inj hs
      refine ⟨h.of_cons hb rfl, fun _ => ?_, fun hlate => absurd trivial hlate⟩
      simp [behind, hb]
    · cases hs

/-- **When a connection is forgotten.** A server that waits, with no event available for the
listening socket, has an empty queue exactly if every arrival before made an event available
and every `accept` succeeded. -/
theorem queue_empty_iff {registered : Bool} {s : St} {as : List Act}
    (h : exec step (init registered) as = some s) (hwaits : s.waits)
    (hnone : s.available = false) :
    s.queue = 0 ↔ Guarded step Timely (init registered) as := by
  have hidle : Idle (init registered) := fun hw => nomatch hw
  have hlost : behind s = behind (init registered) ↔ Guarded step Timely (init registered) as :=
    (eq_iff_guarded (I := Idle) (r := behind) (fun _ _ _ hi hs => (behind_step hi hs).1)
      (fun _ _ _ hi hok hs => (behind_step hi hs).2.1 hok)
      (fun _ _ _ hi hbad hs => (behind_step hi hs).2.2 hbad) h hidle).2
  have hidle' : Idle s := Reach.invariant ⟨as, h⟩ hidle fun _ _ _ hi hs => (behind_step hi hs).1
  have hend : behind s = s.queue := by simp [behind, hnone, hidle' hwaits]
  have hstart : behind (init registered) = 0 := rfl
  rw [← hlost, hend, hstart]
  omega

/-- Two connections arrive before the first event is reported: the server waits, there is no event
to wake it, most slots are free, and the second connection is still in the queue. -/
theorem queue_not_empty : ∃ s,
    exec step (init true) (.arrive :: accepted true ++ [.check 0]) = some s ∧
      s.waits ∧ s.available = false ∧ freeSlot s.ev 0 MAX_EVENTS = some 1 ∧ s.queue = 1 := by
  apply exists_exec_of_any
  decide +kernel

instance (s : St) (a : Act) : Decidable (Timely s a) :=
  match a with
  | .arrive => inferInstanceAs (Decidable (_ ∧ _))
  | .accept none _ _ _ => isFalse fun h => h
  | .accept (some _) _ _ _ | .check _ | .wait _ | .call _ _ _ _ | .skip => isTrue trivial

/-- Two connections, the second after the first event has been reported. -/
def apart : List Act := accepted true ++
  ([.arrive, .check 0, .wait [.listen], .accept (some 6) true true 0, .check 0] : List Act)

theorem queue_empty_iff_apart :
    ∃ s, exec step (init true) apart = some s ∧ s.waits ∧ s.queue = 0 := by
  have hrun : ∃ s, exec step (init true) apart = some s ∧ s.waits ∧ s.available = false := by
    apply exists_exec_of_any
    decide +kernel
  obtain ⟨s, hs, hwaits, hnone⟩ := hrun
  exact ⟨s, hs, hwaits, (queue_empty_iff hs hwaits hnone).mpr (by decide +kernel)⟩

end LinuxSamples.EchoServerEpoll
