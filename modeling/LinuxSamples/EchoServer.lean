import LinuxSamples.Run
import LinuxSamples.Bytes

/-!
The epoll echo server of `echoserver.cpp`.

A connection has a slot of `g_Events` whose callback is `RecvData` or `SendData` in turn. The
kernel reports events of the slots one after the other and decides what `recv` and `send`
do; the timeout check closes idle connections. What the peer has sent to a connection and
what `send` has accepted for it are recorded beside the server's own state.
-/

namespace LinuxSamples.EchoServer

open LinuxSamples.Run LinuxSamples.Bytes

def MAX_EVENTS : ℕ := 500

def BUFF_SIZE : ℕ := 128

inductive CallBack
  | null | recvData | sendData
  deriving DecidableEq, Repr

/-- The event mask of a slot, the edge-trigger bit left out. -/
inductive Events
  | zero | epollin | epollout
  deriving DecidableEq, Repr

/-- `struct myevent_s`; `status` says whether the slot is in the epoll wait list. -/
structure MyEvent where
  fd : ℕ
  callBack : CallBack
  events : Events
  status : Bool
  buff : ℕ → UInt8
  len : ℤ
  lastActive : ℤ

def eventSet (ev : MyEvent) (fd : ℕ) (callBack : CallBack) (now : ℤ) : MyEvent :=
  { ev with fd := fd, callBack := callBack, events := .zero, status := false, lastActive := now }

def eventAdd (events : Events) (ev : MyEvent) : MyEvent :=
  { ev with events := events, status := true }

def eventDel (ev : MyEvent) : MyEvent := if ev.status then { ev with status := false } else ev

/-- A connection as its peer sees it: the bytes `recv` has returned and the bytes `send` has
accepted. -/
structure Conn where
  isOpen : Bool
  received : List UInt8
  sent : List UInt8

def Conn.close (c : Conn) : Conn := { c with isOpen := false }

/-- What `recv` answers: some bytes, zero, or an error. -/
inductive Recv
  | data (bs : List UInt8)
  | eof
  | error
  deriving DecidableEq, Repr

/-- `RecvData`. A call of `recv` returns at most `sizeof(ev->buff) - 1` bytes. -/
def recvData (ev : MyEvent) (c : Conn) (now : ℤ) : Recv → Option (MyEvent × Conn)
  | .data bs =>
    if bs ≠ [] ∧ bs.length ≤ BUFF_SIZE - 1 then
      let ev := eventDel { ev with buff := store ev.buff 0 bs }
      -- the character constant is '/0', whose low byte is the digit
      let ev := { ev with len := bs.length, buff := store ev.buff bs.length [0x30] }
      some (eventAdd .epollout (eventSet ev ev.fd .sendData now),
        { c with received := c.received ++ bs })
    else none
  | .eof => some (eventDel ev, c.close)
  | .error => some (eventDel ev, c.close)

/-- `SendData`. A call of `send` accepts a beginning of what it is offered, or fails. -/
def sendData (ev : MyEvent) (c : Conn) (now : ℤ) (len : ℤ) : Option (MyEvent × Conn) :=
  if len ≤ ev.len then
    let offered := load ev.buff 0 ev.len.toNat
    let ev := eventDel { ev with len := 0 }
    if len > 0 then
      some (eventAdd .epollin (eventSet ev ev.fd .recvData now),
        { c with sent := c.sent ++ offered.take len.toNat })
    else some (ev, c.close)
  else none

/-- What the call made by the callback answers. -/
inductive Outcome
  | recv (r : Recv)
  | send (len : ℤ)
  deriving DecidableEq, Repr

def callBack (ev : MyEvent) (c : Conn) (now : ℤ) (o : Outcome) : Option (MyEvent × Conn) :=
  match ev.callBack, o with
  | .recvData, .recv r => recvData ev c now r
  | .sendData, .send len => sendData ev c now len
  | _, _ => none

/-- `g_Events`, and the connections by descriptor. -/
structure St where
  ev : ℕ → MyEvent
  conn : ℕ → Conn

/-- The loop of `AcceptConn` over the slots from `i` on: the first of `n` slots that is not in
the wait list. -/
def freeSlot (ev : ℕ → MyEvent) (i : ℕ) : ℕ → Option ℕ
  | 0 => none
  | n + 1 => if (ev i).status then freeSlot ev (i + 1) n else some i

inductive Act
  /-- `AcceptConn`: the kernel hands out a descriptor that is not open -/
  | accept (nfd : ℕ) (nonblocking : Bool) (now : ℤ)
  /-- the kernel reports the event `mask` for slot `i` -/
  | event (i : ℕ) (mask : Events) (o : Outcome) (now : ℤ)
  /-- the timeout check comes to slot `i` -/
  | check (i : ℕ) (now : ℤ)
  deriving DecidableEq, Repr

def step (s : St) : Act → Option St
  | .accept nfd nonblocking now =>
    if (s.conn nfd).isOpen then none
    else
      let conn := Function.update s.conn nfd ⟨true, [], []⟩
      match freeSlot s.ev 0 MAX_EVENTS, nonblocking with
      | some i, true =>
        some ⟨Function.update s.ev i
          (eventAdd .epollin (eventSet (s.ev i) nfd .recvData now)), conn⟩
      | _, _ => some ⟨s.ev, conn⟩
  | .event i mask o now =>
    if i < MAX_EVENTS ∧ (s.ev i).status ∧ (s.ev i).events = mask ∧ mask ≠ .zero then
      (callBack (s.ev i) (s.conn (s.ev i).fd) now o).map fun r =>
        ⟨Function.update s.ev i r.1, Function.update s.conn (s.ev i).fd r.2⟩
    else none
  | .check i now =>
    if i < MAX_EVENTS ∧ (s.ev i).status ∧ now - (s.ev i).lastActive ≥ 60 then
      some ⟨Function.update s.ev i (eventDel (s.ev i)),
        Function.update s.conn (s.ev i).fd (s.conn (s.ev i).fd).close⟩
    else none

def init : St := ⟨fun _ => ⟨0, .null, .zero, false, fun _ => 0, 0, 0⟩, fun _ => ⟨false, [], []⟩⟩

/-- On every open connection `send` has accepted a beginning of what was received, and all of
it when the connection is back in the receive state. -/
def Faithful (s : St) : Prop :=
  ∀ fd, (s.conn fd).isOpen →
    (s.conn fd).sent <+: (s.conn fd).received ∧
    ∀ i < MAX_EVENTS, (s.ev i).status → (s.ev i).fd = fd → (s.ev i).callBack = .recvData →
      (s.conn fd).sent = (s.conn fd).received

/-- The call of `send`, if any, fails or accepts all it is offered. -/
def WholeSend (s : St) : Act → Prop
  | .event i _ (.send len) _ => len ≤ 0 ∨ len = (s.ev i).len
  | _ => True

/-! ### The invariant -/

/-- A slot and its connection: nothing is left to send, or exactly the buffer is. -/
def Phase (ev : MyEvent) (c : Conn) : Prop :=
  match ev.callBack with
  | .null => False
  | .recvData => c.sent = c.received
  | .sendData => 0 < ev.len ∧ c.received = c.sent ++ load ev.buff 0 ev.len.toNat

structure Inv (s : St) : Prop where
  slot : ∀ i < MAX_EVENTS, (s.ev i).status →
    (s.conn (s.ev i).fd).isOpen ∧ Phase (s.ev i) (s.conn (s.ev i).fd)
  alone : ∀ i < MAX_EVENTS, ∀ j < MAX_EVENTS, (s.ev i).status → (s.ev j).status →
    (s.ev i).fd = (s.ev j).fd → i = j
  /-- a connection without a slot was turned away by `AcceptConn` -/
  served : ∀ fd, (s.conn fd).isOpen → (∃ i < MAX_EVENTS, (s.ev i).status ∧ (s.ev i).fd = fd) ∨
    (s.conn fd).sent = (s.conn fd).received

lemma Phase.le {ev : MyEvent} {c : Conn} (h : Phase ev c) : c.sent <+: c.received := by
  unfold Phase at h
  split at h
  · exact h.elim
  · rw [h]
  · exact ⟨_, h.2.symm⟩

lemma Inv.faithful {s : St} (h : Inv s) : Faithful s := by
  refine fun fd hopen => ⟨?_, fun i hi hst hfd hcb => ?_⟩
  · rcases h.served fd hopen with ⟨i, hi, hst, rfl⟩ | hsame
    · exact (h.slot i hi hst).2.le
    · rw [hsame]
  · have hphase := (h.slot i hi hst).2
    rw [hfd] at hphase
    simpa only [Phase, hcb] using hphase

lemma inv_init : Inv init where
  slot _ _ h := nomatch h
  alone _ _ _ _ h := nomatch h
  served _ h := nomatch h

@[simp] lemma eventDel_fd (ev : MyEvent) : (eventDel ev).fd = ev.fd := by
  unfold eventDel; split <;> rfl

@[simp] lemma eventDel_buff (ev : MyEvent) : (eventDel ev).buff = ev.buff := by
  unfold eventDel; split <;> rfl

@[simp] lemma eventDel_status (ev : MyEvent) : (eventDel ev).status = false := by
  unfold eventDel; split <;> simp_all

/-- What a step leaves in the slot it works on: the connection is closed and the slot free,
or both are in use and in step with each other. -/
def Settled (ev : MyEvent) (c : Conn) : Prop :=
  ev.status = false ∧ c.isOpen = false ∨ ev.status ∧ c.isOpen ∧ Phase ev c

lemma Inv.of_settled {s : St} (h : Inv s) {i : ℕ} (hi : i < MAX_EVENTS) (hst : (s.ev i).status)
    {ev : MyEvent} {c : Conn} (hfd : ev.fd = (s.ev i).fd) (hset : Settled ev c) :
    Inv ⟨Function.update s.ev i ev, Function.update s.conn (s.ev i).fd c⟩ := by
  have hother : ∀ j < MAX_EVENTS, (s.ev j).status → j ≠ i → (s.ev j).fd ≠ (s.ev i).fd :=
    fun j hj hstj hne hfd' => hne (h.alone j hj i hi hstj hst hfd')
  refine ⟨fun j hj hstj => ?_, fun j hj k hk hstj hstk hfdj => ?_, fun fd hopen => ?_⟩
  · by_cases hji : j = i
    · subst hji
      simp only [Function.update_self, hfd] at hstj ⊢
      rcases hset with ⟨hoff, -⟩ | ⟨-, hopen, hphase⟩
      · rw [hoff] at hstj
        cases hstj
      · exact ⟨hopen, hphase⟩
    · simp only [Function.update_of_ne hji] at hstj ⊢
      rw [Function.update_of_ne (hother j hj hstj hji)]
      exact h.slot j hj hstj
  · by_cases hji : j = i
    · by_cases hki : k = i
      · rw [hji, hki]
      · subst hji
        simp only [Function.update_self, Function.update_of_ne hki, hfd] at hstk hfdj
        exact absurd hfdj.symm (hother k hk hstk hki)
    · by_cases hki : k = i
      · subst hki
        simp only [Function.update_self, Function.update_of_ne hji, hfd] at hstj hfdj
        exact absurd hfdj (hother j hj hstj hji)
      · simp only [Function.update_of_ne hji, Function.update_of_ne hki] at hstj hstk hfdj
        exact h.alone j hj k hk hstj hstk hfdj
  · by_cases hfd' : fd = (s.ev i).fd
    · subst hfd'
      simp only [Function.update_self] at hopen ⊢
      rcases hset with ⟨-, hclosed⟩ | ⟨hon, -, -⟩
      · rw [hclosed] at hopen
        cases hopen
      · exact Or.inl ⟨i, hi, by simp [hon], by simp [hfd]⟩
    · simp only [Function.update_of_ne hfd'] at hopen ⊢
      rcases h.served fd hopen with ⟨j, hj, hstj, rfl⟩ | hsame
      · have hji : j ≠ i := fun hc => hfd' (by rw [hc])
        exact Or.inl ⟨j, hj, by rwa [Function.update_of_ne hji], by rw [Function.update_of_ne hji]⟩
      · exact Or.inr hsame

lemma freeSlot_some {ev : ℕ → MyEvent} {i j n : ℕ} (h : freeSlot ev i n = some j) :
    j < i + n ∧ (ev j).status = false := by
  induction n generalizing i with
  | zero => cases h
  | succ n ih =>
    simp only [freeSlot] at h
    split at h
    · have := ih h
      exact ⟨by omega, this.2⟩
    · next hst =>
      obtain rfl := Option.some.inj h
      exact ⟨by omega, by simpa using hst⟩

lemma Inv.fd_ne {s : St} (h : Inv s) {fd : ℕ} (hfd : (s.conn fd).isOpen = false) {i : ℕ}
    (hi : i < MAX_EVENTS) (hst : (s.ev i).status) : (s.ev i).fd ≠ fd := by
  rintro rfl
  have := (h.slot i hi hst).1
  rw [hfd] at this
  cases this

lemma Inv.turn_away {s : St} (h : Inv s) {nfd : ℕ} (hnew : (s.conn nfd).isOpen = false) :
    Inv ⟨s.ev, Function.update s.conn nfd ⟨true, [], []⟩⟩ := by
  refine ⟨fun i hi hst => ?_, h.alone, fun fd hopen => ?_⟩
  · simp only [Function.update_of_ne (h.fd_ne hnew hi hst)]
    exact h.slot i hi hst
  · by_cases hfd : fd = nfd
    · subst hfd
      exact Or.inr (by simp)
    · simp only [Function.update_of_ne hfd] at hopen ⊢
      exact h.served fd hopen

lemma Inv.take_slot {s : St} (h : Inv s) {nfd i : ℕ} (hnew : (s.conn nfd).isOpen = false)
    (hi : i < MAX_EVENTS) (hfree : (s.ev i).status = false) (now : ℤ) :
    Inv ⟨Function.update s.ev i (eventAdd .epollin (eventSet (s.ev i) nfd .recvData now)),
      Function.update s.conn nfd ⟨true, [], []⟩⟩ := by
  have hold : ∀ j, j ≠ i → Function.update s.ev i
      (eventAdd .epollin (eventSet (s.ev i) nfd .recvData now)) j = s.ev j :=
    fun j hj => Function.update_of_ne hj _ _
  refine ⟨fun j hj hst => ?_, fun j hj k hk hstj hstk hfd => ?_, fun fd hopen => ?_⟩
  · by_cases hji : j = i
    · subst hji
      simp [eventAdd, eventSet, Phase]
    · simp only [hold j hji] at hst ⊢
      rw [Function.update_of_ne (h.fd_ne hnew hj hst)]
      exact h.slot j hj hst
  · by_cases hji : j = i <;> by_cases hki : k = i
    · rw [hji, hki]
    · subst hji
      simp only [hold k hki] at hstk hfd
      simp only [Function.update_self, eventAdd, eventSet] at hfd
      exact absurd hfd.symm (h.fd_ne hnew hk hstk)
    · subst hki
      simp only [hold j hji] at hstj hfd
      simp only [Function.update_self, eventAdd, eventSet] at hfd
      exact absurd hfd (h.fd_ne hnew hj hstj)
    · simp only [hold j hji, hold k hki] at hstj hstk hfd
      exact h.alone j hj k hk hstj hstk hfd
  · by_cases hfd : fd = nfd
    · subst hfd
      exact Or.inl ⟨i, hi, by simp [eventAdd, eventSet], by simp [eventAdd, eventSet]⟩
    · simp only [Function.update_of_ne hfd] at hopen ⊢
      rcases h.served fd hopen with ⟨j, hj, hst, rfl⟩ | hsame
      · have hji : j ≠ i := by
          rintro rfl
          rw [hfree] at hst
          cases hst
        exact Or.inl ⟨j, hj, by rwa [hold j hji], by rw [hold j hji]⟩
      · exact Or.inr hsame

/-! ### The callbacks -/

lemma recvData_settled {ev ev' : MyEvent} {c c' : Conn} {now : ℤ} {r : Recv}
    (hphase : c.sent = c.received) (hopen : c.isOpen)
    (h : recvData ev c now r = some (ev', c')) : ev'.fd = ev.fd ∧ Settled ev' c' := by
  cases r with
  | data bs =>
    simp only [recvData, Option.ite_none_right_eq_some, Option.some.injEq, Prod.mk.injEq] at h
    obtain ⟨⟨hne, -⟩, rfl, rfl⟩ := h
    refine ⟨by simp [eventAdd, eventSet], Or.inr ⟨rfl, hopen, ?_⟩⟩
    have hpos : 0 < bs.length := List.length_pos_iff.mpr hne
    have hload : load (store (store ev.buff 0 bs) bs.length [0x30]) 0 bs.length = bs := by
      rw [load_store_below _ _ (by omega)]
      exact load_store ev.buff 0 bs
    refine ⟨by simpa [eventAdd, eventSet] using hpos, ?_⟩
    simp [eventAdd, eventSet, hload, hphase]
  | eof =>
    simp only [recvData, Option.some.injEq, Prod.mk.injEq] at h
    obtain ⟨rfl, rfl⟩ := h
    exact ⟨by simp, Or.inl ⟨by simp, rfl⟩⟩
  | error =>
    simp only [recvData, Option.some.injEq, Prod.mk.injEq] at h
    obtain ⟨rfl, rfl⟩ := h
    exact ⟨by simp, Or.inl ⟨by simp, rfl⟩⟩

lemma sendData_cases {ev ev' : MyEvent} {c c' : Conn} {now len : ℤ}
    (h : sendData ev c now len = some (ev', c')) :
    len ≤ ev.len ∧ ev'.fd = ev.fd ∧
    (0 < len ∧ ev'.status ∧ ev'.callBack = .recvData ∧
        c' = { c with sent := c.sent ++ (load ev.buff 0 ev.len.toNat).take len.toNat } ∨
      len ≤ 0 ∧ ev'.status = false ∧ c' = c.close) := by
  simp only [sendData, Option.ite_none_right_eq_some] at h
  obtain ⟨hle, h⟩ := h
  split at h
  · next hpos =>
    simp only [Option.some.injEq, Prod.mk.injEq] at h
    obtain ⟨rfl, rfl⟩ := h
    exact ⟨hle, by simp [eventAdd, eventSet], Or.inl ⟨hpos, rfl, rfl, rfl⟩⟩
  · next hneg =>
    simp only [Option.some.injEq, Prod.mk.injEq] at h
    obtain ⟨rfl, rfl⟩ := h
    exact ⟨hle, by simp, Or.inr ⟨by omega, by simp, rfl⟩⟩

/-- **`SendData`** keeps the streams in step when `send` takes everything or fails. -/
lemma sendData_settled {ev ev' : MyEvent} {c c' : Conn} {now len : ℤ}
    (hrec : c.received = c.sent ++ load ev.buff 0 ev.len.toNat) (hopen : c.isOpen)
    (hwhole : len ≤ 0 ∨ len = ev.len) (h : sendData ev c now len = some (ev', c')) :
    ev'.fd = ev.fd ∧ Settled ev' c' := by
  obtain ⟨-, hfd, ⟨hpos, hst, hcb, rfl⟩ | ⟨-, hst, rfl⟩⟩ := sendData_cases h
  · have hlen : len = ev.len := by omega
    refine ⟨hfd, Or.inr ⟨hst, hopen, ?_⟩⟩
    have htake : (load ev.buff 0 ev.len.toNat).take len.toNat = load ev.buff 0 ev.len.toNat := by
      rw [List.take_of_length_le (by rw [length_load, hlen])]
    simp [Phase, hcb, hrec, htake]
  · exact ⟨hfd, Or.inl ⟨hst, rfl⟩⟩

lemma event_cases {s s' : St} {i : ℕ} {mask : Events} {o : Outcome} {now : ℤ}
    (h : step s (.event i mask o now) = some s') :
    i < MAX_EVENTS ∧ (s.ev i).status ∧ ∃ ev c,
      callBack (s.ev i) (s.conn (s.ev i).fd) now o = some (ev, c) ∧
      s' = ⟨Function.update s.ev i ev, Function.update s.conn (s.ev i).fd c⟩ := by
  simp only [step, Option.ite_none_right_eq_some, Option.map_eq_some_iff] at h
  obtain ⟨⟨hi, hst, -⟩, ⟨ev, c⟩, hcall, rfl⟩ := h
  exact ⟨hi, hst, ev, c, hcall, rfl⟩

lemma inv_step {s s' : St} {a : Act} (h : Inv s) (hok : WholeSend s a) (hs : step s a = some s') :
    Inv s' := by
  cases a with
  | accept nfd nonblocking now =>
    simp only [step, Option.ite_none_left_eq_some] at hs
    obtain ⟨hclosed, hs⟩ := hs
    have hnew : (s.conn nfd).isOpen = false := by simpa using hclosed
    split at hs
    · next i hfree =>
      obtain ⟨hi, hst⟩ := freeSlot_some hfree
      obtain rfl := Option.some.inj hs
      exact h.take_slot hnew (by omega) hst now
    · obtain rfl := Option.some.inj hs
      exact h.turn_away hnew
  | event i mask o now =>
    obtain ⟨hi, hst, ev, c, hcall, rfl⟩ := event_cases hs
    obtain ⟨hopen, hphase⟩ := h.slot i hi hst
    unfold callBack at hcall
    split at hcall
    · next r hcb =>
      simp only [Phase, hcb] at hphase
      obtain ⟨hfd, hset⟩ := recvData_settled hphase hopen hcall
      exact h.of_settled hi hst hfd hset
    · next len hcb =>
      simp only [Phase, hcb] at hphase
      obtain ⟨hfd, hset⟩ := sendData_settled hphase.2 hopen hok hcall
      exact h.of_settled hi hst hfd hset
    · cases hcall
  | check i now =>
    simp only [step, Option.ite_none_right_eq_some, Option.some.injEq] at hs
    obtain ⟨⟨hi, hst, -⟩, rfl⟩ := hs
    exact h.of_settled hi hst (by simp) (Or.inl ⟨by simp, rfl⟩)

/-- **A short `send` drops bytes at once**: the rest of the buffer is forgotten. -/
lemma not_faithful_of_short_send {s s' : St} {a : Act} (h : Inv s) (hbad : ¬ WholeSend s a)
    (hs : step s a = some s') : ¬ Faithful s' := by
  cases a with
  | accept nfd nonblocking now => exact absurd trivial hbad
  | check i now => exact absurd trivial hbad
  | event i mask o now =>
    cases o with
    | recv r => exact absurd trivial hbad
    | send len =>
      simp only [WholeSend, not_or, not_le] at hbad
      obtain ⟨hi, hst, ev, c, hcall, rfl⟩ := event_cases hs
      obtain ⟨hopen, hphase⟩ := h.slot i hi hst
      unfold callBack at hcall
      split at hcall
      · next heq => cases heq
      · next _ _ n hcb heq =>
        obtain rfl := Outcome.send.inj heq
        simp only [Phase, hcb] at hphase
        obtain ⟨hle, hfd, ⟨-, hst', hcb', rfl⟩ | ⟨hneg, -⟩⟩ := sendData_cases hcall
        · intro hfaith
          have hsame := (hfaith (s.ev i).fd (by simpa using hopen)).2 i hi (by simpa using hst')
            (by simpa using hfd) (by simpa using hcb')
          simp only [Function.update_self, hphase.2, List.append_cancel_left_eq] at hsame
          have hlen := congrArg List.length hsame
          simp only [List.length_take, length_load] at hlen
          omega
        · omega
      · cases hcall

/-- **The server echoes faithfully exactly as long as every `send` that does not fail accepts
all it is offered.** -/
theorem echo_faithful_iff {s : St} {as : List Act} (h : exec step init as = some s) :
    Always step Faithful init as ↔ Guarded step WholeSend init as :=
  always_iff_guarded (I := Inv) (fun _ hi => hi.faithful)
    (fun _ _ _ hi hok hs => inv_step hi hok hs)
    (fun _ _ _ hi hbad hs => not_faithful_of_short_send hi hbad hs) h inv_init

/-- A connection receives three bytes and `send` takes one: the other two are gone. -/
theorem echo_short_send_drops :
    ∃ s, exec step init [.accept 5 true 0, .event 0 .epollin (.recv (.data [1, 2, 3])) 0,
      .event 0 .epollout (.send 1) 0] = some s ∧ ¬ Faithful s := by
  refine ⟨_, rfl, fun h => ?_⟩
  have hsame := (h 5 rfl).2 0 (by decide) rfl rfl rfl
  exact absurd hsame (by decide)

/-- A connection receives three bytes and `send` takes them all. -/
theorem echo_faithful_iff_whole :
    ∃ s, exec step init [.accept 5 true 0, .event 0 .epollin (.recv (.data [1, 2, 3])) 0,
      .event 0 .epollout (.send 3) 0] = some s ∧
      Always step Faithful init [.accept 5 true 0, .event 0 .epollin (.recv (.data [1, 2, 3])) 0,
        .event 0 .epollout (.send 3) 0] := by
  refine ⟨_, rfl, (echo_faithful_iff rfl).mpr ⟨trivial, fun s hs => ⟨trivial, fun t ht => ?_⟩⟩⟩
  obtain rfl := Option.some.inj hs
  obtain rfl := Option.some.inj ht
  exact ⟨Or.inr rfl, fun _ _ => trivial⟩

end LinuxSamples.EchoServer
