import LinuxSamples.EchoServer
import LinuxSamples.Slots

/-!
The main loop of the epoll echo server, with the kernel's side of it.

A round of the loop closes the idle connections among a hundred slots, waits for events and
dispatches them one after the other. The kernel keeps the descriptors that are open, the
interest list and the queue of the listening socket. An event is reported with the slot that
was registered, while the callback is called with the descriptor that the slot holds when its
turn comes; that these belong together is part of what is proved about the runs.

Every call may fail: `accept`, `fcntl`, `epoll_ctl`, `recv` and `send`.
-/

namespace LinuxSamples.EchoServerEpoll

open LinuxSamples.Run LinuxSamples.EchoServer

/-- An entry of the interest list: `data.ptr` as the number of a slot, and the event. -/
structure Interest where
  slot : ℕ
  mask : Events
  deriving DecidableEq, Repr

/-- An event that `epoll_wait` has stored: of the listening socket, or of the descriptor `fd`,
registered with the slot `slot`. A descriptor is registered for one of `EPOLLIN` and `EPOLLOUT`;
the mask is zero if only an error or a hang-up is reported. -/
inductive Ready
  | listen
  | conn (fd slot : ℕ) (mask : Events)
  deriving DecidableEq, Repr

def Ready.fd : Ready → Option ℕ
  | .listen => none
  | .conn fd _ _ => some fd

/-- The server and the kernel. The listening socket is not among the descriptors of `conn`; it is
in the interest list if `registered` holds, `queue` is the number of connections that wait for
`accept`, and `available` says that there is an event to report for it. `waits` means that the
server is in `epoll_wait`, and `batch` are the events still to be dispatched. The last two notes
are about the past: a descriptor was closed that was not open, and a callback was called for a
descriptor that was not the one the event was about, or not open. -/
structure St where
  ev : ℕ → MyEvent
  conn : ℕ → Conn
  interest : ℕ → Option Interest
  registered : Bool
  queue : ℕ
  available : Bool
  checkPos : ℕ
  waits : Bool
  batch : List Ready
  closedTwice : Bool
  stray : Bool

/-! ### Kernel calls -/

/-- `close`: the descriptor leaves the interest list with it. -/
def closeFd (s : St) (fd : ℕ) : St :=
  { s with
    conn := Function.update s.conn fd (s.conn fd).close
    interest := Function.update s.interest fd none
    closedTwice := s.closedTwice || !(s.conn fd).isOpen }

/-- `EPOLL_CTL_DEL`; `ok` says whether the call succeeds. -/
def epollDel (m : ℕ → Option Interest) (fd : ℕ) (ok : Bool) : ℕ → Option Interest :=
  if ok then Function.update m fd none else m

/-- `EPOLL_CTL_ADD`, which also fails on a descriptor that is in the list already. -/
def epollAdd (m : ℕ → Option Interest) (fd : ℕ) (x : Interest) (ok : Bool) :
    ℕ → Option Interest :=
  if ok ∧ m fd = none then Function.update m fd (some x) else m

/-! ### The server -/

/-- One turn of the timeout check. The descriptor is closed before `EventDel`, whose
`EPOLL_CTL_DEL` then fails. -/
def checkSlot (now : ℤ) (s : St) : St :=
  let i := if s.checkPos = MAX_EVENTS then 0 else s.checkPos
  if (s.ev i).status ∧ now - (s.ev i).lastActive ≥ 60 then
    { closeFd s (s.ev i).fd with
      ev := Function.update s.ev i (eventDel (s.ev i))
      checkPos := i + 1 }
  else { s with checkPos := i + 1 }

/-- `AcceptConn`, once `accept` has returned `nfd`. A connection without a slot, or one that
cannot be made non-blocking, is left as it is. -/
def acceptConn (s : St) (nfd : ℕ) (nonblocking add : Bool) (now : ℤ) : St :=
  let s := { s with conn := Function.update s.conn nfd ⟨true, [], []⟩ }
  match freeSlot s.ev 0 MAX_EVENTS, nonblocking with
  | some i, true =>
    { s with
      ev := Function.update s.ev i (eventAdd .epollin (eventSet (s.ev i) nfd .recvData now))
      interest := epollAdd s.interest nfd ⟨i, .epollin⟩ add }
  | _, _ => s

/-- A callback has turned the slot `i` and its connection into `ev` and `c`: it has called
`EventDel`, and then `EventAdd` or `close`. -/
def finishCall (s : St) (fd i : ℕ) (ev : MyEvent) (c : Conn) (del add : Bool) : St :=
  let old := s.ev i
  let deleted := epollDel s.interest old.fd (old.status && del)
  { s with
    ev := Function.update s.ev i ev
    conn := Function.update s.conn old.fd c
    interest :=
      if ev.status then epollAdd deleted old.fd ⟨i, ev.events⟩ add
      else Function.update deleted old.fd none
    closedTwice := s.closedTwice || (!ev.status && !(s.conn old.fd).isOpen)
    stray := s.stray || !(old.fd = fd && (s.conn fd).isOpen) }

/-- What `main` tests before it calls a callback. -/
def calls (s : St) (slot : ℕ) (mask : Events) : Bool := mask ≠ .zero ∧ (s.ev slot).events = mask

def reportable (s : St) : Ready → Bool
  | .listen => s.available
  | .conn fd slot mask =>
    (s.interest fd).any fun x => x.slot = slot ∧ (mask = x.mask ∨ mask = .zero)

inductive Act
  /-- a connection enters the queue of the listening socket -/
  | arrive
  /-- the timeout check of a round -/
  | check (now : ℤ)
  /-- `epoll_wait` returns the events -/
  | wait (events : List Ready)
  /-- `AcceptConn` is called, and `accept` returns a descriptor or fails -/
  | accept (nfd : Option ℕ) (nonblocking add : Bool) (now : ℤ)
  /-- `RecvData` or `SendData` is called -/
  | call (o : Outcome) (del add : Bool) (now : ℤ)
  /-- no callback is called for the next event -/
  | skip
  deriving DecidableEq, Repr

def step (s : St) : Act → Option St
  | .arrive => some { s with queue := s.queue + 1, available := s.available || s.registered }
  | .check now =>
    if s.batch = [] ∧ s.waits = false then
      some { (checkSlot now)^[100] s with waits := true }
    else none
  | .wait events =>
    if s.waits ∧ events.length ≤ MAX_EVENTS ∧ (events.map Ready.fd).Nodup ∧
        ∀ e ∈ events, reportable s e then
      some { s with
        batch := events
        available := s.available && !(.listen ∈ events)
        waits := false }
    else none
  | .accept nfd nonblocking add now =>
    match s.batch with
    | .listen :: rest =>
      match nfd with
      | none => some { s with batch := rest }
      | some nfd =>
        if 0 < s.queue ∧ (s.conn nfd).isOpen = false then
          some { acceptConn s nfd nonblocking add now with batch := rest, queue := s.queue - 1 }
        else none
    | _ => none
  | .call o del add now =>
    match s.batch with
    | .conn fd slot mask :: rest =>
      if calls s slot mask then
        (callBack (s.ev slot) (s.conn (s.ev slot).fd) now o).map fun r =>
          { finishCall s fd slot r.1 r.2 del add with batch := rest }
      else none
    | _ => none
  | .skip =>
    match s.batch with
    | .conn _ slot mask :: rest => if calls s slot mask then none else some { s with batch := rest }
    | _ => none

/-- The server in front of the first round; `registered` says whether the listening socket could
be put into the interest list, which `InitListenSocket` does before any connection can arrive. -/
def init (registered : Bool) : St where
  ev := EchoServer.init.ev
  conn := EchoServer.init.conn
  interest := fun _ => none
  registered := registered
  queue := 0
  available := false
  checkPos := 0
  waits := false
  batch := []
  closedTwice := false
  stray := false

/-! ### Ownership -/

/-- Each descriptor returned by `accept` is closed or stored in exactly one slot with status 1,
no two such slots hold the same open descriptor, no descriptor has been closed twice, and each
callback was called for the descriptor that its event was about. -/
structure OwnsAll (s : St) : Prop where
  stored : ∀ fd, (s.conn fd).isOpen →
    ∃! i, i < MAX_EVENTS ∧ (s.ev i).status ∧ (s.ev i).fd = fd
  alone : ∀ i < MAX_EVENTS, ∀ j < MAX_EVENTS, (s.ev i).status → (s.ev j).status →
    (s.conn (s.ev i).fd).isOpen → (s.ev i).fd = (s.ev j).fd → i = j
  closedOnce : s.closedTwice = false
  current : s.stray = false

/-- A connection that is accepted gets a slot. -/
def Kept (s : St) : Act → Prop
  | .accept (some _) nonblocking _ _ => (freeSlot s.ev 0 MAX_EVENTS).isSome ∧ nonblocking
  | _ => True

def holding (ev : ℕ → MyEvent) (i : ℕ) : Option ℕ :=
  if i < MAX_EVENTS ∧ (ev i).status then some (ev i).fd else none

lemma holding_eq_some_iff {ev : ℕ → MyEvent} {i fd : ℕ} :
    holding ev i = some fd ↔ i < MAX_EVENTS ∧ (ev i).status ∧ (ev i).fd = fd := by
  simp [holding, and_assoc]

lemma holding_update {ev : ℕ → MyEvent} {i : ℕ} (hi : i < MAX_EVENTS) (e : MyEvent) :
    holding (Function.update ev i e) =
      Function.update (holding ev) i (if e.status then some e.fd else none) := by
  funext j
  by_cases hj : j = i
  · subst hj
    simp [holding, hi]
  · simp [holding, hj]

/-- **The invariant**, for the open descriptors, what the slots hold, the interest list and the
events still to be dispatched: the slots own the open descriptors, and whatever names a slot and a
descriptor names the descriptor in the slot. -/
structure Sound (used : ℕ → Prop) (slot : ℕ → Option ℕ) (interest : ℕ → Option Interest)
    (batch : List Ready) : Prop where
  owned : Slots.Owned used slot
  listed : ∀ fd x, interest fd = some x → slot x.slot = some fd
  pending : ∀ fd i mask, .conn fd i mask ∈ batch → slot i = some fd
  distinct : (batch.map Ready.fd).Nodup

section Sound

variable {used : ℕ → Prop} {slot : ℕ → Option ℕ} {interest : ℕ → Option Interest}
  {batch rest : List Ready} {i fd : ℕ}

lemma Sound.tail {e : Ready} (h : Sound used slot interest (e :: rest)) :
    Sound used slot interest rest :=
  ⟨h.owned, h.listed, fun fd i mask he => h.pending fd i mask (List.mem_cons_of_mem e he),
    (List.nodup_cons.mp h.distinct).2⟩

lemma Sound.other {mask : Events} (h : Sound used slot interest (.conn fd i mask :: rest))
    {j : ℕ} {mask' : Events} : .conn fd j mask' ∉ rest :=
  fun hm => (List.nodup_cons.mp h.distinct).1 (List.mem_map.mpr ⟨_, hm, rfl⟩)

lemma Sound.del (h : Sound used slot interest batch) (fd : ℕ) (ok : Bool) :
    Sound used slot (epollDel interest fd ok) batch := by
  refine ⟨h.owned, fun k x hx => ?_, h.pending, h.distinct⟩
  unfold epollDel at hx
  split at hx
  · by_cases hk : k = fd
    · subst hk
      rw [Function.update_self] at hx
      cases hx
    · rw [Function.update_of_ne hk] at hx
      exact h.listed k x hx
  · exact h.listed k x hx

lemma Sound.add (h : Sound used slot interest batch) (hi : slot i = some fd) (mask : Events)
    (ok : Bool) : Sound used slot (epollAdd interest fd ⟨i, mask⟩ ok) batch := by
  refine ⟨h.owned, fun k x hx => ?_, h.pending, h.distinct⟩
  unfold epollAdd at hx
  split at hx
  · by_cases hk : k = fd
    · subst hk
      rw [Function.update_self] at hx
      exact Option.some.inj hx ▸ hi
    · rw [Function.update_of_ne hk] at hx
      exact h.listed k x hx
  · exact h.listed k x hx

lemma Sound.take (h : Sound used slot interest batch) (hfree : slot i = none)
    (hnew : ¬ used fd) :
    Sound (fun x => x = fd ∨ used x) (Function.update slot i (some fd)) interest batch := by
  have hother : ∀ {j k}, slot j = some k → Function.update slot i (some fd) j = some k := by
    intro j k hj
    rw [Function.update_of_ne, hj]
    rintro rfl
    rw [hfree] at hj
    cases hj
  exact ⟨h.owned.take hfree hnew, fun k x hx => hother (h.listed k x hx),
    fun k j mask hm => hother (h.pending k j mask hm), h.distinct⟩

lemma Sound.release (h : Sound used slot interest batch) (hi : slot i = some fd)
    (hnone : ∀ j mask, .conn fd j mask ∉ batch) :
    Sound (fun x => x ≠ fd ∧ used x) (Function.update slot i none)
      (Function.update interest fd none) batch := by
  have hother : ∀ {j k}, slot j = some k → k ≠ fd → Function.update slot i none j = some k := by
    intro j k hj hk
    rw [Function.update_of_ne, hj]
    rintro rfl
    exact hk (Option.some.inj (hj.symm.trans hi))
  refine ⟨h.owned.release hi, fun k x hx => ?_, fun k j mask hm => ?_, h.distinct⟩
  · by_cases hk : k = fd
    · subst hk
      rw [Function.update_self] at hx
      cases hx
    · rw [Function.update_of_ne hk] at hx
      exact hother (h.listed k x hx) hk
  · refine hother (h.pending k j mask hm) ?_
    rintro rfl
    exact hnone j mask hm

end Sound

section Conn

variable {conn : ℕ → Conn} {fd : ℕ} {c : Conn}

lemma isOpen_update_of_eq (hc : c.isOpen = (conn fd).isOpen) :
    (fun x => (Function.update conn fd c x).isOpen = true) = fun x => (conn x).isOpen = true := by
  funext x
  by_cases hx : x = fd
  · subst hx
    rw [Function.update_self, hc]
  · rw [Function.update_of_ne hx]

lemma isOpen_update_of_open (hc : c.isOpen = true) :
    (fun x => (Function.update conn fd c x).isOpen = true) =
      fun x => x = fd ∨ (conn x).isOpen = true := by
  funext x
  by_cases hx : x = fd
  · subst hx
    simp [hc]
  · simp [hx]

lemma isOpen_update_of_closed (hc : c.isOpen = false) :
    (fun x => (Function.update conn fd c x).isOpen = true) =
      fun x => x ≠ fd ∧ (conn x).isOpen = true := by
  funext x
  by_cases hx : x = fd
  · subst hx
    simp [hc]
  · simp [hx]

end Conn

structure Inv (s : St) : Prop where
  sound : Sound (fun fd => (s.conn fd).isOpen = true) (holding s.ev) s.interest s.batch
  checkPos : s.checkPos ≤ MAX_EVENTS
  closedOnce : s.closedTwice = false
  current : s.stray = false

lemma inv_init (registered : Bool) : Inv (init registered) where
  sound := by
    have hused : (fun fd => ((init registered).conn fd).isOpen = true) = fun _ => False := by
      funext fd
      simp [init, EchoServer.init]
    have hslot : holding (init registered).ev = fun _ => none := by
      funext i
      simp [holding, init, EchoServer.init]
    rw [hused, hslot]
    exact ⟨Slots.owned_empty, fun _ _ h => (nomatch h), fun _ _ _ h => (nomatch h),
      List.nodup_nil⟩
  checkPos := Nat.zero_le _
  closedOnce := rfl
  current := rfl

lemma Inv.ownsAll {s : St} (h : Inv s) : OwnsAll s where
  stored fd hfd := by
    simpa only [holding_eq_some_iff] using h.sound.owned.existsUnique hfd
  alone i hi j hj hsti hstj _ hfd :=
    h.sound.owned.alone i j _ (holding_eq_some_iff.mpr ⟨hi, hsti, rfl⟩)
      (holding_eq_some_iff.mpr ⟨hj, hstj, hfd.symm⟩)
  closedOnce := h.closedOnce
  current := h.current

/-! ### The timeout check -/

lemma inv_checkSlot {s : St} (h : Inv s) (hb : s.batch = []) (now : ℤ) :
    Inv (checkSlot now s) ∧ (checkSlot now s).batch = [] := by
  have hi : (if s.checkPos = MAX_EVENTS then 0 else s.checkPos) < MAX_EVENTS := by
    have := h.checkPos
    split
    · decide
    · omega
  unfold checkSlot
  simp only
  generalize (if s.checkPos = MAX_EVENTS then 0 else s.checkPos) = i at hi
  split
  · next hst =>
    have hold : holding s.ev i = some (s.ev i).fd := holding_eq_some_iff.mpr ⟨hi, hst.1, rfl⟩
    have hopen := h.sound.owned.held i _ hold
    refine ⟨⟨?_, hi, ?_, h.current⟩, hb⟩
    · have hrel := h.sound.release hold (by simp [hb])
      simp only [closeFd]
      rwa [isOpen_update_of_closed (by rfl), holding_update hi, eventDel_status,
        if_neg (by decide)]
    · simp only [closeFd, h.closedOnce, hopen]
      rfl
  · exact ⟨⟨h.sound, hi, h.closedOnce, h.current⟩, hb⟩

lemma Inv.wait {s : St} (h : Inv s) : Inv { s with waits := true } :=
  ⟨h.sound, h.checkPos, h.closedOnce, h.current⟩

lemma inv_check {s : St} (h : Inv s) (hb : s.batch = []) (now : ℤ) (n : ℕ) :
    Inv ((checkSlot now)^[n] s) ∧ ((checkSlot now)^[n] s).batch = [] := by
  induction n with
  | zero => exact ⟨h, hb⟩
  | succ n ih =>
    rw [Function.iterate_succ_apply']
    exact inv_checkSlot ih.1 ih.2 now

/-! ### The callbacks -/

/-- **What a callback leaves**: the slot in use and the connection as it was, or the slot free and
the connection closed. -/
lemma callBack_cases {ev ev' : MyEvent} {c c' : Conn} {now : ℤ} {o : Outcome}
    (h : callBack ev c now o = some (ev', c')) : ev'.fd = ev.fd ∧
      (ev'.status = true ∧ c'.isOpen = c.isOpen ∨ ev'.status = false ∧ c'.isOpen = false) := by
  unfold callBack at h
  split at h
  · next r _ =>
    cases r with
    | data bs =>
      simp only [recvData, Option.ite_none_right_eq_some, Option.some.injEq, Prod.mk.injEq] at h
      obtain ⟨-, rfl, rfl⟩ := h
      exact ⟨by simp [eventAdd, eventSet], Or.inl ⟨rfl, rfl⟩⟩
    | eof | error =>
      simp only [recvData, Option.some.injEq, Prod.mk.injEq] at h
      obtain ⟨rfl, rfl⟩ := h
      exact ⟨by simp, Or.inr ⟨by simp, rfl⟩⟩
  · obtain ⟨-, hfd, ⟨-, hst, -, rfl⟩ | ⟨-, hst, rfl⟩⟩ := sendData_cases h
    · exact ⟨hfd, Or.inl ⟨hst, rfl⟩⟩
    · exact ⟨hfd, Or.inr ⟨hst, rfl⟩⟩
  · cases h

lemma inv_finishCall {s : St} (h : Inv s) {fd i : ℕ} {mask : Events} {rest : List Ready}
    (hb : s.batch = .conn fd i mask :: rest) {ev : MyEvent} {c : Conn} (hfd : ev.fd = (s.ev i).fd)
    (hcase : ev.status = true ∧ c.isOpen = (s.conn (s.ev i).fd).isOpen ∨
      ev.status = false ∧ c.isOpen = false) (del add : Bool) :
    Inv { finishCall s fd i ev c del add with batch := rest } := by
  have hsound := h.sound
  rw [hb] at hsound
  have hold : holding s.ev i = some fd := hsound.pending fd i mask List.mem_cons_self
  have hopen : (s.conn fd).isOpen = true := hsound.owned.held i fd hold
  obtain ⟨hi, hst, rfl⟩ := holding_eq_some_iff.mp hold
  have hstray : (s.stray || !((s.ev i).fd = (s.ev i).fd && (s.conn (s.ev i).fd).isOpen)) =
      false := by
    simp [h.current, hopen]
  have hclosed : (s.closedTwice || (!ev.status && !(s.conn (s.ev i).fd).isOpen)) = false := by
    simp [h.closedOnce, hopen]
  refine ⟨?_, h.checkPos, hclosed, hstray⟩
  simp only [finishCall]
  rcases hcase with ⟨hon, hsame⟩ | ⟨hoff, hshut⟩
  · have hkeep : Function.update (holding s.ev) i (some ev.fd) = holding s.ev := by
      rw [hfd, ← hold, Function.update_eq_self]
    rw [isOpen_update_of_eq hsame, holding_update hi, if_pos hon, hkeep, if_pos hon]
    exact (hsound.tail.del _ _).add hold _ _
  · rw [isOpen_update_of_closed hshut, holding_update hi, if_neg (by simp [hoff]),
      if_neg (by simp [hoff])]
    exact (hsound.tail.del _ _).release hold fun _ _ => hsound.other

lemma inv_acceptConn {s : St} (h : Inv s) {rest : List Ready} (hb : s.batch = .listen :: rest)
    {nfd i : ℕ} (hnew : (s.conn nfd).isOpen = false)
    (hfree : freeSlot s.ev 0 MAX_EVENTS = some i) (add : Bool) (now : ℤ) (queue : ℕ) :
    Inv { acceptConn s nfd true add now with batch := rest, queue := queue } := by
  obtain ⟨hi, hst⟩ := freeSlot_some hfree
  have hi : i < MAX_EVENTS := by omega
  have hnone : holding s.ev i = none := by simp [holding, hst]
  have hsound := h.sound
  rw [hb] at hsound
  simp only [acceptConn, hfree]
  refine ⟨?_, h.checkPos, h.closedOnce, h.current⟩
  simp only
  rw [isOpen_update_of_open rfl, holding_update hi]
  exact (hsound.tail.take hnone (by simp [hnew])).add (Function.update_self ..) _ _

lemma not_ownsAll_acceptConn {s : St} (h : Inv s) {nfd : ℕ} (hnew : (s.conn nfd).isOpen = false)
    {nonblocking : Bool} (hlost : ¬ ((freeSlot s.ev 0 MAX_EVENTS).isSome ∧ nonblocking))
    (add : Bool) (now : ℤ) (rest : List Ready) (queue : ℕ) :
    ¬ OwnsAll { acceptConn s nfd nonblocking add now with batch := rest, queue := queue } := by
  have hleft : acceptConn s nfd nonblocking add now =
      { s with conn := Function.update s.conn nfd ⟨true, [], []⟩ } := by
    unfold acceptConn
    cases hslot : freeSlot s.ev 0 MAX_EVENTS <;> cases nonblocking <;> simp_all
  rw [hleft]
  intro hown
  obtain ⟨i, ⟨hi, hst, hfd⟩, -⟩ := hown.stored nfd (by simp)
  have hopen := h.sound.owned.held i nfd (holding_eq_some_iff.mpr ⟨hi, hst, hfd⟩)
  rw [hnew] at hopen
  cases hopen

/-! ### Runs -/

lemma accept_cases {s s' : St} {nfd : Option ℕ} {nonblocking add : Bool} {now : ℤ}
    (hs : step s (.accept nfd nonblocking add now) = some s') : ∃ rest,
      s.batch = .listen :: rest ∧
      (nfd = none ∧ s' = { s with batch := rest } ∨
        ∃ fd, nfd = some fd ∧ 0 < s.queue ∧ (s.conn fd).isOpen = false ∧
          s' = { acceptConn s fd nonblocking add now with
            batch := rest, queue := s.queue - 1 }) := by
  simp only [step] at hs
  split at hs
  · next rest hb =>
    refine ⟨rest, hb, ?_⟩
    split at hs
    · exact Or.inl ⟨rfl, (Option.some.inj hs).symm⟩
    · next fd =>
      obtain ⟨⟨hqueue, hnew⟩, hs⟩ := Option.ite_none_right_eq_some.mp hs
      exact Or.inr ⟨fd, rfl, hqueue, hnew, (Option.some.inj hs).symm⟩
  · cases hs

lemma Inv.reportable {s : St} (h : Inv s) {fd slot : ℕ} {mask : Events}
    (hr : reportable s (.conn fd slot mask) = true) : holding s.ev slot = some fd := by
  cases hx : s.interest fd with
  | none => simp [EchoServerEpoll.reportable, hx] at hr
  | some x =>
    simp only [EchoServerEpoll.reportable, hx, Option.any_some, decide_eq_true_eq] at hr
    exact hr.1 ▸ h.sound.listed fd x hx

lemma inv_step {s s' : St} {a : Act} (h : Inv s) (hok : Kept s a) (hs : step s a = some s') :
    Inv s' := by
  cases a with
  | arrive =>
    obtain rfl := Option.some.inj hs
    exact ⟨h.sound, h.checkPos, h.closedOnce, h.current⟩
  | check now =>
    simp only [step, Option.ite_none_right_eq_some, Option.some.injEq] at hs
    obtain ⟨⟨hb, -⟩, rfl⟩ := hs
    exact (inv_check h hb now 100).1.wait
  | wait events =>
    obtain ⟨⟨-, -, hnodup, hrep⟩, hs⟩ := Option.ite_none_right_eq_some.mp hs
    obtain rfl := Option.some.inj hs
    refine ⟨⟨h.sound.owned, h.sound.listed, fun fd i mask he => ?_, hnodup⟩, h.checkPos,
      h.closedOnce, h.current⟩
    exact h.reportable (hrep _ he)
  | accept nfd nonblocking add now =>
    obtain ⟨rest, hb, ⟨-, rfl⟩ | ⟨fd, rfl, -, hnew, rfl⟩⟩ := accept_cases hs
    · have hsound := h.sound
      rw [hb] at hsound
      exact ⟨hsound.tail, h.checkPos, h.closedOnce, h.current⟩
    · obtain ⟨hslot, rfl⟩ := hok
      obtain ⟨i, hfree⟩ := Option.isSome_iff_exists.mp hslot
      exact inv_acceptConn h hb hnew hfree add now _
  | call o del add now =>
    simp only [step] at hs
    split at hs
    · next fd slot mask rest hb =>
      obtain ⟨-, hs⟩ := Option.ite_none_right_eq_some.mp hs
      obtain ⟨r, hcall, rfl⟩ := Option.map_eq_some_iff.mp hs
      obtain ⟨hfd, hcase⟩ := callBack_cases hcall
      exact inv_finishCall h hb hfd hcase del add
    · cases hs
  | skip =>
    simp only [step] at hs
    split at hs
    · next fd slot mask rest hb =>
      obtain ⟨-, hs⟩ := Option.ite_none_left_eq_some.mp hs
      obtain rfl := Option.some.inj hs
      have hsound := h.sound
      rw [hb] at hsound
      exact ⟨hsound.tail, h.checkPos, h.closedOnce, h.current⟩
    · cases hs

lemma not_ownsAll_step {s s' : St} {a : Act} (h : Inv s) (hlost : ¬ Kept s a)
    (hs : step s a = some s') : ¬ OwnsAll s' := by
  cases a with
  | accept nfd nonblocking add now =>
    obtain ⟨rest, -, ⟨rfl, -⟩ | ⟨fd, rfl, -, hnew, rfl⟩⟩ := accept_cases hs
    · exact absurd trivial hlost
    · exact not_ownsAll_acceptConn h hnew hlost add now rest _
  | arrive | check | wait | call | skip => exact absurd trivial hlost

/-- **The server owns every descriptor it accepts exactly as long as every connection it accepts
gets a slot**, whatever else fails. -/
theorem echo_owns_all_iff {registered : Bool} {s : St} {as : List Act}
    (h : exec step (init registered) as = some s) :
    Always step OwnsAll (init registered) as ↔ Guarded step Kept (init registered) as :=
  always_iff_guarded (fun _ hi => hi.ownsAll) (fun _ _ _ hi hok hs => inv_step hi hok hs)
    (fun _ _ _ hi hlost hs => not_ownsAll_step hi hlost hs) h (inv_init registered)

/-- A connection arrives and is accepted with the descriptor 5. -/
def accepted (nonblocking : Bool) : List Act :=
  [.arrive, .check 0, .wait [.listen], .accept (some 5) nonblocking true 0]

/-- When `fcntl` fails, the descriptor stays open and no slot knows it. -/
theorem echo_loses_descriptor : ∃ s, exec step (init true) (accepted false) = some s ∧
    (s.conn 5).isOpen ∧ ∀ i < MAX_EVENTS, (s.ev i).status = false := by
  apply exists_exec_of_any
  decide +kernel

instance (s : St) (a : Act) : Decidable (Kept s a) :=
  match a with
  | .accept (some _) nonblocking _ _ =>
    inferInstanceAs (Decidable ((freeSlot s.ev 0 MAX_EVENTS).isSome ∧ nonblocking))
  | .accept none _ _ _ | .arrive | .check _ | .wait _ | .call _ _ _ _ | .skip => isTrue trivial

/-- A connection that echoes one byte and is closed by the timeout, after an `epoll_ctl` that
failed. -/
def echoed : List Act := accepted true ++
  ([.check 1, .wait [.conn 5 0 .epollin], .call (.recv (.data [104])) true true 1,
    .check 2, .wait [.conn 5 0 .epollout], .call (.send 1) true false 2,
    .check 90, .wait [], .check 90, .wait [], .check 90] : List Act)

theorem echo_owns_all_iff_echoed : (∃ s, exec step (init true) echoed = some s ∧
    (s.conn 5).isOpen = false) ∧ Always step OwnsAll (init true) echoed := by
  have hrun : ∃ s, exec step (init true) echoed = some s ∧ (s.conn 5).isOpen = false := by
    apply exists_exec_of_any
    decide +kernel
  obtain ⟨s, hs, hclosed⟩ := hrun
  exact ⟨⟨s, hs, hclosed⟩, (echo_owns_all_iff hs).mpr (by decide +kernel)⟩

end LinuxSamples.EchoServerEpoll
