import LinuxSamples.Run

/-!
`fifo_seqnum_server.c` and `fifo_seqnum_client.c`: ranges of numbers handed out over FIFOs.

All requests come in through one FIFO. A reply goes out through a FIFO that the client has made
under its process id, and the process id is all that the server knows of a client. A client that
is killed leaves its FIFO and its request behind, and the next process with its id takes both up:
it finds the FIFO there, which `mkfifo` does not mind, and reads the reply to the request of its
predecessor.
-/

namespace LinuxSamples.FifoSeqnum

open Run

variable {n : ℕ}

/-- `struct request`. -/
structure Request where
  pid : ℕ
  seqLen : ℤ

/-- `struct response`, with the client whose request it answers kept beside it. -/
structure Response (n : ℕ) where
  seqNum : ℤ
  owner : Fin n
deriving DecidableEq

/-- Where a client is. A FIFO is known by the process id in its name and the number `g` under which
it was made, so that a FIFO that is made again under its name is another one. -/
inductive Pc
  | unborn
  | mkfifo
  /-- At the `open` of the FIFO of the server. -/
  | openServer
  | write
  /-- At the `open` of its own FIFO. -/
  | openOwn
  /-- In the `open` of its own FIFO; `met` says whether the server has come to open it. -/
  | opening (g : ℕ) (met : Bool)
  | read (g : ℕ)
  /-- In `exit`, with the FIFO that is still open. -/
  | exit (g : Option ℕ)
  | gone
deriving DecidableEq

/-- Where the server is, and the client whose request it has read. -/
inductive Server (n : ℕ)
  /-- In the `open` of its own FIFO. -/
  | start
  | read
  /-- At the `open` of the FIFO of the client. -/
  | openClient (c : Fin n)
  /-- In the `open` of the FIFO of the client; `met` says whether a client has come to open it. -/
  | opening (c : Fin n) (g : ℕ) (met : Bool)
  | write (c : Fin n) (g : ℕ)
  | close (c : Fin n) (g : ℕ)
deriving DecidableEq

/-- The FIFO of its process id that a client has open or waits to open. -/
def Pc.fd : Pc → Option ℕ
  | .opening g _ => some g
  | .read g => some g
  | .exit g => g
  | _ => none

def Pc.live : Pc → Bool
  | .unborn => false
  | .gone => false
  | _ => true

/-- The FIFO of a client that the server has open or waits to open. -/
def Server.fd : Server n → Option (Fin n × ℕ)
  | .opening c g _ => some (c, g)
  | .write c g => some (c, g)
  | .close c g => some (c, g)
  | _ => none

/-- The client whose request the server has read and not answered. -/
def Server.pending : Server n → Option (Fin n)
  | .openClient c => some c
  | .opening c _ _ => some c
  | .write c _ => some c
  | _ => none

/-- The clients, the names and the contents of the FIFOs, and the server. What each client has
printed and the responses in the order of the calls of `write` are kept beside them. -/
structure St (n : ℕ) where
  pc : Fin n → Pc
  /-- The FIFO under the name of a process id. -/
  fifo : ℕ → Option ℕ
  made : ℕ
  buf : ℕ × ℕ → List (Response n)
  /-- Whether a client has opened the FIFO of the server. -/
  opened : Bool
  queue : List (Fin n)
  server : Server n
  seqNum : ℤ
  printed : Fin n → Option (Response n)
  served : List (Response n)

def start : St n where
  pc := fun _ => .unborn
  fifo := fun _ => none
  made := 0
  buf := fun _ => []
  opened := false
  queue := []
  server := .start
  seqNum := 0
  printed := fun _ => none
  served := []

def addInt (a b : ℤ) : ℤ := (a + b + 2147483648) % 4294967296 - 2147483648

/-- One client begins to run, takes a step, finds that `open` fails, or is killed; or the server
takes a step, or finds that the `open` of the FIFO of a client fails. -/
inductive Act (n : ℕ)
  | start (c : Fin n)
  | client (c : Fin n)
  | fail (c : Fin n)
  | kill (c : Fin n)
  | server
  | skip

variable (req : Fin n → Request)

namespace St

variable (s : St n)

def setPc (c : Fin n) (p : Pc) : St n := { s with pc := Function.update s.pc c p }

def HasReader (p g : ℕ) : Prop := ∃ c, (req c).pid = p ∧ (s.pc c).fd = some g

def HasWriter (p g : ℕ) : Prop :=
  (s.server.fd.map fun x => ((req x.1).pid, x.2)) = some (p, g)

instance (p g : ℕ) : Decidable (s.HasReader req p g) :=
  inferInstanceAs (Decidable (∃ c, (req c).pid = p ∧ (s.pc c).fd = some g))

instance (p g : ℕ) : Decidable (s.HasWriter req p g) :=
  inferInstanceAs (Decidable ((s.server.fd.map fun x => ((req x.1).pid, x.2)) = some (p, g)))

/-- What is in the FIFOs when one of them is opened: a FIFO that nobody has open is empty. -/
def bufOnOpen (p g : ℕ) : ℕ × ℕ → List (Response n) :=
  if s.HasReader req p g ∨ s.HasWriter req p g then s.buf else Function.update s.buf (p, g) []

end St

def Server.meet (p g : ℕ) : Server n → Server n
  | .opening c g' met => .opening c g' (met || decide ((req c).pid = p ∧ g' = g))
  | q => q

def Pc.meet (g : ℕ) : Pc → Pc
  | .opening g' met => .opening g' (met || decide (g' = g))
  | p => p

/-- A client calls `open` on its own FIFO. -/
def St.enter (s : St n) (c : Fin n) (g : ℕ) : St n :=
  { s.setPc c (.opening g (decide (s.HasWriter req (req c).pid g))) with
    buf := s.bufOnOpen req (req c).pid g
    server := s.server.meet req (req c).pid g }

/-- The server calls `open` on the FIFO of a client. -/
def St.enterServer (s : St n) (c : Fin n) (g : ℕ) : St n :=
  { s with
    pc := fun d => if (req d).pid = (req c).pid then (s.pc d).meet g else s.pc d
    buf := s.bufOnOpen req (req c).pid g
    server := .opening c g (decide (s.HasReader req (req c).pid g)) }

/-- A client reads the first response in its FIFO and prints it. -/
def St.receive (s : St n) (c : Fin n) (g : ℕ) (x : Response n) (xs : List (Response n)) : St n :=
  { s.setPc c (.exit (some g)) with
    buf := Function.update s.buf ((req c).pid, g) xs
    printed := Function.update s.printed c (some x) }

/-- The server writes its response. Without a reader the call fails with `EPIPE`. -/
def St.reply (s : St n) (c : Fin n) (g : ℕ) : St n :=
  { s with
    server := .close c g
    buf := if s.HasReader req (req c).pid g then
        Function.update s.buf ((req c).pid, g) (s.buf ((req c).pid, g) ++ [⟨s.seqNum, c⟩])
      else s.buf
    served := s.served ++ [⟨s.seqNum, c⟩] }

def clientStep (s : St n) (c : Fin n) : Option (St n) :=
  match s.pc c with
  | .unborn => none
  | .mkfifo =>
    -- `EEXIST` is no error
    some { s.setPc c .openServer with
      fifo := Function.update s.fifo (req c).pid (some ((s.fifo (req c).pid).getD s.made))
      made := s.made + 1 }
  | .openServer => some { s.setPc c .write with opened := true }
  | .write => some { s.setPc c .openOwn with queue := s.queue ++ [c] }
  | .openOwn =>
    match s.fifo (req c).pid with
    | none => some (s.setPc c (.exit none))
    | some g => some (s.enter req c g)
  | .opening g met => if met then some (s.setPc c (.read g)) else none
  | .read g =>
    match s.buf ((req c).pid, g) with
    | x :: xs => some (s.receive req c g x xs)
    -- end of file once the server has closed the FIFO
    | [] => if s.HasWriter req (req c).pid g then none else some (s.setPc c (.exit (some g)))
  | .exit _ => some { s.setPc c .gone with fifo := Function.update s.fifo (req c).pid none }
  | .gone => none

def serverStep (s : St n) : Option (St n) :=
  match s.server with
  | .start => if s.opened then some { s with server := .read } else none
  | .read =>
    match s.queue with
    | [] => none
    | c :: q => some { s with queue := q, server := .openClient c }
  | .openClient c =>
    match s.fifo (req c).pid with
    | none => some { s with server := .read }
    | some g => some (s.enterServer req c g)
  | .opening c g met => if met then some { s with server := .write c g } else none
  | .write c g => some (s.reply req c g)
  | .close c _ => some { s with server := .read, seqNum := addInt s.seqNum (req c).seqLen }

/-- The points at which `open` can fail in a client. -/
def Pc.opens : Pc → Bool
  | .openServer => true
  | .openOwn => true
  | .opening _ _ => true
  | _ => false

/-- The points at which `open` can fail in the server, for the FIFO of a client. -/
def Server.opens : Server n → Bool
  | .openClient _ => true
  | .opening _ _ _ => true
  | _ => false

/-- A process begins to run with an id that no running process has. A client whose `open` fails
calls `exit`, which removes its FIFO; a client that is killed does not. -/
def step (s : St n) : Act n → Option (St n)
  | .start c =>
    if s.pc c = .unborn ∧ ∀ d, (req d).pid = (req c).pid → (s.pc d).live = false then
      some (s.setPc c .mkfifo)
    else none
  | .client c => clientStep req s c
  | .fail c => if (s.pc c).opens then some (s.setPc c (.exit none)) else none
  | .kill c => if (s.pc c).live then some (s.setPc c .gone) else none
  | .server => serverStep req s
  | .skip => if s.server.opens then some { s with server := .read } else none

/-! ### What a step does -/

inductive ClientStep (s : St n) (c : Fin n) : St n → Prop
  | mkfifo (hp : s.pc c = .mkfifo) :
      ClientStep s c { s.setPc c .openServer with
        fifo := Function.update s.fifo (req c).pid (some ((s.fifo (req c).pid).getD s.made))
        made := s.made + 1 }
  | openServer (hp : s.pc c = .openServer) :
      ClientStep s c { s.setPc c .write with opened := true }
  | write (hp : s.pc c = .write) :
      ClientStep s c { s.setPc c .openOwn with queue := s.queue ++ [c] }
  | missing (hp : s.pc c = .openOwn) (hf : s.fifo (req c).pid = none) :
      ClientStep s c (s.setPc c (.exit none))
  | enter (g : ℕ) (hp : s.pc c = .openOwn) (hf : s.fifo (req c).pid = some g) :
      ClientStep s c (s.enter req c g)
  | opened (g : ℕ) (hp : s.pc c = .opening g true) : ClientStep s c (s.setPc c (.read g))
  | read (g : ℕ) (x : Response n) (xs : List (Response n)) (hp : s.pc c = .read g)
      (hb : s.buf ((req c).pid, g) = x :: xs) : ClientStep s c (s.receive req c g x xs)
  | eof (g : ℕ) (hp : s.pc c = .read g) (hb : s.buf ((req c).pid, g) = [])
      (hw : ¬ s.HasWriter req (req c).pid g) : ClientStep s c (s.setPc c (.exit (some g)))
  | exit (g : Option ℕ) (hp : s.pc c = .exit g) :
      ClientStep s c { s.setPc c .gone with fifo := Function.update s.fifo (req c).pid none }

inductive ServerStep (s : St n) : St n → Prop
  | begin (hq : s.server = .start) (ho : s.opened = true) :
      ServerStep s { s with server := .read }
  | fetch (c : Fin n) (q : List (Fin n)) (hq : s.server = .read) (hr : s.queue = c :: q) :
      ServerStep s { s with queue := q, server := .openClient c }
  | missing (c : Fin n) (hq : s.server = .openClient c) (hf : s.fifo (req c).pid = none) :
      ServerStep s { s with server := .read }
  | enter (c : Fin n) (g : ℕ) (hq : s.server = .openClient c) (hf : s.fifo (req c).pid = some g) :
      ServerStep s (s.enterServer req c g)
  | connect (c : Fin n) (g : ℕ) (hq : s.server = .opening c g true) :
      ServerStep s { s with server := .write c g }
  | reply (c : Fin n) (g : ℕ) (hq : s.server = .write c g) : ServerStep s (s.reply req c g)
  | close (c : Fin n) (g : ℕ) (hq : s.server = .close c g) :
      ServerStep s { s with server := .read, seqNum := addInt s.seqNum (req c).seqLen }

inductive Step (s : St n) : Act n → St n → Prop
  | start (c : Fin n) (hp : s.pc c = .unborn)
      (hd : ∀ d, (req d).pid = (req c).pid → (s.pc d).live = false) :
      Step s (.start c) (s.setPc c .mkfifo)
  | client (c : Fin n) (s' : St n) (h : ClientStep req s c s') : Step s (.client c) s'
  | fail (c : Fin n) (hp : (s.pc c).opens = true) : Step s (.fail c) (s.setPc c (.exit none))
  | kill (c : Fin n) (hp : (s.pc c).live = true) : Step s (.kill c) (s.setPc c .gone)
  | server (s' : St n) (h : ServerStep req s s') : Step s .server s'
  | skip (hq : s.server.opens = true) : Step s .skip { s with server := .read }

variable {req} {s s' : St n}

lemma clientStep_cases {c : Fin n} (h : clientStep req s c = some s') : ClientStep req s c s' := by
  unfold clientStep at h
  cases hp : s.pc c with
  | unborn => simp [hp] at h
  | mkfifo =>
    simp only [hp, Option.some.injEq] at h
    exact h ▸ .mkfifo hp
  | openServer =>
    simp only [hp, Option.some.injEq] at h
    exact h ▸ .openServer hp
  | write =>
    simp only [hp, Option.some.injEq] at h
    exact h ▸ .write hp
  | openOwn =>
    simp only [hp] at h
    split at h
    · exact Option.some.inj h ▸ .missing hp ‹_›
    · exact Option.some.inj h ▸ .enter _ hp ‹_›
  | opening g met =>
    simp only [hp] at h
    split at h
    · rename_i hmet
      exact Option.some.inj h ▸ .opened g (hmet ▸ hp)
    · cases h
  | read g =>
    simp only [hp] at h
    split at h
    · exact Option.some.inj h ▸ .read g _ _ hp ‹_›
    · split at h
      · cases h
      · exact Option.some.inj h ▸ .eof g hp ‹_› ‹_›
  | exit g =>
    simp only [hp, Option.some.injEq] at h
    exact h ▸ .exit g hp
  | gone => simp [hp] at h

lemma serverStep_cases (h : serverStep req s = some s') : ServerStep req s s' := by
  unfold serverStep at h
  cases hq : s.server with
  | start =>
    simp only [hq] at h
    split at h
    · exact Option.some.inj h ▸ .begin hq ‹_›
    · cases h
  | read =>
    simp only [hq] at h
    split at h
    · cases h
    · exact Option.some.inj h ▸ .fetch _ _ hq ‹_›
  | openClient c =>
    simp only [hq] at h
    split at h
    · exact Option.some.inj h ▸ .missing c hq ‹_›
    · exact Option.some.inj h ▸ .enter c _ hq ‹_›
  | opening c g met =>
    simp only [hq] at h
    split at h
    · rename_i hmet
      exact Option.some.inj h ▸ .connect c g (hmet ▸ hq)
    · cases h
  | write c g =>
    simp only [hq, Option.some.injEq] at h
    exact h ▸ .reply c g hq
  | close c g =>
    simp only [hq, Option.some.injEq] at h
    exact h ▸ .close c g hq

lemma step_cases {a : Act n} (h : step req s a = some s') : Step req s a s' := by
  cases a with
  | start c =>
    rw [step] at h
    split at h
    · rename_i hc
      exact Option.some.inj h ▸ .start c hc.1 hc.2
    · cases h
  | client c => exact .client c s' (clientStep_cases h)
  | fail c =>
    rw [step] at h
    split at h
    · exact Option.some.inj h ▸ .fail c ‹_›
    · cases h
  | kill c =>
    rw [step] at h
    split at h
    · exact Option.some.inj h ▸ .kill c ‹_›
    · cases h
  | server => exact .server s' (serverStep_cases h)
  | skip =>
    rw [step] at h
    split at h
    · exact Option.some.inj h ▸ .skip ‹_›
    · cases h

lemma setPc_pc (c : Fin n) (p : Pc) : (s.setPc c p).pc = Function.update s.pc c p := rfl

lemma enter_pc (c : Fin n) (g : ℕ) : (s.enter req c g).pc =
    Function.update s.pc c (.opening g (decide (s.HasWriter req (req c).pid g))) := rfl

lemma enter_server (c : Fin n) (g : ℕ) :
    (s.enter req c g).server = s.server.meet req (req c).pid g := rfl

lemma enterServer_pc (c d : Fin n) (g : ℕ) : (s.enterServer req c g).pc d =
    if (req d).pid = (req c).pid then (s.pc d).meet g else s.pc d := rfl

lemma enterServer_of_meet {β : Type*} {f : Pc → β} {g : ℕ} (hf : ∀ p, f (p.meet g) = f p)
    (c d : Fin n) : f ((s.enterServer req c g).pc d) = f (s.pc d) := by
  rw [enterServer_pc]
  split
  · exact hf _
  · rfl

end LinuxSamples.FifoSeqnum
