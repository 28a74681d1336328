import LinuxSamples.Run
import LinuxSamples.CondVar
import LinuxSamples.Pool

/-!
The tty server of `server.c`: the threads that run `tty_server_routine`, and the clients that
call `tty_server_request`.

Requests are cells of a heap, named by the number of requests allocated before them. Every access
to a request looks its cell up; an access to a cell that is not allocated sets `fault`. So
whoever touches a request after it was freed, or frees it twice, is seen. What the
server prints is left out, and with it the prompt.
-/

namespace LinuxSamples.TtyServer

/-- The operation of a request: one of the three codes, or any other. -/
inductive Op
  | read | write | quit | other
  deriving DecidableEq, Repr

/-! ### Strings -/

def nul : Char := Char.ofNat 0

/-- The string in a buffer ends at the first null byte. -/
def cstring (buf : List Char) : List Char := buf.takeWhile (· ≠ nul)

/-- At most `n` characters of the input, and none behind a newline. -/
def readLine : ℕ → List Char → List Char
  | 0, _ => []
  | _ + 1, [] => []
  | n + 1, c :: cs => if c = '\n' then ['\n'] else c :: readLine n cs

/-- `fgets` with a buffer of `size`; no input is the end of the file. -/
def fgets (size : ℕ) (stdin : List Char) : Option (List Char) :=
  if stdin = [] then none else some (readLine (size - 1) stdin)

/-- What the server has in `text` after a read: the line without its newline. -/
def readText (stdin : List Char) : List Char :=
  match fgets 128 stdin with
  | none => []
  | some buf =>
    let text := cstring buf
    if text.getLast? = some '\n' then text.dropLast else text

/-- `strncpy` into a buffer of `size`. -/
def strncpy (size : ℕ) (src : List Char) : List Char := (cstring src).take size

/-! ### Requests and threads -/

/-- `request_t`. -/
structure Request where
  operation : Op
  synchronous : Bool
  doneFlag : Bool
  text : List Char
  deriving DecidableEq, Repr

/-- Where a server is in `tty_server_routine`. -/
inductive Server
  /-- before the lock at the head of the loop -/
  | lock
  | wait (woken : Bool)
  /-- has removed the request from the queue and unlocked the mutex -/
  | process (id : ℕ)
  /-- behind the `switch` -/
  | answer (id : ℕ) (operation : Op)
  /-- before the lock for a synchronous request -/
  | reply (id : ℕ) (operation : Op)
  | gone
  deriving DecidableEq, Repr

def Server.blocked : Server → Bool
  | .wait woken => !woken
  | _ => false

def Server.wake : Server → Server
  | .wait _ => .wait true
  | x => x

/-- The server looks at the queue when it gets the mutex. -/
def Server.looks : Server → Bool
  | .lock => true
  | .wait woken => woken
  | _ => false

def Server.next (operation : Op) : Server := if operation = .quit then .gone else .lock

/-- A client is outside `tty_server_request`, or waits there for its request to be done. -/
inductive Client
  | out
  | wait (id : ℕ) (operation : Op) (woken : Bool)
  deriving DecidableEq, Repr

/-- A signal on `done` of request `id`: only the client that made the request waits there. -/
def Client.wakeDone (id : ℕ) : Client → Client
  | .wait id' operation woken => .wait id' operation (woken || id' = id)
  | .out => .out

/-- A request that was freed, by the server or by its caller. -/
structure Freed where
  id : ℕ
  byServer : Bool
  synchronous : Bool
  deriving DecidableEq, Repr

/-- A synchronous call that has returned; `string` is what a read left there. -/
structure Returned where
  id : ℕ
  operation : Op
  string : List Char
  deriving DecidableEq, Repr

/-- The server, its threads and the clients, and a record of the requests: how many were
allocated and removed from the queue, whether one of them was `REQ_QUIT`, what was processed with
which text, freed and returned. -/
structure St (ι : Type) where
  heap : ℕ → Option Request
  allocated : ℕ
  queue : List ℕ
  running : Bool
  servers : List Server
  client : ι → Client
  fault : Bool
  taken : ℕ
  quit : Bool
  processed : List (ℕ × List Char)
  freed : List Freed
  returned : List Returned

/-- A step of the client `i` or of the server at place `t`. -/
inductive Act (ι : Type)
  /-- `c` is the server that the signal wakes -/
  | request (i : ι) (operation : Op) (sync : Bool) (string : Option (List Char)) (c : Option ℕ)
  | resume (i : ι)
  | look (t : ℕ)
  /-- `stdin` is the input there is if the server reads -/
  | process (t : ℕ) (stdin : List Char)
  | answer (t : ℕ)
  | reply (t : ℕ)
  | spuriousServer (t : ℕ)
  | spuriousClient (i : ι)
  deriving DecidableEq, Repr

variable {ι : Type}

def St.deref (s : St ι) (id : ℕ) (f : Request → St ι) : St ι :=
  match s.heap id with
  | some r => f r
  | none => { s with fault := true }

def St.setServer (s : St ι) (t : ℕ) (x : Server) : St ι :=
  { s with servers := s.servers.set t x }

/-- The request that is allocated for a call. -/
def newRequest (operation : Op) (sync : Bool) (string : Option (List Char)) : Request :=
  ⟨operation, sync, false,
    match operation, string with
    | .write, some string => strncpy 128 string
    | _, _ => []⟩

/-- The text after the `switch`. -/
def Request.process (r : Request) (stdin : List Char) : Request :=
  if r.operation = .read then { r with text := readText stdin } else r

def look (s : St ι) (t : ℕ) : St ι :=
  match s.queue with
  | [] => s.setServer t (.wait false)
  | id :: rest =>
    -- `request->next`
    s.deref id fun _ => { s with
      queue := rest, servers := s.servers.set t (.process id), taken := s.taken + 1 }

def process (s : St ι) (t id : ℕ) (stdin : List Char) : St ι :=
  s.deref id fun r => { s with
    heap := Function.update s.heap id (some (r.process stdin))
    servers := s.servers.set t (.answer id r.operation)
    processed := s.processed ++ [(id, (r.process stdin).text)] }

/-- The test of `synchronous`: an asynchronous request is freed. -/
def answer (s : St ι) (t id : ℕ) (operation : Op) : St ι :=
  s.deref id fun r =>
    if r.synchronous then s.setServer t (.reply id operation)
    else { s with
      heap := Function.update s.heap id none
      servers := s.servers.set t (.next operation)
      freed := s.freed ++ [⟨id, true, r.synchronous⟩] }

/-- `done_flag` is set and `done` signalled. -/
def reply (s : St ι) (t id : ℕ) (operation : Op) : St ι :=
  s.deref id fun r => { s with
    heap := Function.update s.heap id (some { r with doneFlag := true })
    servers := s.servers.set t (.next operation)
    client := fun i => (s.client i).wakeDone id }

variable [DecidableEq ι]

/-- `tty_server_request` from the lock to the unlock, or to the wait for the request. -/
def request (s : St ι) (i : ι) (operation : Op) (sync : Bool) (string : Option (List Char))
    (c : Option ℕ) : Option (St ι) :=
  let servers := if s.running then s.servers else s.servers ++ [.lock]
  let id := s.allocated
  -- `tty_server.last->next`
  let fault := s.fault || s.queue.getLast?.any fun last => (s.heap last).isNone
  (Pool.signal Server.blocked Server.wake servers c).map fun servers =>
    { s with
      heap := Function.update s.heap id (some (newRequest operation sync string))
      allocated := s.allocated + 1
      queue := s.queue ++ [id]
      running := true
      servers := servers
      client := Function.update s.client i (if sync then .wait id operation false else .out)
      fault := fault
      quit := s.quit || operation = .quit }

/-- A client that was woken looks at its request, takes the text and frees it, or waits again. -/
def resume (s : St ι) (i : ι) (id : ℕ) (operation : Op) : St ι :=
  s.deref id fun r =>
    if r.doneFlag then
      { s with
        heap := Function.update s.heap id none
        client := Function.update s.client i .out
        freed := s.freed ++ [⟨id, false, r.synchronous⟩]
        returned := s.returned ++ [⟨id, operation, if operation = .read then r.text else []⟩] }
    else { s with client := Function.update s.client i (.wait id operation false) }

def step (s : St ι) : Act ι → Option (St ι)
  | .request i operation sync string c =>
    if s.client i = .out then request s i operation sync string c else none
  | .resume i =>
    match s.client i with
    | .wait id operation true => some (resume s i id operation)
    | _ => none
  | .look t =>
    match s.servers[t]? with
    | some x => if x.looks then some (look s t) else none
    | none => none
  | .process t stdin =>
    match s.servers[t]? with
    | some (.process id) => some (process s t id stdin)
    | _ => none
  | .answer t =>
    match s.servers[t]? with
    | some (.answer id operation) => some (answer s t id operation)
    | _ => none
  | .reply t =>
    match s.servers[t]? with
    | some (.reply id operation) => some (reply s t id operation)
    | _ => none
  | .spuriousServer t =>
    match s.servers[t]? with
    | some x => if x.blocked then some (s.setServer t x.wake) else none
    | none => none
  | .spuriousClient i =>
    match s.client i with
    | .wait id operation false =>
      some { s with client := Function.update s.client i (.wait id operation true) }
    | _ => none

def init : St ι :=
  ⟨fun _ => none, 0, [], false, [], fun _ => .out, false, 0, false, [], [], []⟩

inductive Step (s : St ι) : Act ι → St ι → Prop
  | request {i : ι} {operation : Op} {sync : Bool} {string : Option (List Char)} {c : Option ℕ}
    {s' : St ι} (hi : s.client i = .out) (hs : request s i operation sync string c = some s') :
    Step s (.request i operation sync string c) s'
  | resume {i : ι} {id : ℕ} {operation : Op} (hi : s.client i = .wait id operation true) :
    Step s (.resume i) (resume s i id operation)
  | look {t : ℕ} {x : Server} (hx : s.servers[t]? = some x) (hlooks : x.looks) :
    Step s (.look t) (look s t)
  | process {t id : ℕ} {stdin : List Char} (hx : s.servers[t]? = some (.process id)) :
    Step s (.process t stdin) (process s t id stdin)
  | answer {t id : ℕ} {operation : Op} (hx : s.servers[t]? = some (.answer id operation)) :
    Step s (.answer t) (answer s t id operation)
  | reply {t id : ℕ} {operation : Op} (hx : s.servers[t]? = some (.reply id operation)) :
    Step s (.reply t) (reply s t id operation)
  | spuriousServer {t : ℕ} {woken : Bool} (hx : s.servers[t]? = some (.wait woken)) :
    Step s (.spuriousServer t) (s.setServer t (.wait true))
  | spuriousClient {i : ι} {id : ℕ} {operation : Op} (hi : s.client i = .wait id operation false) :
    Step s (.spuriousClient i)
      { s with client := Function.update s.client i (.wait id operation true) }

/-- **What a step can do.** -/
theorem step_cases {s s' : St ι} {a : Act ι} (h : step s a = some s') : Step s a s' := by
  cases a with
  | request i operation sync string c =>
    obtain ⟨hi, h⟩ := Option.ite_none_right_eq_some.mp h
    exact .request hi h
  | resume i =>
    simp only [step] at h
    split at h
    · obtain rfl := Option.some.inj h
      exact .resume ‹_›
    · cases h
  | look t =>
    simp only [step] at h
    split at h
    · obtain ⟨hlooks, h⟩ := Option.ite_none_right_eq_some.mp h
      obtain rfl := Option.some.inj h
      exact .look ‹_› hlooks
    · cases h
  | process t stdin =>
    simp only [step] at h
    split at h
    · obtain rfl := Option.some.inj h
      exact .process ‹_›
    · cases h
  | answer t =>
    simp only [step] at h
    split at h
    · obtain rfl := Option.some.inj h
      exact .answer ‹_›
    · cases h
  | reply t =>
    simp only [step] at h
    split at h
    · obtain rfl := Option.some.inj h
      exact .reply ‹_›
    · cases h
  | spuriousServer t =>
    simp only [step] at h
    split at h
    · next x hx =>
      obtain ⟨hb, h⟩ := Option.ite_none_right_eq_some.mp h
      obtain rfl := Option.some.inj h
      cases x with
      | wait woken => exact .spuriousServer hx
      | _ => cases hb
    · cases h
  | spuriousClient i =>
    simp only [step] at h
    split at h
    · obtain rfl := Option.some.inj h
      exact .spuriousClient ‹_›
    · cases h

end LinuxSamples.TtyServer
