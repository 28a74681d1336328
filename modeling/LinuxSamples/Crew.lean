import LinuxSamples.Run
import LinuxSamples.CondVar
import LinuxSamples.Pool

/-!
The work crew of `crew.c`: the workers that search a directory tree, and the callers of
`crew_start`.

A work item is a path together with what the file system has under it. The workers run the loop of
`worker_routine`; the sections under the mutex are one step each, and so is the examination of
an item, the reading of one entry, and the freeing. Any of `lstat`, `opendir`, `readdir_r` and
`fopen` may fail at any time. `lstat` is not checked: when it fails, `filestat` of the worker
keeps what it had. Text that is printed is left out, and so is the search in a file that was
opened, which touches nothing shared.
-/

namespace LinuxSamples.Crew

inductive Mode
  | link | dir | reg | other
  deriving DecidableEq, Repr

mutual

/-- What the file system has under a path. -/
inductive Node
  | link | reg | other
  | dir (entries : Entries)

/-- The entries of a directory, as `readdir_r` returns them, `.` and `..` among them. -/
inductive Entries
  | nil
  | cons (name : List Char) (node : Node) (rest : Entries)

end

def Node.mode : Node → Mode
  | .link => .link
  | .reg => .reg
  | .other => .other
  | .dir _ => .dir

/-- `work_t`, with what is found under its path. -/
structure Work where
  path : List Char
  node : Node

/-- The item for an entry of the directory `work`. -/
def Work.entry (work : Work) (name : List Char) (node : Node) : Work :=
  ⟨work.path ++ '/' :: name, node⟩

def ignored (name : List Char) : Bool := name = ['.'] ∨ name = ['.', '.']

/-- Where a worker is in `worker_routine`. -/
inductive Worker
  | start
  /-- in the wait for the first item -/
  | go (woken : Bool)
  /-- before the lock at the top of the loop -/
  | top
  | wait (woken : Bool)
  | took (work : Work)
  /-- in the loop over the entries -/
  | reading (work : Work) (rest : Entries)
  /-- before the two calls of `free` -/
  | processed (work : Work)
  /-- before the last lock of the loop -/
  | freed (work : Work)
  | gone

def Worker.blocked : Worker → Bool
  | .go woken => !woken
  | .wait woken => !woken
  | _ => false

def Worker.wake : Worker → Worker
  | .go _ => .go true
  | .wait _ => .wait true
  | x => x

/-- The worker tests `work_count` when it gets the mutex. -/
def Worker.atGo : Worker → Bool
  | .start => true
  | .go woken => woken
  | _ => false

/-- The worker looks for an item when it gets the mutex. -/
def Worker.atTop : Worker → Bool
  | .top => true
  | .wait woken => woken
  | _ => false

/-- A caller of `crew_start`, in its first or in its second wait for `done`. -/
inductive Caller
  | out
  | busy (root : Work) (woken : Bool)
  | done (woken : Bool)

def Caller.blocked : Caller → Bool
  | .busy _ woken => !woken
  | .done woken => !woken
  | .out => false

def Caller.wake : Caller → Caller
  | .busy root _ => .busy root true
  | .done _ => .done true
  | .out => .out

/-- The crew, the threads, and a record of the items: requested by callers, put in the queue,
taken from it, processed, freed and counted off. -/
structure St (κ : Type) where
  workCount : ℤ
  queue : List Work
  worker : List Worker
  filestat : ℕ → Mode
  caller : κ → Caller
  roots : List Work
  reached : List Work
  taken : List Work
  processed : List Work
  freed : List Work
  finished : List Work

/-- A step of the worker at place `t` or of the caller `k`; `c` is the worker that a signal
wakes. -/
inductive Act (κ : Type)
  | crewStart (k : κ) (root : Work) (c : Option ℕ)
  | retry (k : κ) (c : Option ℕ)
  | collect (k : κ)
  | lockGo (t : ℕ)
  | lockTop (t : ℕ)
  /-- `lstat` succeeds or not, and so does the `opendir` or `fopen` that follows -/
  | examine (t : ℕ) (lstat opens : Bool)
  /-- `readdir_r` succeeds or not -/
  | read (t : ℕ) (readdir : Bool) (c : Option ℕ)
  | free (t : ℕ)
  | finish (t : ℕ)
  | spuriousWorker (t : ℕ)
  | spuriousCaller (k : κ)

variable {κ : Type} [DecidableEq κ]

def St.setWorker (s : St κ) (t : ℕ) (x : Worker) : St κ := { s with worker := s.worker.set t x }

def St.setCaller (s : St κ) (k : κ) (x : Caller) : St κ :=
  { s with caller := Function.update s.caller k x }

/-- An item goes to the end of the queue, is counted and signalled. -/
def enqueue (s : St κ) (work : Work) (c : Option ℕ) : Option (St κ) :=
  (Pool.signal Worker.blocked Worker.wake s.worker c).map fun worker =>
    { s with
      queue := s.queue ++ [work], reached := s.reached ++ [work]
      workCount := s.workCount + 1, worker := worker }

/-- `crew_start` from the lock, or from its first wait, to its second wait. -/
def crewStart (s : St κ) (k : κ) (root : Work) (c : Option ℕ) : Option (St κ) :=
  if s.workCount > 0 then some (s.setCaller k (.busy root false))
  else
    let x := if s.workCount + 1 > 0 then .done false else .out
    enqueue { s with caller := Function.update s.caller k x, roots := s.roots ++ [root] } root c

/-- The top of the loop, from the lock or the wait: the first item is removed. -/
def takeWork (s : St κ) (t : ℕ) : St κ :=
  match s.queue with
  | [] => s.setWorker t (.wait false)
  | work :: rest =>
    { s with
      queue := rest, worker := s.worker.set t (.took work), taken := s.taken ++ [work] }

def St.process (s : St κ) (t : ℕ) (work : Work) : St κ :=
  { s with worker := s.worker.set t (.processed work), processed := s.processed ++ [work] }

/-- The branches on `filestat.st_mode`. -/
def examine (s : St κ) (t : ℕ) (work : Work) (opens : Bool) : St κ :=
  match s.filestat t with
  | .link => s.process t work
  | .dir =>
    match work.node, opens with
    | .dir entries, true => s.setWorker t (.reading work entries)
    -- `opendir` returns NULL: `continue`
    | _, _ => s.setWorker t .top
  | .reg => s.process t work
  | .other => s.process t work

/-- One round of the loop over the entries. -/
def readEntry (s : St κ) (t : ℕ) (work : Work) (c : Option ℕ) : Entries → Option (St κ)
  | .nil => some (s.process t work)
  | .cons name node rest =>
    let s := s.setWorker t (.reading work rest)
    if ignored name then some s else enqueue s (work.entry name node) c

def finish (s : St κ) (t : ℕ) (work : Work) : St κ :=
  let s := { s with workCount := s.workCount - 1, finished := s.finished ++ [work] }
  if s.workCount ≤ 0 then
    { s with
      worker := s.worker.set t .gone
      caller := CondVar.broadcast Caller.blocked Caller.wake s.caller }
  else s.setWorker t .top

def step (s : St κ) : Act κ → Option (St κ)
  | .crewStart k root c =>
    match s.caller k with
    | .out => crewStart s k root c
    | _ => none
  | .retry k c =>
    match s.caller k with
    | .busy root true => crewStart s k root c
    | _ => none
  | .collect k =>
    match s.caller k with
    | .done true => some (s.setCaller k (if s.workCount > 0 then .done false else .out))
    | _ => none
  | .lockGo t =>
    match s.worker[t]? with
    | some x =>
      if x.atGo then some (s.setWorker t (if s.workCount = 0 then .go false else .top)) else none
    | none => none
  | .lockTop t =>
    match s.worker[t]? with
    | some x => if x.atTop then some (takeWork s t) else none
    | none => none
  | .examine t lstat opens =>
    match s.worker[t]? with
    | some (.took work) =>
      let mode := if lstat then work.node.mode else s.filestat t
      some (examine { s with filestat := Function.update s.filestat t mode } t work opens)
    | _ => none
  | .read t readdir c =>
    match s.worker[t]? with
    | some (.reading work rest) =>
      if readdir then readEntry s t work c rest else some (s.process t work)
    | _ => none
  | .free t =>
    match s.worker[t]? with
    | some (.processed work) =>
      some { s with worker := s.worker.set t (.freed work), freed := s.freed ++ [work] }
    | _ => none
  | .finish t =>
    match s.worker[t]? with
    | some (.freed work) => some (finish s t work)
    | _ => none
  | .spuriousWorker t =>
    match s.worker[t]? with
    | some x => if x.blocked then some (s.setWorker t x.wake) else none
    | none => none
  | .spuriousCaller k =>
    if (s.caller k).blocked then some (s.setCaller k (s.caller k).wake) else none

/-- The crew of `crew_create` with `n` workers, whose `filestat` is not initialised. -/
def init (n : ℕ) (filestat : ℕ → Mode) : St κ :=
  ⟨0, [], List.replicate n .start, filestat, fun _ => .out, [], [], [], [], [], []⟩

/-! ### What a step can do -/

/-- The steps as rules. The end of a directory and a failing `readdir_r` leave the loop over the
entries in the same way. -/
inductive Step (s : St κ) : Act κ → St κ → Prop
  | crewStart {k : κ} {root : Work} {c : Option ℕ} {s' : St κ}
    (hs : crewStart s k root c = some s') : Step s (.crewStart k root c) s'
  | retry {k : κ} {root : Work} {c : Option ℕ} {s' : St κ}
    (hs : crewStart s k root c = some s') : Step s (.retry k c) s'
  | collect {k : κ} :
    Step s (.collect k) (s.setCaller k (if s.workCount > 0 then .done false else .out))
  | lockGo {t : ℕ} {x : Worker} (hx : s.worker[t]? = some x) (hgo : x.atGo) :
    Step s (.lockGo t) (s.setWorker t (if s.workCount = 0 then .go false else .top))
  | lockTop {t : ℕ} {x : Worker} (hx : s.worker[t]? = some x) (htop : x.atTop) :
    Step s (.lockTop t) (takeWork s t)
  | examine {t : ℕ} {lstat opens : Bool} {work : Work} (hx : s.worker[t]? = some (.took work)) :
    Step s (.examine t lstat opens) (examine { s with
      filestat := Function.update s.filestat t
        (if lstat then work.node.mode else s.filestat t) } t work opens)
  | readEnd {t : ℕ} {readdir : Bool} {c : Option ℕ} {work : Work} {rest : Entries}
    (hx : s.worker[t]? = some (.reading work rest)) (hend : readdir = true → rest = .nil) :
    Step s (.read t readdir c) (s.process t work)
  | readIgnored {t : ℕ} {c : Option ℕ} {work : Work} {name : List Char} {node : Node}
    {rest : Entries} (hx : s.worker[t]? = some (.reading work (.cons name node rest)))
    (hign : ignored name) : Step s (.read t true c) (s.setWorker t (.reading work rest))
  | readEntry {t : ℕ} {c : Option ℕ} {work : Work} {name : List Char} {node : Node}
    {rest : Entries} {s' : St κ} (hx : s.worker[t]? = some (.reading work (.cons name node rest)))
    (hign : ¬ ignored name)
    (hs : enqueue (s.setWorker t (.reading work rest)) (work.entry name node) c = some s') :
    Step s (.read t true c) s'
  | free {t : ℕ} {work : Work} (hx : s.worker[t]? = some (.processed work)) :
    Step s (.free t) { s with worker := s.worker.set t (.freed work), freed := s.freed ++ [work] }
  | finish {t : ℕ} {work : Work} (hx : s.worker[t]? = some (.freed work)) :
    Step s (.finish t) (finish s t work)
  | spuriousWorker {t : ℕ} {x : Worker} (hx : s.worker[t]? = some x) :
    Step s (.spuriousWorker t) (s.setWorker t x.wake)
  | spuriousCaller {k : κ} (hb : (s.caller k).blocked) :
    Step s (.spuriousCaller k) (s.setCaller k (s.caller k).wake)

/-- **What a step can do.** -/
theorem step_cases {s s' : St κ} {a : Act κ} (h : step s a = some s') : Step s a s' := by
  cases a with
  | crewStart k root c =>
    simp only [step] at h
    split at h
    · exact .crewStart h
    · cases h
  | retry k c =>
    simp only [step] at h
    split at h
    · exact .retry h
    · cases h
  | collect k =>
    simp only [step] at h
    split at h
    · obtain rfl := Option.some.inj h
      exact .collect
    · cases h
  | lockGo t =>
    simp only [step] at h
    split at h
    · obtain ⟨hgo, h⟩ := Option.ite_none_right_eq_some.mp h
      obtain rfl := Option.some.inj h
      exact .lockGo ‹_› hgo
    · cases h
  | lockTop t =>
    simp only [step] at h
    split at h
    · obtain ⟨htop, h⟩ := Option.ite_none_right_eq_some.mp h
      obtain rfl := Option.some.inj h
      exact .lockTop ‹_› htop
    · cases h
  | examine t lstat opens =>
    simp only [step] at h
    split at h
    · obtain rfl := Option.some.inj h
      exact .examine ‹_›
    · cases h
  | read t readdir c =>
    simp only [step] at h
    split at h
    · next work rest hx =>
      cases readdir with
      | false =>
        obtain rfl := Option.some.inj h
        exact .readEnd hx fun hc => by cases hc
      | true =>
        cases rest with
        | nil =>
          obtain rfl := Option.some.inj h
          exact .readEnd hx fun _ => rfl
        | cons name node rest =>
          simp only [Crew.readEntry, if_true] at h
          split at h
          · next hign =>
            obtain rfl := Option.some.inj h
            exact .readIgnored hx hign
          · next hign => exact .readEntry hx hign h
    · cases h
  | free t =>
    simp only [step] at h
    split at h
    · obtain rfl := Option.some.inj h
      exact .free ‹_›
    · cases h
  | finish t =>
    simp only [step] at h
    split at h
    · obtain rfl := Option.some.inj h
      exact .finish ‹_›
    · cases h
  | spuriousWorker t =>
    simp only [step] at h
    split at h
    · obtain ⟨-, h⟩ := Option.ite_none_right_eq_some.mp h
      obtain rfl := Option.some.inj h
      exact .spuriousWorker ‹_›
    · cases h
  | spuriousCaller k =>
    obtain ⟨hb, h⟩ := Option.ite_none_right_eq_some.mp h
    obtain rfl := Option.some.inj h
    exact .spuriousCaller hb

end LinuxSamples.Crew
