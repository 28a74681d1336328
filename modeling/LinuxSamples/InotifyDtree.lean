import LinuxSamples.Pathname
import LinuxSamples.Run

/-!
The directory-tree monitor of `inotify/inotify_dtree.c`.

The program watches every directory of some trees with one inotify instance, and keeps in an
array the pathname each watch descriptor stands for. Events tell it that a directory was made,
removed or renamed; the handlers of the events add, drop and rewrite pathnames in the array.

The model has three parts: the array and the functions on it, the processing of events with
the reads they come from, and the file system whose operations queue the events. Every
directory has an inode number that it keeps when it is renamed; the kernel knows a watch by the
inode number of its directory. The order in which `nftw` visits a subtree is a parameter.
-/

namespace LinuxSamples.InotifyDtree

open Run Pathname

/-! ### The watch list cache -/

/-- `struct watch`; the pathname is the string in the array, without its final NUL. -/
structure Slot where
  wd : ℤ
  path : List Char
deriving DecidableEq

def Slot.unused : Slot := ⟨-1, []⟩

def findWatch (wlCache : List Slot) (wd : ℤ) : Option ℕ :=
  wlCache.findIdx? (·.wd = wd)

def markCacheSlotEmpty (wlCache : List Slot) (slot : ℕ) : List Slot :=
  wlCache.set slot Slot.unused

def allocIncr : ℕ := 200

/-- `findEmptyCacheSlot`: the array, longer if no slot was free, and the free slot. -/
def findEmptyCacheSlot (wlCache : List Slot) : List Slot × ℕ :=
  match findWatch wlCache (-1) with
  | some j => (wlCache, j)
  | none => (wlCache ++ List.replicate allocIncr Slot.unused, wlCache.length)

def addWatchToCache (wlCache : List Slot) (wd : ℤ) (pathname : List Char) : List Slot :=
  let r := findEmptyCacheSlot wlCache
  r.1.set r.2 ⟨wd, pathname⟩

def pathnameInCache (wlCache : List Slot) (pathname : List Char) : Bool :=
  wlCache.any fun s => 0 ≤ s.wd && s.path = pathname

/-- `wlCache[slot].path` -/
def pathAt (wlCache : List Slot) (slot : ℕ) : List Char :=
  (wlCache[slot]?).elim [] Slot.path

def rewriteCachedPaths (wlCache : List Slot)
    (oldPathPrefix oldName newPathPrefix newName : List Char) : List Slot :=
  let fullPath := oldPathPrefix ++ '/' :: oldName
  let newPrefix := newPathPrefix ++ '/' :: newName
  wlCache.map fun s =>
    if under fullPath s.path then
      { s with path := newPrefix ++ s.path.drop fullPath.length }
    else s

/-! ### The inotify instance -/

structure Dir where
  path : Path
  ino : ℕ
deriving DecidableEq

/-- A watch of the kernel: the inode it is on and its descriptor. -/
structure Watch where
  ino : ℕ
  wd : ℤ
deriving DecidableEq

inductive Mask where
  | create
  | movedFrom
  | movedTo
  | deleteSelf
  | moveSelf
  | unmount
  | qOverflow
  | ignored
deriving DecidableEq

/-- `struct inotify_event`; the flag `IN_ISDIR` of the mask stands apart. -/
structure Event where
  wd : ℤ
  mask : Mask
  isDir : Bool
  cookie : ℕ
  name : List Char
deriving DecidableEq

/-- The event that tells that the watch `wd` is gone. -/
def Event.ofIgnored (wd : ℤ) : Event := ⟨wd, .ignored, false, 0, []⟩

/-- The program's variables, and the watches of its inotify instance with the next descriptor
the kernel hands out. -/
structure Monitor where
  rootDirPaths : List (Option (List Char))
  wlCache : List Slot
  watches : List Watch
  nextWd : ℤ

/-- `inotify_add_watch`: a directory that is watched already keeps its descriptor. -/
def inotifyAddWatch (g : Monitor) (ino : ℕ) : Monitor × ℤ :=
  match g.watches.find? (·.ino = ino) with
  | some w => (g, w.wd)
  | none =>
    ({ g with watches := ⟨ino, g.nextWd⟩ :: g.watches, nextWd := g.nextWd + 1 }, g.nextWd)

def isRootDirPath (g : Monitor) (path : List Char) : Bool :=
  g.rootDirPaths.contains (some path)

/-- `zapRootDirPath`: nothing when no root is left, and the program exits. -/
def zapRootDirPath (g : Monitor) (path : List Char) : Option Monitor :=
  let rootDirPaths := g.rootDirPaths.replace (some path) none
  if rootDirPaths.all (· = none) then none else some { g with rootDirPaths }

/-- `traverseTree`, for a directory and the pathname it was reached by. -/
def traverseTree (g : Monitor) (v : List Char × Dir) : Monitor :=
  let (g, wd) := inotifyAddWatch g v.2.ino
  match findWatch g.wlCache wd with
  | some _ => g
  | none => { g with wlCache := addWatchToCache g.wlCache wd v.1 }

/-- What `nftw` visits, in this order, for a pathname it is given. -/
abbrev Nftw := List Char → List (List Char × Dir)

/-- `watchSubtree`, with `watchDir` -/
def watchSubtree (nftw : Nftw) (g : Monitor) (path : List Char) : Monitor :=
  (nftw path).foldl traverseTree g

/-- What a pass of `zapSubtree` leaves: the array, the watches, the events of the watches it
removed, and whether an `inotify_rm_watch` failed. -/
structure Zapped where
  wlCache : List Slot
  watches : List Watch
  queued : List Event
  failed : Bool

/-- `zapSubtree`: the pass over the array, which a failed `inotify_rm_watch` breaks off. -/
def zapSubtree (path : List Char) : List Slot → List Watch → Zapped
  | [], watches => ⟨[], watches, [], false⟩
  | s :: wlCache, watches =>
    if 0 ≤ s.wd ∧ under path s.path then
      if watches.any (·.wd = s.wd) then
        let z := zapSubtree path wlCache (watches.filter (·.wd ≠ s.wd))
        { z with
          wlCache := Slot.unused :: z.wlCache
          queued := Event.ofIgnored s.wd :: z.queued }
      else ⟨s :: wlCache, watches, [], true⟩
    else
      let z := zapSubtree path wlCache watches
      { z with wlCache := s :: z.wlCache }

/-- `reinitialize`: a new inotify instance and a new array. -/
def reinit (nftw : Nftw) (g : Monitor) : Monitor :=
  (g.rootDirPaths.filterMap id).foldl (watchSubtree nftw)
    { g with wlCache := [], watches := [], nextWd := 1 }

/-! ### Events -/

/-- What `processNextInotifyEvent` comes to. -/
inductive Outcome where
  /-- So many events are consumed; the kernel queued some more meanwhile. -/
  | consumed (g : Monitor) (count : ℕ) (queued : List Event)
  /-- `return -1`: a "moved from" event is the last of the buffer. -/
  | hanging
  /-- The instance was opened anew, and what the buffer still held is dropped. -/
  | reinitialized (g : Monitor)
  | exited

/-- `zapSubtree` in the two places `processNextInotifyEvent` calls it, one event consumed. -/
def zapOrReinit (nftw : Nftw) (g : Monitor) (path : List Char) : Outcome :=
  let z := zapSubtree path g.wlCache g.watches
  let g := { g with wlCache := z.wlCache, watches := z.watches }
  if z.failed then .reinitialized (reinit nftw g) else .consumed g 1 z.queued

/-- `processNextInotifyEvent` for the event `ev`, with the event that follows it in the
buffer, if one does. -/
def processNextInotifyEvent (nftw : Nftw) (g : Monitor) (ev : Event) (nextEv : Option Event)
    (firstTry : Bool) : Outcome :=
  let evCacheSlot := findWatch g.wlCache ev.wd
  if ev.wd ≠ -1 ∧ ev.mask ≠ .ignored ∧ evCacheSlot = none then
    .reinitialized (reinit nftw g)
  else
    let slot := evCacheSlot.getD 0
    let path := pathAt g.wlCache slot
    let fullPath := path ++ '/' :: ev.name
    match ev.mask with
    | .create | .movedTo =>
      if ev.isDir ∧ pathnameInCache g.wlCache fullPath = false then
        .consumed (watchSubtree nftw g fullPath) 1 []
      else .consumed g 1 []
    | .deleteSelf =>
      let zapped := { g with wlCache := markCacheSlotEmpty g.wlCache slot }
      if isRootDirPath g path then
        match zapRootDirPath zapped path with
        | none => .exited
        | some g => .consumed g 1 []
      else .consumed zapped 1 []
    | .movedFrom =>
      if ev.isDir = false then .consumed g 1 []
      else
        match nextEv with
        | none => if firstTry then .hanging else zapOrReinit nftw g fullPath
        | some nextEv =>
          if nextEv.mask = .movedTo ∧ nextEv.cookie = ev.cookie then
            -- the pair of an intra-tree rename: both events are consumed
            match findWatch g.wlCache nextEv.wd with
            | none => .reinitialized (reinit nftw g)
            | some nextSlot =>
              .consumed
                { g with
                  wlCache := rewriteCachedPaths g.wlCache path ev.name
                    (pathAt g.wlCache nextSlot) nextEv.name } 2 []
          else zapOrReinit nftw g fullPath
    | .qOverflow => .reinitialized (reinit nftw g)
    | .unmount => .consumed { g with wlCache := markCacheSlotEmpty g.wlCache slot } 1 []
    | .moveSelf =>
      if isRootDirPath g path then
        match zapRootDirPath g path with
        | none => .exited
        | some g => zapOrReinit nftw g path
      else .consumed g 1 []
    | .ignored => .consumed g 1 []

/-- `processInotifyEvents` between two turns of its loop: the events left in the buffer, those
in the kernel's queue, and `firstTry`. -/
structure Reader where
  monitor : Monitor
  buf : List Event
  queue : List Event
  firstTry : Bool

/-- A turn: with an empty buffer, the `read` that gets `n` of the queued events; else the next
event, with the secondary `read` that gets `n` more when a "moved from" event hangs. That one
is interrupted by the alarm only if nothing is queued. -/
def turn (nftw : Nftw) (m : Reader) (n : ℕ) : Option Reader :=
  match m.buf with
  | [] =>
    if 0 < n ∧ n ≤ m.queue.length then
      some { m with buf := m.queue.take n, queue := m.queue.drop n, firstTry := true }
    else none
  | ev :: rest =>
    match processNextInotifyEvent nftw m.monitor ev rest.head? m.firstTry with
    | .consumed g count queued => some ⟨g, (ev :: rest).drop count, m.queue ++ queued, true⟩
    | .reinitialized g => some ⟨g, [], [], true⟩
    | .exited => none
    | .hanging =>
      if m.queue = [] then some { m with firstTry := false }
      else if 0 < n ∧ n ≤ m.queue.length then
        some { m with
          buf := m.buf ++ m.queue.take n
          queue := m.queue.drop n
          firstTry := false }
      else none

/-- The processing of all the events that are queued, with what the reads get. -/
def processInotifyEvents (nftw : Nftw) (g : Monitor) (queue : List Event) (reads : List ℕ) :
    Option Monitor :=
  (exec (turn nftw) ⟨g, [], queue, true⟩ reads).bind fun m =>
    if m.buf = [] ∧ m.queue = [] then some m.monitor else none

/-! ### The file system -/

/-- The directories, the numbers the next new directory and the next rename get, the paths of
the monitored trees, and the program that monitors them. -/
structure System where
  fs : List Dir
  nextIno : ℕ
  nextCookie : ℕ
  roots : List Path
  monitor : Monitor

/-- The directory at `p` is in one of the trees. -/
def inTree (roots : List Path) (p : Path) : Bool := roots.any (·.isPrefixOf p)

/-- The directories of the monitored trees. -/
def System.treeDirs (s : System) : List Dir := s.fs.filter fun d => inTree s.roots d.path

def System.hasDir (s : System) (p : Path) : Bool := s.fs.any (·.path = p)

/-- No directory is below `p`. -/
def System.emptyAt (s : System) (p : Path) : Bool :=
  s.fs.all fun d => !(p.isPrefixOf d.path) || d.path = p

/-- The descriptor of the watch on an inode. -/
def Monitor.watchOn (g : Monitor) (ino : ℕ) : Option ℤ :=
  (g.watches.find? (·.ino = ino)).map Watch.wd

/-- The descriptor of the watch on the directory at `p`. -/
def System.watchAt (s : System) (p : Path) : Option ℤ :=
  (s.fs.find? (·.path = p)).bind fun d => s.monitor.watchOn d.ino

/-- The event for a watch, if there is one. -/
def notify (wd : Option ℤ) (mask : Mask) (cookie : ℕ) (name : List Char) : List Event :=
  wd.toList.map fun wd => ⟨wd, mask, true, cookie, name⟩

/-- The directory at `p`, if there is one, goes away with its watch. -/
def System.remove (s : System) (p : Path) : System × List Event :=
  let wd := s.watchAt p
  ({ s with
      fs := s.fs.filter (·.path ≠ p)
      monitor.watches := s.monitor.watches.filter fun w => some w.wd ≠ wd },
    notify wd .deleteSelf 0 [] ++ wd.toList.map Event.ofIgnored)

/-- The directory as it is named after `src` was renamed to `dst`. -/
def Dir.move (src dst : Path) (d : Dir) : Dir :=
  if src.isPrefixOf d.path then { d with path := dst ++ d.path.drop src.length } else d

inductive Op where
  | mkdir (parent : Path) (name : Name)
  | rmdir (p : Path)
  | rename (oldParent : Path) (oldName : Name) (newParent : Path) (newName : Name)

/-- An operation on the file system and the events it queues. A root is not removed, and
neither it nor a directory that holds it is renamed. -/
def System.perform (s : System) : Op → Option (System × List Event)
  | .mkdir parent name =>
    if s.hasDir parent ∧ s.hasDir (parent ++ [name]) = false then
      some ({ s with fs := s.fs ++ [⟨parent ++ [name], s.nextIno⟩], nextIno := s.nextIno + 1 },
        notify (s.watchAt parent) .create 0 name)
    else none
  | .rmdir p =>
    if s.hasDir p ∧ s.emptyAt p ∧ p ∉ s.roots ∧ p ≠ [] then some (s.remove p) else none
  | .rename oldParent oldName newParent newName =>
    let src := oldParent ++ [oldName]
    let dst := newParent ++ [newName]
    if src = dst ∧ s.hasDir src then some (s, [])
    else if s.hasDir src ∧ s.hasDir newParent ∧ ¬ src <+: dst ∧ s.emptyAt dst ∧ dst ∉ s.roots ∧
        ∀ r ∈ s.roots, ¬ src <+: r then
      let moved := notify (s.watchAt oldParent) .movedFrom s.nextCookie oldName ++
        notify (s.watchAt newParent) .movedTo s.nextCookie newName
      let r := s.remove dst
      some ({ r.1 with fs := r.1.fs.map (Dir.move src dst), nextCookie := s.nextCookie + 1 },
        moved ++ r.2)
    else none

/-- An operation, and the processing of all its events with what the reads get. -/
def System.step (nftw : List Dir → Nftw) (s : System) (a : Op × List ℕ) : Option System :=
  (s.perform a.1).bind fun r =>
    (processInotifyEvents (nftw r.1.fs) r.1.monitor r.2 a.2).map fun monitor =>
      { r.1 with monitor }

/-- The monitor when it starts on the trees `roots`. -/
def Monitor.start (nftw : Nftw) (roots : List Path) : Monitor :=
  reinit nftw ⟨roots.map fun r => some (pathname r), [], [], 1⟩

/-- A file system: directories have different paths and different inode numbers, the number for
the next one is new, what is above a directory is a directory, and the trees are there. -/
structure FileTree (fs : List Dir) (nextIno : ℕ) (roots : List Path) : Prop where
  paths : (fs.map Dir.path).Nodup
  inos : (fs.map Dir.ino).Nodup
  fresh : ∀ d ∈ fs, d.ino < nextIno
  closed : ∀ d ∈ fs, ∀ p, p <+: d.path → ∃ d' ∈ fs, d'.path = p
  roots : ∀ r ∈ roots, ∃ d ∈ fs, d.path = r

/-- The system when the monitor has started on the trees `roots` of a file system. -/
def System.init (nftw : List Dir → Nftw) (fs : List Dir) (nextIno nextCookie : ℕ)
    (roots : List Path) : System :=
  ⟨fs, nextIno, nextCookie, roots, Monitor.start (nftw fs) roots⟩

/-- `nftw` visits the directories of the subtree it is given, each once and by its pathname. -/
def Visits (nftw : List Dir → Nftw) : Prop :=
  ∀ fs p, p ≠ [] → (nftw fs (pathname p)).Perm
    ((fs.filter fun d => p.isPrefixOf d.path).map fun d => (pathname d.path, d))

def used (wlCache : List Slot) : List Slot := wlCache.filter (0 ≤ ·.wd)

/-- **The cache mirrors the trees.** The slots in use are, in some order, the directories of the
trees, each with its pathname and its watch descriptor; and no pathname stands twice. -/
def System.Mirrors (s : System) : Prop :=
  ((used s.monitor.wlCache).map fun w => (w.path, some w.wd)).Perm
      (s.treeDirs.map fun d => (pathname d.path, s.monitor.watchOn d.ino)) ∧
    ((used s.monitor.wlCache).map Slot.path).Nodup

end LinuxSamples.InotifyDtree
