import LinuxSamples.CrewCount

/-!
Without failures the crew visits the whole tree.

What has been queued so far, what lies below the items in the queue, and what the workers have
still to read make up the trees that were asked for. When everything is done the last two are
empty.
-/

namespace LinuxSamples.Crew

open LinuxSamples.Run LinuxSamples.Pool

variable {κ : Type}

mutual

def Node.under (path : List Char) : Node → Multiset Work
  | .dir entries => entries.items path
  | _ => 0

/-- The entries of the directory `path` that are not ignored, and what is below them. -/
def Entries.items (path : List Char) : Entries → Multiset Work
  | .nil => 0
  | .cons name node rest =>
    (if ignored name then 0
      else {⟨path ++ '/' :: name, node⟩} + node.under (path ++ '/' :: name)) + rest.items path

end

def Work.under (work : Work) : Multiset Work := work.node.under work.path

def Work.tree (work : Work) : Multiset Work := {work} + work.under

/-- What a worker has still to find below its item. -/
def Worker.below : Worker → Multiset Work
  | .took work => work.under
  | .reading work rest => rest.items work.path
  | _ => 0

def NoFailure (_ : St κ) : Act κ → Prop
  | .examine _ lstat opens => lstat = true ∧ opens = true
  | .read _ readdir _ => readdir = true
  | _ => True

/-- Everything below the roots has been reached or will be. -/
def Covers (s : St κ) : Prop :=
  (s.reached : Multiset Work) + (s.queue.map Work.under).sum + total Worker.below s.worker =
    (s.roots.map Work.tree).sum

lemma below_wake (x : Worker) : x.wake.below = x.below := by cases x <;> rfl

lemma Covers.moveWorker {s : St κ} (h : Covers s) {t : ℕ} {x y : Worker}
    (hx : s.worker[t]? = some x) (hy : y.below = x.below) : Covers (s.setWorker t y) := by
  unfold Covers at h ⊢
  simp only [St.setWorker, total_set_eq _ hx hy]
  exact h

lemma covers_enqueue {s s' : St κ} {work : Work} {c : Option ℕ}
    (h : (s.reached : Multiset Work) + (s.queue.map Work.under).sum +
      total Worker.below s.worker + work.tree = (s.roots.map Work.tree).sum)
    (hs : enqueue s work c = some s') : Covers s' := by
  obtain ⟨worker, hsig, rfl⟩ := Option.map_eq_some_iff.mp hs
  unfold Covers
  simp only [total_signal _ (fun x _ => below_wake x) hsig, List.map_append, List.sum_append,
    List.map_cons, List.map_nil, List.sum_cons, List.sum_nil, add_zero, ← Multiset.coe_add,
    Multiset.coe_singleton]
  rw [← h, Work.tree]
  abel

lemma Covers.takeWork {s : St κ} (h : Covers s) {t : ℕ} {x : Worker} (hx : s.worker[t]? = some x)
    (htop : x.atTop) : Covers (Crew.takeWork s t) := by
  have hbelow : x.below = 0 := by cases x <;> first | rfl | cases htop
  unfold Crew.takeWork
  split
  · exact h.moveWorker hx hbelow.symm
  · next work rest hq =>
    have hset := total_set Worker.below hx (.took work)
    rw [hbelow, add_zero] at hset
    unfold Covers at h ⊢
    rw [hset, ← h, hq]
    simp only [List.map_cons, List.sum_cons, Worker.below]
    abel

lemma opensDirs_of_noFailure {s : St κ} {a : Act κ} (h : NoFailure s a) : OpensDirs s a := by
  cases a with
  | examine t lstat opens =>
    obtain ⟨rfl, rfl⟩ := h
    intro x _
    cases x with
    | took work => exact fun hdir => ⟨rfl, by simpa using hdir⟩
    | _ => trivial
  | _ => trivial

section Step

variable [DecidableEq κ]

lemma Covers.crewStart {s s' : St κ} (h : Covers s) {k : κ} {root : Work} {c : Option ℕ}
    (hs : Crew.crewStart s k root c = some s') : Covers s' := by
  unfold Crew.crewStart at hs
  split at hs
  · obtain rfl := Option.some.inj hs
    exact h
  · refine covers_enqueue ?_ hs
    unfold Covers at h
    simp only [h, List.map_append, List.sum_append, List.map_cons, List.map_nil, List.sum_cons,
      List.sum_nil, add_zero]

lemma covers_step {s s' : St κ} {a : Act κ} (h : Covers s) (hok : NoFailure s a)
    (hs : step s a = some s') : Covers s' := by
  cases step_cases hs with
  | crewStart hs => exact h.crewStart hs
  | retry hs => exact h.crewStart hs
  | collect => exact h
  | @lockGo t x hx hgo =>
    have hbelow : x.below = 0 := by cases x <;> first | rfl | cases hgo
    refine h.moveWorker hx ?_
    rw [hbelow]
    split <;> rfl
  | lockTop hx htop => exact h.takeWork hx htop
  | @examine t lstat opens work hx =>
    obtain ⟨rfl, rfl⟩ := hok
    -- the branch is that of the node, and only a directory has something below it
    cases hnode : work.node with
    | dir entries =>
      have hy : (Worker.reading work entries).below = (Worker.took work).below := by
        simp only [Worker.below, Work.under, hnode, Node.under]
      have hmove := h.moveWorker hx hy
      simpa [examine, hnode, Node.mode, Covers, St.setWorker] using hmove
    | _ =>
      have hy : (Worker.processed work).below = (Worker.took work).below := by
        simp only [Worker.below, Work.under, hnode, Node.under]
      have hmove := h.moveWorker hx hy
      simpa [examine, hnode, Node.mode, Covers, St.setWorker, St.process] using hmove
  | @readEnd t readdir c work rest hx hend =>
    obtain rfl := hend hok
    exact h.moveWorker hx (y := .processed work) (by simp [Worker.below, Entries.items])
  | readIgnored hx hign =>
    exact h.moveWorker hx (by simp [Worker.below, Entries.items, hign])
  | @readEntry t c work name node rest s' hx hign hs =>
    refine covers_enqueue ?_ hs
    have hset := total_set Worker.below hx (.reading work rest)
    have hbelow : (Worker.reading work (.cons name node rest)).below =
        (work.entry name node).tree + (Worker.reading work rest).below := by
      simp [Worker.below, Entries.items, hign, Work.tree, Work.under, Work.entry]
    rw [hbelow, ← add_assoc] at hset
    have hset := add_right_cancel hset
    unfold Covers at h
    simp only [St.setWorker]
    rw [← h, ← hset]
    abel
  | @free t work hx => exact h.moveWorker hx (y := .freed work) rfl
  | @finish t work hx =>
    unfold finish
    dsimp only
    split
    · exact h.moveWorker hx (y := .gone) rfl
    · exact h.moveWorker hx (y := .top) rfl
  | @spuriousWorker t x hx => exact h.moveWorker hx (below_wake x)
  | spuriousCaller => exact h

/-- **The crew visits the whole tree.** In a run without failures, when nothing is outstanding any
more, so when `crew_start` may return, the items that were processed and freed are exactly those of
the trees that were queued by its calls. -/
theorem crew_visits_tree {n : ℕ} {filestat : ℕ → Mode} {as : List (Act κ)} {s : St κ}
    (hs : exec step (init n filestat) as = some s)
    (hg : Guarded step NoFailure (init n filestat) as) (hdone : s.workCount ≤ 0) :
    (s.processed : Multiset Work) = (s.roots.map Work.tree).sum ∧
    (s.freed : Multiset Work) = (s.roots.map Work.tree).sum := by
  have h0 : Inv (init n filestat : St κ) ∧ Covers (init n filestat : St κ) := by
    refine ⟨inv_init n filestat, ?_⟩
    simp [Covers, init, total, Worker.below]
  obtain ⟨hi, hcovers⟩ := hg.invariant (I := fun s => Inv s ∧ Covers s) hs h0
    (fun u a v hu hok hv =>
      ⟨inv_step hu.1 (opensDirs_of_noFailure hok) hv, covers_step hu.2 hok hv⟩)
  have hall := hi.allDone_iff.mpr hdone
  have hcount := hi.count
  have hqueue : s.queue = [] := List.length_eq_zero_iff.mp (by omega)
  have hzero : total Worker.inProcess s.worker = 0 :=
    Multiset.card_eq_zero.mp (by unfold St.inProcess at hcount; omega)
  have hbelow : total Worker.below s.worker = 0 := by
    refine List.sum_eq_zero fun m hm => ?_
    obtain ⟨x, hx, rfl⟩ := List.mem_map.mp hm
    have hidle := eq_zero_of_total_eq_zero hzero hx
    cases x <;> first | rfl | simp [Worker.inProcess, Worker.unprocessed] at hidle
  unfold Covers at hcovers
  rw [hqueue, hbelow, List.map_nil, List.sum_nil, add_zero, add_zero] at hcovers
  exact ⟨hall.processed.trans hcovers, hall.freed.trans hcovers⟩

def visit : List (Act Unit) :=
  [.crewStart () smallTree none, .lockGo 0, .lockTop 0, .examine 0 true true, .read 0 true none,
    .read 0 true none, .read 0 true none, .free 0, .finish 0, .lockTop 0, .examine 0 true true,
    .free 0, .finish 0]

theorem crew_visits_tree_small :
    ∃ s : St Unit, exec step (init 1 fun _ => .other) visit = some s ∧ s.workCount = 0 ∧
      (s.processed : Multiset Work) = (s.roots.map Work.tree).sum := by
  obtain ⟨s, hs, hdone⟩ : ∃ s : St Unit, exec step (init 1 fun _ => .other) visit = some s ∧
    s.workCount = 0 := ⟨_, rfl, rfl⟩
  have hg : Guarded step NoFailure (init 1 fun _ => .other) visit :=
    Guarded.of_forall (by simp [visit, NoFailure]) _
  exact ⟨s, hs, hdone, (crew_visits_tree hs hg hdone.le).1⟩

end Step

end LinuxSamples.Crew
