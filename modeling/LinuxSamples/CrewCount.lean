import LinuxSamples.Crew

/-!
The account of the work items.

`work_count` is the number of items in the queue and with the workers, as long as `opendir` does
not fail: then the worker goes on with the next item and leaves this one neither freed nor
counted off. Every other way through the loop, failures included, keeps the account, and then
`crew_start` returns exactly when everything has been processed and freed.
-/

namespace LinuxSamples.Crew

open LinuxSamples.Run LinuxSamples.Pool

variable {κ : Type}

/-- The item a worker has taken and not processed. -/
def Worker.unprocessed : Worker → Multiset Work
  | .took work => {work}
  | .reading work _ => {work}
  | _ => 0

/-- The item a worker has processed and not freed. -/
def Worker.unfreed : Worker → Multiset Work
  | .processed work => {work}
  | _ => 0

/-- The item a worker has freed and not counted off. -/
def Worker.uncounted : Worker → Multiset Work
  | .freed work => {work}
  | _ => 0

/-- All that the worker has taken and not finished. -/
def Worker.inProcess (x : Worker) : Multiset Work := x.unprocessed + x.unfreed + x.uncounted

def St.inProcess (s : St κ) : ℕ := Multiset.card (total Worker.inProcess s.worker)

/-- Every item was processed, freed and counted off, once. -/
structure St.AllDone (s : St κ) : Prop where
  processed : (s.processed : Multiset Work) = s.reached
  freed : (s.freed : Multiset Work) = s.reached
  finished : (s.finished : Multiset Work) = s.reached

section Accounts

variable [DecidableEq κ]

/-- The account is right; a caller of `crew_start` that looks returns if and only if all is done;
and no caller sleeps when there is nothing in the queue or in process. -/
structure Accounts (s : St κ) : Prop where
  count : s.workCount = s.queue.length + s.inProcess
  returns : ∀ k s', step s (.collect k) = some s' → (s'.caller k = .out ↔ s.AllDone)
  waits : ∀ k, (s.caller k).blocked → ¬ (s.queue = [] ∧ s.inProcess = 0)

/-- If the worker takes its item for a directory, then `opendir` succeeds. -/
def Opens (filestat : Mode) (lstat opens : Bool) : Worker → Prop
  | .took work => (if lstat then work.node.mode else filestat) = .dir →
      opens = true ∧ work.node.mode = .dir
  | _ => True

/-- `opendir` succeeds whenever a worker takes its item for a directory. -/
def OpensDirs (s : St κ) : Act κ → Prop
  | .examine t lstat opens => ∀ x ∈ s.worker[t]?, Opens (s.filestat t) lstat opens x
  | _ => True

instance (filestat : Mode) (lstat opens : Bool) : (x : Worker) →
    Decidable (Opens filestat lstat opens x)
  | .took _ => inferInstanceAs (Decidable (_ = _ → _ ∧ _))
  | .start | .go _ | .top | .wait _ | .reading _ _ | .processed _ | .freed _ | .gone =>
    isTrue trivial

instance (s : St κ) : (a : Act κ) → Decidable (OpensDirs s a)
  | .examine t lstat opens =>
    inferInstanceAs (Decidable (∀ x ∈ s.worker[t]?, Opens (s.filestat t) lstat opens x))
  | .crewStart _ _ _ | .retry _ _ | .collect _ | .lockGo _ | .lockTop _ | .read _ _ _ | .free _
  | .finish _ | .spuriousWorker _ | .spuriousCaller _ => isTrue trivial

end Accounts

/-- Every item is accounted for. -/
structure Items (s : St κ) : Prop where
  count : s.workCount = s.queue.length + s.inProcess
  order : s.taken ++ s.queue = s.reached
  processing : (s.processed : Multiset Work) + total Worker.unprocessed s.worker = s.taken
  freeing : (s.freed : Multiset Work) + total Worker.unfreed s.worker = s.processed
  counting : (s.finished : Multiset Work) + total Worker.uncounted s.worker = s.freed

structure Inv (s : St κ) : Prop extends Items s where
  waits : ∀ k, (s.caller k).blocked → 0 < s.workCount

lemma inv_init (n : ℕ) (filestat : ℕ → Mode) : Inv (init n filestat : St κ) := by
  have hzero : ∀ g : Worker → Multiset Work, g .start = 0 →
      total g (List.replicate n .start) = 0 := by
    intro g hg
    simp [total, hg]
  refine ⟨⟨?_, rfl, ?_, ?_, ?_⟩, fun k hk => by cases hk⟩
  · simp [init, St.inProcess, hzero Worker.inProcess rfl]
  · simp [init, hzero Worker.unprocessed rfl]
  · simp [init, hzero Worker.unfreed rfl]
  · simp [init, hzero Worker.uncounted rfl]

/-! ### What the account says -/

lemma total_inProcess (l : List Worker) : total Worker.inProcess l =
    total Worker.unprocessed l + total Worker.unfreed l + total Worker.uncounted l := by
  induction l with
  | nil => simp
  | cons x l ih =>
    simp only [total_cons, ih, Worker.inProcess]
    abel

lemma Items.reached {s : St κ} (h : Items s) : (s.reached : Multiset Work) =
    s.finished + total Worker.inProcess s.worker + s.queue := by
  rw [← h.order, ← Multiset.coe_add, ← h.processing, ← h.freeing, ← h.counting, total_inProcess]
  abel

lemma Items.allDone_iff {s : St κ} (h : Items s) : s.AllDone ↔ s.workCount ≤ 0 := by
  have hcount := h.count
  constructor
  · intro hall
    have hcard := congrArg Multiset.card h.reached
    rw [← hall.finished] at hcard
    simp only [Multiset.card_add, Multiset.coe_card] at hcard
    unfold St.inProcess at hcount
    omega
  · intro hle
    have hqueue : s.queue = [] := List.length_eq_zero_iff.mp (by omega)
    have hzero : total Worker.inProcess s.worker = 0 :=
      Multiset.card_eq_zero.mp (by unfold St.inProcess at hcount; omega)
    have hparts := total_inProcess s.worker
    rw [hzero, eq_comm, add_eq_zero, add_eq_zero] at hparts
    obtain ⟨⟨hunproc, hunfreed⟩, huncounted⟩ := hparts
    have hreached := h.reached
    have hcounting := h.counting
    have hfreeing := h.freeing
    rw [hzero, hqueue] at hreached
    rw [huncounted, add_zero] at hcounting
    rw [hunfreed, add_zero] at hfreeing
    have hfinished : (s.finished : Multiset Work) = s.reached := by simpa using hreached.symm
    exact ⟨by rw [← hfreeing, ← hcounting, hfinished], by rw [← hcounting, hfinished], hfinished⟩

lemma Inv.accounts [DecidableEq κ] {s : St κ} (h : Inv s) : Accounts s where
  count := h.count
  returns := by
    intro k s' hs
    rw [h.allDone_iff]
    simp only [step] at hs
    split at hs
    · obtain rfl := Option.some.inj hs
      by_cases hpos : s.workCount > 0
      · simp [St.setCaller, hpos]
      · simp [St.setCaller, hpos]
        omega
    · cases hs
  waits := by
    rintro k hk ⟨hqueue, hzero⟩
    have := h.waits k hk
    have := h.count
    simp [hqueue, hzero] at this
    omega

/-! ### The steps -/

lemma unprocessed_wake (x : Worker) : x.wake.unprocessed = x.unprocessed := by cases x <;> rfl

lemma unfreed_wake (x : Worker) : x.wake.unfreed = x.unfreed := by cases x <;> rfl

lemma uncounted_wake (x : Worker) : x.wake.uncounted = x.uncounted := by cases x <;> rfl

lemma inProcess_wake (x : Worker) : x.wake.inProcess = x.inProcess := by cases x <;> rfl

lemma Items.count_nonneg {s : St κ} (h : Items s) : 0 ≤ s.workCount := by
  have := h.count
  omega

lemma Items.congr {s : St κ} (h : Items s) (caller : κ → Caller) (filestat : ℕ → Mode)
    (roots : List Work) :
    Items { s with caller := caller, filestat := filestat, roots := roots } :=
  ⟨h.count, h.order, h.processing, h.freeing, h.counting⟩

lemma Items.moveWorker {s : St κ} (h : Items s) {t : ℕ} {x y : Worker}
    (hx : s.worker[t]? = some x) (h1 : y.unprocessed = x.unprocessed)
    (h2 : y.unfreed = x.unfreed) (h3 : y.uncounted = x.uncounted) : Items (s.setWorker t y) where
  count := by
    have hin : y.inProcess = x.inProcess := by simp only [Worker.inProcess, h1, h2, h3]
    have hcount := h.count
    unfold St.inProcess at hcount ⊢
    simp only [St.setWorker, total_set_eq _ hx hin]
    exact hcount
  order := h.order
  processing := by
    simp only [St.setWorker, total_set_eq _ hx h1]
    exact h.processing
  freeing := by
    simp only [St.setWorker, total_set_eq _ hx h2]
    exact h.freeing
  counting := by
    simp only [St.setWorker, total_set_eq _ hx h3]
    exact h.counting

def Worker.Idle (x : Worker) : Prop := x.unprocessed = 0 ∧ x.unfreed = 0 ∧ x.uncounted = 0

lemma Worker.Idle.inProcess {x : Worker} (h : x.Idle) : x.inProcess = 0 := by
  rw [Worker.inProcess, h.1, h.2.1, h.2.2, add_zero, add_zero]

lemma idle_of_atTop {x : Worker} (h : x.atTop) : x.Idle := by
  cases x <;> first | exact ⟨rfl, rfl, rfl⟩ | cases h

lemma idle_of_atGo {x : Worker} (h : x.atGo) : x.Idle := by
  cases x <;> first | exact ⟨rfl, rfl, rfl⟩ | cases h

lemma Items.moveIdle {s : St κ} (h : Items s) {t : ℕ} {x y : Worker} (hx : s.worker[t]? = some x)
    (hxi : x.Idle) (hyi : y.Idle) : Items (s.setWorker t y) :=
  h.moveWorker hx (hyi.1.trans hxi.1.symm) (hyi.2.1.trans hxi.2.1.symm)
    (hyi.2.2.trans hxi.2.2.symm)

lemma Items.enqueue {s s' : St κ} (h : Items s) {work : Work} {c : Option ℕ}
    (hs : enqueue s work c = some s') :
    Items s' ∧ s'.workCount = s.workCount + 1 ∧ s'.caller = s.caller := by
  obtain ⟨worker, hsig, rfl⟩ := Option.map_eq_some_iff.mp hs
  refine ⟨⟨?_, ?_, ?_, ?_, ?_⟩, rfl, rfl⟩
  · have hcount := h.count
    unfold St.inProcess at hcount ⊢
    simp only [total_signal _ (fun x _ => inProcess_wake x) hsig, List.length_append,
      List.length_singleton]
    push_cast
    omega
  · simp only [← List.append_assoc, h.order]
  · rw [total_signal _ (fun x _ => unprocessed_wake x) hsig]
    exact h.processing
  · rw [total_signal _ (fun x _ => unfreed_wake x) hsig]
    exact h.freeing
  · rw [total_signal _ (fun x _ => uncounted_wake x) hsig]
    exact h.counting

lemma Items.takeWork {s : St κ} (h : Items s) {t : ℕ} {x : Worker} (hx : s.worker[t]? = some x)
    (htop : x.atTop) : Items (Crew.takeWork s t) := by
  have hidle := idle_of_atTop htop
  unfold Crew.takeWork
  split
  · exact h.moveIdle hx hidle ⟨rfl, rfl, rfl⟩
  · next work rest hq =>
    have hin := congrArg Multiset.card (total_set Worker.inProcess hx (.took work))
    have hone : Multiset.card (Worker.took work).inProcess = 1 := rfl
    rw [hidle.inProcess, Multiset.card_add, Multiset.card_add, hone, Multiset.card_zero] at hin
    have horder := h.order
    have hcount := h.count
    rw [hq] at horder hcount
    refine ⟨?_, ?_, ?_, ?_, ?_⟩
    · unfold St.inProcess at hcount ⊢
      simp only [List.length_cons] at hcount
      dsimp only
      omega
    · simpa using horder
    · exact acquire h.processing hx hidle.1 rfl
    · rw [total_set_eq _ hx hidle.2.1.symm]
      exact h.freeing
    · rw [total_set_eq _ hx hidle.2.2.symm]
      exact h.counting

lemma Items.process {s : St κ} (h : Items s) {t : ℕ} {x : Worker} {work : Work}
    (hx : s.worker[t]? = some x) (h1 : x.unprocessed = {work}) (h2 : x.unfreed = 0)
    (h3 : x.uncounted = 0) : Items (s.process t work) where
  count := by
    have hin : (Worker.processed work).inProcess = x.inProcess := by
      have hx : x.inProcess = {work} := by rw [Worker.inProcess, h1, h2, h3, add_zero, add_zero]
      rw [hx]
      rfl
    have hcount := h.count
    unfold St.inProcess at hcount ⊢
    simp only [St.process, total_set_eq _ hx hin]
    exact hcount
  order := h.order
  processing := release h.processing hx h1 rfl
  freeing := acquire h.freeing hx h2 rfl
  counting := by
    simp only [St.process, total_set_eq Worker.uncounted hx (y := .processed work) h3.symm]
    exact h.counting

lemma Items.free {s : St κ} (h : Items s) {t : ℕ} {work : Work}
    (hx : s.worker[t]? = some (.processed work)) :
    Items { s with worker := s.worker.set t (.freed work), freed := s.freed ++ [work] } where
  count := by
    have hcount := h.count
    unfold St.inProcess at hcount ⊢
    simp only [total_set_eq Worker.inProcess hx (y := .freed work) rfl]
    exact hcount
  order := h.order
  processing := by
    simp only [total_set_eq Worker.unprocessed hx (y := .freed work) rfl]
    exact h.processing
  freeing := release h.freeing hx rfl rfl
  counting := acquire h.counting hx rfl rfl

lemma Items.countOff {s : St κ} (h : Items s) {t : ℕ} {work : Work} {y : Worker}
    (hx : s.worker[t]? = some (.freed work)) (hy : y = .gone ∨ y = .top)
    (caller : κ → Caller) :
    Items { s with
      workCount := s.workCount - 1, worker := s.worker.set t y, caller := caller
      finished := s.finished ++ [work] } := by
  have hidle : y.Idle := by rcases hy with rfl | rfl <;> exact ⟨rfl, rfl, rfl⟩
  refine ⟨?_, h.order, ?_, ?_, release h.counting hx rfl hidle.2.2⟩
  · have hin := congrArg Multiset.card (total_set Worker.inProcess hx y)
    rw [hidle.inProcess, Multiset.card_add, Multiset.card_add] at hin
    have hone : Multiset.card (Worker.freed work).inProcess = 1 := rfl
    rw [hone, Multiset.card_zero] at hin
    have hcount := h.count
    unfold St.inProcess at hcount ⊢
    dsimp only
    omega
  · simp only [total_set_eq Worker.unprocessed hx hidle.1]
    exact h.processing
  · simp only [total_set_eq Worker.unfreed hx hidle.2.1]
    exact h.freeing

/-- **The branches** of the examination, `opendir` being successful where it is called. -/
lemma Items.examine {s : St κ} (h : Items s) {t : ℕ} {work : Work} {opens : Bool}
    (hx : s.worker[t]? = some (.took work))
    (hok : s.filestat t = .dir → opens = true ∧ work.node.mode = .dir) :
    Items (Crew.examine s t work opens) := by
  have hprocess := h.process hx rfl rfl rfl
  unfold Crew.examine
  split
  · exact hprocess
  · next hdir =>
    obtain ⟨rfl, hmode⟩ := hok hdir
    cases hnode : work.node with
    | dir entries => exact h.moveWorker hx rfl rfl rfl
    | _ =>
      rw [hnode] at hmode
      cases hmode
  · exact hprocess
  · exact hprocess

lemma examine_caller (s : St κ) (t : ℕ) (work : Work) (opens : Bool) :
    (examine s t work opens).caller = s.caller ∧
      (examine s t work opens).workCount = s.workCount := by
  unfold examine
  split
  · exact ⟨rfl, rfl⟩
  · split <;> exact ⟨rfl, rfl⟩
  · exact ⟨rfl, rfl⟩
  · exact ⟨rfl, rfl⟩

lemma Inv.finish {s : St κ} (h : Inv s) {t : ℕ} {work : Work}
    (hx : s.worker[t]? = some (.freed work)) : Inv (Crew.finish s t work) := by
  unfold Crew.finish
  dsimp only
  split
  · refine ⟨h.countOff hx (Or.inl rfl) _, fun k hk => ?_⟩
    have hawake : ∀ x : Caller, x.wake.blocked = false := fun x => by cases x <;> rfl
    by_cases hb : (s.caller k).blocked
    · simp [CondVar.broadcast_of_blocked hb, hawake] at hk
    · simp [CondVar.broadcast_of_not_blocked hb, hb] at hk
  · next hpos => exact ⟨h.countOff hx (Or.inr rfl) s.caller, fun _ _ => not_le.mp hpos⟩

section Step

variable [DecidableEq κ]

lemma Inv.crewStart {s s' : St κ} (h : Inv s) {k : κ} {root : Work} {c : Option ℕ}
    (hs : Crew.crewStart s k root c = some s') : Inv s' := by
  unfold Crew.crewStart at hs
  split at hs
  · next hbusy =>
    obtain rfl := Option.some.inj hs
    exact ⟨h.congr .., fun _ _ => hbusy⟩
  · obtain ⟨hitems, hcount, -⟩ := (h.congr _ s.filestat (s.roots ++ [root])).enqueue hs
    refine ⟨hitems, fun _ _ => ?_⟩
    have := h.count_nonneg
    dsimp only at hcount
    omega

lemma inv_step {s s' : St κ} {a : Act κ} (h : Inv s) (hok : OpensDirs s a)
    (hs : step s a = some s') : Inv s' := by
  cases step_cases hs with
  | crewStart hs => exact h.crewStart hs
  | retry hs => exact h.crewStart hs
  | @collect k =>
    refine ⟨h.congr .., fun j hj => ?_⟩
    by_cases hpos : s.workCount > 0
    · exact hpos
    · by_cases hjk : j = k
      · simp [St.setCaller, hjk, hpos, Caller.blocked] at hj
      · simp only [St.setCaller, Function.update_of_ne hjk] at hj
        exact h.waits j hj
  | lockGo hx hgo =>
    refine ⟨h.moveIdle hx (idle_of_atGo hgo) ?_, h.waits⟩
    split <;> exact ⟨rfl, rfl, rfl⟩
  | lockTop hx htop =>
    refine ⟨h.takeWork hx htop, fun k hk => ?_⟩
    unfold takeWork at hk ⊢
    split at hk <;> exact h.waits k hk
  | @examine t lstat opens work hx =>
    refine ⟨(h.congr s.caller _ s.roots).examine hx fun hdir => hok _ hx ?_, fun k hk => ?_⟩
    · simpa using hdir
    · rw [(examine_caller _ t work opens).1] at hk
      rw [(examine_caller _ t work opens).2]
      exact h.waits k hk
  | readEnd hx => exact ⟨h.process hx rfl rfl rfl, h.waits⟩
  | readIgnored hx => exact ⟨h.moveWorker hx rfl rfl rfl, h.waits⟩
  | @readEntry t c work name node rest s' hx hign hs =>
    have hmove := h.moveWorker hx (y := .reading work rest) rfl rfl rfl
    obtain ⟨hitems, hcount, -⟩ := hmove.enqueue hs
    refine ⟨hitems, fun _ _ => ?_⟩
    have := hmove.count_nonneg
    omega
  | free hx => exact ⟨h.free hx, h.waits⟩
  | finish hx => exact h.finish hx
  | @spuriousWorker t x hx =>
    exact ⟨h.moveWorker hx (unprocessed_wake x) (unfreed_wake x) (uncounted_wake x), h.waits⟩
  | @spuriousCaller k hb => exact ⟨h.congr .., fun _ _ => h.waits k hb⟩

def smallTree : Work := ⟨['d'], .dir (.cons ['.'] .other (.cons ['f'] .reg .nil))⟩

end Step

end LinuxSamples.Crew
