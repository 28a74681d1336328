import LinuxSamples.VmemDisk
import LinuxSamples.Ledger

/-!
What the `vmem_disk` driver allocates when it is loaded and releases when it is unloaded.

`setup_device` gives up at the first allocation that fails and leaves a record that is set up in
part. `vmem_disk_exit` releases what the pointers of the records say. The two agree except for the
data area: the error path frees it, but the pointer to it stays in the record.
-/

namespace LinuxSamples.VmemDisk

open LinuxSamples.Ledger

def NDEVICES : ℕ := 4
def VMEMD_NOQUEUE : ℤ := 1
def EBUSY : ℤ := 16
def ENOMEM : ℤ := 12

/-- What is allocated: by `vmalloc`, `blk_alloc_queue`, `blk_init_queue` and `alloc_disk`, to be
released by `vfree`, `kobject_put`, `blk_cleanup_queue` and `put_disk`. -/
inductive Kind
  | data
  | plainQueue
  | requestQueue
  | disk
  deriving DecidableEq

/-- Something allocated, at an address. -/
abbrev Res := Kind × ℕ

/-- The pointers of `struct vmem_disk_dev`. -/
structure Pointers where
  data : Option ℕ
  queue : Option ℕ
  gd : Option ℕ
  deriving DecidableEq

/-- The results of the allocations that a call of `setup_device` would make. -/
structure Outcome where
  vmalloc : Option ℕ
  allocQueue : Option ℕ
  allocDisk : Option ℕ
  deriving DecidableEq

/-- The queue that goes with `request_mode`. Every other mode is taken for `VMEMD_QUEUE`. -/
def queueKind (requestMode : ℤ) : Kind :=
  if requestMode = VMEMD_NOQUEUE then .plainQueue else .requestQueue

def setupDevice (requestMode : ℤ) (o : Outcome) : Pointers × List (Ev Res) :=
  match o.vmalloc with
  | none => (⟨none, none, none⟩, [])
  | some data =>
    match o.allocQueue with
    | none =>
      -- out_vfree
      (⟨some data, none, none⟩, [.alloc (.data, data), .free (.data, data)])
    | some queue =>
      match o.allocDisk with
      | none =>
        -- out_vfree
        (⟨some data, some queue, none⟩,
          [.alloc (.data, data), .alloc (queueKind requestMode, queue), .free (.data, data)])
      | some gd =>
        (⟨some data, some queue, some gd⟩,
          [.alloc (.data, data), .alloc (queueKind requestMode, queue), .alloc (.disk, gd)])

/-- `vmem_disk_init`, with the results of `register_blkdev` and of the `kmalloc` for `devices`. -/
def vmemDiskInit (requestMode major : ℤ) (devices : Bool) (os : List Outcome) :
    ℤ × List Pointers × List (Ev Res) :=
  if major ≤ 0 then (-EBUSY, [], [])
  else if devices then
    let rs := os.map (setupDevice requestMode)
    (0, rs.map Prod.fst, rs.flatMap Prod.snd)
  else (-ENOMEM, [], [])

/-- What a record points to, in the order of `vmem_disk_exit`. -/
def Pointers.resources (requestMode : ℤ) (p : Pointers) : List Res :=
  p.gd.toList.map (Kind.disk, ·) ++ p.queue.toList.map (queueKind requestMode, ·) ++
    p.data.toList.map (Kind.data, ·)

def vmemDiskExit (requestMode : ℤ) (ps : List Pointers) : List (Ev Res) :=
  ps.flatMap fun p => (p.resources requestMode).map .free

/-- The module is loaded, and unloaded if that succeeded. -/
def session (requestMode major : ℤ) (devices : Bool) (o : Fin NDEVICES → Outcome) :
    List (Ev Res) :=
  let (status, ps, tr) := vmemDiskInit requestMode major devices (List.ofFn o)
  if status = 0 then tr ++ vmemDiskExit requestMode ps else tr

/-- The data area was allocated, and the queue or the disk was not. -/
def Outcome.HalfBuilt (o : Outcome) : Prop :=
  o.vmalloc.isSome ∧ (o.allocQueue = none ∨ o.allocDisk = none)

instance (o : Outcome) : Decidable o.HalfBuilt := inferInstanceAs (Decidable (_ ∧ _))

/-! ### One device -/

section

variable (requestMode : ℤ)

/-- Without the events of the data areas that are freed on the error path, `setup_device` only
allocates, and the record points to what it has allocated. -/
lemma setupDevice_filter {q : Res → Bool} {o : Outcome}
    (hq : o.HalfBuilt → ∀ a, q (.data, a) = false) :
    ∃ xs : List Res,
      (setupDevice requestMode o).2.filter (fun e => q e.what) = xs.map .alloc ∧
        (((setupDevice requestMode o).1.resources requestMode).filter q).Perm xs := by
  obtain ⟨vmalloc, allocQueue, allocDisk⟩ := o
  rcases vmalloc with _ | data
  · exact ⟨[], rfl, .nil⟩
  rcases allocQueue with _ | queue
  · have hdata := hq ⟨rfl, Or.inl rfl⟩ data
    exact ⟨[], by simp [setupDevice, Ev.what, hdata],
      by simp [setupDevice, Pointers.resources, hdata]⟩
  rcases allocDisk with _ | gd
  · have hdata := hq ⟨rfl, Or.inr rfl⟩ data
    refine ⟨[(queueKind requestMode, queue)].filter q, ?_, ?_⟩
    · cases h : q (queueKind requestMode, queue) <;> simp [setupDevice, Ev.what, hdata, h]
    · cases h : q (queueKind requestMode, queue) <;>
        simp [setupDevice, Pointers.resources, hdata, h]
  · refine ⟨[(.data, data), (queueKind requestMode, queue), (.disk, gd)].filter q, ?_, ?_⟩
    · cases h : q (queueKind requestMode, queue) <;> cases h' : q (.data, data) <;>
        cases h'' : q (.disk, gd) <;> simp [setupDevice, Ev.what, h, h', h'']
    · refine List.Perm.filter _ ?_
      exact (List.reverse_perm [(.data, data), (queueKind requestMode, queue), (.disk, gd)])

lemma balance_setupDevice (o : Outcome) :
    balance (setupDevice requestMode o).2 =
      ((setupDevice requestMode o).1.resources requestMode).length -
        if o.HalfBuilt then 1 else 0 := by
  obtain ⟨vmalloc, allocQueue, allocDisk⟩ := o
  rcases vmalloc with _ | data <;> rcases allocQueue with _ | queue <;>
    rcases allocDisk with _ | gd <;>
    simp [setupDevice, Pointers.resources, Outcome.HalfBuilt, balance]

/-! ### All devices -/

lemma vmemDiskExit_eq (ps : List Pointers) :
    vmemDiskExit requestMode ps = (ps.flatMap (Pointers.resources requestMode)).map .free := by
  rw [vmemDiskExit, List.map_flatMap]

def setupAll (os : List Outcome) : List (Ev Res) :=
  os.flatMap fun o => (setupDevice requestMode o).2

def pointedTo (os : List Outcome) : List Res :=
  os.flatMap fun o => (setupDevice requestMode o).1.resources requestMode

lemma setupAll_filter {q : Res → Bool} {os : List Outcome}
    (hq : ∀ o ∈ os, o.HalfBuilt → ∀ a, q (.data, a) = false) :
    ∃ xs : List Res, (setupAll requestMode os).filter (fun e => q e.what) = xs.map .alloc ∧
      ((pointedTo requestMode os).filter q).Perm xs := by
  induction os with
  | nil => exact ⟨[], rfl, .nil⟩
  | cons o os ih =>
    obtain ⟨ys, hys, hperm⟩ := setupDevice_filter requestMode (hq o List.mem_cons_self)
    obtain ⟨zs, hzs, hperms⟩ := ih fun o ho => hq o (List.mem_cons_of_mem _ ho)
    refine ⟨ys ++ zs, ?_, ?_⟩
    · rw [setupAll, List.flatMap_cons, List.filter_append, hys, List.map_append]
      exact congrArg _ hzs
    · rw [pointedTo, List.flatMap_cons, List.filter_append]
      exact hperm.append hperms

lemma balance_setupAll (os : List Outcome) :
    balance (setupAll requestMode os) =
      (pointedTo requestMode os).length - os.countP fun o => o.HalfBuilt := by
  induction os with
  | nil => rfl
  | cons o os ih =>
    have hcount := List.countP_cons (p := fun o : Outcome => o.HalfBuilt) (a := o) (l := os)
    rw [setupAll, List.flatMap_cons, balance_append, balance_setupDevice, pointedTo,
      List.flatMap_cons, List.length_append, hcount]
    rw [setupAll, pointedTo] at ih
    rw [ih]
    push_cast
    simp only [decide_eq_true_eq]
    ring

end

/-! ### Loading and unloading -/

lemma session_of_loaded {requestMode major : ℤ} (hmajor : 0 < major)
    (o : Fin NDEVICES → Outcome) :
    session requestMode major true o = setupAll requestMode (List.ofFn o) ++
      (pointedTo requestMode (List.ofFn o)).map .free := by
  have hinit : vmemDiskInit requestMode major true (List.ofFn o) =
      (0, ((List.ofFn o).map (setupDevice requestMode)).map Prod.fst,
        ((List.ofFn o).map (setupDevice requestMode)).flatMap Prod.snd) := by
    rw [vmemDiskInit, if_neg (by omega)]
    rfl
  rw [session, hinit]
  change _ ++ vmemDiskExit requestMode _ = _
  rw [vmemDiskExit_eq, setupAll, pointedTo, List.flatMap_map, List.flatMap_map, List.flatMap_map]

lemma session_of_not_loaded {requestMode major : ℤ} {devices : Bool}
    (h : ¬ (0 < major ∧ devices = true)) (o : Fin NDEVICES → Outcome) :
    session requestMode major devices o = [] := by
  unfold session vmemDiskInit
  rcases le_or_gt major 0 with hle | hlt
  · rw [if_pos hle]
    rfl
  · obtain rfl : devices = false := by
      cases devices with
      | false => rfl
      | true => exact absurd ⟨hlt, rfl⟩ h
    rw [if_neg (by omega)]
    rfl

lemma paired_filter (requestMode : ℤ) (os : List Outcome) {q : Res → Bool}
    (hq : ∀ o ∈ os, o.HalfBuilt → ∀ a, q (.data, a) = false) :
    Paired [] ((setupAll requestMode os ++ (pointedTo requestMode os).map Ev.free).filter
      fun e => q e.what) := by
  obtain ⟨xs, hxs, hperm⟩ := setupAll_filter requestMode hq
  rw [List.filter_append, hxs, List.filter_map]
  exact paired_of_perm hperm

/-- **Loading and unloading `vmem_disk`.** Queues and disks are released exactly once, whatever
fails. The data areas are so exactly if no device was left half-built. -/
theorem vmem_disk_frees_once_iff (requestMode major : ℤ) (devices : Bool)
    (o : Fin NDEVICES → Outcome) :
    Paired [] ((session requestMode major devices o).filter fun e => e.what.1 ≠ .data) ∧
      (Paired [] (session requestMode major devices o) ↔
        (0 < major → devices = true → ∀ i, ¬ (o i).HalfBuilt)) := by
  by_cases h : 0 < major ∧ devices = true
  · obtain ⟨hmajor, rfl⟩ := h
    rw [session_of_loaded hmajor]
    refine ⟨paired_filter requestMode _ (q := fun x => x.1 ≠ .data) fun o _ _ a => by simp, ?_⟩
    constructor
    · -- the balance of the trace is the number of half-built devices
      intro hp _ _ i hi
      have hbalance := hp.balance_eq
      rw [balance_append, balance_map_free, balance_setupAll] at hbalance
      have hpos : 0 < (List.ofFn o).countP fun o => o.HalfBuilt :=
        List.countP_pos_iff.mpr ⟨o i, by simp, by simpa using hi⟩
      simp only [List.length_nil] at hbalance
      omega
    · intro hnone
      have hall := paired_filter requestMode (List.ofFn o) (q := fun _ => true)
        fun o' ho hhalf => by
          obtain ⟨i, rfl⟩ := List.mem_ofFn.mp ho
          exact absurd hhalf (hnone hmajor rfl i)
      simpa using hall
  · rw [session_of_not_loaded h]
    exact ⟨rfl, fun _ hmajor hdevices => absurd ⟨hmajor, hdevices⟩ h, fun _ => rfl⟩

/-- The second device gets no queue: its data area is freed twice. -/
theorem vmem_disk_frees_twice :
    ¬ Paired [] (session 0 254 true fun i =>
      ⟨some (10 + i), if i.val = 1 then none else some (20 + i), some (30 + i)⟩) := by
  decide

end LinuxSamples.VmemDisk
