import LinuxSamples.PciBars

/-!
`pci_probe` and what it leaves behind when it fails.

The kernel is a table of resources that the driver acquires and gives back, together with the
globals of the driver. Each kernel call that may fail has its own entry in the pattern of
failures of a probe. Of the eight kinds of failure, three are undone; all the others leave at
least one reference on the device, because the device is enabled twice and disabled once.
-/

namespace LinuxSamples.Pci

def ALTPCIE_CDEV_NUM_MAX : ℕ := 1

def GOT_REGIONS : ℕ := 0x01 <<< 1
def GOT_PCI_DEVICE : ℕ := 0x01 <<< 2
def GOT_PCI_DMA : ℕ := 0x01 <<< 3
def GOT_PCI_BAR : ℕ := 0x01 <<< 4
def GOT_CDEV : ℕ := 0x01 <<< 6

/-- A device number: major and minor. -/
abbrev DevNo := ℕ × UInt32

/-- A region of device numbers, as `alloc_chrdev_region` hands it out. -/
structure Region where
  major : ℕ
  minor : UInt32
  count : ℕ
  deriving DecidableEq, Repr

def Region.contains (r : Region) (no : DevNo) : Bool :=
  r.major = no.1 ∧ r.minor.toNat ≤ no.2.toNat ∧ no.2.toNat < r.minor.toNat + r.count

/-- What the driver acquires from the kernel, with the number of boards; `ι` are the devices. -/
structure Resources (ι : Type) where
  enable : ι → ℤ
  regions : ι → Bool
  maps : ι → Bar → Bool
  cdevs : ι → Option DevNo
  bus : Bool
  driver : Bool
  versionFile : Bool
  cls : Bool
  chrdev : List Region
  devcount : UInt32

/-- The resources and the globals of the driver. `skel` is the device whose record the global
pointer points to; `stray` notes that `cdev_add` was called with a number outside the regions
the driver owned at that time. -/
structure Kernel (ι : Type) where
  res : Resources ι
  skel : Option ι
  record : ι → Skel
  cdevMajor : ℕ
  cdevStMinor : UInt32
  cdevCount : ℤ
  stray : Bool

/-- The answers of the kernel during a probe: the error numbers, zero for success, and whether
an allocation succeeds. Dynamic major numbers are positive. -/
structure Calls where
  enable : ℕ
  dma32 : ℕ
  kzallocSkel : Bool
  enableInit : ℕ
  requestRegions : ℕ
  dma64 : ℕ
  dma32Init : ℕ
  bars : Bars
  allocChrdev : ℕ
  major : ℕ+
  kzallocCdev : Bool
  cdevAdd : ℕ
  busRegister : ℕ
  driverRegister : ℕ
  driverCreateFile : ℕ
  classRegister : ℕ

variable {ι : Type} [DecidableEq ι]

/-! ### Kernel calls that take effect -/

def Kernel.pciEnableDevice (k : Kernel ι) (d : ι) : Kernel ι :=
  { k with res := { k.res with enable := Function.update k.res.enable d (k.res.enable d + 1) } }

def Kernel.pciDisableDevice (k : Kernel ι) (d : ι) : Kernel ι :=
  { k with res := { k.res with enable := Function.update k.res.enable d (k.res.enable d - 1) } }

def Kernel.setRegions (k : Kernel ι) (d : ι) (b : Bool) : Kernel ι :=
  { k with res := { k.res with regions := Function.update k.res.regions d b } }

def Kernel.setCdev (k : Kernel ι) (d : ι) (no : Option DevNo) : Kernel ι :=
  { k with res := { k.res with cdevs := Function.update k.res.cdevs d no } }

def Kernel.setRecord (k : Kernel ι) (d : ι) (ske : Skel) : Kernel ι :=
  { k with record := Function.update k.record d ske }

def Kernel.setStatus (k : Kernel ι) (d : ι) (flag : ℕ) : Kernel ι :=
  k.setRecord d { k.record d with probeStatus := (k.record d).probeStatus ||| flag }

/-- What a function on the record and the mappings of one device does to the kernel. -/
def Kernel.setMapping (k : Kernel ι) (d : ι) (m : Mapping) : Kernel ι :=
  { k with
    res := { k.res with maps := Function.update k.res.maps d m.maps }
    record := Function.update k.record d m.ske }

/-- `probe_status |= flag`. -/
def Skel.addStatus (ske : Skel) (flag : ℕ) : Skel :=
  { ske with probeStatus := ske.probeStatus ||| flag }

lemma setStatus_record (k : Kernel ι) (d : ι) (flag : ℕ) :
    (k.setStatus d flag).record d = (k.record d).addStatus flag := by
  simp [Kernel.setStatus, Kernel.setRecord, Skel.addStatus]

lemma setMapping_record (k : Kernel ι) (d : ι) (m : Mapping) :
    (k.setMapping d m).record d = m.ske := by
  simp [Kernel.setMapping]

/-! ### The functions of the driver -/

def pciInit (F : Calls) (k : Kernel ι) (d : ι) : ℤ × Kernel ι :=
  if F.enableInit ≠ 0 then (-1, k)
  else
    let k := (k.pciEnableDevice d).setStatus d GOT_PCI_DEVICE
    if F.requestRegions ≠ 0 then (-1, k)
    else
      let k := (k.setRegions d true).setStatus d GOT_REGIONS
      if F.dma64 ≠ 0 ∧ F.dma32Init ≠ 0 then (-1, k)
      else
        let k := k.setStatus d GOT_PCI_DMA
        match pciMapBars F.bars ⟨k.record d, k.res.maps d⟩ with
        | (rc, m) =>
          if rc ≠ 0 then (-1, k.setMapping d m)
          else (0, (k.setMapping d m).setStatus d GOT_PCI_BAR)

/-- The registrations `skeleton_init_cdev` makes for the first board, with the ladder that undoes
them; the last label of the ladder that is reached deletes the cdev. -/
def registerDriver (F : Calls) (k : Kernel ι) (d : ι) : Bool × Kernel ι :=
  let set (bus driver versionFile cls : Bool) : Kernel ι :=
    { k with res := { k.res with
        bus := bus, driver := driver, versionFile := versionFile, cls := cls } }
  if F.busRegister ≠ 0 then (false, k.setCdev d none)
  else if F.driverRegister ≠ 0 then
    -- `driver_register_err`
    (false, (set false k.res.driver k.res.versionFile k.res.cls).setCdev d none)
  else if F.driverCreateFile ≠ 0 then
    -- `driver_create_file_err`
    (false, (set false false k.res.versionFile k.res.cls).setCdev d none)
  else if F.classRegister ≠ 0 then
    -- `class_register_err`
    (false, (set false false false k.res.cls).setCdev d none)
  else (true, set true true true true)

def Kernel.noteAdd (k : Kernel ι) (no : DevNo) : Kernel ι :=
  { k with stray := k.stray || !k.res.chrdev.any fun r => r.contains no }

/-- The part of `skeleton_init_cdev` behind the allocation of the region. -/
def addCdev (F : Calls) (k : Kernel ι) (d : ι) : ℤ × Kernel ι :=
  let board := (k.record d).board
  let devMinor := k.cdevStMinor + board
  if F.kzallocCdev = false then (-1, k)
  else
    let k := k.noteAdd (k.cdevMajor, devMinor)
    if F.cdevAdd ≠ 0 then (-1, k)
    else
      let k := k.setCdev d (some (k.cdevMajor, devMinor))
      let done (k : Kernel ι) : Kernel ι :=
        { k.setRecord d { k.record d with cdevMinor := devMinor } with
          cdevCount := k.cdevCount + 1 }
      if board = 0 then
        match registerDriver F k d with
        | (true, k) => (0, done k)
        | (false, k) => (-1, k)
      else (0, done k)

/-- `alloc_chrdev_region`, from minor number zero on. -/
def Kernel.allocRegion (k : Kernel ι) (F : Calls) : Kernel ι :=
  { k with
    res := { k.res with chrdev := ⟨F.major, 0, ALTPCIE_CDEV_NUM_MAX⟩ :: k.res.chrdev }
    cdevMajor := F.major
    cdevStMinor := 0 }

def skeletonInitCdev (F : Calls) (k : Kernel ι) (d : ι) : ℤ × Kernel ι :=
  if k.cdevMajor = 0 then
    if F.allocChrdev ≠ 0 then (-F.allocChrdev, k) else addCdev F (k.allocRegion F) d
  else addCdev F k d

/-- `skel` gets a fresh record for the device. -/
def Kernel.allocSkel (k : Kernel ι) (d : ι) : Kernel ι :=
  { k with skel := some d }.setRecord d Skel.zero

/-- `skel->board = devcount++`. -/
def Kernel.takeBoard (k : Kernel ι) (d : ι) : Kernel ι :=
  { k with res := { k.res with devcount := k.res.devcount + 1 } }.setRecord d
    { k.record d with board := k.res.devcount }

/-- `devcount--`. -/
def Kernel.dropBoard (k : Kernel ι) : Kernel ι :=
  { k with res := { k.res with devcount := k.res.devcount - 1 } }

def pciProbe (F : Calls) (k : Kernel ι) (d : ι) : ℤ × Kernel ι :=
  if F.enable ≠ 0 then (-F.enable, k)
  else
    let k := k.pciEnableDevice d
    if F.dma32 ≠ 0 then (-F.dma32, k.pciDisableDevice d)
    else if F.kzallocSkel = false then (-ENOMEM, { k with skel := none })
    else
      match pciInit F (k.allocSkel d) d with
      | (rc, k) =>
        if rc ≠ 0 then (-EINVAL, k.pciDisableDevice d)
        else
          match skeletonInitCdev F (k.takeBoard d) d with
          | (ret, k) =>
            if ret ≠ 0 then (ret, k.dropBoard.pciDisableDevice d)
            else (0, k.setStatus d GOT_CDEV)

/-! ### When a probe succeeds -/

@[mk_iff] structure InitSucceeds (F : Calls) : Prop where
  enableInit : F.enableInit = 0
  requestRegions : F.requestRegions = 0
  dma : F.dma64 = 0 ∨ F.dma32Init = 0
  fits : ∀ i, F.bars.Fits i

/-- The conditions on `skeleton_init_cdev`, for the given major number and board. -/
@[mk_iff] structure CdevSucceeds (F : Calls) (major : ℕ) (board : UInt32) : Prop where
  allocChrdev : major = 0 → F.allocChrdev = 0
  kzallocCdev : F.kzallocCdev = true
  cdevAdd : F.cdevAdd = 0
  register : board = 0 → F.busRegister = 0 ∧ F.driverRegister = 0 ∧ F.driverCreateFile = 0 ∧
    F.classRegister = 0

/-- Every kernel call that the probe makes succeeds, up to one of the two DMA masks. -/
@[mk_iff] structure Succeeds (F : Calls) (k : Kernel ι) : Prop where
  enable : F.enable = 0
  dma32 : F.dma32 = 0
  kzallocSkel : F.kzallocSkel = true
  init : InitSucceeds F
  cdev : CdevSucceeds F k.cdevMajor k.res.devcount

variable {F : Calls} {k : Kernel ι} {d : ι}

lemma pciInit_eq_zero_iff : (pciInit F k d).1 = 0 ↔ InitSucceeds F := by
  simp only [pciInit, initSucceeds_iff]
  split_ifs with h1 h2 h3 h4
  · simp [h1]
  · simp [h2]
  · simp [h3]
  · rw [ne_eq, pciMapBars_eq_zero_iff] at h4
    simp [h4]
  · have hdma : F.dma64 = 0 ∨ F.dma32Init = 0 := by omega
    simpa [not_not.mp h1, not_not.mp h2, hdma, pciMapBars_eq_zero_iff] using h4

/-- The record when `pci_init` maps the BARs. -/
def Skel.withDma (ske : Skel) : Skel :=
  ((ske.addStatus GOT_PCI_DEVICE).addStatus GOT_REGIONS).addStatus GOT_PCI_DMA

lemma pciInit_record (hs : InitSucceeds F) :
    (pciMapBars F.bars ⟨(k.record d).withDma, k.res.maps d⟩).1 = 0 ∧
      (pciInit F k d).2.record d =
        (pciMapBars F.bars ⟨(k.record d).withDma, k.res.maps d⟩).2.ske.addStatus GOT_PCI_BAR := by
  obtain ⟨h1, h2, h3, h4⟩ := hs
  have hdma : ¬ (F.dma64 ≠ 0 ∧ F.dma32Init ≠ 0) := by omega
  have hmap (m : Mapping) : (pciMapBars F.bars m).1 = 0 := (pciMapBars_eq_zero_iff _ m).mpr h4
  refine ⟨hmap _, ?_⟩
  have hfirst := setStatus_record (k.pciEnableDevice d) d GOT_PCI_DEVICE
  have hske : (((((k.pciEnableDevice d).setStatus d GOT_PCI_DEVICE).setRegions d true).setStatus d
      GOT_REGIONS).setStatus d GOT_PCI_DMA).record d = (k.record d).withDma := by
    rw [setStatus_record, setStatus_record]
    exact congrArg (fun ske => (Skel.addStatus ske GOT_REGIONS).addStatus GOT_PCI_DMA) hfirst
  simp only [pciInit, h1, h2, hdma, hmap, ne_eq, not_true_eq_false, if_false]
  rw [setStatus_record, setMapping_record, hske]
  rfl

lemma registerDriver_fst : (registerDriver F k d).1 = true ↔ F.busRegister = 0 ∧
    F.driverRegister = 0 ∧ F.driverCreateFile = 0 ∧ F.classRegister = 0 := by
  simp only [registerDriver]
  split_ifs <;> simp_all

lemma addCdev_eq_zero_iff : (addCdev F k d).1 = 0 ↔ F.kzallocCdev = true ∧ F.cdevAdd = 0 ∧
    ((k.record d).board = 0 → F.busRegister = 0 ∧ F.driverRegister = 0 ∧
      F.driverCreateFile = 0 ∧ F.classRegister = 0) := by
  simp only [addCdev]
  split_ifs with h1 h2 h3
  · simp [h1]
  · simp [h2]
  · split
    · next hk =>
      have hreg := registerDriver_fst.mp (congrArg Prod.fst hk)
      simp_all
    · next hk =>
      have hreg := registerDriver_fst.not.mp (Bool.eq_false_iff.mp (congrArg Prod.fst hk))
      simp only [h3, true_imp_iff, hreg, and_false, iff_false]
      decide
  · simp_all

lemma skeletonInitCdev_eq_zero_iff : (skeletonInitCdev F k d).1 = 0 ↔
    CdevSucceeds F k.cdevMajor (k.record d).board := by
  simp only [skeletonInitCdev, cdevSucceeds_iff]
  split_ifs with h1 h2
  · simp [h1, h2]
  · simp [addCdev_eq_zero_iff, h1, not_not.mp h2, Kernel.allocRegion]
  · simp [addCdev_eq_zero_iff, h1]

/-! ### What the steps of a probe keep -/

/-- The globals and the region of device numbers are the same in both states. -/
structure SameGlobals (k k' : Kernel ι) : Prop where
  devcount : k'.res.devcount = k.res.devcount
  chrdev : k'.res.chrdev = k.res.chrdev
  skel : k'.skel = k.skel
  cdevMajor : k'.cdevMajor = k.cdevMajor
  cdevStMinor : k'.cdevStMinor = k.cdevStMinor

lemma pciInit_keeps (h : F.enableInit = 0) :
    SameGlobals k (pciInit F k d).2 ∧ (pciInit F k d).2.stray = k.stray ∧
      (pciInit F k d).2.res.enable = Function.update k.res.enable d (k.res.enable d + 1) := by
  simp only [pciInit, h, ne_eq, not_true_eq_false, if_false]
  split_ifs <;> exact ⟨⟨rfl, rfl, rfl, rfl, rfl⟩, rfl, rfl⟩

lemma registerDriver_keeps {b : Bool} {k' : Kernel ι} (hk : registerDriver F k d = (b, k')) :
    SameGlobals k k' ∧ k'.res.enable = k.res.enable ∧ k'.record = k.record ∧
      k'.stray = k.stray := by
  simp only [registerDriver] at hk
  split_ifs at hk <;>
  · obtain rfl := congrArg Prod.snd hk
    exact ⟨⟨rfl, rfl, rfl, rfl, rfl⟩, rfl, rfl, rfl⟩

/-- Adding the cdev notes the number that is added, and changes only the minor number in the
record. -/
lemma addCdev_keeps : SameGlobals k (addCdev F k d).2 ∧
    (addCdev F k d).2.res.enable = k.res.enable ∧
    (∃ minor, (addCdev F k d).2.record d = { k.record d with cdevMinor := minor }) ∧
    (F.kzallocCdev = true → (addCdev F k d).2.stray =
      (k.noteAdd (k.cdevMajor, k.cdevStMinor + (k.record d).board)).stray) := by
  simp only [addCdev]
  split_ifs with h1 h2 h3
  · exact ⟨⟨rfl, rfl, rfl, rfl, rfl⟩, rfl, ⟨_, rfl⟩, fun h => by simp [h] at h1⟩
  · exact ⟨⟨rfl, rfl, rfl, rfl, rfl⟩, rfl, ⟨_, rfl⟩, fun _ => rfl⟩
  · -- the first board
    split
    · next hk =>
      obtain ⟨⟨g1, g2, g3, g4, g5⟩, henable, hrecord, hstray⟩ := registerDriver_keeps hk
      refine ⟨⟨g1, g2, g3, g4, g5⟩, henable, ⟨k.cdevStMinor + (k.record d).board, ?_⟩,
        fun _ => hstray⟩
      simp only [Kernel.setRecord, Function.update_self, hrecord]
      rfl
    · next hk =>
      obtain ⟨⟨g1, g2, g3, g4, g5⟩, henable, hrecord, hstray⟩ := registerDriver_keeps hk
      exact ⟨⟨g1, g2, g3, g4, g5⟩, henable, ⟨_, congrFun hrecord d⟩, fun _ => hstray⟩
  · refine ⟨⟨rfl, rfl, rfl, rfl, rfl⟩, rfl, ⟨k.cdevStMinor + (k.record d).board, ?_⟩,
      fun _ => rfl⟩
    simp only [Kernel.setRecord, Function.update_self]
    rfl

lemma skeletonInitCdev_enable : (skeletonInitCdev F k d).2.res.enable = k.res.enable := by
  simp only [skeletonInitCdev]
  split_ifs
  · rfl
  · exact addCdev_keeps.2.1
  · exact addCdev_keeps.2.1

/-! ### A failing probe -/

lemma takeBoard_board : ((k.takeBoard d).record d).board = k.res.devcount := by
  simp [Kernel.takeBoard, Kernel.setRecord]

lemma pciDisableDevice_enable : (k.pciDisableDevice d).res.enable d = k.res.enable d - 1 := by
  simp [Kernel.pciDisableDevice]

/-- The state in which `pci_probe` calls `skeleton_init_cdev`. -/
def Kernel.inited (k : Kernel ι) (F : Calls) (d : ι) : Kernel ι :=
  (pciInit F ((k.pciEnableDevice d).allocSkel d) d).2.takeBoard d

lemma inited_spec (h : F.enableInit = 0) :
    (k.inited F d).res.enable d = k.res.enable d + 2 ∧
      (k.inited F d).res.devcount = k.res.devcount + 1 ∧
      (k.inited F d).res.chrdev = k.res.chrdev ∧ (k.inited F d).skel = some d ∧
      (k.inited F d).cdevMajor = k.cdevMajor ∧ (k.inited F d).cdevStMinor = k.cdevStMinor ∧
      (k.inited F d).stray = k.stray ∧ ((k.inited F d).record d).board = k.res.devcount := by
  obtain ⟨⟨hcount, hchrdev, hskel, hmajor, hminor⟩, hstray, henable⟩ :=
    pciInit_keeps (k := (k.pciEnableDevice d).allocSkel d) (d := d) h
  refine ⟨?_, congrArg (· + 1) hcount, hchrdev, hskel, hmajor, hminor, hstray,
    takeBoard_board.trans hcount⟩
  refine (congrFun henable d).trans ?_
  simp [Kernel.allocSkel, Kernel.setRecord, Kernel.pciEnableDevice, add_assoc]

lemma pciProbe_late (h1 : F.enable = 0) (h2 : F.dma32 = 0) (h3 : F.kzallocSkel = true) :
    pciProbe F k d =
      if (pciInit F ((k.pciEnableDevice d).allocSkel d) d).1 ≠ 0 then
        (-EINVAL, (pciInit F ((k.pciEnableDevice d).allocSkel d) d).2.pciDisableDevice d)
      else if (skeletonInitCdev F (k.inited F d) d).1 ≠ 0 then
        ((skeletonInitCdev F (k.inited F d) d).1,
          (skeletonInitCdev F (k.inited F d) d).2.dropBoard.pciDisableDevice d)
      else (0, (skeletonInitCdev F (k.inited F d) d).2.setStatus d GOT_CDEV) := by
  simp only [pciProbe, h1, h2, h3, ne_eq, not_true_eq_false, Bool.true_eq_false, if_false]
  rfl

lemma pciProbe_eq_zero_iff : (pciProbe F k d).1 = 0 ↔ Succeeds F k := by
  by_cases h : F.enable = 0 ∧ F.dma32 = 0 ∧ F.kzallocSkel = true
  · obtain ⟨h1, h2, h3⟩ := h
    have hinit : (pciInit F ((k.pciEnableDevice d).allocSkel d) d).1 = 0 ↔ InitSucceeds F :=
      pciInit_eq_zero_iff
    rw [pciProbe_late h1 h2 h3]
    split_ifs with h4 h5
    · simp [succeeds_iff, hinit.not.mp h4, EINVAL]
    · have hs := hinit.mp (not_not.mp h4)
      obtain ⟨-, -, -, -, hmajor, -, -, hboard⟩ := inited_spec (k := k) (d := d) hs.enableInit
      rw [ne_eq, skeletonInitCdev_eq_zero_iff, hmajor, hboard] at h5
      have := skeletonInitCdev_eq_zero_iff (F := F) (k := k.inited F d) (d := d)
      rw [hmajor, hboard] at this
      simp [succeeds_iff, this, h1, h2, h3, hs]
    · have hs := hinit.mp (not_not.mp h4)
      obtain ⟨-, -, -, -, hmajor, -, -, hboard⟩ := inited_spec (k := k) (d := d) hs.enableInit
      rw [not_not, skeletonInitCdev_eq_zero_iff, hmajor, hboard] at h5
      simp [succeeds_iff, h1, h2, h3, hs, h5]
  · have hret : (pciProbe F k d).1 ≠ 0 := by
      simp only [pciProbe]
      split_ifs with h1 h2 h3
      · simpa using h1
      · simpa using h2
      · exact (by decide : -ENOMEM ≠ 0)
      all_goals simp_all
    simp only [hret, false_iff]
    exact fun hs => h ⟨hs.enable, hs.dma32, hs.kzallocSkel⟩

/-- **The enable count after a failure.** A probe that fails after it has enabled the device
for the second time leaves one reference on the device. -/
lemma enable_of_late_failure (h1 : F.enable = 0) (h2 : F.dma32 = 0) (h3 : F.kzallocSkel = true)
    (h4 : F.enableInit = 0) (hret : (pciProbe F k d).1 ≠ 0) :
    (pciProbe F k d).2.res.enable d = k.res.enable d + 1 := by
  have hinit : (pciInit F ((k.pciEnableDevice d).allocSkel d) d).2.res.enable d =
      k.res.enable d + 2 := (inited_spec h4).1
  rw [pciProbe_late h1 h2 h3] at hret ⊢
  split_ifs at hret ⊢
  · rw [pciDisableDevice_enable, hinit]
    omega
  · have hcdev : (skeletonInitCdev F (k.inited F d) d).2.dropBoard.res.enable d =
        k.res.enable d + 2 := (congrFun skeletonInitCdev_enable d).trans hinit
    rw [pciDisableDevice_enable, hcdev]
    omega
  · exact absurd rfl hret

/-- **When a probe leaves nothing behind.** For every pattern of failures and in every state of
the kernel, a probe that fails restores all resources exactly when it fails at the first
`pci_enable_device`, at the first `pci_set_dma_mask` or at the second `pci_enable_device`. -/
theorem pci_probe_restores_iff (F : Calls) (k : Kernel ι) (d : ι) :
    ((pciProbe F k d).1 ≠ 0 → (pciProbe F k d).2.res = k.res) ↔
      F.enable ≠ 0 ∨ F.dma32 ≠ 0 ∨ (F.kzallocSkel = true ∧ F.enableInit ≠ 0) ∨
        Succeeds F k := by
  have hback : ((k.pciEnableDevice d).pciDisableDevice d).res = k.res := by
    simp [Kernel.pciDisableDevice, Kernel.pciEnableDevice]
  -- a failure that leaves a reference
  have hleak (hret : (pciProbe F k d).1 ≠ 0)
      (he : (pciProbe F k d).2.res.enable d = k.res.enable d + 1) :
      ¬ ((pciProbe F k d).1 ≠ 0 → (pciProbe F k d).2.res = k.res) := by
    intro h
    rw [h hret] at he
    omega
  by_cases h1 : F.enable = 0
  swap
  · simp [pciProbe, h1]
  by_cases h2 : F.dma32 = 0
  swap
  · simp [pciProbe, h1, h2, hback]
  cases h3 : F.kzallocSkel with
  | false =>
    have hs : ¬ Succeeds F k := fun hs => by simp [hs.kzallocSkel] at h3
    have hret : pciProbe F k d = (-ENOMEM, { k.pciEnableDevice d with skel := none }) := by
      simp [pciProbe, h1, h2, h3]
    have hnot := hleak (by rw [hret]; exact (by decide : -ENOMEM ≠ 0))
      (by rw [hret]; simp [Kernel.pciEnableDevice])
    simp [h1, h2, hs, hnot]
  | true =>
    by_cases h4 : F.enableInit = 0
    · by_cases hs : Succeeds F k
      · have hret : (pciProbe F k d).1 = 0 := pciProbe_eq_zero_iff.mpr hs
        simp [hret, hs]
      · have hret : (pciProbe F k d).1 ≠ 0 := pciProbe_eq_zero_iff.not.mpr hs
        have hnot := hleak hret (enable_of_late_failure h1 h2 h3 h4 hret)
        simp only [hnot, h1, h2, h4, hs, ne_eq, not_true_eq_false, and_false, or_false]
    · -- the second `pci_enable_device` fails before anything else is acquired
      have hinit (k' : Kernel ι) : pciInit F k' d = (-1, k') := by simp [pciInit, h4]
      have hres : (pciProbe F k d).2.res = k.res := by
        rw [pciProbe_late h1 h2 h3, hinit]
        exact hback
      simp [hres, h4]

def Kernel.init {ι : Type} : Kernel ι where
  res := ⟨fun _ => 0, fun _ => false, fun _ _ => false, fun _ => none, false, false, false, false,
    [], 0⟩
  skel := none
  record := fun _ => Skel.zero
  cdevMajor := 0
  cdevStMinor := 0
  cdevCount := 0
  stray := false

/-- Every call of the probe succeeds, on a device with one BAR. -/
def allOk : Calls where
  enable := 0
  dma32 := 0
  kzallocSkel := true
  enableInit := 0
  requestRegions := 0
  dma64 := 0
  dma32Init := 0
  bars := onePage
  allocChrdev := 0
  major := 240
  kzallocCdev := true
  cdevAdd := 0
  busRegister := 0
  driverRegister := 0
  driverCreateFile := 0
  classRegister := 0

/-- `cdev_add` fails, and a reference, the regions, a mapping and the region of device numbers
stay behind. -/
theorem pci_probe_leaks :
    let (ret, k) := pciProbe { allOk with cdevAdd := 16 } Kernel.init ()
    ret = -1 ∧ k.res.enable () = 1 ∧ k.res.regions () = true ∧ k.res.maps () 0 = true ∧
      k.res.chrdev = [⟨240, 0, 1⟩] ∧ k.res ≠ (Kernel.init : Kernel Unit).res := by
  refine ⟨by decide, by decide, by decide, by decide, by decide, fun h => ?_⟩
  exact absurd (congrFun (congrArg Resources.enable h) ()) (by decide)

end LinuxSamples.Pci
