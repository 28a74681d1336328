import LinuxSamples.PciIoctl
import LinuxSamples.PciRemove

/-!
What `ALTPCIE_IOCG_GET_INFO` reports about a probed device.

Three functions find the data: `retrain_gen2` the generation and the lanes of the link,
`pci_map_bars` the lengths of the BARs, and `skeleton_get_info` should copy them into the
structure of the user. Its loop over the BARs has its condition the wrong way round and never
runs, and nothing copies the link. So the report is right exactly if the user knew it already.
-/

namespace LinuxSamples.Pci

/-! ### The link -/

def PCI_EXP_LNKCAP : ℕ := 12
def PCI_EXP_LNKCTL : ℕ := 16
def PCI_EXP_LNKSTA : ℕ := 18
def PCI_EXP_LNKSTA_CLS : UInt16 := 0x000f
def PCI_EXP_LNKSTA_NLW : UInt16 := 0x03f0
def RETRAIN_LINK_BIT : UInt16 := (1 : UInt16) <<< 5
def TRAINING_IN_PROGRESS_BIT : UInt16 := (1 : UInt16) <<< 11
def LINKSPEED_5_0_GB : UInt16 := 0x2

/-- The configuration space of all devices, in a state that changes in ways nobody knows.
`capability` is where the PCI Express capability of a device is, or zero. -/
structure ConfigSpace (ι δ : Type) where
  readWord : δ → ι → ℕ → UInt16 × δ
  readDword : δ → ι → ℕ → UInt32 × δ
  writeWord : δ → ι → ℕ → UInt16 → δ
  capability : ι → ℕ

structure PciBus (ι : Type) where
  self : Option ι
  devices : List ι

/-- `pci_gen` and `pci_num_lanes` of `struct skeleton`. -/
structure LinkInfo where
  pciGen : ℤ
  pciNumLanes : ℤ
  deriving DecidableEq, Repr

def LinkInfo.zero : LinkInfo := ⟨0, 0⟩

def speed (linkstat : UInt16) : UInt16 := linkstat &&& PCI_EXP_LNKSTA_CLS

def width (linkstat : UInt16) : UInt16 := (linkstat &&& PCI_EXP_LNKSTA_NLW) >>> 4

/-- What is recorded for a link status. -/
def linkInfo (linkstat : UInt16) : LinkInfo :=
  ⟨if speed linkstat = LINKSPEED_5_0_GB then 2 else 1, (width linkstat).toNat⟩

variable {ι δ : Type}

/-- `find_upstream_dev`, for a device on the bus, if it has one. -/
def findUpstreamDev [DecidableEq ι] (bus : Option (PciBus ι)) (dev : ι) : Option ι :=
  match bus with
  | none => none
  | some bus =>
    match bus.self with
    | none => none
    | some bridge => if dev ∈ bus.devices then some bridge else none

/-- The loop that waits for the training, with `n` rounds left. -/
def waitTraining (C : ConfigSpace ι δ) (upstream : ι) : ℕ → δ → δ
  | 0, s => s
  | n + 1, s =>
    let (status, s) := C.readWord s upstream (C.capability upstream + PCI_EXP_LNKSTA)
    if status &&& TRAINING_IN_PROGRESS_BIT = 0 then s else waitTraining C upstream n s

/-- The link is retrained once, and its state is read again. -/
def train (C : ConfigSpace ι δ) (dev upstream : ι) (s : δ) : UInt16 × δ :=
  let upos := C.capability upstream
  let (control, s) := C.readWord s upstream (upos + PCI_EXP_LNKCTL)
  let s := C.writeWord s upstream (upos + PCI_EXP_LNKCTL) (control ||| RETRAIN_LINK_BIT)
  let s := waitTraining C upstream 50 s
  let (linkstat, s) := C.readWord s dev (C.capability dev + PCI_EXP_LNKSTA)
  let (_, s) := C.readDword s upstream (upos + PCI_EXP_LNKCAP)
  (linkstat, s)

/-- From the label `retrain` on, with `n` more jumps to it allowed. -/
def retrain (C : ConfigSpace ι δ) (dev upstream : ι) : ℕ → δ → LinkInfo × δ
  | 0, s =>
    let (linkstat, s) := train C dev upstream s
    (linkInfo linkstat, s)
  | n + 1, s =>
    let (linkstat, s) := train C dev upstream s
    if speed linkstat = LINKSPEED_5_0_GB ∧ width linkstat ≠ 4 then retrain C dev upstream n s
    else (linkInfo linkstat, s)

def retrainGen2 [DecidableEq ι] (C : ConfigSpace ι δ) (bus : Option (PciBus ι)) (dev : ι)
    (link : LinkInfo) (s : δ) : LinkInfo × δ :=
  if C.capability dev = 0 then (link, s)
  else
    match findUpstreamDev bus dev with
    | none => (link, s)
    | some upstream =>
      let upos := C.capability upstream
      let (_, s) := C.readWord s upstream (upos + PCI_EXP_LNKSTA)
      let (_, s) := C.readWord s upstream (upos + PCI_EXP_LNKCTL)
      let (_, s) := C.readDword s upstream (upos + PCI_EXP_LNKCAP)
      let (linkstat, s) := C.readWord s dev (C.capability dev + PCI_EXP_LNKSTA)
      let (_, s) := C.readDword s upstream (upos + PCI_EXP_LNKCAP)
      if speed linkstat = LINKSPEED_5_0_GB ∧ width linkstat = 4 then (linkInfo linkstat, s)
      else retrain C dev upstream 10 s

/-! ### The lengths of the BARs -/

/-- The length of the BAR, or zero if it is not mapped. -/
def Bars.found (B : Bars) (i : Bar) : UInt64 :=
  if barMinLen i = 0 ∨ B.start i = 0 ∨ B.stop i = 0 then 0 else B.stop i - B.start i + 1

lemma mapBar_barLength {B : Bars} {m m' : Mapping} {i : Bar} (h0 : m.ske.barLength i = 0)
    (hm : mapBar B m i = (true, m')) :
    m'.ske.barLength = Function.update m.ske.barLength i (B.found i) := by
  have hsame : m.ske.barLength = Function.update m.ske.barLength i 0 := by
    rw [← h0, Function.update_eq_self]
  simp only [mapBar] at hm
  split_ifs at hm with h1 h2 h3 h4
  · obtain rfl := congrArg Prod.snd hm
    rw [Bars.found, if_pos (Or.inl h1)]
    exact hsame
  · obtain rfl := congrArg Prod.snd hm
    rw [Bars.found, if_pos (Or.inr h2)]
    exact hsame
  · cases hm
  · cases hm
  · obtain rfl := congrArg Prod.snd hm
    rw [Bars.found, if_neg (not_or.mpr ⟨h1, h2⟩)]
    rfl

lemma mapLoop_barLength {B : Bars} {is : List Bar} (hnd : is.Nodup) {m m' : Mapping}
    (h0 : ∀ i ∈ is, m.ske.barLength i = 0) (hm : mapLoop B is m = (true, m')) (j : Bar) :
    m'.ske.barLength j = if j ∈ is then B.found j else m.ske.barLength j := by
  induction is generalizing m with
  | nil =>
    obtain rfl := congrArg Prod.snd hm
    rfl
  | cons i is ih =>
    obtain ⟨hi, hnd⟩ := List.nodup_cons.mp hnd
    simp only [mapLoop] at hm
    split at hm
    · next m₁ hm₁ =>
      have hlen := mapBar_barLength (h0 i List.mem_cons_self) hm₁
      have hrest (j : Bar) (hj : j ∈ is) : m₁.ske.barLength j = 0 := by
        have hji : j ≠ i := fun hji => hi (hji ▸ hj)
        rw [hlen, Function.update_of_ne hji]
        exact h0 j (List.mem_cons_of_mem i hj)
      rw [ih hnd hrest hm, hlen]
      by_cases hji : j = i
      · subst hji
        simp [hi]
      · simp [hji]
    · cases hm

lemma pciMapBars_barLength {B : Bars} {m : Mapping} (h0 : m.ske.barLength = fun _ => 0)
    (hm : (pciMapBars B m).1 = 0) : (pciMapBars B m).2.ske.barLength = B.found := by
  rcases hloop : mapLoop B (List.finRange PCI_BAR_NUM) m with ⟨_ | _, m'⟩
  · simp [pciMapBars, hloop] at hm
  · funext j
    have hj := mapLoop_barLength (List.nodup_finRange _) (fun i _ => congrFun h0 i) hloop j
    rw [if_pos (List.mem_finRange j)] at hj
    simpa [pciMapBars, hloop] using hj

section Probe

variable [DecidableEq ι] {F : Calls} {k : Kernel ι} {d : ι}

/-- **A successful probe records the lengths of the BARs.** -/
theorem pciProbe_barLength {k' : Kernel ι} (h : pciProbe F k d = (0, k')) :
    (k'.record d).barLength = F.bars.found := by
  have hs : Succeeds F k := pciProbe_eq_zero_iff.mp (congrArg Prod.fst h)
  obtain rfl : k.probed F d = k' :=
    congrArg Prod.snd ((pciProbe_of_succeeds hs).symm.trans h)
  obtain ⟨-, -, -, hregion, -⟩ := withRegion_spec (k := k.inited F d) (F := F)
  obtain ⟨-, -, ⟨minor, hcdev⟩, -⟩ :=
    addCdev_keeps (F := F) (k := (k.inited F d).withRegion F) (d := d)
  obtain ⟨hmap, hinit⟩ :=
    pciInit_record (k := (k.pciEnableDevice d).allocSkel d) (d := d) hs.init
  -- the record is fresh, and only its BARs, flags, board and minor number are set
  have hfresh : (((k.pciEnableDevice d).allocSkel d).record d).withDma.barLength =
      fun _ => 0 := by
    simp [Skel.withDma, Skel.addStatus, Kernel.allocSkel, Kernel.setRecord, Skel.zero]
  have hinited : ((k.inited F d).record d).barLength = F.bars.found := by
    rw [Kernel.inited, ← pciMapBars_barLength hfresh hmap]
    simp [Kernel.takeBoard, Kernel.setRecord, hinit, Skel.addStatus]
  rw [Kernel.probed, setStatus_record, hcdev, hregion, ← hinited]
  rfl

end Probe

/-! ### The report -/

/-- `struct bar_info`. -/
structure BarInfo where
  num : UInt32
  length : UInt32
  deriving DecidableEq, Repr

/-- `struct ALTPCIE_INFO`. -/
structure PciInfo where
  fwVer : UInt32
  fpgaVer : UInt32
  pciNumLanes : UInt32
  pciGen : UInt32
  bar : Fin 5 → BarInfo
  deriving DecidableEq

def barOf (i : Fin 5) : Bar := i.castLE (by decide)

/-- The loop of `skeleton_get_info`, from the number `i` on; `none` is a store behind the
array. -/
def infoLoop (ske : Skel) (i : ℕ) (pciInfo : PciInfo) : Option PciInfo :=
  if PCI_BAR_NUM < i then
    if h : i < 5 then
      let entry : BarInfo := ⟨UInt32.ofNat i, (ske.barLength (barOf ⟨i, h⟩)).toUInt32⟩
      infoLoop ske (i + 1) { pciInfo with bar := Function.update pciInfo.bar ⟨i, h⟩ entry }
    else none
  else some pciInfo
termination_by 5 - i

/-- The status and what is copied to the user. The argument is `none` if `copy_from_user`
fails, and `copyOut` says whether `copy_to_user` succeeds. -/
def skeletonGetInfo (ske : Skel) (arg : Option PciInfo) (copyOut : Bool) :
    Option (ℤ × Option PciInfo) :=
  match arg with
  | none => some (-EFAULT, none)
  | some pciInfo =>
    (infoLoop ske 0 { pciInfo with fwVer := 0x0001, fpgaVer := 0x0002 }).map fun pciInfo =>
      if copyOut then (0, some pciInfo) else (-EFAULT, none)

/-- The report agrees with the lengths of the BARs and with the link. -/
structure PciInfo.Reports (pciInfo : PciInfo) (lengths : Bar → UInt64) (link : LinkInfo) :
    Prop where
  num : ∀ i, (pciInfo.bar i).num.toNat = i
  length : ∀ i, (pciInfo.bar i).length.toNat = (lengths (barOf i)).toNat
  pciGen : pciInfo.pciGen.toNat = link.pciGen
  pciNumLanes : pciInfo.pciNumLanes.toNat = link.pciNumLanes

lemma infoLoop_zero (ske : Skel) (pciInfo : PciInfo) : infoLoop ske 0 pciInfo = some pciInfo := by
  rw [infoLoop, if_neg (by decide)]

lemma skeletonGetInfo_some (ske : Skel) (pciInfo : PciInfo) (copyOut : Bool) :
    skeletonGetInfo ske (some pciInfo) copyOut =
      some (if copyOut then (0, some { pciInfo with fwVer := 1, fpgaVer := 2 })
        else (-EFAULT, none)) := by
  simp only [skeletonGetInfo, infoLoop_zero, Option.map_some]

lemma skeletonCdevIoctl_getInfo (D : Mmio.Device UInt64 δ) (p : Private) (ske : Skel)
    (arg : Option PciInfo) (copyOut : Bool) (h : Mmio.Hw Addr δ) :
    (skeletonGetInfo ske arg copyOut).map Prod.fst =
      some (skeletonCdevIoctl D p (.getInfo arg.isSome copyOut) h).1 := by
  cases arg with
  | none => rfl
  | some pciInfo =>
    rw [skeletonGetInfo_some]
    cases copyOut <;> rfl

/-- **The report is what the user held.** For every device that is probed with success, with
any link and any structure of the user, the command returns success and stores the two version
numbers and nothing else. So it reports the recorded lengths and the link exactly if the
structure held those of the device before. -/
theorem get_info_reports_iff [DecidableEq ι] {F : Calls} {k k' : Kernel ι} {d : ι}
    (hprobe : pciProbe F k d = (0, k')) (C : ConfigSpace ι δ) (bus : Option (PciBus ι)) (s : δ)
    (pciInfo : PciInfo) :
    ∃ out, skeletonGetInfo (k'.record d) (some pciInfo) true = some (0, some out) ∧
      out = { pciInfo with fwVer := 1, fpgaVer := 2 } ∧
      (out.Reports (k'.record d).barLength (retrainGen2 C bus d LinkInfo.zero s).1 ↔
        pciInfo.Reports F.bars.found (retrainGen2 C bus d LinkInfo.zero s).1) := by
  refine ⟨_, skeletonGetInfo_some _ pciInfo true, rfl, ?_⟩
  rw [pciProbe_barLength hprobe]
  constructor
  · rintro ⟨hnum, hlength, hgen, hlanes⟩
    exact ⟨hnum, hlength, hgen, hlanes⟩
  · rintro ⟨hnum, hlength, hgen, hlanes⟩
    exact ⟨hnum, hlength, hgen, hlanes⟩

def fourLanes : ConfigSpace Bool Unit where
  readWord _ _ _ := (0x42, ())
  readDword _ _ _ := (0, ())
  writeWord _ _ _ _ := ()
  capability _ := 0x80

/-- The bus of a device `false` behind a bridge `true`. -/
def bridged : PciBus Bool := ⟨some true, [false]⟩

def probedSkel : Skel := (pciProbe allOk (Kernel.init : Kernel Bool) false).2.record false

/-- A structure of zeros keeps its zeros, though the first BAR has 4096 bytes and the link four
lanes. -/
theorem get_info_reports_nothing :
    (pciProbe allOk (Kernel.init : Kernel Bool) false).1 = 0 ∧
      probedSkel.barLength 0 = 4096 ∧
      (retrainGen2 fourLanes (some bridged) false LinkInfo.zero ()).1 = ⟨2, 4⟩ ∧
      skeletonGetInfo probedSkel (some ⟨0, 0, 0, 0, fun _ => ⟨0, 0⟩⟩) true =
        some (0, some ⟨1, 2, 0, 0, fun _ => ⟨0, 0⟩⟩) :=
  ⟨by decide, by decide, by decide, skeletonGetInfo_some ..⟩

def knowing : PciInfo := ⟨0, 0, 4, 2, fun i => ⟨UInt32.ofNat i, if i = 0 then 4096 else 0⟩⟩

theorem get_info_reports_iff_knowing :
    ∃ out, skeletonGetInfo probedSkel (some knowing) true = some (0, some out) ∧
      out.Reports probedSkel.barLength
        (retrainGen2 fourLanes (some bridged) false LinkInfo.zero ()).1 := by
  obtain ⟨out, hout, -, hiff⟩ := get_info_reports_iff
    (k := (Kernel.init : Kernel Bool)) (F := allOk) (d := false)
    (Prod.ext (by decide) rfl) fourLanes (some bridged) () knowing
  exact ⟨out, hout, hiff.mpr ⟨by decide, by decide, by decide, by decide⟩⟩

end LinuxSamples.Pci
