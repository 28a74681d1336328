import LinuxSamples.Run
import LinuxSamples.PciProbe

/-!
Sequences of `pci_probe` and `pci_remove`.

The driver keeps the record of the device it probed last in one global pointer, owns one
device number, and disables once a device that it enabled twice. So every `pci_remove` leaves
a reference on its device, and the second device that is probed gets a number outside the
region: probes and removes are matched in a sequence exactly when it is a single probe or
nothing at all.
-/

namespace LinuxSamples.Pci

open LinuxSamples.Run

variable {ι : Type} [DecidableEq ι]

/-- `skeleton_ioctl_unregister`, on the record of the device `r`. -/
def skeletonIoctlUnregister (k : Kernel ι) (r : ι) : Kernel ι :=
  if k.cdevMajor = 0 then k
  else
    let k := { k.setCdev r none with cdevCount := k.cdevCount - 1 }
    if k.cdevCount ≤ 0 then
      { k with res := { k.res with
          cls := false, versionFile := false, driver := false, bus := false
          chrdev := k.res.chrdev.erase ⟨k.cdevMajor, k.cdevStMinor, ALTPCIE_CDEV_NUM_MAX⟩ } }
    else k

/-- `skel->probe_status & flag`, for the record of `r`. -/
def Kernel.got (k : Kernel ι) (r : ι) (flag : ℕ) : Prop := (k.record r).probeStatus &&& flag ≠ 0

instance (k : Kernel ι) (r : ι) (flag : ℕ) : Decidable (k.got r flag) :=
  inferInstanceAs (Decidable (_ ≠ _))

/-- The part of `pci_remove` that works on the record alone. -/
def removeRecord (k : Kernel ι) (r : ι) : Kernel ι :=
  let k := if k.got r GOT_CDEV then skeletonIoctlUnregister k r else k
  if k.got r GOT_PCI_BAR then k.setMapping r (pciUnpciMapBars ⟨k.record r, k.res.maps r⟩) else k

/-- `pci_remove`. It works on the record of the device `r` that `skel` points to, whatever the
device `pdev` is; there is no result if `skel` is `NULL`. -/
def pciRemove (k : Kernel ι) (pdev : ι) : Option (Kernel ι) :=
  k.skel.map fun r =>
    let k := removeRecord k r
    let k := if k.got r GOT_REGIONS then k.setRegions pdev false else k
    let k := if k.got r GOT_PCI_DEVICE then k.pciDisableDevice pdev else k
    k.dropBoard

/-! ### Sequences of calls -/

/-- The resources that belong to one device. -/
structure Own where
  enable : ℤ
  regions : Bool
  maps : Bar → Bool
  cdev : Option DevNo

def Kernel.own (k : Kernel ι) (d : ι) : Own :=
  ⟨k.res.enable d, k.res.regions d, k.res.maps d, k.res.cdevs d⟩

/-- The kernel, and for each device that is probed what it owned before its probe. -/
structure Sys (ι : Type) where
  k : Kernel ι
  probed : ι → Option Own

def Sys.init {ι : Type} : Sys ι := ⟨Kernel.init, fun _ => none⟩

inductive Act (ι : Type)
  | probe (F : Calls) (d : ι)
  | remove (d : ι)

/-- A successful probe of a device that is not probed, or the removal of one that is. -/
def step (s : Sys ι) : Act ι → Option (Sys ι)
  | .probe F d =>
    if s.probed d = none ∧ (pciProbe F s.k d).1 = 0 then
      some ⟨(pciProbe F s.k d).2, Function.update s.probed d (some (s.k.own d))⟩
    else none
  | .remove d =>
    if s.probed d = none then none
    else (pciRemove s.k d).map fun k => ⟨k, Function.update s.probed d none⟩

/-- No two probed devices share a board number or a minor number, and no number outside the
regions has been added. -/
def StateOk (s : Sys ι) : Prop :=
  (∀ d e, d ≠ e → s.probed d ≠ none → s.probed e ≠ none →
    (s.k.record d).board ≠ (s.k.record e).board ∧
      (s.k.record d).cdevMinor ≠ (s.k.record e).cdevMinor) ∧ s.k.stray = false

/-- A removal gives the device back what it owned before its probe, and takes nothing from the
others. -/
def StepOk (s : Sys ι) (a : Act ι) (s' : Sys ι) : Prop :=
  match a with
  | .probe _ _ => True
  | .remove d => s.probed d = some (s'.k.own d) ∧ ∀ e, e ≠ d → s'.k.own e = s.k.own e

/-- Probes and removes are matched all along the sequence. -/
def Matched (s : Sys ι) : List (Act ι) → Prop
  | [] => StateOk s
  | a :: as => StateOk s ∧ ∀ s' ∈ step s a, StepOk s a s' ∧ Matched s' as

/-! ### After a successful probe -/

lemma mapBar_probeStatus (B : Bars) (m : Mapping) (i : Bar) :
    (mapBar B m i).2.ske.probeStatus = m.ske.probeStatus := by
  simp only [mapBar]
  split_ifs <;> rfl

lemma mapLoop_probeStatus (B : Bars) (is : List Bar) (m : Mapping) :
    (mapLoop B is m).2.ske.probeStatus = m.ske.probeStatus := by
  induction is generalizing m with
  | nil => rfl
  | cons i is ih =>
    have hi := mapBar_probeStatus B m i
    rcases hm : mapBar B m i with ⟨_ | _, m'⟩
    · simpa [mapLoop, hm] using hi
    · rw [hm] at hi
      simp only [mapLoop, hm]
      exact (ih m').trans hi

lemma pciMapBars_probeStatus {B : Bars} {m : Mapping} (h : (pciMapBars B m).1 = 0) :
    (pciMapBars B m).2.ske.probeStatus = m.ske.probeStatus := by
  have hloop := mapLoop_probeStatus B (List.finRange PCI_BAR_NUM) m
  rcases hm : mapLoop B (List.finRange PCI_BAR_NUM) m with ⟨_ | _, m'⟩
  · simp [pciMapBars, hm] at h
  · rw [hm] at hloop
    simpa [pciMapBars, hm] using hloop

variable {F : Calls} {k : Kernel ι} {d : ι}

lemma pciInit_probeStatus (hs : InitSucceeds F) : ((pciInit F k d).2.record d).probeStatus =
    (k.record d).probeStatus ||| GOT_PCI_DEVICE ||| GOT_REGIONS ||| GOT_PCI_DMA |||
      GOT_PCI_BAR := by
  obtain ⟨hmap, hrecord⟩ := pciInit_record (k := k) (d := d) hs
  rw [hrecord, Skel.addStatus, pciMapBars_probeStatus hmap]
  rfl

lemma inited_probeStatus (hs : InitSucceeds F) : ((k.inited F d).record d).probeStatus =
    GOT_PCI_DEVICE ||| GOT_REGIONS ||| GOT_PCI_DMA ||| GOT_PCI_BAR := by
  have htake (k : Kernel ι) : ((k.takeBoard d).record d).probeStatus =
      (k.record d).probeStatus := by simp [Kernel.takeBoard, Kernel.setRecord]
  rw [Kernel.inited, htake, pciInit_probeStatus hs]
  simp [Kernel.allocSkel, Kernel.setRecord, Skel.zero]

/-- The state in which the cdev is added: with a region of device numbers. -/
def Kernel.withRegion (k : Kernel ι) (F : Calls) : Kernel ι :=
  if k.cdevMajor = 0 then k.allocRegion F else k

omit [DecidableEq ι] in
lemma withRegion_spec : (k.withRegion F).res.enable = k.res.enable ∧
    (k.withRegion F).res.devcount = k.res.devcount ∧ (k.withRegion F).skel = k.skel ∧
    (k.withRegion F).record = k.record ∧ (k.withRegion F).stray = k.stray := by
  unfold Kernel.withRegion
  split_ifs <;> exact ⟨rfl, rfl, rfl, rfl, rfl⟩

lemma skeletonInitCdev_eq (h : k.cdevMajor = 0 → F.allocChrdev = 0) :
    skeletonInitCdev F k d = addCdev F (k.withRegion F) d := by
  simp only [skeletonInitCdev, Kernel.withRegion]
  split_ifs with h1 h2
  · exact absurd (h h1) h2
  · rfl
  · rfl

def Kernel.probed (k : Kernel ι) (F : Calls) (d : ι) : Kernel ι :=
  (addCdev F ((k.inited F d).withRegion F) d).2.setStatus d GOT_CDEV

lemma pciProbe_of_succeeds (hs : Succeeds F k) : pciProbe F k d = (0, k.probed F d) := by
  have hret : (pciProbe F k d).1 = 0 := pciProbe_eq_zero_iff.mpr hs
  obtain ⟨-, -, -, -, hmajor, -, -, -⟩ := inited_spec (k := k) (d := d) hs.init.enableInit
  rw [pciProbe_late hs.enable hs.dma32 hs.kzallocSkel] at hret ⊢
  split_ifs at hret ⊢ with h4 h5
  · exact absurd hret (by decide : -EINVAL ≠ 0)
  · exact absurd hret h5
  · rw [skeletonInitCdev_eq fun h => hs.cdev.allocChrdev (hmajor.symm.trans h)]
    rfl

/-- **What a successful probe has done** to the device and to the globals. The number that it
adds is made from the region it uses. -/
lemma probed_spec (hs : Succeeds F k) :
    (k.probed F d).res.enable d = k.res.enable d + 2 ∧
      (k.probed F d).res.devcount = k.res.devcount + 1 ∧ (k.probed F d).skel = some d ∧
      (k.probed F d).got d GOT_PCI_DEVICE ∧
      (k.probed F d).stray = (k.stray || !(k.probed F d).res.chrdev.any fun r =>
        r.contains ((k.probed F d).cdevMajor, (k.probed F d).cdevStMinor + k.res.devcount)) := by
  obtain ⟨henable, hcount, -, hskel, -, -, hstray, hboard⟩ :=
    inited_spec (k := k) (d := d) hs.init.enableInit
  obtain ⟨w1, w2, w3, w4, w5⟩ := withRegion_spec (k := k.inited F d) (F := F)
  obtain ⟨⟨g1, g2, g3, g4, g5⟩, genable, ⟨minor, grecord⟩, gstray⟩ :=
    addCdev_keeps (F := F) (k := (k.inited F d).withRegion F) (d := d)
  refine ⟨(congrFun (genable.trans w1) d).trans henable, (g1.trans w2).trans hcount,
    (g3.trans w3).trans hskel, ?_, ?_⟩
  · have hstatus : ((k.probed F d).record d).probeStatus =
        ((k.inited F d).record d).probeStatus ||| GOT_CDEV := by
      rw [Kernel.probed, setStatus_record, grecord, w4]
      rfl
    rw [Kernel.got, hstatus, inited_probeStatus hs.init]
    decide
  · refine (gstray hs.cdev.kzallocCdev).trans ?_
    rw [w4, hboard]
    simp only [Kernel.noteAdd, w5, hstray, ← g2, ← g4, ← g5]
    rfl

lemma probed_region_new (hs : Succeeds F k) (h0 : k.cdevMajor = 0) :
    (k.probed F d).cdevMajor = F.major ∧ (k.probed F d).cdevStMinor = 0 ∧
      (k.probed F d).res.chrdev = ⟨F.major, 0, ALTPCIE_CDEV_NUM_MAX⟩ :: k.res.chrdev := by
  obtain ⟨-, -, hchrdev, -, hmajor, -, -, -⟩ := inited_spec (k := k) (d := d) hs.init.enableInit
  obtain ⟨⟨-, g2, -, g4, g5⟩, -, -, -⟩ :=
    addCdev_keeps (F := F) (k := (k.inited F d).withRegion F) (d := d)
  have hw : (k.inited F d).withRegion F = (k.inited F d).allocRegion F :=
    if_pos (hmajor.trans h0)
  refine ⟨g4.trans (by rw [hw]; rfl), g5.trans (by rw [hw]; rfl), g2.trans ?_⟩
  rw [hw, ← hchrdev]
  rfl

lemma probed_region_old (hs : Succeeds F k) (h0 : k.cdevMajor ≠ 0) :
    (k.probed F d).cdevMajor = k.cdevMajor ∧ (k.probed F d).cdevStMinor = k.cdevStMinor ∧
      (k.probed F d).res.chrdev = k.res.chrdev := by
  obtain ⟨-, -, hchrdev, -, hmajor, hminor, -, -⟩ :=
    inited_spec (k := k) (d := d) hs.init.enableInit
  obtain ⟨⟨-, g2, -, g4, g5⟩, -, -, -⟩ :=
    addCdev_keeps (F := F) (k := (k.inited F d).withRegion F) (d := d)
  have hw : (k.inited F d).withRegion F = k.inited F d := if_neg (hmajor.trans_ne h0)
  rw [← hmajor, ← hminor, ← hchrdev]
  exact ⟨g4.trans (by rw [hw]), g5.trans (by rw [hw]), g2.trans (by rw [hw])⟩

/-! ### Where a sequence goes wrong -/

lemma first_not_stray (hs : Succeeds F (Kernel.init : Kernel ι)) :
    (Kernel.init.probed F d).stray = false := by
  obtain ⟨-, -, -, -, hstray⟩ := probed_spec (d := d) hs
  obtain ⟨hmajor, hminor, hchrdev⟩ := probed_region_new (d := d) hs rfl
  rw [hstray, hmajor, hminor, hchrdev]
  simp [Kernel.init, Region.contains, ALTPCIE_CDEV_NUM_MAX]

lemma second_stray {F' : Calls} {e : ι} (hs : Succeeds F (Kernel.init : Kernel ι))
    (hs' : Succeeds F' (Kernel.init.probed F d)) :
    ((Kernel.init.probed F d).probed F' e).stray = true := by
  obtain ⟨-, hcount, -, -, -⟩ := probed_spec (d := d) hs
  obtain ⟨-, -, -, -, hstray⟩ := probed_spec (d := e) hs'
  obtain ⟨hmajor, hminor, hchrdev⟩ := probed_region_new (d := d) hs rfl
  obtain ⟨hmajor', hminor', hchrdev'⟩ := probed_region_old (d := e) hs'
    (by rw [hmajor]; exact F.major.ne_zero)
  rw [hstray, hmajor', hminor', hchrdev', hcount, hmajor, hminor, hchrdev]
  simp [Kernel.init, Region.contains, ALTPCIE_CDEV_NUM_MAX]

lemma pciUnpciMapBars_probeStatus (m : Mapping) :
    (pciUnpciMapBars m).ske.probeStatus = m.ske.probeStatus := by
  unfold pciUnpciMapBars
  generalize List.finRange PCI_BAR_NUM = is
  induction is generalizing m with
  | nil => rfl
  | cons i is ih =>
    rw [List.foldl_cons, ih]
    split_ifs <;> rfl

lemma removeRecord_keeps (k : Kernel ι) (r : ι) :
    (removeRecord k r).res.enable = k.res.enable ∧
      ((removeRecord k r).record r).probeStatus = (k.record r).probeStatus := by
  have hcdev : ∀ k' : Kernel ι,
      k' = (if k.got r GOT_CDEV then skeletonIoctlUnregister k r else k) →
      k'.res.enable = k.res.enable ∧ k'.record = k.record := by
    rintro k' rfl
    simp only [skeletonIoctlUnregister]
    split_ifs <;> exact ⟨rfl, rfl⟩
  simp only [removeRecord]
  generalize hk : (if k.got r GOT_CDEV then skeletonIoctlUnregister k r else k) = k'
  obtain ⟨h1, h2⟩ := hcdev k' hk.symm
  split_ifs
  · refine ⟨h1, ?_⟩
    rw [setMapping_record, pciUnpciMapBars_probeStatus, h2]
  · rw [h1, h2]
    exact ⟨rfl, rfl⟩

lemma pciRemove_enable {k' : Kernel ι} (hskel : k.skel = some d)
    (hgot : k.got d GOT_PCI_DEVICE) (h : pciRemove k d = some k') :
    k'.res.enable d = k.res.enable d - 1 := by
  obtain ⟨henable, hstatus⟩ := removeRecord_keeps k d
  simp only [pciRemove, hskel, Option.map_some, Option.some.injEq] at h
  generalize hk : (if (removeRecord k d).got d GOT_REGIONS then
    (removeRecord k d).setRegions d false else removeRecord k d) = k₁ at h
  have hk₁ : k₁.res.enable = k.res.enable ∧ k₁.got d GOT_PCI_DEVICE := by
    have hgot' : (removeRecord k d).got d GOT_PCI_DEVICE := by
      rwa [Kernel.got, hstatus]
    subst hk
    split_ifs <;> exact ⟨henable, hgot'⟩
  rw [if_pos hk₁.2] at h
  rw [← h, ← hk₁.1]
  exact pciDisableDevice_enable

/-! ### Whole sequences -/

omit [DecidableEq ι] in
lemma stateOk_init : StateOk (Sys.init : Sys ι) := ⟨fun _ _ _ h => absurd rfl h, rfl⟩

lemma Matched.head {s : Sys ι} {as : List (Act ι)} (h : Matched s as) : StateOk s := by
  cases as with
  | nil => exact h
  | cons a as => exact h.1

lemma step_probe {s s' : Sys ι} (h : step s (.probe F d) = some s') :
    Succeeds F s.k ∧ s.probed d = none ∧
      s' = ⟨s.k.probed F d, Function.update s.probed d (some (s.k.own d))⟩ := by
  simp only [step] at h
  split at h
  · next hp =>
    have hs := pciProbe_eq_zero_iff.mp hp.2
    rw [pciProbe_of_succeeds hs] at h
    exact ⟨hs, hp.1, (Option.some.inj h).symm⟩
  · cases h

lemma step_remove {s s' : Sys ι} (h : step s (.remove d) = some s') :
    s.probed d ≠ none ∧ pciRemove s.k d = some s'.k := by
  simp only [step] at h
  split at h
  · cases h
  · next hp =>
    obtain ⟨k', hk', rfl⟩ := Option.map_eq_some_iff.mp h
    exact ⟨hp, hk'⟩

def Sys.first (F : Calls) (d : ι) : Sys ι :=
  ⟨Kernel.init.probed F d, Function.update (fun _ => none) d (some (Kernel.init.own d))⟩

lemma eq_of_probed_first {u : ι} (h : (Sys.first F d).probed u ≠ none) : u = d := by
  by_contra hne
  exact h (by simp [Sys.first, hne])

lemma stateOk_first (hs : Succeeds F (Kernel.init : Kernel ι)) : StateOk (Sys.first F d) := by
  refine ⟨fun e f hef he hf => ?_, first_not_stray hs⟩
  exact absurd ((eq_of_probed_first he).trans (eq_of_probed_first hf).symm) hef

lemma not_matched_second {a : Act ι} {as : List (Act ι)} {s : Sys ι}
    (hs : Succeeds F (Kernel.init : Kernel ι)) (ha : step (Sys.first F d) a = some s) :
    ¬ Matched (Sys.first F d) (a :: as) := by
  rintro ⟨-, h⟩
  obtain ⟨hstep, hrest⟩ := h s ha
  cases a with
  | probe F' e =>
    obtain ⟨hs', -, rfl⟩ := step_probe ha
    exact absurd ((second_stray hs hs').symm.trans hrest.head.2) (by decide)
  | remove e =>
    obtain ⟨he, hrem⟩ := step_remove ha
    obtain rfl := eq_of_probed_first he
    obtain ⟨henable, -, hskel, hgot, -⟩ := probed_spec (d := e) hs
    have hleft : s.k.res.enable e = 1 := by
      rw [pciRemove_enable hskel hgot hrem, henable]
      rfl
    -- it owned no reference before
    have hown : (Sys.first F e).probed e = some (Kernel.init.own e) := by simp [Sys.first]
    have hback := congrArg Own.enable (Option.some.inj (hown.symm.trans hstep.1))
    exact absurd (hback.trans hleft) (by decide : (0 : ℤ) ≠ 1)

lemma matched_probe {as : List (Act ι)} (ha : step Sys.init (.probe F d) = some (Sys.first F d)) :
    Matched Sys.init (.probe F d :: as) ↔ Matched (Sys.first F d) as := by
  simp [Matched, ha, stateOk_init, StepOk]

/-- **When probes and removes are matched.** From the loading of the module on, a sequence of
successful probes and of removes over any devices is matched exactly when it is empty or a
single probe. -/
theorem pci_matched_iff {acts : List (Act ι)} {s : Sys ι}
    (h : exec step Sys.init acts = some s) :
    Matched Sys.init acts ↔ acts = [] ∨ ∃ F d, acts = [.probe F d] := by
  cases acts with
  | nil => simp [Matched, stateOk_init]
  | cons a as =>
    obtain ⟨s₁, ha, has⟩ := Option.bind_eq_some_iff.mp h
    cases a with
    | remove d => exact absurd rfl (step_remove ha).1
    | probe F d =>
      obtain ⟨hs, -, rfl⟩ := step_probe ha
      rw [matched_probe ha]
      cases as with
      | nil => simp [Matched, stateOk_first hs]
      | cons b as =>
        obtain ⟨s₂, hb, -⟩ := Option.bind_eq_some_iff.mp has
        simp [not_matched_second hs hb]

/-- One device: a reference is left. Two devices: the number of the second is outside the
region, and removing the first takes the cdev of the second. -/
theorem pci_unmatched :
    (exec step (Sys.init : Sys Bool) [.probe allOk false, .remove false]).any
        (fun s => s.k.res.enable false = 1) ∧
      ¬ Matched (Sys.init : Sys Bool) [.probe allOk false, .remove false] ∧
      (exec step (Sys.init : Sys Bool) [.probe allOk false, .probe allOk true]).any
        (fun s => s.k.stray) ∧
      (exec step (Sys.init : Sys Bool)
        [.probe allOk false, .probe allOk true, .remove false]).any (fun s =>
          (s.probed true).isSome ∧ s.k.res.cdevs true = none ∧
            s.k.res.cdevs false = some (240, 0)) := by
  refine ⟨by decide, fun h => ?_, by decide, by decide⟩
  have hs : Succeeds allOk (Kernel.init : Kernel Bool) :=
    pciProbe_eq_zero_iff.mp (by decide : (pciProbe allOk Kernel.init false).1 = 0)
  have hfirst : step Sys.init (.probe allOk false) = some (Sys.first allOk false) := by
    rw [step, if_pos ⟨rfl, by decide⟩, Sys.init, pciProbe_of_succeeds hs]
    rfl
  have hrem : (step (Sys.first allOk false) (.remove false)).isSome := by decide
  exact not_matched_second hs (Option.some_get hrem).symm ((matched_probe hfirst).mp h)

theorem pci_matched_iff_one : Matched (Sys.init : Sys Unit) [.probe allOk ()] := by
  have hrun : (exec step (Sys.init : Sys Unit) [.probe allOk ()]).isSome := by decide
  exact (pci_matched_iff (Option.some_get hrun).symm).mpr (Or.inr ⟨allOk, (), rfl⟩)

end LinuxSamples.Pci
