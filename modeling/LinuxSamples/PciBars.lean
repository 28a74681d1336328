import Mathlib.Tactic

/-!
The base address registers (BARs) of the `pci_memory` driver: which of them `pci_map_bars`
maps, what it records about them, and how it undoes its work when one of them is unfit.

The kernel's answers are given by a table: where each BAR of the device starts and ends, and
whether `pci_iomap` succeeds on it. A mapping is a resource, so the loops carry along, next
to the driver's record, which BARs of the device are mapped.
-/

namespace LinuxSamples.Pci

def ENOMEM : ℤ := 12
def EFAULT : ℤ := 14
def EINVAL : ℤ := 22

abbrev PCI_BAR_NUM : ℕ := 6

abbrev Bar := Fin PCI_BAR_NUM

/-- The lengths to be mapped; zero for a BAR that is not mapped. -/
def barMinLen : Bar → UInt64 := ![1024, 0, 1024, 0, 1024, 0]

/-- What the kernel says about the BARs of a device. -/
structure Bars where
  /-- `pci_resource_start` -/
  start : Bar → UInt64
  /-- `pci_resource_end` -/
  stop : Bar → UInt64
  /-- `pci_iomap` does not return `NULL` -/
  iomap : Bar → Bool

/-- The part of `struct skeleton` the driver uses; `bar i` says that the pointer is not
`NULL`. -/
structure Skel where
  bar : Bar → Bool
  barLength : Bar → UInt64
  probeStatus : ℕ
  cdevMinor : UInt32
  board : UInt32

/-- The record as `devm_kzalloc` returns it. -/
def Skel.zero : Skel := ⟨fun _ => false, fun _ => 0, 0, 0, 0⟩

/-- The record of a device, and which of the device's BARs are mapped. -/
structure Mapping where
  ske : Skel
  maps : Bar → Bool

def Mapping.setBar (m : Mapping) (i : Bar) (b : Bool) : Mapping :=
  { m with ske := { m.ske with bar := Function.update m.ske.bar i b } }

/-- One round of the loop of `pci_map_bars`; `false` is the jump to `fail`. -/
def mapBar (B : Bars) (m : Mapping) (i : Bar) : Bool × Mapping :=
  let m := m.setBar i false
  if barMinLen i = 0 then (true, m)
  else if B.start i = 0 ∨ B.stop i = 0 then (true, m)
  else
    let barLength := B.stop i - B.start i + 1
    if barLength < barMinLen i then (false, m)
    else if B.iomap i = false then (false, m)
    else
      let ske := { (m.setBar i true).ske with
        barLength := Function.update m.ske.barLength i barLength }
      (true, ⟨ske, Function.update m.maps i true⟩)

def mapLoop (B : Bars) : List Bar → Mapping → Bool × Mapping
  | [], m => (true, m)
  | i :: is, m =>
    match mapBar B m i with
    | (true, m) => mapLoop B is m
    | (false, m) => (false, m)

def pciUnpciMapBars (m : Mapping) : Mapping :=
  (List.finRange PCI_BAR_NUM).foldl (fun m i =>
    if m.ske.bar i then ⟨(m.setBar i false).ske, Function.update m.maps i false⟩ else m) m

def pciMapBars (B : Bars) (m : Mapping) : ℤ × Mapping :=
  match mapLoop B (List.finRange PCI_BAR_NUM) m with
  | (true, m) => (0, m)
  | (false, m) => (-1, pciUnpciMapBars m)

/-! ### When all BARs are fit -/

/-- The BAR is not mapped, or it is long enough and can be mapped. -/
def Bars.Fits (B : Bars) (i : Bar) : Prop :=
  barMinLen i ≠ 0 → B.start i ≠ 0 → B.stop i ≠ 0 →
    barMinLen i ≤ B.stop i - B.start i + 1 ∧ B.iomap i = true

lemma mapBar_fst (B : Bars) (m : Mapping) (i : Bar) : (mapBar B m i).1 = true ↔ B.Fits i := by
  unfold mapBar Bars.Fits
  dsimp only
  split_ifs with h1 h2 h3 h4
  · simp [h1]
  · rcases h2 with h2 | h2 <;> simp [h2]
  · simp [h1, not_or.mp h2, UInt64.not_le.mpr h3]
  · simp [h1, not_or.mp h2, h4]
  · simp [UInt64.not_lt.mp h3, h4]

lemma mapLoop_fst (B : Bars) (is : List Bar) (m : Mapping) :
    (mapLoop B is m).1 = true ↔ ∀ i ∈ is, B.Fits i := by
  induction is generalizing m with
  | nil => simp [mapLoop]
  | cons i is ih =>
    rw [List.forall_mem_cons, ← mapBar_fst B m i]
    rcases hm : mapBar B m i with ⟨_ | _, m'⟩
    · simp [mapLoop, hm]
    · simp [mapLoop, hm, ih]

lemma pciMapBars_eq_zero_iff (B : Bars) (m : Mapping) :
    (pciMapBars B m).1 = 0 ↔ ∀ i, B.Fits i := by
  have hloop := mapLoop_fst B (List.finRange PCI_BAR_NUM) m
  simp only [List.mem_finRange, true_imp_iff] at hloop
  rw [← hloop]
  rcases hm : mapLoop B (List.finRange PCI_BAR_NUM) m with ⟨_ | _, m'⟩
  · simp [pciMapBars, hm]
  · simp [pciMapBars, hm]

/-- A device with one BAR of 4096 bytes. -/
def onePage : Bars where
  start := ![0x1000, 0, 0, 0, 0, 0]
  stop := ![0x1fff, 0, 0, 0, 0, 0]
  iomap := fun _ => true

end LinuxSamples.Pci
