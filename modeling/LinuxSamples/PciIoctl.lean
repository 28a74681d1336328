import LinuxSamples.Mmio
import LinuxSamples.PciBars

/-!
The ioctl commands of the `pci_memory` driver, and where their register accesses go.

A command is run against any device whatever, on the record it finds at the `private_data` of the
file. `skeleton_cdev_open` computes that address as if the `struct cdev` were a part of the record,
but it is allocated on its own, so that what the command finds is whatever lies before the
`struct cdev` in the memory of the kernel. The driver checks the number of the BAR and nothing
else for a register access, and compares the range of a memory test with the length of the BAR
in 32 bits, while `pci_iomap` has mapped `bar_min_len` bytes. So the accesses of a command stay
inside the mapping exactly when the record and the arguments happen to be right, and the
condition on them is exact.
-/

namespace LinuxSamples.Pci

open LinuxSamples.Mmio

def MEM_TEST_ALL : UInt32 := 0xff

def testValue : UInt32 := 0x55aa55aa

/-- `struct ALTPCIE_REG_INFO`. -/
structure RegInfo where
  bar : UInt32
  regAdd : UInt32
  regData : UInt32
  deriving DecidableEq, Repr

/-- `struct mem_test_info`. -/
structure MemTestInfo where
  num : UInt32
  offset : UInt32
  length : UInt32
  deriving DecidableEq, Repr

/-! ### The record behind a file -/

/-- The memory of the kernel: the 64-bit word at an address. -/
abbrev Mem := UInt64 → UInt64

/-- Where the fields of `struct skeleton` are. -/
structure Layout where
  bar : UInt64
  barLength : UInt64
  cdev : UInt64

/-- The `private_data` of the file: `container_of` is applied to the pointer that the field `cdev`
holds, not to the field. -/
def skeletonCdevOpen (L : Layout) (iCdev : UInt64) : UInt64 := iCdev - L.cdev

/-- What the commands read of the record they are run on. -/
structure Private where
  bar : Bar → UInt64
  barLength : Bar → UInt64

def Private.load (L : Layout) (mem : Mem) (ske : UInt64) : Private where
  bar i := mem (ske + L.bar + 8 * UInt64.ofNat i)
  barLength i := mem (ske + L.barLength + 8 * UInt64.ofNat i)

/-- What a command on an opened file finds. -/
def opened (L : Layout) (mem : Mem) (iCdev : UInt64) : Private :=
  .load L mem (skeletonCdevOpen L iCdev)

/-- A file is opened on the record of the device exactly if the `struct cdev` lies inside of it, in
the place of the pointer. -/
lemma skeletonCdevOpen_eq_iff (L : Layout) (iCdev ske : UInt64) :
    skeletonCdevOpen L iCdev = ske ↔ iCdev = ske + L.cdev := UInt64.sub_eq_iff_eq_add

/-- An address of the kernel, and the BAR it is accessed for. -/
abbrev Addr := Bar × UInt64

variable {δ : Type}

/-- `p + (offset >> 2)`, for `p` the pointer of the record to the BAR. -/
def wordAt (ske : Private) (bar : Bar) (offset : UInt32) : Addr :=
  let fpgaOffset : UInt32 := offset >>> 2
  (bar, ske.bar bar + 4 * fpgaOffset.toUInt64)

/-! ### The commands -/

/-- The loop of `bar_read`, with `n` more tries left after this one. -/
def barReadTry (D : Device UInt64 δ) (a : Addr) : ℕ → Hw Addr δ → UInt32 × Hw Addr δ
  | 0, h =>
    let (value, h) := ioread32 D a h
    if value = 0xffffffff then (0, h) else (value, h)
  | n + 1, h =>
    let (value, h) := ioread32 D a h
    if value = 0xffffffff then barReadTry D a n h else (value, h)

def barRead (D : Device UInt64 δ) (ske : Private) (bar : Bar) (regOffset : UInt32)
    (h : Hw Addr δ) : UInt32 × Hw Addr δ :=
  barReadTry D (wordAt ske bar regOffset) 20 h

def barWrite (D : Device UInt64 δ) (ske : Private) (bar : Bar) (offset value : UInt32)
    (h : Hw Addr δ) : Hw Addr δ :=
  iowrite32 D value (wordAt ske bar offset) h

/-- `skeleton_GetReg`: the status, what is copied to the user, and the hardware. The argument is
`none` if `copy_from_user` fails, and `copyOut` says whether `copy_to_user` succeeds. -/
def skeletonGetReg (D : Device UInt64 δ) (ske : Private) (arg : Option RegInfo) (copyOut : Bool)
    (h : Hw Addr δ) : ℤ × Option RegInfo × Hw Addr δ :=
  match arg with
  | none => (-EFAULT, none, h)
  | some regInfo =>
    if hb : regInfo.bar.toNat < PCI_BAR_NUM then
      let (data, h) := barRead D ske ⟨regInfo.bar.toNat, hb⟩ regInfo.regAdd h
      if copyOut then (0, some { regInfo with regData := data }, h) else (-EFAULT, none, h)
    else (-EINVAL, none, h)

def skeletonSetReg (D : Device UInt64 δ) (ske : Private) (arg : Option RegInfo)
    (h : Hw Addr δ) : ℤ × Hw Addr δ :=
  match arg with
  | none => (-EFAULT, h)
  | some regInfo =>
    if hb : regInfo.bar.toNat < PCI_BAR_NUM then
      (0, barWrite D ske ⟨regInfo.bar.toNat, hb⟩ regInfo.regAdd regInfo.regData h)
    else (-EINVAL, h)

/-- The range is refused: the sum is taken in 32 bits. -/
def rejects (ske : Private) (bar : Bar) (offset length : UInt32) : Bool :=
  ske.barLength bar = 0 ∨ (offset + length).toUInt64 > ske.barLength bar

def memTest (D : Device UInt64 δ) (ske : Private) (bar : Bar) (offset length value : UInt32)
    (h : Hw Addr δ) : ℤ × Hw Addr δ :=
  if rejects ske bar offset length then (-1, h)
  else
    (0, (List.range length.toNat).foldl
      (fun h l => iowrite32 D value (wordAt ske bar (offset + UInt32.ofNat l)) h) h)

def skeletonMemTest (D : Device UInt64 δ) (ske : Private) (arg : Option MemTestInfo)
    (copyOut : Bool) (h : Hw Addr δ) : ℤ × Option MemTestInfo × Hw Addr δ :=
  match arg with
  | none => (-EFAULT, none, h)
  | some testInfo =>
    -- the status of the tests is thrown away
    let done (h : Hw Addr δ) : ℤ × Option MemTestInfo × Hw Addr δ :=
      if copyOut then (0, some testInfo, h) else (-EFAULT, none, h)
    if testInfo.num = MEM_TEST_ALL then
      done ((List.finRange PCI_BAR_NUM).foldl
        (fun h i => (memTest D ske i 0 (ske.barLength i).toUInt32 testValue h).2) h)
    else if hb : testInfo.num.toNat < PCI_BAR_NUM then
      done (memTest D ske ⟨testInfo.num.toNat, hb⟩ testInfo.offset testInfo.length testValue h).2
    else (-1, none, h)

/-- A command with its argument. `ALTPCIE_IOCG_GET_INFO` and `ALTPCIE_IOCG_PCI_CONF` copy a
structure in and out and touch no BAR. -/
inductive Request
  | getInfo (copyIn copyOut : Bool)
  | getReg (arg : Option RegInfo) (copyOut : Bool)
  | setReg (arg : Option RegInfo)
  | getPciConf (copyIn copyOut : Bool)
  | memTest (arg : Option MemTestInfo) (copyOut : Bool)
  | unknown
  deriving DecidableEq, Repr

def skeletonCdevIoctl (D : Device UInt64 δ) (ske : Private) (req : Request) (h : Hw Addr δ) :
    ℤ × Hw Addr δ :=
  match req with
  | .getInfo copyIn copyOut | .getPciConf copyIn copyOut =>
    (if copyIn && copyOut then 0 else -EFAULT, h)
  | .getReg arg copyOut =>
    let (ret, _, h) := skeletonGetReg D ske arg copyOut h
    (ret, h)
  | .setReg arg => skeletonSetReg D ske arg h
  | .memTest arg copyOut =>
    let (ret, _, h) := skeletonMemTest D ske arg copyOut h
    (ret, h)
  | .unknown => (-EINVAL, h)

/-! ### What the commands add to the trace -/

lemma trace_barReadTry (D : Device UInt64 δ) (a : Addr) (n : ℕ) (h : Hw Addr δ) :
    ∃ k ≤ n, (barReadTry D a n h).2.trace = h.trace ++ List.replicate (k + 1) (.read a) := by
  induction n generalizing h with
  | zero =>
    refine ⟨0, le_rfl, ?_⟩
    simp only [barReadTry]
    split <;> simp
  | succ n ih =>
    simp only [barReadTry]
    split
    · obtain ⟨k, hk, htrace⟩ := ih (ioread32 D a h).2
      refine ⟨k + 1, by omega, ?_⟩
      rw [htrace, trace_ioread32, List.append_assoc, List.replicate_succ (n := k + 1)]
      rfl
    · exact ⟨0, by omega, by simp⟩

def testAccesses (ske : Private) (bar : Bar) (offset length value : UInt32) :
    List (Access Addr) :=
  if rejects ske bar offset length then []
  else
    (List.range length.toNat).map fun l => .write (wordAt ske bar (offset + UInt32.ofNat l)) value

lemma trace_memTest (D : Device UInt64 δ) (ske : Private) (bar : Bar)
    (offset length value : UInt32) (h : Hw Addr δ) :
    (memTest D ske bar offset length value h).2.trace =
      h.trace ++ testAccesses ske bar offset length value := by
  unfold memTest testAccesses
  split
  · simp
  · rw [trace_foldl (g := fun l => [.write (wordAt ske bar (offset + UInt32.ofNat l)) value])
      (fun _ _ => rfl), List.map_eq_flatMap]

/-! ### Accesses inside the mapping -/

lemma barMinLen_mod_four (i : Bar) : (barMinLen i).toNat % 4 = 0 := by
  revert i
  decide

lemma barMinLen_le (i : Bar) : (barMinLen i).toNat ≤ 1024 := by
  revert i
  decide

/-- Where `pci_iomap` has put the BARs that are mapped according to the record of the device:
`bar_min_len` bytes of each, apart from those of the others. -/
structure Iomap (s : Skel) where
  base : Bar → UInt64
  apart : ∀ i j, i ≠ j → s.bar i = true → s.bar j = true →
    ∀ k < barMinLen i, ∀ l < barMinLen j, base i + k ≠ base j + l

variable {s : Skel}

/-- The four bytes at the address lie in the part of a BAR that `pci_iomap` mapped, and the BAR
is mapped. -/
def Inside (M : Iomap s) (a : Addr) : Prop :=
  s.bar a.1 = true ∧ (a.2 - M.base a.1).toNat + 4 ≤ (barMinLen a.1).toNat

/-- How far behind the start of the mapping an access through the record goes, in 64 bits. -/
def Iomap.distance (M : Iomap s) (ske : Private) (bar : Bar) (offset : UInt32) : ℕ :=
  ((ske.bar bar - M.base bar).toNat + 4 * (offset.toNat / 4)) % 2 ^ 64

lemma toNat_wordAt_sub (M : Iomap s) (ske : Private) (bar : Bar) (offset : UInt32) :
    ((wordAt ske bar offset).2 - M.base bar).toNat = M.distance ske bar offset := by
  have hoff := offset.toNat_lt
  have hword : (offset >>> (2 : UInt32)).toNat = offset.toNat / 4 := by
    simp [Nat.shiftRight_eq_div_pow]
  simp only [wordAt, Iomap.distance, UInt64.toNat_sub, UInt64.toNat_add, UInt64.toNat_mul,
    UInt32.toNat_toUInt64, hword, UInt64.reduceToNat]
  omega

lemma inside_wordAt (M : Iomap s) (ske : Private) (bar : Bar) (offset : UInt32) :
    Inside M (wordAt ske bar offset) ↔
      s.bar bar = true ∧ M.distance ske bar offset + 4 ≤ (barMinLen bar).toNat := by
  rw [← toNat_wordAt_sub]
  rfl

lemma eq_zero_iff_toNat (x : UInt32) : x = 0 ↔ x.toNat = 0 := by
  rw [← UInt32.toNat_inj]
  rfl

/-- The words of the bytes `offset + l`, in 32 bits, lie in a window of `n` bytes for all
`l < length` exactly if the range does not wrap around and ends in the window. -/
lemma range_inside_iff (b length : ℕ) {offset n : ℕ} (hoff : offset < 2 ^ 32) (hn : n ≤ 1024) :
    (∀ l < length, (b + 4 * ((offset + l) % 2 ^ 32 / 4)) % 2 ^ 64 + 4 ≤ n) ↔
      length = 0 ∨ offset + length ≤ 2 ^ 32 ∧ (b + 4 * (offset / 4)) % 2 ^ 64 +
        4 * ((offset + length - 1) / 4 - offset / 4) + 4 ≤ n := by
  constructor
  · intro h
    rcases Nat.eq_zero_or_pos length with h0 | hpos
    · exact Or.inl h0
    have hfirst := h 0 hpos
    refine Or.inr ⟨?_, ?_⟩
    · -- otherwise the last word of 32 bits and the first are both in the window
      by_contra hwrap
      have hlast := h (2 ^ 32 - 1 - offset) (by omega)
      have hzero := h (2 ^ 32 - offset) (by omega)
      omega
    · -- otherwise the first word that ends behind the window is one of them
      by_contra hbehind
      set first := (b + 4 * (offset / 4)) % 2 ^ 64 with hset
      have hword := h (4 * ((n - 4 - first) / 4 + 1 + offset / 4) - offset) (by omega)
      omega
  · rintro (rfl | ⟨hwrap, hend⟩) l hl
    · exact absurd hl (Nat.not_lt_zero l)
    · omega

/-- The condition on a memory test of one BAR. -/
def TestSafe (M : Iomap s) (ske : Private) (bar : Bar) (offset length : UInt32) : Prop :=
  ske.barLength bar = 0 ∨ (offset + length).toUInt64 > ske.barLength bar ∨ length = 0 ∨
    s.bar bar = true ∧ offset.toNat + length.toNat ≤ 2 ^ 32 ∧
      M.distance ske bar offset +
        4 * ((offset.toNat + length.toNat - 1) / 4 - offset.toNat / 4) + 4 ≤ (barMinLen bar).toNat

lemma testAccesses_inside_iff (M : Iomap s) (ske : Private) (bar : Bar)
    (offset length value : UInt32) :
    (∀ a ∈ testAccesses ske bar offset length value, Inside M a.addr) ↔
      TestSafe M ske bar offset length := by
  unfold testAccesses TestSafe
  split
  · next hrej =>
    have : ske.barLength bar = 0 ∨ (offset + length).toUInt64 > ske.barLength bar := by
      simpa [rejects] using hrej
    refine ⟨fun _ => ?_, fun _ => by simp⟩
    tauto
  · next hrej =>
    obtain ⟨h0, hle⟩ : ¬ ske.barLength bar = 0 ∧
        ¬ (offset + length).toUInt64 > ske.barLength bar := by simpa [rejects] using hrej
    have hrange := range_inside_iff (ske.bar bar - M.base bar).toNat length.toNat
      offset.toNat_lt (barMinLen_le bar)
    have hadd (l : ℕ) : (offset + UInt32.ofNat l).toNat = (offset.toNat + l) % 2 ^ 32 := by
      simp
    simp only [List.mem_map, List.mem_range, forall_exists_index, and_imp,
      forall_apply_eq_imp_iff₂, Access.addr, inside_wordAt, or_iff_right h0, or_iff_right hle]
    by_cases hbar : s.bar bar = true
    · simpa only [hbar, true_and, Iomap.distance, hadd, eq_zero_iff_toNat] using hrange
    · simp only [hbar, false_and, Bool.false_eq_true, or_false, imp_false, not_lt,
        eq_zero_iff_toNat]
      exact ⟨fun h => Nat.le_zero.mp (h 0), fun h l => h ▸ Nat.zero_le l⟩

/-- The condition under which a command stays inside the mapping. -/
def Safe (M : Iomap s) (ske : Private) : Request → Prop
  | .getReg (some r) _ | .setReg (some r) =>
    ∀ hb : r.bar.toNat < PCI_BAR_NUM, s.bar ⟨r.bar.toNat, hb⟩ = true ∧
      M.distance ske ⟨r.bar.toNat, hb⟩ r.regAdd + 4 ≤ (barMinLen ⟨r.bar.toNat, hb⟩).toNat
  | .memTest (some m) _ =>
    if m.num = MEM_TEST_ALL then ∀ i, TestSafe M ske i 0 (ske.barLength i).toUInt32
    else ∀ hb : m.num.toNat < PCI_BAR_NUM, TestSafe M ske ⟨m.num.toNat, hb⟩ m.offset m.length
  | _ => True

/-- All accesses of the command, run on any device, lie inside the mapping. -/
def StaysInside (D : Device UInt64 δ) (M : Iomap s) (ske : Private) (d : δ) (req : Request) :
    Prop :=
  ∀ a ∈ (skeletonCdevIoctl D ske req ⟨d, []⟩).2.trace, Inside M a.addr

section Commands

variable {M : Iomap s} {ske : Private} (D : Device UInt64 δ) (d : δ)

lemma getReg_staysInside_iff (r : RegInfo) (copyOut : Bool) :
    StaysInside D M ske d (.getReg (some r) copyOut) ↔
      Safe M ske (.getReg (some r) copyOut) := by
  by_cases hb : r.bar.toNat < PCI_BAR_NUM
  · obtain ⟨k, -, htrace⟩ := trace_barReadTry D (wordAt ske ⟨_, hb⟩ r.regAdd) 20 ⟨d, []⟩
    have hread : (skeletonCdevIoctl D ske (.getReg (some r) copyOut) ⟨d, []⟩).2 =
        (barRead D ske ⟨_, hb⟩ r.regAdd ⟨d, []⟩).2 := by
      cases copyOut <;> simp [skeletonCdevIoctl, skeletonGetReg, hb]
    rw [StaysInside, hread, barRead, htrace]
    simp [Access.addr, inside_wordAt, Safe, hb]
  · simp [StaysInside, skeletonCdevIoctl, skeletonGetReg, Safe, hb]

lemma setReg_staysInside_iff (r : RegInfo) :
    StaysInside D M ske d (.setReg (some r)) ↔ Safe M ske (.setReg (some r)) := by
  by_cases hb : r.bar.toNat < PCI_BAR_NUM
  · simp [StaysInside, skeletonCdevIoctl, skeletonSetReg, barWrite, Access.addr, inside_wordAt,
      Safe, hb]
  · simp [StaysInside, skeletonCdevIoctl, skeletonSetReg, Safe, hb]

lemma trace_memTest_all {t : MemTestInfo} (ht : t.num = MEM_TEST_ALL) (copyOut : Bool) :
    (skeletonCdevIoctl D ske (.memTest (some t) copyOut) ⟨d, []⟩).2.trace =
      (List.finRange PCI_BAR_NUM).flatMap fun i =>
        testAccesses ske i 0 (ske.barLength i).toUInt32 testValue := by
  have hloop := trace_foldl (fun h i => trace_memTest D ske i 0 (ske.barLength i).toUInt32
    testValue h) (List.finRange PCI_BAR_NUM) ⟨d, []⟩
  rw [List.nil_append] at hloop
  rw [← hloop]
  cases copyOut <;> simp [skeletonCdevIoctl, skeletonMemTest, ht]

lemma trace_memTest_one {t : MemTestInfo} (ht : t.num ≠ MEM_TEST_ALL)
    (hb : t.num.toNat < PCI_BAR_NUM) (copyOut : Bool) :
    (skeletonCdevIoctl D ske (.memTest (some t) copyOut) ⟨d, []⟩).2.trace =
      testAccesses ske ⟨_, hb⟩ t.offset t.length testValue := by
  have htest := trace_memTest D ske ⟨_, hb⟩ t.offset t.length testValue ⟨d, []⟩
  rw [List.nil_append] at htest
  rw [← htest]
  cases copyOut <;> simp [skeletonCdevIoctl, skeletonMemTest, ht, hb]

lemma memTest_staysInside_iff (t : MemTestInfo) (copyOut : Bool) :
    StaysInside D M ske d (.memTest (some t) copyOut) ↔
      Safe M ske (.memTest (some t) copyOut) := by
  by_cases hall : t.num = MEM_TEST_ALL
  · rw [StaysInside, trace_memTest_all D d hall]
    simp only [List.mem_flatMap, List.mem_finRange, true_and, forall_exists_index, Safe, hall,
      if_true, ← testAccesses_inside_iff _ _ _ _ _ testValue]
    exact forall_comm
  · by_cases hb : t.num.toNat < PCI_BAR_NUM
    · rw [StaysInside, trace_memTest_one D d hall hb, testAccesses_inside_iff]
      simp [Safe, hall, hb]
    · simp [StaysInside, skeletonCdevIoctl, skeletonMemTest, Safe, hall, hb]

end Commands

/-- **Where the driver's accesses go.** For any record of a device, any addresses of its mapped
BARs, any memory of the kernel and any `struct cdev` in it, and any ioctl command with any
argument, the accesses issued lie inside what was mapped exactly when the command is `Safe` on
the record it finds. -/
theorem pci_accesses_inside_iff (M : Iomap s) (L : Layout) (mem : Mem) (iCdev : UInt64)
    (D : Device UInt64 δ) (d : δ) (req : Request) :
    StaysInside D M (opened L mem iCdev) d req ↔ Safe M (opened L mem iCdev) req := by
  cases req with
  | getInfo | getPciConf | unknown => simp [StaysInside, skeletonCdevIoctl, Safe]
  | getReg arg copyOut =>
    cases arg with
    | none => simp [StaysInside, skeletonCdevIoctl, skeletonGetReg, Safe]
    | some r => exact getReg_staysInside_iff D d r copyOut
  | setReg arg =>
    cases arg with
    | none => simp [StaysInside, skeletonCdevIoctl, skeletonSetReg, Safe]
    | some r => exact setReg_staysInside_iff D d r
  | memTest arg copyOut =>
    cases arg with
    | none => simp [StaysInside, skeletonCdevIoctl, skeletonMemTest, Safe]
    | some t => exact memTest_staysInside_iff D d t copyOut

instance (M : Iomap s) (a : Addr) : Decidable (Inside M a) :=
  inferInstanceAs (Decidable (_ ∧ _))

/-- The record of the device with one BAR. -/
def pageSkel : Skel := (pciMapBars onePage ⟨Skel.zero, fun _ => false⟩).2.ske

/-- Its BAR is mapped at the beginning of the area for such mappings. -/
def pageMap : Iomap pageSkel where
  base _ := 0xffffc90000000000
  apart := by
    have hone : ∀ i, pageSkel.bar i = true → i = 0 := by decide
    intro i j hij hi hj
    exact absurd ((hone i hi).trans (hone j hj).symm) hij

/-- `struct skeleton` on a 64-bit machine. -/
def layout64 : Layout := ⟨88, 136, 240⟩

/-- The record of the device is at `0xffff888000001000`, and the rest of the memory is zero. -/
def pageMem : Mem := fun a =>
  if a = 0xffff888000001000 + 88 then 0xffffc90000000000
  else if a = 0xffff888000001000 + 136 then 4096 else 0

def zeros : Device UInt64 Unit := ⟨fun _ _ => (0, ()), fun _ _ _ => ()⟩

/-- The accesses of the command, on the device with one BAR, whose `struct cdev` is at
`iCdev`. -/
def pageTrace (iCdev : UInt64) (req : Request) : List (Access Addr) :=
  (skeletonCdevIoctl zeros (opened layout64 pageMem iCdev) req ⟨(), []⟩).2.trace

/-- The device is probed, and its `struct cdev` is allocated elsewhere: the first register of its
BAR is written at the address zero. Were the `struct cdev` in the record, so that the command finds
the right pointers, there would still be the register at 1024 of a BAR of which 1024 bytes are
mapped, and a BAR that is not mapped at all. -/
theorem pci_accesses_outside : (pciMapBars onePage ⟨Skel.zero, fun _ => false⟩).1 = 0 ∧
    (.write (0, 0) 7) ∈ pageTrace 0xffff888000002000 (.setReg (some ⟨0, 0, 7⟩)) ∧
    ¬ Inside pageMap (0, 0) ∧
    (∃ a ∈ pageTrace (0xffff888000001000 + 240) (.setReg (some ⟨0, 1024, 7⟩)),
      ¬ Inside pageMap a.addr) ∧
    ∃ a ∈ pageTrace (0xffff888000001000 + 240) (.getReg (some ⟨1, 0, 0⟩) true),
      pageSkel.bar a.addr.1 = false := by
  decide +kernel

end LinuxSamples.Pci
