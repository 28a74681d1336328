import LinuxSamples.PciRegister

/-!
What the memory test of the `pci_memory` driver does, and what it reports.

The mapped words of the device are memory. A test is asked for a range of bytes of one BAR, or for
all of every BAR, and should write the test value to the words the range overlaps, or refuse. The
driver goes through the pointers and lengths it finds at `private_data`, compares the end of the
range with the length in 32 bits, cuts the length of a whole BAR to 32 bits, does not ask how much
of a BAR is mapped, and throws the answer of `mem_test` away, so a test that was refused is
reported as done. The condition under which a test does what it should is exact.
-/

namespace LinuxSamples.Pci

open LinuxSamples.Mmio

variable {δ : Type} {s : Skel}

/-- The word at byte `a` overlaps the bytes from `offset` on. -/
def Overlaps (offset length a : ℕ) : Prop := 0 < length ∧ a < offset + length ∧ offset < a + 4

instance (offset length a : ℕ) : Decidable (Overlaps offset length a) :=
  inferInstanceAs (Decidable (_ ∧ _))

/-- Every requested range lies inside the recorded length of its BAR. -/
def InRange (s : Skel) (t : MemTestInfo) : Prop :=
  t.num = MEM_TEST_ALL ∨ ∃ hb : t.num.toNat < PCI_BAR_NUM,
    t.offset.toNat + t.length.toNat ≤ (s.barLength ⟨t.num.toNat, hb⟩).toNat

instance (s : Skel) (t : MemTestInfo) : Decidable (InRange s t) :=
  inferInstanceAs (Decidable (_ ∨ _))

/-- The word overlaps a requested range. A BAR that is not mapped has the recorded length
zero. -/
def Requested (s : Skel) (t : MemTestInfo) (w : Word) : Prop :=
  if t.num = MEM_TEST_ALL then Overlaps 0 (s.barLength w.1).toNat (4 * w.2)
  else w.1.val = t.num.toNat ∧ Overlaps t.offset.toNat t.length.toNat (4 * w.2)

instance (s : Skel) (t : MemTestInfo) (w : Word) : Decidable (Requested s t w) :=
  inferInstanceAs (Decidable (ite _ _ _))

/-- The test does and reports what was asked, on every device whose mapped words are memory. -/
def Does (M : Iomap s) (ske : Private) (t : MemTestInfo) (copyOut : Bool) : Prop :=
  ∀ (δ : Type) (D : Device UInt64 δ) (val : δ → Word → UInt32),
    Memory D M.loc (Mapped s) val → ∀ d,
    let r := skeletonCdevIoctl D ske (.memTest (some t) copyOut) ⟨d, []⟩
    (InRange s t → r.1 = 0 ∧
      ∀ w, val r.2.dev w = if Requested s t w then testValue else val d w) ∧
    (¬ InRange s t → r.1 < 0 ∧ r.2.trace = [])

/-! ### The accesses of a test -/

def memTestAccesses (ske : Private) (t : MemTestInfo) : List (Access Addr) :=
  if t.num = MEM_TEST_ALL then
    (List.finRange PCI_BAR_NUM).flatMap fun i =>
      testAccesses ske i 0 (ske.barLength i).toUInt32 testValue
  else if hb : t.num.toNat < PCI_BAR_NUM then
    testAccesses ske ⟨t.num.toNat, hb⟩ t.offset t.length testValue
  else []

def memTestStatus (t : MemTestInfo) (copyOut : Bool) : ℤ :=
  if t.num = MEM_TEST_ALL ∨ t.num.toNat < PCI_BAR_NUM then if copyOut then 0 else -EFAULT
  else -1

section Command

variable (D : Device UInt64 δ) (d : δ) (ske : Private) (t : MemTestInfo) (copyOut : Bool)

lemma testAccesses_writes (i : Bar) (offset length : UInt32) :
    ∀ a ∈ testAccesses ske i offset length testValue, ∃ x, a = .write x testValue := by
  unfold testAccesses
  split
  · simp
  · simp only [List.mem_map]
    rintro a ⟨l, -, rfl⟩
    exact ⟨_, rfl⟩

lemma memTestAccesses_writes : ∀ a ∈ memTestAccesses ske t, ∃ x, a = .write x testValue := by
  unfold memTestAccesses
  split
  · intro a ha
    obtain ⟨i, -, ha⟩ := List.mem_flatMap.mp ha
    exact testAccesses_writes ske i _ _ a ha
  · split
    · exact testAccesses_writes ske _ _ _
    · simp

lemma status_memTest :
    (skeletonCdevIoctl D ske (.memTest (some t) copyOut) ⟨d, []⟩).1 = memTestStatus t copyOut := by
  simp only [skeletonCdevIoctl, skeletonMemTest, memTestStatus]
  by_cases hall : t.num = MEM_TEST_ALL
  · cases copyOut <;> simp [hall]
  · by_cases hb : t.num.toNat < PCI_BAR_NUM
    · cases copyOut <;> simp [hall, hb]
    · simp [hall, hb]

lemma trace_skeletonMemTest :
    (skeletonCdevIoctl D ske (.memTest (some t) copyOut) ⟨d, []⟩).2.trace =
      memTestAccesses ske t := by
  by_cases hall : t.num = MEM_TEST_ALL
  · rw [trace_memTest_all D d hall, memTestAccesses, if_pos hall]
  · by_cases hb : t.num.toNat < PCI_BAR_NUM
    · rw [trace_memTest_one D d hall hb, memTestAccesses, if_neg hall, dif_pos hb]
    · simp [skeletonCdevIoctl, skeletonMemTest, memTestAccesses, hall, hb]

lemma dev_skeletonMemTest :
    (skeletonCdevIoctl D ske (.memTest (some t) copyOut) ⟨d, []⟩).2.dev =
      replay D d (memTestAccesses ske t) := by
  have hreplays := replays_skeletonCdevIoctl ske (.memTest (some t) copyOut)
    (show Replays D d ⟨d, []⟩ from rfl)
  rw [hreplays, trace_skeletonMemTest]

end Command

/-- The test goes to the requested words, and they are mapped. -/
structure Hits (M : Iomap s) (ske : Private) (t : MemTestInfo) : Prop where
  mapped : ∀ w, Requested s t w → Mapped s w
  addr : ∀ x, (∃ a ∈ memTestAccesses ske t, a.addr.2 = x) ↔ ∃ w, Requested s t w ∧ M.loc w = x

section Hits

variable {M : Iomap s} {ske : Private} {t : MemTestInfo} {copyOut : Bool}

lemma exists_not_requested (s : Skel) (t : MemTestInfo) :
    ∃ w, ¬ Mapped s w ∧ ¬ Requested s t w := by
  have hlen := (s.barLength 0).toNat_lt
  have hoff := t.offset.toNat_lt
  have hlength := t.length.toNat_lt
  refine ⟨(0, 2 ^ 64), fun h => ?_, ?_⟩
  · have := h.2.trans (barMinLen_le 0)
    omega
  · simp only [Requested, Overlaps]
    split <;> omega

/-- Behind a window of zeros, every address that is written shows. -/
lemma hits_of_window (h : ∀ w, windowVal M.loc (Mapped s)
      (replay (window M.Holds 0) (fun _ => 0, 0) (memTestAccesses ske t)) w =
        if Requested s t w then testValue else 0) : Hits M ske t := by
  obtain ⟨hmem, helse⟩ :=
    replay_window M.Holds 0 (memTestAccesses_writes ske t) (fun _ => 0, 0)
  have hne : testValue ≠ 0 := by decide
  have hinside : ¬ ∃ a ∈ memTestAccesses ske t, ¬ M.Holds a.addr.2 := by
    intro hout
    obtain ⟨w, hw, hreq⟩ := exists_not_requested s t
    have hval := h w
    rw [windowVal, if_neg hw, helse, if_pos hout, if_neg hreq] at hval
    exact hne hval
  rw [if_neg hinside] at helse
  have hmapped (w : Word) (hreq : Requested s t w) : Mapped s w := by
    by_contra hw
    have hval := h w
    rw [windowVal, if_neg hw, helse, if_pos hreq] at hval
    exact hne hval.symm
  have hword (w : Word) (hw : Mapped s w) :
      (∃ a ∈ memTestAccesses ske t, a.addr.2 = M.loc w) ↔ Requested s t w := by
    have hval := h w
    rw [windowVal, if_pos hw, hmem _ ((M.holds_iff _).mpr ⟨w, hw, rfl⟩)] at hval
    split at hval <;> split at hval <;> simp_all
  refine ⟨hmapped, fun x => ⟨?_, ?_⟩⟩
  · rintro ⟨a, ha, rfl⟩
    have hholds : M.Holds a.addr.2 := not_not.mp fun hnot => hinside ⟨a, ha, hnot⟩
    obtain ⟨w, hw, hloc⟩ := (M.holds_iff _).mp hholds
    exact ⟨w, (hword w hw).mp ⟨a, ha, hloc⟩, hloc.symm⟩
  · rintro ⟨w, hreq, rfl⟩
    exact (hword w (hmapped w hreq)).mpr hreq

lemma Hits.val_replay (h : Hits M ske t) {D : Device UInt64 δ} {val : δ → Word → UInt32}
    (hmem : Memory D M.loc (Mapped s) val) (d : δ) (w : Word) :
    val (replay D d (memTestAccesses ske t)) w =
      if Requested s t w then testValue else val d w := by
  have hreach (a : Access Addr) (ha : a ∈ memTestAccesses ske t) :
      ∃ b, Requested s t b ∧ M.loc b = a.addr.2 := (h.addr _).mp ⟨a, ha, rfl⟩
  split
  · next hreq =>
    refine hmem.val_replay_writes (fun a ha => ?_) (Or.inr ?_)
      fun b hb => M.loc_inj (h.mapped w hreq) hb
    · obtain ⟨b, hb, hloc⟩ := hreach a ha
      obtain ⟨⟨i, x⟩, rfl⟩ := memTestAccesses_writes ske t a ha
      obtain rfl : M.loc b = x := hloc
      exact ⟨i, b, h.mapped b hb, rfl⟩
    · obtain ⟨a, ha, hloc⟩ := (h.addr _).mpr ⟨w, hreq, rfl⟩
      obtain ⟨⟨i, x⟩, rfl⟩ := memTestAccesses_writes ske t a ha
      obtain rfl : x = M.loc w := hloc
      exact ⟨i, ha⟩
  · next hreq =>
    refine hmem.val_replay (fun a ha => ?_) d
    obtain ⟨b, hb, hloc⟩ := hreach a ha
    exact ⟨b, h.mapped b hb, fun hbw => hreq (hbw ▸ hb), hloc.symm⟩

lemma does_iff_hits : Does M ske t copyOut ↔
    (InRange s t → memTestStatus t copyOut = 0 ∧ Hits M ske t) ∧
    (¬ InRange s t → memTestStatus t copyOut < 0 ∧ memTestAccesses ske t = []) := by
  simp only [Does, status_memTest, dev_skeletonMemTest, trace_skeletonMemTest]
  constructor
  · intro h
    obtain ⟨hin, hout⟩ := h _ _ _ (M.memory_window 0) (fun _ => 0, 0)
    refine ⟨fun hr => ⟨(hin hr).1, hits_of_window fun w => ((hin hr).2 w).trans ?_⟩, hout⟩
    simp [windowVal]
  · rintro ⟨hin, hout⟩ δ D val hmem d
    exact ⟨fun hr => ⟨(hin hr).1, (hin hr).2.val_replay hmem d⟩, hout⟩

end Hits

/-! ### The words of a range -/

lemma rejects_eq_false_iff (ske : Private) (i : Bar) (offset length : UInt32) :
    rejects ske i offset length = false ↔ (ske.barLength i).toNat ≠ 0 ∧
      (offset.toNat + length.toNat) % 2 ^ 32 ≤ (ske.barLength i).toNat := by
  have hzero : ske.barLength i = 0 ↔ (ske.barLength i).toNat = 0 := by
    rw [← UInt64.toNat_inj]
    rfl
  simp [rejects, hzero, UInt64.lt_iff_toNat_lt]

/-- As long as the range does not wrap around, the bytes of the range are those of the words
that overlap it. -/
lemma exists_byte_iff {offset length : ℕ} (hle : offset + length ≤ 2 ^ 32) (k : ℕ) :
    (∃ l < length, (offset + l) % 2 ^ 32 / 4 = k) ↔ Overlaps offset length (4 * k) := by
  constructor
  · rintro ⟨l, hl, hk⟩
    exact ⟨by omega, by omega, by omega⟩
  · rintro ⟨hpos, hlt, hgt⟩
    exact ⟨max offset (4 * k) - offset, by omega, by omega⟩

lemma exists_testAccesses_iff (ske : Private) (i : Bar) {offset length : UInt32}
    (hle : offset.toNat + length.toNat ≤ 2 ^ 32) (x : UInt64) :
    (∃ a ∈ testAccesses ske i offset length testValue, a.addr.2 = x) ↔
      rejects ske i offset length = false ∧
        ∃ k, Overlaps offset.toNat length.toNat (4 * k) ∧
          ske.bar i + 4 * UInt64.ofNat k = x := by
  have hadd (l : ℕ) : (offset + UInt32.ofNat l).toNat = (offset.toNat + l) % 2 ^ 32 := by simp
  unfold testAccesses
  split
  · next hrej => simp [hrej]
  · next hrej =>
    simp only [List.mem_map, List.mem_range, Bool.eq_false_iff.mpr hrej, true_and,
      exists_exists_and_eq_and, Access.addr, wordAt_snd, hadd, ← exists_byte_iff hle]

lemma testAccesses_eq_nil_iff (ske : Private) (i : Bar) (offset length : UInt32) :
    testAccesses ske i offset length testValue = [] ↔ (ske.barLength i).toNat = 0 ∨
      (ske.barLength i).toNat < (offset.toNat + length.toNat) % 2 ^ 32 ∨ length = 0 := by
  unfold testAccesses
  split
  · next hrej =>
    rw [← Bool.not_eq_false, rejects_eq_false_iff] at hrej
    exact iff_of_true rfl (by omega)
  · next hrej =>
    rw [Bool.not_eq_true, rejects_eq_false_iff] at hrej
    rw [List.map_eq_nil_iff, List.range_eq_nil, eq_zero_iff_toNat, or_iff_right hrej.1,
      or_iff_right (not_lt.mpr hrej.2)]

/-- Words in a window that are moved and stay among themselves are not moved at all. -/
lemma eq_of_words {p b : UInt64} {offset length : ℕ} (hpos : 0 < length)
    (hstop : offset + length ≤ 1024)
    (h : ∀ k, Overlaps offset length (4 * k) → ∃ l, Overlaps offset length (4 * l) ∧
      b + 4 * UInt64.ofNat l = p + 4 * UInt64.ofNat k) : p = b := by
  have hmove (k : ℕ) (hk : Overlaps offset length (4 * k)) :
      ∃ l, Overlaps offset length (4 * l) ∧ (b.toNat + 4 * l) % 2 ^ 64 =
        (p.toNat + 4 * k) % 2 ^ 64 := by
    obtain ⟨l, hl, heq⟩ := h k hk
    refine ⟨l, hl, ?_⟩
    have hnat := congrArg UInt64.toNat heq
    simp only [UInt64.toNat_add, UInt64.toNat_mul, UInt64.toNat_ofNat', UInt64.reduceToNat] at hnat
    omega
  -- the first word is not moved down, and the last one not up
  obtain ⟨l₀, ⟨-, hl₀, hl₀'⟩, h₀⟩ := hmove (offset / 4) ⟨hpos, by omega, by omega⟩
  obtain ⟨l₁, ⟨-, hl₁, hl₁'⟩, h₁⟩ := hmove ((offset + length - 1) / 4) ⟨hpos, by omega, by omega⟩
  have hp := p.toNat_lt
  have hb := b.toNat_lt
  apply UInt64.toNat_inj.mp
  omega

/-! ### When a test does what was asked -/

/-- The end of the range of a test. -/
def MemTestInfo.stop (t : MemTestInfo) : ℕ := t.offset.toNat + t.length.toNat

/-- The range is mapped, and the record that is found gets a test there. -/
def Reaches (M : Iomap s) (ske : Private) (t : MemTestInfo) (i : Bar) : Prop :=
  t.length = 0 ∨ t.stop ≤ (ske.barLength i).toNat ∧ t.stop ≤ (barMinLen i).toNat ∧
    s.bar i = true ∧ ske.bar i = M.base i

/-- The condition on a test of a BAR. If the answer cannot be copied out, a test of a range outside
the BAR is right by accident, if `mem_test` refuses it or has nothing to do. -/
def WorksOne (M : Iomap s) (ske : Private) (t : MemTestInfo) (copyOut : Bool) (i : Bar) : Prop :=
  if t.stop ≤ (s.barLength i).toNat then copyOut = true ∧ Reaches M ske t i
  else copyOut = false ∧ ((ske.barLength i).toNat = 0 ∨
    (ske.barLength i).toNat < t.stop % 2 ^ 32 ∨ t.length = 0)

/-- The condition on a test of all BARs: they are no longer than what is mapped, and the ranges of
the record that is found, with the lengths cut to 32 bits, are together those of the mapping. -/
def WorksAll (M : Iomap s) (ske : Private) (copyOut : Bool) : Prop :=
  copyOut = true ∧
  (∀ i, s.barLength i ≠ 0 →
    s.bar i = true ∧ (s.barLength i).toNat ≤ (barMinLen i).toNat) ∧
  ∀ x, (∃ i k, 4 * k < (ske.barLength i).toNat % 2 ^ 32 ∧ ske.bar i + 4 * UInt64.ofNat k = x) ↔
    ∃ i k, 4 * k < (s.barLength i).toNat ∧ M.base i + 4 * UInt64.ofNat k = x

def Works (M : Iomap s) (ske : Private) (t : MemTestInfo) (copyOut : Bool) : Prop :=
  if t.num = MEM_TEST_ALL then WorksAll M ske copyOut
  else ∀ hb : t.num.toNat < PCI_BAR_NUM, WorksOne M ske t copyOut ⟨t.num.toNat, hb⟩

section Works

variable {M : Iomap s} {ske : Private} {t : MemTestInfo} {copyOut : Bool}

lemma overlaps_zero (n k : ℕ) : Overlaps 0 n (4 * k) ↔ 4 * k < n := by
  unfold Overlaps
  omega

lemma requested_all_iff (hall : t.num = MEM_TEST_ALL) (i : Bar) (k : ℕ) :
    Requested s t (i, k) ↔ 4 * k < (s.barLength i).toNat := by
  rw [Requested, if_pos hall, overlaps_zero]

/-- A test of all BARs refuses only those of length zero, as a length that is cut to 32 bits is not
above the whole one. -/
lemma exists_memTestAccesses_all_iff (hall : t.num = MEM_TEST_ALL) (x : UInt64) :
    (∃ a ∈ memTestAccesses ske t, a.addr.2 = x) ↔
      ∃ i k, 4 * k < (ske.barLength i).toNat % 2 ^ 32 ∧ ske.bar i + 4 * UInt64.ofNat k = x := by
  have hlen (i : Bar) : (ske.barLength i).toUInt32.toNat = (ske.barLength i).toNat % 2 ^ 32 := by
    simp
  have hle (i : Bar) : (0 : UInt32).toNat + (ske.barLength i).toUInt32.toNat ≤ 2 ^ 32 := by
    rw [hlen, UInt32.toNat_zero]
    omega
  have hone (i : Bar) := exists_testAccesses_iff ske i (hle i) x
  simp only [rejects_eq_false_iff, hlen, UInt32.toNat_zero, overlaps_zero] at hone
  rw [memTestAccesses, if_pos hall]
  constructor
  · rintro ⟨a, ha, hx⟩
    obtain ⟨i, -, ha⟩ := List.mem_flatMap.mp ha
    exact ⟨i, ((hone i).mp ⟨a, ha, hx⟩).2⟩
  · rintro ⟨i, k, hk, hx⟩
    obtain ⟨a, ha, hx⟩ := (hone i).mpr ⟨by omega, k, hk, hx⟩
    exact ⟨a, List.mem_flatMap.mpr ⟨i, List.mem_finRange i, ha⟩, hx⟩

lemma mapped_of_requested_all_iff (hall : t.num = MEM_TEST_ALL) :
    (∀ w, Requested s t w → Mapped s w) ↔ ∀ i, s.barLength i ≠ 0 →
      s.bar i = true ∧ (s.barLength i).toNat ≤ (barMinLen i).toNat := by
  simp only [Prod.forall, requested_all_iff hall, Mapped]
  refine forall_congr' fun i => ⟨fun h h0 => ?_, fun h k hk => ?_⟩
  · have hpos : (s.barLength i).toNat ≠ 0 := fun h => h0 (UInt64.toNat_inj.mp h)
    obtain ⟨hbar, hle⟩ := h (((s.barLength i).toNat - 1) / 4) (by omega)
    exact ⟨hbar, by omega⟩
  · obtain ⟨hbar, hle⟩ := h fun h0 => by simp [h0] at hk
    have hmod := barMinLen_mod_four i
    exact ⟨hbar, by omega⟩

lemma hits_all_iff (hall : t.num = MEM_TEST_ALL) : Hits M ske t ↔ WorksAll M ske true := by
  constructor
  · rintro ⟨hm, hx⟩
    simp only [exists_memTestAccesses_all_iff hall, Prod.exists, requested_all_iff hall] at hx
    exact ⟨rfl, (mapped_of_requested_all_iff hall).mp hm, hx⟩
  · rintro ⟨-, hm, hx⟩
    refine ⟨(mapped_of_requested_all_iff hall).mpr hm, ?_⟩
    simp only [exists_memTestAccesses_all_iff hall, Prod.exists, requested_all_iff hall]
    exact hx

lemma hits_one_iff (hnum : t.num ≠ MEM_TEST_ALL) (hb : t.num.toNat < PCI_BAR_NUM) :
    Hits M ske t ↔ Reaches M ske t ⟨t.num.toNat, hb⟩ := by
  set i : Bar := ⟨t.num.toNat, hb⟩ with hi
  have hstop : t.stop = t.offset.toNat + t.length.toNat := rfl
  have hacc : memTestAccesses ske t = testAccesses ske i t.offset t.length testValue := by
    rw [memTestAccesses, if_neg hnum, dif_pos hb]
  have hreq (j : Bar) (k : ℕ) : Requested s t (j, k) ↔
      j = i ∧ Overlaps t.offset.toNat t.length.toNat (4 * k) := by
    rw [Requested, if_neg hnum, Fin.ext_iff]
  have hmin := barMinLen_le i
  constructor
  · rintro ⟨hmapped, hx⟩
    rw [Reaches, eq_zero_iff_toNat]
    rcases Nat.eq_zero_or_pos t.length.toNat with h0 | hpos
    · exact Or.inl h0
    obtain ⟨hbar, hle⟩ := hmapped (i, (t.stop - 1) / 4)
      ((hreq _ _).mpr ⟨rfl, hpos, by omega, by omega⟩)
    dsimp only at hle
    have hend : t.stop ≤ (barMinLen i).toNat := by omega
    simp only [hacc, exists_testAccesses_iff ske i (show t.stop ≤ 2 ^ 32 by omega), Prod.exists,
      hreq, rejects_eq_false_iff] at hx
    obtain ⟨⟨-, hlen⟩, -⟩ := (hx (M.loc (i, t.offset.toNat / 4))).mpr
      ⟨i, _, ⟨rfl, hpos, by omega, by omega⟩, rfl⟩
    refine Or.inr ⟨by omega, hend, hbar, eq_of_words hpos (hend.trans hmin) fun k hk => ?_⟩
    obtain ⟨j, l, ⟨rfl, hl⟩, heq⟩ := (hx _).mp ⟨⟨by omega, hlen⟩, k, hk, rfl⟩
    exact ⟨l, hl, heq⟩
  · rintro (h0 | ⟨hlen, hend, hbar, hbase⟩)
    · have hnot (w : Word) : ¬ Requested s t w := fun h => by
        simpa [h0] using ((hreq w.1 w.2).mp h).2.1
      have hnil := (testAccesses_eq_nil_iff ske i t.offset t.length).mpr (Or.inr (Or.inr h0))
      exact ⟨fun w h => absurd h (hnot w), fun x => by simp [hacc, hnil, hnot]⟩
    · have hmod := barMinLen_mod_four i
      refine ⟨?_, fun x => ?_⟩
      · rintro ⟨j, k⟩ h
        obtain ⟨rfl, -, hk, -⟩ := (hreq j k).mp h
        exact ⟨hbar, by dsimp only; omega⟩
      · rw [hacc, exists_testAccesses_iff ske i (show t.stop ≤ 2 ^ 32 by omega), hbase]
        simp only [Prod.exists, hreq, rejects_eq_false_iff]
        constructor
        · rintro ⟨-, k, hk, hx⟩
          exact ⟨i, k, ⟨rfl, hk⟩, hx⟩
        · rintro ⟨j, k, ⟨rfl, hk⟩, hx⟩
          have hpos := hk.1
          exact ⟨⟨by omega, by omega⟩, k, hk, hx⟩

lemma does_one (hnum : t.num ≠ MEM_TEST_ALL) (hb : t.num.toNat < PCI_BAR_NUM) :
    Does M ske t copyOut ↔ WorksOne M ske t copyOut ⟨t.num.toNat, hb⟩ := by
  have hin : InRange s t ↔ t.stop ≤ (s.barLength ⟨t.num.toNat, hb⟩).toNat := by
    simp [InRange, hnum, hb, MemTestInfo.stop]
  have hstatus : memTestStatus t copyOut = if copyOut then 0 else -EFAULT := by
    simp [memTestStatus, hb]
  have hnil : memTestAccesses ske t = [] ↔ (ske.barLength ⟨t.num.toNat, hb⟩).toNat = 0 ∨
      (ske.barLength ⟨t.num.toNat, hb⟩).toNat < t.stop % 2 ^ 32 ∨ t.length = 0 := by
    rw [memTestAccesses, if_neg hnum, dif_pos hb, testAccesses_eq_nil_iff, MemTestInfo.stop]
  rw [does_iff_hits, hstatus, hits_one_iff hnum hb, hnil, hin, WorksOne]
  by_cases hle : t.stop ≤ (s.barLength ⟨t.num.toNat, hb⟩).toNat
  · rw [if_pos hle]
    cases copyOut <;> simp [hle, EFAULT]
  · rw [if_neg hle]
    cases copyOut <;> simp [not_le.mp hle, EFAULT]

end Works

/-- **The memory test does and reports what was asked** exactly under the condition above, for
every record of a device and every request, whatever is found at `private_data`, and whether or
not the answer can be copied out. -/
theorem mem_test_does_iff (M : Iomap s) (L : Layout) (mem : Mem) (iCdev : UInt64)
    (t : MemTestInfo) (copyOut : Bool) :
    Does M (opened L mem iCdev) t copyOut ↔ Works M (opened L mem iCdev) t copyOut := by
  by_cases hall : t.num = MEM_TEST_ALL
  · have hin : InRange s t := Or.inl hall
    rw [does_iff_hits, hits_all_iff hall]
    cases copyOut <;> simp [hin, memTestStatus, Works, WorksAll, hall, EFAULT]
  · by_cases hb : t.num.toNat < PCI_BAR_NUM
    · rw [does_one hall hb]
      simp [Works, hall, hb]
    · have hout : ¬ InRange s t := by
        rintro (h | ⟨hlt, -⟩)
        · exact hall h
        · exact hb hlt
      rw [does_iff_hits]
      simp [hout, memTestStatus, memTestAccesses, Works, hall, hb]

/-- The test on a device of zeros with nothing but the mapped words, whose `struct cdev` is at
`iCdev`. -/
def pageTest (iCdev : UInt64) (t : MemTestInfo) : ℤ × Hw Addr ((UInt64 → UInt32) × UInt32) :=
  skeletonCdevIoctl (window pageMap.Holds 0) (opened layout64 pageMem iCdev)
    (.memTest (some t) true) ⟨(fun _ => 0, 0), []⟩

/-- The first word is not written and reported as tested, as the `struct cdev` is allocated
elsewhere. Were it in the record, a word behind the mapping would be written, a range behind the
end of the BAR would be refused and reported as tested, and one whose end wraps around would not
be refused at all. -/
theorem mem_test_reports_refused :
    (InRange pageSkel ⟨0, 0, 4⟩ ∧
      pageTest 0xffff888000002000 ⟨0, 0, 4⟩ = (0, ⟨(fun _ => 0, 0), []⟩)) ∧
    (InRange pageSkel ⟨0, 1024, 1⟩ ∧
      (pageTest (0xffff888000001000 + 240) ⟨0, 1024, 1⟩).2.trace =
        [.write (0, 0xffffc90000000400) testValue] ∧ ¬ pageMap.Holds 0xffffc90000000400) ∧
    (¬ InRange pageSkel ⟨0, 4096, 4⟩ ∧
      (pageTest (0xffff888000001000 + 240) ⟨0, 4096, 4⟩).1 = 0) ∧
    ¬ InRange pageSkel ⟨0, 0xffffffff, 2⟩ ∧
      (pageTest (0xffff888000001000 + 240) ⟨0, 0xffffffff, 2⟩).2.trace.length = 2 := by
  refine ⟨⟨by decide, rfl⟩, by decide +kernel, by decide +kernel, by decide +kernel⟩

end LinuxSamples.Pci
