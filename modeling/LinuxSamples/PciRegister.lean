import LinuxSamples.PciIoctl

/-!
Reading back a register of the `pci_memory` driver.

On a device whose mapped words behave as memory, a value written with `ALTPCIE_IOCS_REG` should
be what `ALTPCIE_IOCG_REG` returns, as long as nobody touched the word in between. Whatever
commands are run in between, they act on the device through their accesses alone, so they keep
every word that is not among the addresses of their trace. Two things are in the way. The commands
go through the pointers they find at `private_data`, which are those of the mapping by accident
only. And the value `0xffffffff` does not come back: `bar_read` takes it for a bus error, and
after 21 tries it returns zero instead.
-/

namespace LinuxSamples.Pci

open LinuxSamples.Mmio

variable {δ : Type}

/-- Commands one after the other, each with the record it finds. -/
def runAll (D : Device UInt64 δ) (reqs : List (Private × Request)) (h : Hw Addr δ) : Hw Addr δ :=
  reqs.foldl (fun h req => (skeletonCdevIoctl D req.1 req.2 h).2) h

/-! ### A command acts through its accesses -/

section Replays

variable {D : Device UInt64 δ} {d : δ} {h : Hw Addr δ} (ske : Private)

lemma replays_barReadTry (a : Addr) (n : ℕ) (hr : Replays D d h) :
    Replays D d (barReadTry D a n h).2 := by
  induction n generalizing h with
  | zero =>
    simp only [barReadTry]
    split <;> exact hr.ioread32 a
  | succ n ih =>
    simp only [barReadTry]
    split
    · exact ih (hr.ioread32 a)
    · exact hr.ioread32 a

lemma replays_skeletonGetReg (arg : Option RegInfo) (copyOut : Bool) (hr : Replays D d h) :
    Replays D d (skeletonGetReg D ske arg copyOut h).2.2 := by
  cases arg with
  | none => exact hr
  | some r =>
    simp only [skeletonGetReg]
    split
    · have hread := replays_barReadTry (wordAt ske ⟨_, ‹_›⟩ r.regAdd) 20 hr
      split <;> exact hread
    · exact hr

lemma replays_skeletonSetReg (arg : Option RegInfo) (hr : Replays D d h) :
    Replays D d (skeletonSetReg D ske arg h).2 := by
  cases arg with
  | none => exact hr
  | some r =>
    simp only [skeletonSetReg]
    split
    · exact hr.iowrite32 r.regData _
    · exact hr

lemma replays_memTest (bar : Bar) (offset length value : UInt32)
    (hr : Replays D d h) : Replays D d (memTest D ske bar offset length value h).2 := by
  simp only [memTest]
  split
  · exact hr
  · exact hr.foldl (fun _ _ hr => hr.iowrite32 value _) _

lemma replays_skeletonMemTest (arg : Option MemTestInfo) (copyOut : Bool)
    (hr : Replays D d h) : Replays D d (skeletonMemTest D ske arg copyOut h).2.2 := by
  cases arg with
  | none => exact hr
  | some t =>
    simp only [skeletonMemTest]
    split
    · have hall := hr.foldl (fun _ i hr => replays_memTest ske i 0 (ske.barLength i).toUInt32
        testValue hr) (List.finRange PCI_BAR_NUM)
      split <;> exact hall
    · split
      · have hone := replays_memTest ske ⟨_, ‹_›⟩ t.offset t.length testValue hr
        split <;> exact hone
      · exact hr

lemma replays_skeletonCdevIoctl (req : Request) (hr : Replays D d h) :
    Replays D d (skeletonCdevIoctl D ske req h).2 := by
  cases req with
  | getInfo | getPciConf | unknown => exact hr
  | getReg arg copyOut => exact replays_skeletonGetReg ske arg copyOut hr
  | setReg arg => exact replays_skeletonSetReg ske arg hr
  | memTest arg copyOut => exact replays_skeletonMemTest ske arg copyOut hr

lemma replays_runAll (reqs : List (Private × Request)) (hr : Replays D d h) :
    Replays D d (runAll D reqs h) :=
  hr.foldl (fun _ req hr => replays_skeletonCdevIoctl req.1 req.2 hr) reqs

end Replays

/-! ### The words that are mapped -/

/-- A BAR, and the number of a 32-bit word of it. -/
abbrev Word := Bar × ℕ

def Mapped (s : Skel) (w : Word) : Prop :=
  s.bar w.1 = true ∧ 4 * w.2 + 4 ≤ (barMinLen w.1).toNat

instance (s : Skel) : DecidablePred (Mapped s) := fun _ => inferInstanceAs (Decidable (_ ∧ _))

variable {s : Skel}

def Iomap.loc (M : Iomap s) (w : Word) : UInt64 := M.base w.1 + 4 * UInt64.ofNat w.2

/-- There is a mapped word at the address. -/
def Iomap.Holds (M : Iomap s) (a : UInt64) : Prop :=
  ∃ i, s.bar i = true ∧ (a - M.base i).toNat % 4 = 0 ∧
    (a - M.base i).toNat + 4 ≤ (barMinLen i).toNat

instance (M : Iomap s) : DecidablePred M.Holds := fun _ => inferInstanceAs (Decidable (∃ _, _))

lemma toNat_four_mul {w : Word} (hw : Mapped s w) : (4 * UInt64.ofNat w.2).toNat = 4 * w.2 := by
  have hlt := hw.2.trans (barMinLen_le w.1)
  simp only [UInt64.toNat_mul, UInt64.toNat_ofNat', UInt64.reduceToNat]
  omega

lemma Iomap.loc_inj (M : Iomap s) {w b : Word} (hw : Mapped s w) (hb : Mapped s b)
    (h : M.loc w = M.loc b) : w = b := by
  obtain ⟨i, k⟩ := w
  obtain ⟨j, l⟩ := b
  have hk := toNat_four_mul hw
  have hl := toNat_four_mul hb
  obtain ⟨hi, hki⟩ := hw
  obtain ⟨hj, hlj⟩ := hb
  dsimp only at hki hlj
  by_cases hij : i = j
  · subst hij
    have hsame := congrArg UInt64.toNat ((UInt64.add_right_inj _).mp h)
    rw [hk, hl] at hsame
    exact Prod.ext rfl (by simpa using hsame)
  · refine absurd h (M.apart i j hij hi hj _ ?_ _ ?_)
    · rw [UInt64.lt_iff_toNat_lt, hk]
      omega
    · rw [UInt64.lt_iff_toNat_lt, hl]
      omega

lemma Iomap.holds_iff (M : Iomap s) (a : UInt64) :
    M.Holds a ↔ ∃ w, Mapped s w ∧ a = M.loc w := by
  constructor
  · rintro ⟨i, hi, hmod, hle⟩
    refine ⟨(i, (a - M.base i).toNat / 4), ⟨hi, by dsimp only; omega⟩, ?_⟩
    have hlen := barMinLen_le i
    apply UInt64.toNat_inj.mp
    simp only [Iomap.loc, UInt64.toNat_add, UInt64.toNat_mul, UInt64.toNat_ofNat',
      UInt64.reduceToNat]
    rw [UInt64.toNat_sub] at hmod hle ⊢
    have ha := a.toNat_lt
    have hbase := (M.base i).toNat_lt
    omega
  · rintro ⟨w, hw, rfl⟩
    have hsub : M.loc w - M.base w.1 = 4 * UInt64.ofNat w.2 := by
      rw [Iomap.loc, UInt64.add_comm, UInt64.add_sub_cancel]
    refine ⟨w.1, hw.1, ?_⟩
    rw [hsub, toNat_four_mul hw]
    exact ⟨by omega, hw.2⟩

lemma Iomap.memory_window (M : Iomap s) (u : UInt32) :
    Memory (window M.Holds u) M.loc (Mapped s) (windowVal M.loc (Mapped s)) :=
  Mmio.memory_window M.Holds u (fun w hw => (M.holds_iff _).mpr ⟨w, hw, rfl⟩)
    fun _ _ hw hb => M.loc_inj hw hb

lemma wordAt_snd (ske : Private) (bar : Bar) (offset : UInt32) :
    (wordAt ske bar offset).2 = ske.bar bar + 4 * UInt64.ofNat (offset.toNat / 4) := by
  have hword : (offset >>> (2 : UInt32)).toUInt64 = UInt64.ofNat (offset.toNat / 4) := by
    have hoff := offset.toNat_lt
    apply UInt64.toNat_inj.mp
    rw [UInt32.toNat_toUInt64, UInt64.toNat_ofNat', Nat.mod_eq_of_lt (by omega)]
    simp [Nat.shiftRight_eq_div_pow]
  rw [wordAt, hword]

/-- A register command goes to the word it names exactly if it finds the right pointer. -/
lemma wordAt_eq_loc_iff (M : Iomap s) (ske : Private) (bar : Bar) (offset : UInt32) :
    (wordAt ske bar offset).2 = M.loc (bar, offset.toNat / 4) ↔ ske.bar bar = M.base bar := by
  rw [wordAt_snd, Iomap.loc, UInt64.add_left_inj]

/-! ### Registers that are memory -/

/-- What `bar_read` makes of a value that stays. -/
def answered (v : UInt32) : UInt32 := if v = 0xffffffff then 0 else v

lemma answered_eq_self_iff (v : UInt32) : answered v = v ↔ v ≠ 0xffffffff := by
  unfold answered
  split
  · next hones =>
    subst hones
    decide
  · next hones => exact iff_of_true rfl hones

section Register

variable {D : Device UInt64 δ}

/-- A read of an address that answers `v` as long as `P` holds of the device. -/
lemma barReadTry_steady {a : Addr} {v : UInt32} {P : δ → Prop}
    (hP : ∀ d, P d → (D.read d a.2).1 = v ∧ P (D.read d a.2).2) (n : ℕ) {h : Hw Addr δ}
    (hd : P h.dev) : (barReadTry D a n h).1 = answered v := by
  have hread : (ioread32 D a h).1 = v := (hP h.dev hd).1
  induction n generalizing h with
  | zero =>
    simp only [barReadTry, hread, answered]
    split <;> rfl
  | succ n ih =>
    have hkeep : P (ioread32 D a h).2.dev := (hP h.dev hd).2
    simp only [barReadTry, hread]
    split
    · exact ih hkeep (hP _ hkeep).1
    · next hones => exact ((answered_eq_self_iff v).mpr hones).symm

lemma skeletonGetReg_steady (ske : Private) (v : UInt32) {r : RegInfo}
    (hb : r.bar.toNat < PCI_BAR_NUM) {P : δ → Prop} (hP : ∀ d, P d →
      (D.read d (wordAt ske ⟨r.bar.toNat, hb⟩ r.regAdd).2).1 = v ∧
        P (D.read d (wordAt ske ⟨r.bar.toNat, hb⟩ r.regAdd).2).2) {h : Hw Addr δ} (hd : P h.dev) :
    ∃ h', skeletonGetReg D ske (some r) true h =
      (0, some { r with regData := answered v }, h') := by
  refine ⟨(barRead D ske ⟨_, hb⟩ r.regAdd h).2, ?_⟩
  rw [← barReadTry_steady hP 20 hd]
  simp only [skeletonGetReg, hb, dite_true, if_true, barRead]

/-- The word that the register is. -/
def RegInfo.word (r : RegInfo) (hb : r.bar.toNat < PCI_BAR_NUM) : Word :=
  (⟨r.bar.toNat, hb⟩, r.regAdd.toNat / 4)

/-- The value `r.regData` is written to a register; then any commands are run whose accesses go to
other mapped words; then the register is read, into a structure that held `x`. On every device
whose mapped words are memory, the write succeeds and changes no other word, and the read
succeeds and returns the value. -/
def RoundTrips (M : Iomap s) (ske₁ ske₂ : Private) (r : RegInfo) (hb : r.bar.toNat < PCI_BAR_NUM) :
    Prop :=
  ∀ (δ : Type) (D : Device UInt64 δ) (val : δ → Word → UInt32),
    Memory D M.loc (Mapped s) val → ∀ (d d₁ d₂ : δ) (ret : ℤ) (t u : List (Access Addr))
    (reqs : List (Private × Request)) (x : UInt32),
    skeletonSetReg D ske₁ (some r) ⟨d, []⟩ = (ret, ⟨d₁, t⟩) → runAll D reqs ⟨d₁, []⟩ = ⟨d₂, u⟩ →
    (∀ a ∈ u, ∃ b, Mapped s b ∧ b ≠ r.word hb ∧ a.addr.2 = M.loc b) →
    ret = 0 ∧ (∀ b, b ≠ r.word hb → val d₁ b = val d b) ∧
      ∃ h, skeletonGetReg D ske₂ (some { r with regData := x }) true ⟨d₂, []⟩ = (0, some r, h)

variable {M : Iomap s} {ske₁ ske₂ : Private} {r : RegInfo} {hb : r.bar.toNat < PCI_BAR_NUM}

lemma skeletonSetReg_some (D : Device UInt64 δ) (ske : Private) (hb : r.bar.toNat < PCI_BAR_NUM)
    (d : δ) : skeletonSetReg D ske (some r) ⟨d, []⟩ =
      (0, iowrite32 D r.regData (wordAt ske ⟨r.bar.toNat, hb⟩ r.regAdd) ⟨d, []⟩) := by
  simp only [skeletonSetReg, hb, dite_true, barWrite]

lemma roundTrips_of_bar (hw : Mapped s (r.word hb))
    (h₁ : ske₁.bar (r.word hb).1 = M.base (r.word hb).1)
    (h₂ : ske₂.bar (r.word hb).1 = M.base (r.word hb).1) (hones : r.regData ≠ 0xffffffff) :
    RoundTrips M ske₁ ske₂ r hb := by
  intro δ D val hmem d d₁ d₂ ret t u reqs x hset hrun hu
  obtain ⟨rfl, hd₁⟩ := Prod.mk.inj (hset.symm.trans (skeletonSetReg_some D ske₁ hb d))
  have ha₁ : (wordAt ske₁ ⟨r.bar.toNat, hb⟩ r.regAdd).2 = M.loc (r.word hb) :=
    (wordAt_eq_loc_iff M ske₁ _ _).mpr h₁
  have ha₂ : (wordAt ske₂ ⟨r.bar.toNat, hb⟩ r.regAdd).2 = M.loc (r.word hb) :=
    (wordAt_eq_loc_iff M ske₂ _ _).mpr h₂
  obtain rfl : d₁ = D.write d (M.loc (r.word hb)) r.regData := by
    rw [← ha₁]
    exact congrArg Hw.dev hd₁
  -- nothing has happened to the register since
  have hd₂ : d₂ = replay D (D.write d (M.loc (r.word hb)) r.regData) u := by
    have hreplays := replays_runAll reqs
      (show Replays D (D.write d (M.loc (r.word hb)) r.regData) ⟨_, []⟩ from rfl)
    rwa [hrun] at hreplays
  have hval : val d₂ (r.word hb) = r.regData := by
    rw [hd₂, hmem.val_replay hu, hmem.write_self d _ r.regData hw]
  refine ⟨rfl, fun b hne => hmem.write_keeps d _ b r.regData hw hne, ?_⟩
  obtain ⟨h', hget⟩ := skeletonGetReg_steady (D := D) ske₂ r.regData
    (r := { r with regData := x }) hb (P := fun d => val d (r.word hb) = r.regData)
    (fun d hd => by
      dsimp only
      rw [ha₂]
      exact ⟨(hmem.read d _ hw).trans hd, (hmem.read_keeps d _ _ hw).trans hd⟩)
    (h := ⟨d₂, []⟩) hval
  rw [(answered_eq_self_iff _).mpr hones] at hget
  exact ⟨h', hget⟩

/-- Behind a window, a read answers what is in the cell, or the window's own answer outside. -/
lemma skeletonGetReg_window (M : Iomap s) (ske : Private) {r : RegInfo}
    (hb : r.bar.toNat < PCI_BAR_NUM) (u : UInt32) (m : (UInt64 → UInt32) × UInt32) :
    ∃ h', skeletonGetReg (window M.Holds u) ske (some { r with regData := 0 }) true ⟨m, []⟩ =
      (0, some { r with regData := answered (if M.Holds (wordAt ske ⟨r.bar.toNat, hb⟩ r.regAdd).2
        then m.1 (wordAt ske ⟨r.bar.toNat, hb⟩ r.regAdd).2 else u) }, h') :=
  skeletonGetReg_steady (D := window M.Holds u) ske _ (r := { r with regData := 0 }) hb
    (P := (· = m)) (by rintro d rfl; exact ⟨rfl, rfl⟩) (h := ⟨m, []⟩) rfl

/-- Behind a window whose cells and answers are `u`, the value comes back only if it is written to
the word and read from it. -/
lemma bar_of_roundTrips (h : RoundTrips M ske₁ ske₂ r hb) :
    ske₁.bar (r.word hb).1 = M.base (r.word hb).1 ∧
      ske₂.bar (r.word hb).1 = M.base (r.word hb).1 ∧ r.regData ≠ 0xffffffff := by
  obtain ⟨u, hu, hones⟩ : ∃ u : UInt32, u ≠ r.regData ∧ u ≠ 0xffffffff := by
    by_cases hone : r.regData = 1
    · exact ⟨2, by rw [hone]; decide, by decide⟩
    · exact ⟨1, Ne.symm hone, by decide⟩
  set a₁ := (wordAt ske₁ ⟨r.bar.toNat, hb⟩ r.regAdd).2 with ha₁
  set a₂ := (wordAt ske₂ ⟨r.bar.toNat, hb⟩ r.regAdd).2 with ha₂
  set m := (window M.Holds u).write (fun _ => u, u) a₁ r.regData with hm
  obtain ⟨-, hother, h', hget⟩ := h _ (window M.Holds u) _ (M.memory_window u) (fun _ => u, u) m m
    0 _ [] [] 0 (skeletonSetReg_some _ ske₁ hb _) rfl (by simp)
  -- what is read
  have hread : answered (if M.Holds a₂ then m.1 a₂ else u) = r.regData := by
    obtain ⟨h'', hget'⟩ := skeletonGetReg_window M ske₂ hb u m
    have hsome := Option.some.inj (Prod.mk.inj (Prod.mk.inj (hget'.symm.trans hget)).2).1
    exact congrArg RegInfo.regData hsome
  have hne : (if M.Holds a₂ then m.1 a₂ else u) ≠ u := by
    intro heq
    rw [heq, (answered_eq_self_iff u).mpr hones] at hread
    exact hu hread
  have hholds : M.Holds a₁ := by
    by_contra hnot
    exact hne (by simp [hm, window, hnot])
  have hm₁ : m.1 = Function.update (fun _ => u) a₁ r.regData := by simp [hm, window, hholds]
  have heq₁ : a₁ = M.loc (r.word hb) := by
    obtain ⟨b, hbW, hab⟩ := (M.holds_iff a₁).mp hholds
    by_cases hbw : b = r.word hb
    · rw [hab, hbw]
    · have hval := hother b hbw
      simp only [windowVal, hbW, if_true, hm₁, ← hab, Function.update_self] at hval
      exact absurd hval.symm hu
  have heq₂ : a₂ = a₁ := by
    by_contra hne₂
    exact hne (by simp [hm₁, Function.update_of_ne hne₂])
  refine ⟨(wordAt_eq_loc_iff M ske₁ _ _).mp heq₁,
    (wordAt_eq_loc_iff M ske₂ _ _).mp (heq₂.trans heq₁), ?_⟩
  rw [heq₂, if_pos hholds, hm₁, Function.update_self] at hread
  exact (answered_eq_self_iff _).mp hread

/-- **Registers round trip through the right pointers, all ones excepted.** A register inside the
mapping round trips exactly if both commands find the pointer to the mapping at their
`private_data`, and the value is not `0xffffffff`. -/
theorem register_round_trip_iff (M : Iomap s) (L : Layout) (mem₁ mem₂ : Mem) (iCdev : UInt64)
    {r : RegInfo} (hb : r.bar.toNat < PCI_BAR_NUM) (hbar : s.bar (r.word hb).1 = true)
    (hadd : r.regAdd.toNat < (barMinLen (r.word hb).1).toNat) :
    RoundTrips M (opened L mem₁ iCdev) (opened L mem₂ iCdev) r hb ↔
      (opened L mem₁ iCdev).bar (r.word hb).1 = M.base (r.word hb).1 ∧
      (opened L mem₂ iCdev).bar (r.word hb).1 = M.base (r.word hb).1 ∧
      r.regData ≠ 0xffffffff := by
  have hw : Mapped s (r.word hb) := by
    have hmod := barMinLen_mod_four (r.word hb).1
    refine ⟨hbar, ?_⟩
    rw [show (r.word hb).2 = r.regAdd.toNat / 4 from rfl]
    omega
  exact ⟨bar_of_roundTrips, fun ⟨h₁, h₂, hones⟩ => roundTrips_of_bar hw h₁ h₂ hones⟩

end Register

/-- The register at 16 takes the value 5, if the `struct cdev` lies in the record. -/
theorem register_round_trip_iff_five :
    RoundTrips pageMap (opened layout64 pageMem (0xffff888000001000 + 240))
      (opened layout64 pageMem (0xffff888000001000 + 240)) ⟨0, 16, 5⟩ (by decide) :=
  (register_round_trip_iff pageMap layout64 pageMem pageMem _ (r := ⟨0, 16, 5⟩) (by decide)
    (by decide) (by decide)).mpr (by decide +kernel)

/-- What is read from the register at 16 after `v` was written to it, on a device with nothing
but the mapped words, whose `struct cdev` is at `iCdev`. -/
def readBack (iCdev : UInt64) (v : UInt32) : ℤ × Option RegInfo :=
  let ske := opened layout64 pageMem iCdev
  let D := window pageMap.Holds 1
  let (_, h) := skeletonSetReg D ske (some ⟨0, 16, v⟩) ⟨(fun _ => 7, 7), []⟩
  let (ret, out, _) := skeletonGetReg D ske (some ⟨0, 16, 1⟩) true h
  (ret, out)

/-- The value 5 is lost if the `struct cdev` is allocated elsewhere, and all ones in any case. -/
theorem register_values_lost :
    Memory (window pageMap.Holds 1) pageMap.loc (Mapped pageSkel)
        (windowVal pageMap.loc (Mapped pageSkel)) ∧
      pageSkel.bar 0 = true ∧ 16 < (barMinLen 0).toNat ∧
      readBack 0xffff888000002000 5 = (0, some ⟨0, 16, 1⟩) ∧
      readBack (0xffff888000001000 + 240) 0xffffffff = (0, some ⟨0, 16, 0⟩) :=
  ⟨pageMap.memory_window 1, by decide, by decide, by decide +kernel, by decide +kernel⟩

end LinuxSamples.Pci
