import LinuxSamples.VmemDisk

/-!
For which segmentations `vmem_disk` is a faithful block store.

The loop of `vmem_disk_xfer_bio` transfers as many bytes for each segment as the first
segment has. A write or a read is right for every contents of the buffers and the disk exactly if
all its segments have the same length; a shorter segment is overrun, and what lies behind it is
written to the disk or overwritten. Each of the two is an induction on the list of segments: if
the first segment has the common length, the rest of the loop is a loop on the rest, and if it
has not, a disk of zeros and a buffer of ones, or the reverse, tell the difference.
-/

namespace LinuxSamples.VmemDisk

open LinuxSamples.Bytes

variable {dev : Dev} {sector n : ℕ}

/-- What the proofs about the loop need of the numbers: whole sectors and no overflow. -/
structure Bounded (sector n count : ℕ) : Prop where
  whole : n % 512 = 0
  lt : sector * 512 + n * count < 2 ^ 64

lemma Bounded.first {count : ℕ} (h : Bounded sector n (count + 1)) :
    sector * 512 + n < 2 ^ 64 := by
  have := h.lt
  rw [Nat.mul_add_one n] at this
  omega

lemma Bounded.rest {count : ℕ} (h : Bounded sector n (count + 1)) :
    Bounded (sector + n / 512) n count := by
  refine ⟨h.whole, ?_⟩
  rw [(next_sector h.whole h.first).2, Nat.add_assoc, Nat.add_comm n, ← Nat.mul_add_one n]
  exact h.lt

/-! ### Writes -/

/-- The disk after the loop of a write. -/
def written (n : ℕ) (dev : Dev) (sector : ℕ) (segs : List Seg) : Dev :=
  (xferLoop true n dev sector segs).1

lemma written_cons {s : Seg} {segs : List Seg} (h : Bounded sector n (segs.length + 1)) :
    written n dev sector (s :: segs) =
      written n (if sector * 512 + n > dev.size then dev
        else dev.setData (store dev.data (sector * 512) (load s.buf 0 n)))
        (sector + n / 512) segs := by
  simp only [written, xferLoop, transfer_write h.whole h.first, (next_sector h.whole h.first).1]
  split <;> rfl

lemma written_of_equal {segs : List Seg} (hb : Bounded sector n segs.length)
    (heq : ∀ s ∈ segs, s.len = n)
    (hfit : sector * 512 + n * segs.length ≤ dev.size) :
    (written n dev sector segs).data = store dev.data (sector * 512) (bytes segs) := by
  induction segs generalizing dev sector with
  | nil => exact (store_load_self dev.data (sector * 512) 0).symm
  | cons s segs ih =>
    obtain ⟨hs, heq⟩ := List.forall_mem_cons.mp heq
    rw [List.length_cons, Nat.mul_add_one n] at hfit
    have hoff := (next_sector hb.whole hb.first).2
    have hbytes : s.bytes = load s.buf 0 n := by rw [Seg.bytes, hs]
    set data := store dev.data (sector * 512) (load s.buf 0 n) with hdata
    have hfit' : (sector + n / 512) * 512 + n * segs.length ≤ (dev.setData data).size := by
      rw [hoff, Dev.setData_size]
      linarith
    rw [written_cons hb, if_neg (by omega), ih hb.rest heq hfit', hoff, Dev.setData_data, hdata,
      bytes_cons, hbytes, ← store_store_append, length_load]

lemma written_below {segs : List Seg} (hb : Bounded sector n segs.length) {q : ℕ}
    (hq : q < sector * 512) : (written n dev sector segs).data q = dev.data q := by
  induction segs generalizing dev sector with
  | nil => rfl
  | cons s segs ih =>
    have hoff := (next_sector hb.whole hb.first).2
    rw [written_cons hb, ih hb.rest (by rw [hoff]; exact Nat.lt_add_right n hq)]
    split
    · rfl
    · exact store_of_lt hq

lemma written_zeros {segs : List Seg} (hb : Bounded sector n segs.length)
    (hz : ∀ s ∈ segs, s.buf = fun _ => 0) {q : ℕ} (hq : dev.data q = 0) :
    (written n dev sector segs).data q = 0 := by
  induction segs generalizing dev sector with
  | nil => exact hq
  | cons s segs ih =>
    obtain ⟨hs, hz⟩ := List.forall_mem_cons.mp hz
    rw [written_cons hb]
    refine ih hb.rest hz ?_
    split
    · exact hq
    · rw [Dev.setData_data, hs, load_const, store_replicate, hq, ite_self]

def constSeg (v : UInt8) (len : ℕ) : Seg := ⟨len, fun _ => v⟩

@[simp] lemma constSeg_len (v : UInt8) (len : ℕ) : (constSeg v len).len = len := rfl

@[simp] lemma constSeg_buf (v : UInt8) (len : ℕ) : (constSeg v len).buf = fun _ => v := rfl

@[simp] lemma bytes_constSeg (v : UInt8) (len : ℕ) :
    (constSeg v len).bytes = List.replicate len v := load_const v 0 len

lemma map_len_constSeg (v : UInt8) (lens : List ℕ) :
    (lens.map (constSeg v)).map Seg.len = lens := by
  simp [Function.comp_def]

lemma bytes_map_constSeg (v : UInt8) (lens : List ℕ) :
    bytes (lens.map (constSeg v)) = List.replicate lens.sum v := by
  induction lens with
  | nil => rfl
  | cons l lens ih =>
    rw [List.map_cons, bytes_cons, ih, bytes_constSeg, List.sum_cons, List.replicate_add]

/-- A write of a segment of ones of the wrong length, before segments of zeros, on a disk of
zeros. -/
lemma written_ones_ne {a : ℕ} {lens : List ℕ} (hb : Bounded sector n (lens.length + 1))
    (hpos : 0 < a) (hne : a ≠ n) :
    (written n (dev.setData fun _ => 0) sector (constSeg 1 a :: lens.map (constSeg 0))).data ≠
      store (fun _ => 0) (sector * 512) (bytes (constSeg 1 a :: lens.map (constSeg 0))) := by
  have hzero : ∀ s ∈ lens.map (constSeg 0), s.buf = fun _ => 0 := by simp
  have hoff := (next_sector hb.whole hb.first).2
  rw [← List.length_map (constSeg 0)] at hb
  -- what ought to be there
  have hspec (q : ℕ) : store (fun _ => 0) (sector * 512)
      (bytes (constSeg 1 a :: lens.map (constSeg 0))) q =
        if sector * 512 ≤ q ∧ q < sector * 512 + a then 1 else 0 := by
    rw [bytes_cons, bytes_map_constSeg, bytes_constSeg, ← store_store_append, store_replicate,
      store_replicate, List.length_replicate]
    split_ifs <;> first | rfl | omega
  intro h
  have hq (q : ℕ) := (congrFun h q).trans (hspec q)
  rw [written_cons hb, Dev.setData_size] at hq
  by_cases hend : sector * 512 + n > dev.size
  · -- nothing is written, and the first byte is missing
    have h0 := hq (sector * 512)
    rw [if_pos hend, written_zeros hb.rest hzero rfl, if_pos ⟨le_rfl, by omega⟩] at h0
    exact absurd h0 (by decide)
  · rw [if_neg hend] at hq
    rcases Nat.lt_or_gt_of_ne hne with hlt | hgt
    · -- a one behind the end of the segment has been written
      have h1 := hq (sector * 512 + a)
      rw [written_below hb.rest (by rw [hoff]; omega), Dev.setData_data, constSeg_buf, load_const,
        store_replicate, if_pos ⟨by omega, by omega⟩, if_neg (by omega)] at h1
      exact absurd h1 (by decide)
    · -- the end of the segment has not
      have h1 := hq (sector * 512 + n)
      rw [written_zeros hb.rest hzero, if_pos ⟨by omega, by omega⟩] at h1
      · exact absurd h1 (by decide)
      · rw [Dev.setData_data, constSeg_buf, load_const, store_replicate, if_neg (by omega),
          Dev.setData_data]

lemma equal_of_written {lens : List ℕ} (hb : Bounded sector n lens.length)
    (hpos : ∀ a ∈ lens, 0 < a) (hfit : sector * 512 + lens.sum ≤ dev.size)
    (h : ∀ data segs, segs.map Seg.len = lens →
      (written n (dev.setData data) sector segs).data = store data (sector * 512) (bytes segs)) :
    ∀ a ∈ lens, a = n := by
  induction lens generalizing sector with
  | nil => simp
  | cons a lens ih =>
    obtain ⟨ha, hpos⟩ := List.forall_mem_cons.mp hpos
    obtain rfl : a = n := by
      by_contra hne
      exact written_ones_ne hb ha hne (h _ _ (by simp [Function.comp_def]))
    rw [List.sum_cons] at hfit
    have hin : sector * 512 + a ≤ dev.size := by omega
    have hoff := (next_sector hb.whole hb.first).2
    refine List.forall_mem_cons.mpr ⟨rfl, ih hb.rest hpos (by rw [hoff]; linarith) ?_⟩
    intro data segs hsegs
    -- put into the first segment what is on the disk already
    have hfirst := h data (⟨a, fun i => data (sector * 512 + i)⟩ :: segs) (by simp [hsegs])
    rw [List.length_cons, ← hsegs, List.length_map] at hb
    rw [written_cons hb, Dev.setData_size, if_neg (not_lt.mpr hin), load_shift, Dev.setData_data,
      store_load_self, bytes_cons, Seg.bytes, load_shift, ← store_store_append, store_load_self,
      length_load, ← hoff] at hfirst
    exact hfirst

lemma written_iff {lens : List ℕ} (hb : Bounded sector n lens.length) (hpos : ∀ a ∈ lens, 0 < a)
    (hfit : sector * 512 + lens.sum ≤ dev.size) :
    (∀ data segs, segs.map Seg.len = lens →
      (written n (dev.setData data) sector segs).data =
        store data (sector * 512) (bytes segs)) ↔
    ∀ a ∈ lens, a = n := by
  refine ⟨equal_of_written hb hpos hfit, fun heq data segs hs => ?_⟩
  rw [List.sum_eq_card_nsmul lens n heq, smul_eq_mul, Nat.mul_comm _ n] at hfit
  subst hs
  rw [List.length_map] at hb hfit
  exact written_of_equal hb (fun s hs => heq _ (List.mem_map_of_mem hs)) hfit

/-! ### Reads -/

/-- The segments after the loop of a read. -/
def readBack (n : ℕ) (dev : Dev) (sector : ℕ) (segs : List Seg) : List Seg :=
  (xferLoop false n dev sector segs).2

/-- The buffer of one segment after its transfer. -/
def filled (n : ℕ) (dev : Dev) (sector : ℕ) (buf : ℕ → UInt8) : ℕ → UInt8 :=
  if sector * 512 + n > dev.size then buf else store buf 0 (load dev.data (sector * 512) n)

lemma readBack_cons {s : Seg} {segs : List Seg} (h : Bounded sector n (segs.length + 1)) :
    readBack n dev sector (s :: segs) =
      ⟨s.len, filled n dev sector s.buf⟩ :: readBack n dev (sector + n / 512) segs := by
  simp only [readBack, xferLoop, transfer_read h.whole h.first, (next_sector h.whole h.first).1,
    filled]
  split <;> rfl

/-- What lies behind the segment is left alone. -/
def Seg.Keeps (s s' : Seg) : Prop := ∀ q, s.len ≤ q → s'.buf q = s.buf q

/-- One segment is filled from every disk, and not overrun, exactly if it has the length of the
transfer. -/
lemma filled_iff {l : ℕ} (hl : 0 < l) (hfit : sector * 512 + l ≤ dev.size) :
    (∀ data buf, load (filled n (dev.setData data) sector buf) 0 l = load data (sector * 512) l ∧
      ∀ q, l ≤ q → filled n (dev.setData data) sector buf q = buf q) ↔ l = n := by
  constructor
  · intro h
    -- a disk of ones and a buffer of zeros
    obtain ⟨hload, hkeep⟩ := h (fun _ => 1) fun _ => 0
    have hread : ∀ i < l, filled n (dev.setData fun _ => 1) sector (fun _ => 0) i = 1 := by
      intro i hi
      have := getElem?_load (filled n (dev.setData fun _ => 1) sector fun _ => 0) 0 hi
      rw [hload, getElem?_load _ _ hi, Nat.zero_add, Option.some.injEq] at this
      exact this.symm
    have hend : sector * 512 + n ≤ dev.size := by
      by_contra hlt
      have := hread 0 hl
      rw [filled, Dev.setData_size, if_pos (by omega)] at this
      exact absurd this (by decide)
    have hone (q : ℕ) : filled n (dev.setData fun _ => 1) sector (fun _ => 0) q =
        if q < n then 1 else 0 := by
      rw [filled, Dev.setData_size, if_neg (by omega), Dev.setData_data, load_const,
        store_replicate]
      simp
    rcases Nat.lt_trichotomy l n with hlt | heq | hgt
    · have hbehind := hkeep l le_rfl
      rw [hone, if_pos hlt] at hbehind
      exact absurd hbehind (by decide)
    · exact heq
    · have hlast := hread n hgt
      rw [hone, if_neg (lt_irrefl n)] at hlast
      exact absurd hlast (by decide)
  · rintro rfl data buf
    have hload := load_store buf 0 (load data (sector * 512) l)
    rw [length_load] at hload
    rw [filled, Dev.setData_size, if_neg (by omega), Dev.setData_data]
    exact ⟨hload, fun q hq => store_of_ge (by rwa [length_load, Nat.zero_add])⟩

/-- A read of the given lengths returns what is on the disk, whatever that is, and overruns none
of its segments. -/
def ReadsBack (dev : Dev) (sector n : ℕ) (lens : List ℕ) : Prop :=
  ∀ data segs, segs.map Seg.len = lens →
    bytes (readBack n (dev.setData data) sector segs) = load data (sector * 512) lens.sum ∧
    List.Forall₂ Seg.Keeps segs (readBack n (dev.setData data) sector segs)

lemma readsBack_cons {l : ℕ} {lens : List ℕ} (hb : Bounded sector n (lens.length + 1)) :
    ReadsBack dev sector n (l :: lens) ↔
      (∀ data buf,
        load (filled n (dev.setData data) sector buf) 0 l = load data (sector * 512) l ∧
        ∀ q, l ≤ q → filled n (dev.setData data) sector buf q = buf q) ∧
      ∀ data segs, segs.map Seg.len = lens →
        bytes (readBack n (dev.setData data) (sector + n / 512) segs) =
          load data (sector * 512 + l) lens.sum ∧
        List.Forall₂ Seg.Keeps segs (readBack n (dev.setData data) (sector + n / 512) segs) := by
  have hstep {data : ℕ → UInt8} {buf : ℕ → UInt8} {segs : List Seg}
      (hs : segs.map Seg.len = lens) :
      readBack n (dev.setData data) sector (⟨l, buf⟩ :: segs) =
        ⟨l, filled n (dev.setData data) sector buf⟩ ::
          readBack n (dev.setData data) (sector + n / 512) segs := by
    rw [← hs, List.length_map] at hb
    exact readBack_cons hb
  constructor
  · intro h
    have hboth (data buf : ℕ → UInt8) (segs : List Seg) (hs : segs.map Seg.len = lens) :=
      h data (⟨l, buf⟩ :: segs) (by rw [List.map_cons, hs])
    simp only [List.sum_cons, load_add] at hboth
    refine ⟨fun data buf => ?_, fun data segs hs => ?_⟩
    · obtain ⟨hbytes, hkeep⟩ := hboth data buf _ (map_len_constSeg 0 lens)
      rw [hstep (map_len_constSeg 0 lens)] at hbytes hkeep
      exact ⟨(List.append_inj hbytes (by simp)).1, (List.forall₂_cons.mp hkeep).1⟩
    · obtain ⟨hbytes, hkeep⟩ := hboth data (fun _ => 0) segs hs
      rw [hstep hs] at hbytes hkeep
      exact ⟨(List.append_inj hbytes (by simp [Seg.bytes])).2, (List.forall₂_cons.mp hkeep).2⟩
  · rintro ⟨hfirst, hrest⟩ data segs hs
    obtain ⟨⟨_, buf⟩, segs, rfl, rfl, htail⟩ := List.map_eq_cons_iff.mp hs
    obtain ⟨hload, hkeep⟩ := hfirst data buf
    obtain ⟨hbytes, hkeeps⟩ := hrest data segs htail
    rw [hstep htail, bytes_cons, Seg.bytes, hload, hbytes, List.sum_cons, load_add]
    exact ⟨rfl, .cons hkeep hkeeps⟩

lemma readsBack_iff {lens : List ℕ} (hb : Bounded sector n lens.length)
    (hpos : ∀ l ∈ lens, 0 < l) (hfit : sector * 512 + lens.sum ≤ dev.size) :
    ReadsBack dev sector n lens ↔ ∀ l ∈ lens, l = n := by
  induction lens generalizing sector with
  | nil =>
    refine iff_of_true (fun data segs hs => ?_) (by simp)
    rw [List.map_eq_nil_iff.mp hs]
    exact ⟨rfl, .nil⟩
  | cons l lens ih =>
    obtain ⟨hl, hpos⟩ := List.forall_mem_cons.mp hpos
    rw [List.sum_cons, ← Nat.add_assoc] at hfit
    have hfirst : sector * 512 + l ≤ dev.size := le_trans (Nat.le_add_right ..) hfit
    rw [readsBack_cons hb, filled_iff hl hfirst, List.forall_mem_cons]
    refine and_congr_right ?_
    rintro rfl
    have hoff := (next_sector hb.whole hb.first).2
    rw [← hoff] at hfit
    rw [← ih hb.rest hpos hfit, ReadsBack, hoff]

/-! ### The block store -/

lemma written_eq_setData (dev : Dev) {segs : List Seg} (hb : Bounded sector n segs.length) :
    written n dev sector segs = dev.setData (written n dev sector segs).data := by
  induction segs generalizing dev sector with
  | nil => rfl
  | cons s segs ih =>
    rw [written_cons hb, ih _ hb.rest]
    split <;> rfl

lemma exists_segs (data : ℕ → UInt8) (off : ℕ) (lens : List ℕ) :
    ∃ segs, segs.map Seg.len = lens ∧ bytes segs = load data off lens.sum := by
  induction lens generalizing off with
  | nil => exact ⟨[], rfl, rfl⟩
  | cons l lens ih =>
    obtain ⟨segs, hlen, hbytes⟩ := ih (off + l)
    refine ⟨⟨l, fun i => data (off + i)⟩ :: segs, by simp [hlen], ?_⟩
    rw [bytes_cons, hbytes, Seg.bytes, load_shift, List.sum_cons, load_add]

lemma bounded_of_fits {lens : List ℕ} (hlen : ∀ l ∈ lens, 0 < l ∧ l % 512 = 0)
    (hfit : sector * 512 + lens.sum ≤ dev.size) :
    Bounded sector (lens.headD 0) lens.length := by
  have hsize := dev.size_lt
  have hcount : lens.length ≤ lens.sum := List.length_le_sum_of_one_le _ fun l hl => (hlen l hl).1
  have hhead : lens.headD 0 ≤ lens.sum := by
    cases lens with
    | nil => rfl
    | cons l lens => simp
  constructor
  · cases lens with
    | nil => rfl
    | cons l lens => exact (hlen l (List.mem_cons_self ..)).2
  · have hprod : lens.headD 0 * lens.length ≤ 2 ^ 31 * 2 ^ 31 :=
      Nat.mul_le_mul (by omega) (by omega)
    omega

lemma curBytes_of_map {segs : List Seg} {lens : List ℕ} (h : segs.map Seg.len = lens)
    (write : Bool) : (Bio.mk sector segs write).curBytes = lens.headD 0 := by
  subst h
  cases segs <;> rfl

/-- A bio with segments of the lengths `wlens` is written and one with segments of the lengths
`rlens` read back, both from `sector` on: whatever is in the buffers and on the disk, the write
stores the bytes of its segments and nothing else, and the read returns them and changes nothing
behind its segments. -/
def Faithful (dev : Dev) (sector : ℕ) (wlens rlens : List ℕ) : Prop :=
  ∀ data wsegs rsegs, wsegs.map Seg.len = wlens → rsegs.map Seg.len = rlens →
    let after := (vmemDiskXferBio (dev.setData data) ⟨sector, wsegs, true⟩).1
    let back := (vmemDiskXferBio after ⟨sector, rsegs, false⟩).2
    after.data = store data (sector * 512) (bytes wsegs) ∧
    bytes back = bytes wsegs ∧ List.Forall₂ Seg.Keeps rsegs back

lemma vmemDiskXferBio_write (dev : Dev) (sector : ℕ) {segs : List Seg} {lens : List ℕ}
    (h : segs.map Seg.len = lens) : (vmemDiskXferBio dev ⟨sector, segs, true⟩).1 =
      written (lens.headD 0) dev sector segs := by
  rw [vmemDiskXferBio, curBytes_of_map h, written]

lemma vmemDiskXferBio_read (dev : Dev) (sector : ℕ) {segs : List Seg} {lens : List ℕ}
    (h : segs.map Seg.len = lens) : (vmemDiskXferBio dev ⟨sector, segs, false⟩).2 =
      readBack (lens.headD 0) dev sector segs := by
  rw [vmemDiskXferBio, curBytes_of_map h, readBack]

/-- **The segmentations for which `vmem_disk` is a faithful block store.** -/
theorem vmem_disk_faithful_iff (dev : Dev) (sector : ℕ) (wlens rlens : List ℕ)
    (hw : ∀ l ∈ wlens, 0 < l ∧ l % 512 = 0) (hr : ∀ l ∈ rlens, 0 < l ∧ l % 512 = 0)
    (hsum : rlens.sum = wlens.sum) (hfit : sector * 512 + wlens.sum ≤ dev.size) :
    Faithful dev sector wlens rlens ↔
      (∀ l ∈ wlens, l = wlens.headD 0) ∧ ∀ l ∈ rlens, l = rlens.headD 0 := by
  have hbw := bounded_of_fits hw hfit
  have hbr := bounded_of_fits hr (hsum ▸ hfit)
  have hwpos := fun l hl => (hw l hl).1
  have hrpos := fun l hl => (hr l hl).1
  rw [← written_iff hbw hwpos hfit, ← readsBack_iff hbr hrpos (hsum ▸ hfit)]
  constructor
  · intro h
    have hexact (data : ℕ → UInt8) (wsegs : List Seg) (hwl : wsegs.map Seg.len = wlens) :
        (written (wlens.headD 0) (dev.setData data) sector wsegs).data =
          store data (sector * 512) (bytes wsegs) := by
      rw [← vmemDiskXferBio_write _ _ hwl]
      exact (h data wsegs _ hwl (map_len_constSeg 0 rlens)).1
    refine ⟨hexact, fun data rsegs hrl => ?_⟩
    -- write what is on the disk already
    obtain ⟨wsegs, hwl, hbytes⟩ := exists_segs data (sector * 512) wlens
    have hsame : written (wlens.headD 0) (dev.setData data) sector wsegs = dev.setData data := by
      have hlen : wsegs.length = wlens.length := by rw [← hwl, List.length_map]
      rw [written_eq_setData _ (hlen ▸ hbw), hexact data wsegs hwl, hbytes, store_load_self]
      rfl
    have hback := (h data wsegs rsegs hwl hrl).2
    rwa [vmemDiskXferBio_write _ _ hwl, vmemDiskXferBio_read _ _ hrl, hsame, hbytes,
      ← hsum] at hback
  · rintro ⟨hexact, hback⟩ data wsegs rsegs hwl hrl
    have hlen : wsegs.length = wlens.length := by rw [← hwl, List.length_map]
    have hafter := written_eq_setData (dev.setData data) (hlen ▸ hbw)
    rw [hexact data wsegs hwl] at hafter
    rw [vmemDiskXferBio_write _ _ hwl, hafter]
    intro after back
    obtain ⟨hbytes, hkeep⟩ := hback (store data (sector * 512) (bytes wsegs)) rsegs hrl
    rw [← vmemDiskXferBio_read _ _ hrl] at hbytes hkeep
    refine ⟨rfl, hbytes.trans ?_, hkeep⟩
    rw [hsum, ← hwl, ← length_bytes, load_store]

theorem vmem_disk_faithful_iff_halves :
    Faithful (Dev.setup fun _ => 0) 0 [512, 512] [1024] :=
  (vmem_disk_faithful_iff (Dev.setup fun _ => 0) 0 [512, 512] [1024] (by decide) (by decide) rfl
    (by decide)).mpr ⟨by decide, by decide⟩

/-- Segments of 512 and of 1024 bytes, in whole sectors and on the disk: the second half of
the second one is not written. And a read into segments of 1024 and of 512 bytes overwrites what
lies behind the second one. -/
theorem vmem_disk_drops_sector :
    let dev := Dev.setup fun _ => 0
    let segs := [constSeg 0 512, constSeg 1 1024]
    (∀ s ∈ segs, 0 < s.len ∧ s.len % 512 = 0) ∧ 0 * 512 + (segs.map Seg.len).sum ≤ dev.size ∧
    (vmemDiskXferBio dev ⟨0, segs, true⟩).1.data 1024 ≠
      store dev.data (0 * 512) (bytes segs) 1024 ∧
    (vmemDiskXferBio dev ⟨0, [constSeg 1 1024, constSeg 1 512], false⟩).2.map (·.buf 512) =
      [0, 0] := by
  decide +kernel

end LinuxSamples.VmemDisk
