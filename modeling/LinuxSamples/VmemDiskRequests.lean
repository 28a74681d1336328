import LinuxSamples.VmemDiskSegments

/-!
The request queue of `vmem_disk` against an abstract disk.

The abstract disk carries out a bio at once: a write stores the bytes of the segments, a read
returns a range. The driver does the same, bio by bio and request by request, as long as every
bio has segments of one length and stays on the disk.
-/

namespace LinuxSamples.VmemDisk

open LinuxSamples.Bytes

/-! ### The abstract disk -/

/-- A bio on the abstract disk: the contents afterwards, and the bytes in the segments. -/
def specBio (data : ℕ → UInt8) (bio : Bio) : (ℕ → UInt8) × List UInt8 :=
  if bio.write then (store data (bio.sector * 512) (bytes bio.segs), bytes bio.segs)
  else (data, load data (bio.sector * 512) (bio.segs.map Seg.len).sum)

def specBios (data : ℕ → UInt8) : List Bio → (ℕ → UInt8) × List (List UInt8)
  | [] => (data, [])
  | bio :: bios =>
    let rest := specBios (specBio data bio).1 bios
    (rest.1, (specBio data bio).2 :: rest.2)

/-- The requests in order; those that do not come from a file system fail. -/
def specRequests (data : ℕ → UInt8) : List Request → (ℕ → UInt8) × List (ℤ × List (List UInt8))
  | [] => (data, [])
  | req :: reqs =>
    if req.fs then
      let now := specBios data req.bios
      let rest := specRequests now.1 reqs
      (rest.1, (0, now.2) :: rest.2)
    else
      let rest := specRequests data reqs
      (rest.1, (- EIO, req.bios.map fun bio => bytes bio.segs) :: rest.2)

/-! ### The driver -/

/-- A bio in whole sectors, on a disk of the given size, with segments of one length. -/
structure Bio.Even (bio : Bio) (size : ℕ) : Prop where
  whole : ∀ l ∈ bio.segs.map Seg.len, 0 < l ∧ l % 512 = 0
  fits : bio.sector * 512 + (bio.segs.map Seg.len).sum ≤ size
  equal : ∀ l ∈ bio.segs.map Seg.len, l = bio.curBytes

variable {dev : Dev} {sector n : ℕ}

lemma xferLoop_read_fst (segs : List Seg) (hb : Bounded sector n segs.length) :
    (xferLoop false n dev sector segs).1 = dev := by
  induction segs generalizing sector with
  | nil => rfl
  | cons s segs ih =>
    have hrest := ih hb.rest
    rw [← (next_sector hb.whole hb.first).1] at hrest
    simp only [xferLoop, transfer_read hb.whole hb.first]
    split <;> exact hrest

lemma xferLoop_write_snd (segs : List Seg) (hb : Bounded sector n segs.length) :
    (xferLoop true n dev sector segs).2 = segs := by
  induction segs generalizing dev sector with
  | nil => rfl
  | cons s segs ih =>
    simp only [xferLoop, transfer_write hb.whole hb.first, (next_sector hb.whole hb.first).1]
    split <;> exact congrArg (s :: ·) (ih hb.rest)

lemma vmemDiskXferBio_spec {bio : Bio} (h : bio.Even dev.size) :
    (vmemDiskXferBio dev bio).1 = dev.setData (specBio dev.data bio).1 ∧
    bytes (vmemDiskXferBio dev bio).2 = (specBio dev.data bio).2 := by
  obtain ⟨sector, segs, write⟩ := bio
  obtain ⟨hwhole, hfit, hequal⟩ := h
  rw [curBytes_of_map rfl] at hequal
  have hb := bounded_of_fits hwhole hfit
  have hpos := fun l hl => (hwhole l hl).1
  rw [vmemDiskXferBio, curBytes_of_map rfl]
  cases write with
  | true =>
    rw [specBio, if_pos rfl]
    have hexact := (written_iff hb hpos hfit).mpr hequal dev.data segs rfl
    rw [List.length_map] at hb
    refine ⟨?_, congrArg bytes (xferLoop_write_snd segs hb)⟩
    rw [← hexact]
    exact written_eq_setData dev hb
  | false =>
    rw [specBio, if_neg Bool.false_ne_true]
    have hback := (readsBack_iff hb hpos hfit).mpr hequal dev.data segs rfl
    rw [List.length_map] at hb
    exact ⟨xferLoop_read_fst segs hb, hback.1⟩

/-- **A bio without a queue is carried out as on the abstract disk.** -/
theorem vmemDiskMakeRequest_refines {bio : Bio} (h : bio.Even dev.size) :
    (vmemDiskMakeRequest dev bio).1 = dev.setData (specBio dev.data bio).1 ∧
    (vmemDiskMakeRequest dev bio).2.1 = 0 ∧
    bytes (vmemDiskMakeRequest dev bio).2.2 = (specBio dev.data bio).2 := by
  obtain ⟨hdev, hsegs⟩ := vmemDiskXferBio_spec h
  exact ⟨hdev, rfl, hsegs⟩

lemma xferBios_spec {bios : List Bio} (h : ∀ bio ∈ bios, bio.Even dev.size) :
    (xferBios dev bios).1 = dev.setData (specBios dev.data bios).1 ∧
    (xferBios dev bios).2.map bytes = (specBios dev.data bios).2 := by
  induction bios generalizing dev with
  | nil => exact ⟨rfl, rfl⟩
  | cons bio bios ih =>
    obtain ⟨hbio, hbios⟩ := List.forall_mem_cons.mp h
    obtain ⟨hdev, hsegs⟩ := vmemDiskXferBio_spec hbio
    obtain ⟨ih1, ih2⟩ := @ih (vmemDiskXferBio dev bio).1 (by rw [hdev]; exact hbios)
    rw [hdev] at ih1 ih2
    simp only [xferBios, specBios, List.map_cons, hsegs]
    rw [hdev]
    exact ⟨ih1, congrArg _ ih2⟩

/-- **The queue refines the abstract disk.** Any number of requests, reads and writes in any
order: the contents of the disk, the status of each request and the bytes in the segments of
its bios are those of the abstract disk. -/
theorem vmemDiskRequest_refines {reqs : List Request}
    (h : ∀ req ∈ reqs, req.fs = true → ∀ bio ∈ req.bios, bio.Even dev.size) :
    (vmemDiskRequest dev reqs).1 = dev.setData (specRequests dev.data reqs).1 ∧
    (vmemDiskRequest dev reqs).2.map (fun done => (done.1, done.2.map bytes)) =
      (specRequests dev.data reqs).2 := by
  induction reqs generalizing dev with
  | nil => exact ⟨rfl, rfl⟩
  | cons req reqs ih =>
    obtain ⟨hreq, hreqs⟩ := List.forall_mem_cons.mp h
    cases hfs : req.fs with
    | true =>
      obtain ⟨hdev, hsegs⟩ := xferBios_spec (hreq hfs)
      obtain ⟨ih1, ih2⟩ := @ih (xferBios dev req.bios).1 (by rw [hdev]; exact hreqs)
      rw [hdev] at ih1 ih2
      simp only [vmemDiskRequest, specRequests, hfs, if_true, List.map_cons, hsegs]
      rw [hdev]
      exact ⟨ih1, congrArg _ ih2⟩
    | false =>
      obtain ⟨ih1, ih2⟩ := ih hreqs
      simp only [vmemDiskRequest, specRequests, hfs, Bool.false_eq_true, if_false, List.map_cons,
        List.map_map]
      exact ⟨ih1, congrArg _ ih2⟩

/-- A sector is written and read back; the second request is not from a file system. -/
theorem vmemDiskRequest_refines_two :
    let reqs : List Request :=
      [⟨true, [⟨3, [constSeg 7 512], true⟩, ⟨3, [constSeg 0 512], false⟩]⟩, ⟨false, []⟩]
    (vmemDiskRequest (Dev.setup fun _ => 0) reqs).2.map (fun done => (done.1, done.2.map bytes)) =
      (specRequests (fun _ => 0) reqs).2 := by
  refine (vmemDiskRequest_refines ?_).2
  have heven : ∀ v w, (Bio.mk 3 [constSeg v 512] w).Even (Dev.setup fun _ => 0).size := by
    intro v w
    exact ⟨by simp, by simp [Dev.setup, NSECTORS, HARDSECT_SIZE], by simp [Bio.curBytes]⟩
  simp [heven]

end LinuxSamples.VmemDisk
