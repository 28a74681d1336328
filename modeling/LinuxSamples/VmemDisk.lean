import LinuxSamples.Bytes
import LinuxSamples.Word

/-!
The `vmem_disk` driver: a disk in memory, and the transfer of bios to and from it.

A bio is a list of segments, each with a length and a buffer. `vmem_disk_xfer_bio` goes
through the segments, but takes the length of every transfer from `bio_cur_bytes`, which is
the length of the first segment all along. Each segment comes with the memory from its buffer
on, of which it is the first part; what lies behind it belongs to somebody else, and a transfer
that is longer than the segment reads or overwrites it.
-/

namespace LinuxSamples.VmemDisk

open LinuxSamples.Bytes LinuxSamples.Word

def KERNEL_SECTOR_SIZE : ℕ := 512
def HARDSECT_SIZE : ℕ := 512
def NSECTORS : ℕ := 1024
def EIO : ℤ := 5

/-- `struct vmem_disk_dev`: the size, in bytes, is an `int`. -/
structure Dev where
  size : ℕ
  data : ℕ → UInt8
  size_lt : size < 2 ^ 31

/-- The disk `setup_device` makes. -/
def Dev.setup (data : ℕ → UInt8) : Dev := ⟨NSECTORS * HARDSECT_SIZE, data, by decide⟩

def Dev.setData (dev : Dev) (data : ℕ → UInt8) : Dev := { dev with data := data }

@[simp] lemma Dev.setData_data (dev : Dev) (data : ℕ → UInt8) :
    (dev.setData data).data = data := rfl

@[simp] lemma Dev.setData_size (dev : Dev) (data : ℕ → UInt8) :
    (dev.setData data).size = dev.size := rfl

/-- A segment of a bio, with the memory from its buffer on: the bytes from `len` on lie behind
the segment. -/
structure Seg where
  len : ℕ
  buf : ℕ → UInt8

def Seg.bytes (s : Seg) : List UInt8 := load s.buf 0 s.len

/-- `vmem_disk_transfer`: the disk and the buffer afterwards. -/
def vmemDiskTransfer (dev : Dev) (sector nsect : ℕ) (buffer : ℕ → UInt8) (write : Bool) :
    Dev × (ℕ → UInt8) :=
  let offset := wrap 64 (sector * KERNEL_SECTOR_SIZE)
  let nbytes := wrap 64 (nsect * KERNEL_SECTOR_SIZE)
  if wrap 64 (offset + nbytes) > dev.size then (dev, buffer)
  else if write then (dev.setData (store dev.data offset (load buffer 0 nbytes)), buffer)
  else (dev, store buffer 0 (load dev.data offset nbytes))

/-- The loop of `vmem_disk_xfer_bio`, with the value of `bio_cur_bytes`. -/
def xferLoop (write : Bool) (curBytes : ℕ) : Dev → ℕ → List Seg → Dev × List Seg
  | dev, _, [] => (dev, [])
  | dev, sector, seg :: segs =>
    let (dev, buf) := vmemDiskTransfer dev sector (curBytes >>> 9) seg.buf write
    let (dev, segs) := xferLoop write curBytes dev (wrap 64 (sector + (curBytes >>> 9))) segs
    (dev, { seg with buf := buf } :: segs)

structure Bio where
  sector : ℕ
  segs : List Seg
  write : Bool

/-- The length of the segment at `bio->bi_iter`, which the loop does not advance. -/
def Bio.curBytes (bio : Bio) : ℕ := (bio.segs.head?.map Seg.len).getD 0

def vmemDiskXferBio (dev : Dev) (bio : Bio) : Dev × List Seg :=
  xferLoop bio.write bio.curBytes dev bio.sector bio.segs

/-- A request: whether it comes from a file system, and its bios. -/
structure Request where
  fs : Bool
  bios : List Bio

def xferBios (dev : Dev) : List Bio → Dev × List (List Seg)
  | [] => (dev, [])
  | bio :: bios =>
    let (dev, segs) := vmemDiskXferBio dev bio
    let (dev, rest) := xferBios dev bios
    (dev, segs :: rest)

/-- `vmem_disk_request`: the status of each request, and the buffers of its bios. -/
def vmemDiskRequest (dev : Dev) : List Request → Dev × List (ℤ × List (List Seg))
  | [] => (dev, [])
  | req :: reqs =>
    if req.fs then
      let (dev, segs) := xferBios dev req.bios
      let (dev, rest) := vmemDiskRequest dev reqs
      (dev, (0, segs) :: rest)
    else
      let (dev, rest) := vmemDiskRequest dev reqs
      (dev, (- EIO, req.bios.map Bio.segs) :: rest)

/-- `vmem_disk_make_request`: a bio without a request, ended with the status 0 that
`vmem_disk_xfer_bio` always returns. -/
def vmemDiskMakeRequest (dev : Dev) (bio : Bio) : Dev × ℤ × List Seg :=
  let (dev, segs) := vmemDiskXferBio dev bio
  (dev, 0, segs)

/-! ### Transfers without overflow -/

/-- The bytes of a list of segments, one after the other. -/
def bytes (segs : List Seg) : List UInt8 := segs.flatMap Seg.bytes

@[simp] lemma bytes_cons (s : Seg) (segs : List Seg) :
    bytes (s :: segs) = s.bytes ++ bytes segs := rfl

@[simp] lemma Seg.length_bytes (s : Seg) : s.bytes.length = s.len := length_load ..

lemma length_bytes (segs : List Seg) : (bytes segs).length = (segs.map Seg.len).sum := by
  induction segs with
  | nil => rfl
  | cons s segs ih => simp [ih]

lemma sectors_mul {n : ℕ} (h : n % 512 = 0) : (n >>> 9) * KERNEL_SECTOR_SIZE = n := by
  rw [Nat.shiftRight_eq_div_pow, KERNEL_SECTOR_SIZE]
  omega

variable {dev : Dev} {sector n : ℕ} {buf : ℕ → UInt8}

lemma wrap_sector (h : sector * 512 < 2 ^ 64) :
    wrap 64 (sector * KERNEL_SECTOR_SIZE) = sector * 512 := by
  rw [KERNEL_SECTOR_SIZE]
  exact wrap_of_lt h

lemma transfer_write (hn : n % 512 = 0) (hb : sector * 512 + n < 2 ^ 64) :
    vmemDiskTransfer dev sector (n >>> 9) buf true =
      if sector * 512 + n > dev.size then (dev, buf)
      else (dev.setData (store dev.data (sector * 512) (load buf 0 n)), buf) := by
  have h1 := wrap_sector (Nat.lt_of_add_right_lt hb)
  simp only [vmemDiskTransfer, sectors_mul hn, h1, wrap_of_lt (Nat.lt_of_add_left_lt hb),
    wrap_of_lt hb, if_true]

lemma transfer_read (hn : n % 512 = 0) (hb : sector * 512 + n < 2 ^ 64) :
    vmemDiskTransfer dev sector (n >>> 9) buf false =
      if sector * 512 + n > dev.size then (dev, buf)
      else (dev, store buf 0 (load dev.data (sector * 512) n)) := by
  have h1 := wrap_sector (Nat.lt_of_add_right_lt hb)
  simp only [vmemDiskTransfer, sectors_mul hn, h1, wrap_of_lt (Nat.lt_of_add_left_lt hb),
    wrap_of_lt hb, Bool.false_eq_true, if_false]

lemma next_sector (hn : n % 512 = 0) (hb : sector * 512 + n < 2 ^ 64) :
    wrap 64 (sector + (n >>> 9)) = sector + n / 512 ∧
    (sector + n / 512) * 512 = sector * 512 + n := by
  rw [Nat.shiftRight_eq_div_pow]
  refine ⟨wrap_of_lt ?_, ?_⟩ <;> omega

end LinuxSamples.VmemDisk
