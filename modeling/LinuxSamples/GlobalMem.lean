import LinuxSamples.Run
import LinuxSamples.Bytes
import LinuxSamples.Word

/-!
The memory devices `globalmem` and `multi_globalmem` as random-access files.

The drivers differ in how many devices there are and in which of them an open file stands
for; the operations are the same. They are compared with a file of fixed size per device
whose operations are stated by what they do to each byte: clamping at the end, positions at
the limit, failing copies and the narrowing of the sizes all agree with it.
-/

namespace LinuxSamples.GlobalMem

open LinuxSamples.Run LinuxSamples.Bytes LinuxSamples.Word

def GLOBALMEM_SIZE : ℕ := 0x1000
def MEM_CLEAR : ℕ := 0x1
def EFAULT : ℤ := 14
def EINVAL : ℤ := 22

/-- What a call returns: the return value and the bytes put into the buffer of the caller. -/
structure Reply where
  ret : ℤ
  data : List UInt8
  deriving DecidableEq

/-! ### The driver -/

/-- `unsigned long p = *ppos`. -/
def toUnsignedLong (pos : ℤ) : ℕ := (pos % 2 ^ 64).toNat

def addLoff (a b : ℤ) : ℤ := Int.bmod (a + b) (2 ^ 64)

/-- `count`, clamped to what is left of the device behind `p`. -/
def clampCount (p size : ℕ) : ℕ :=
  let count := wrap 32 size
  if GLOBALMEM_SIZE - p < count then GLOBALMEM_SIZE - p else count

/-- `globalmem_read`. The caller can be written to for `room` bytes; a longer copy fails. The
result is the new position and the reply. -/
def globalmemRead (mem : ℕ → UInt8) (room size : ℕ) (ppos : ℤ) : ℤ × Reply :=
  let p := toUnsignedLong ppos
  if GLOBALMEM_SIZE ≤ p then (ppos, ⟨0, []⟩)
  else
    let count := clampCount p size
    if room < count then (ppos, ⟨-EFAULT, []⟩)
    else (ppos + count, ⟨count, load mem p count⟩)

/-- `globalmem_write`. `buf` is what can be read from the caller; when it is too short, the
copy fails, and `copy_from_user` fills the rest of the destination with zeros. -/
def globalmemWrite (mem : ℕ → UInt8) (buf : List UInt8) (size : ℕ) (ppos : ℤ) :
    (ℕ → UInt8) × ℤ × Reply :=
  let p := toUnsignedLong ppos
  if GLOBALMEM_SIZE ≤ p then (mem, ppos, ⟨0, []⟩)
  else
    let count := clampCount p size
    if buf.length < count then
      (store mem p (buf ++ List.replicate (count - buf.length) 0), ppos, ⟨-EFAULT, []⟩)
    else (store mem p (buf.take count), ppos + count, ⟨count, []⟩)

/-- `globalmem_llseek`: the new position and the return value. -/
def globalmemLlseek (fPos offset : ℤ) (orig : ℕ) : ℤ × Reply :=
  match orig with
  | 0 =>
    if offset < 0 then (fPos, ⟨-EINVAL, []⟩)
    -- the cast of the offset to `unsigned int`
    else if (GLOBALMEM_SIZE : ℤ) < offset % 2 ^ 32 then (fPos, ⟨-EINVAL, []⟩)
    else (offset % 2 ^ 32, ⟨offset % 2 ^ 32, []⟩)
  | 1 =>
    if (GLOBALMEM_SIZE : ℤ) < addLoff fPos offset then (fPos, ⟨-EINVAL, []⟩)
    else if addLoff fPos offset < 0 then (fPos, ⟨-EINVAL, []⟩)
    else (addLoff fPos offset, ⟨addLoff fPos offset, []⟩)
  | _ => (fPos, ⟨-EINVAL, []⟩)

def globalmemIoctl (mem : ℕ → UInt8) (cmd : ℕ) : (ℕ → UInt8) × Reply :=
  if cmd = MEM_CLEAR then (store mem 0 (List.replicate GLOBALMEM_SIZE 0), ⟨0, []⟩)
  else (mem, ⟨-EINVAL, []⟩)

/-- An open file: the device that `globalmem_open` found for it and its position. In
`globalmem` there is one device, in `multi_globalmem` one for each minor number. -/
structure File (δ : Type) where
  privateData : δ
  fPos : ℤ

/-- The memories of the devices, from the beginning of `mem` on, and the open files. -/
structure St (δ ι : Type) where
  mem : δ → ℕ → UInt8
  file : ι → File δ

inductive Act (ι : Type)
  | read (f : ι) (room size : ℕ)
  | write (f : ι) (buf : List UInt8) (size : ℕ)
  | llseek (f : ι) (offset : ℤ) (orig : ℕ)
  | ioctl (f : ι) (cmd : ℕ)

/-- What the kernel passes on: sizes below its limit and offsets of type `loff_t`. -/
def Admitted {ι : Type} : Act ι → Prop
  | .read _ _ size => size < 2 ^ 31
  | .write _ _ size => size < 2 ^ 31
  | .llseek _ offset _ => -2 ^ 63 ≤ offset ∧ offset < 2 ^ 63
  | .ioctl _ _ => True

variable {δ ι : Type} [DecidableEq δ] [DecidableEq ι]

def St.setPos (s : St δ ι) (f : ι) (pos : ℤ) : St δ ι :=
  { s with file := Function.update s.file f { s.file f with fPos := pos } }

def St.setMem (s : St δ ι) (d : δ) (m : ℕ → UInt8) : St δ ι :=
  { s with mem := Function.update s.mem d m }

def call (s : St δ ι) : Act ι → St δ ι × Reply
  | .read f room size =>
    let r := globalmemRead (s.mem (s.file f).privateData) room size (s.file f).fPos
    (s.setPos f r.1, r.2)
  | .write f buf size =>
    let dev := (s.file f).privateData
    let r := globalmemWrite (s.mem dev) buf size (s.file f).fPos
    ((s.setMem dev r.1).setPos f r.2.1, r.2.2)
  | .llseek f offset orig =>
    let r := globalmemLlseek (s.file f).fPos offset orig
    (s.setPos f r.1, r.2)
  | .ioctl f cmd =>
    let dev := (s.file f).privateData
    let r := globalmemIoctl (s.mem dev) cmd
    (s.setMem dev r.1, r.2)

/-! ### Files of a fixed size -/

/-- The contents of the files and a position in one of them for every handle. -/
structure Disk (δ ι : Type) where
  contents : δ → ℕ → UInt8
  dev : ι → δ
  pos : ι → ℕ

/-- How many of `size` bytes from `p` on the file has. -/
def span (p size : ℕ) : ℕ := min (p + size) GLOBALMEM_SIZE - p

/-- The bytes from `p` on replaced by those of `buf`, and by zeros where `buf` ends. -/
def overwrite (c : ℕ → UInt8) (p n : ℕ) (buf : List UInt8) : ℕ → UInt8 :=
  fun i => if p ≤ i ∧ i < p + n then (buf[i - p]?).getD 0 else c i

/-- Where a seek goes, if it succeeds. An absolute offset counts modulo `2 ^ 32`. -/
def seek (pos : ℕ) (offset : ℤ) : ℕ → Option ℕ
  | 0 =>
    if 0 ≤ offset ∧ offset % 2 ^ 32 ≤ GLOBALMEM_SIZE then some (offset % 2 ^ 32).toNat else none
  | 1 =>
    if 0 ≤ pos + offset ∧ pos + offset ≤ GLOBALMEM_SIZE then some (pos + offset).toNat else none
  | _ => none

/-- The operations of the files. Only the handle that is called moves, and only the file that
it stands for changes. -/
def Disk.call (α : Disk δ ι) : Act ι → Disk δ ι × Reply
  | .read f room size =>
    let n := span (α.pos f) size
    if room < n then (α, ⟨-EFAULT, []⟩)
    else
      ({ α with pos := Function.update α.pos f (α.pos f + n) },
        ⟨n, (List.range n).map fun i => α.contents (α.dev f) (α.pos f + i)⟩)
  | .write f buf size =>
    let n := span (α.pos f) size
    let c := Function.update α.contents (α.dev f)
      (overwrite (α.contents (α.dev f)) (α.pos f) n buf)
    if buf.length < n then ({ α with contents := c }, ⟨-EFAULT, []⟩)
    else ({ α with contents := c, pos := Function.update α.pos f (α.pos f + n) }, ⟨n, []⟩)
  | .llseek f offset orig =>
    match seek (α.pos f) offset orig with
    | some p => ({ α with pos := Function.update α.pos f p }, ⟨p, []⟩)
    | none => (α, ⟨-EINVAL, []⟩)
  | .ioctl f cmd =>
    if cmd = MEM_CLEAR then
      ({ α with contents := Function.update α.contents (α.dev f) fun i =>
          if i < GLOBALMEM_SIZE then 0 else α.contents (α.dev f) i }, ⟨0, []⟩)
    else (α, ⟨-EINVAL, []⟩)

/-- The devices hold the contents of the files, byte by byte and also behind the last one, and
the open files stand where the handles stand. -/
structure Agree (s : St δ ι) (α : Disk δ ι) : Prop where
  mem : s.mem = α.contents
  file : ∀ f, s.file f = ⟨α.dev f, α.pos f⟩
  pos : ∀ f, α.pos f < 2 ^ 63

/-! ### Sizes and positions -/

lemma toUnsignedLong_natCast {p : ℕ} (h : p < 2 ^ 63) : toUnsignedLong p = p := by
  unfold toUnsignedLong
  omega

lemma clampCount_eq_span {p size : ℕ} (hp : p < GLOBALMEM_SIZE) (h : size < 2 ^ 31) :
    clampCount p size = span p size := by
  unfold clampCount span
  rw [wrap_of_lt (by omega)]
  simp only
  split <;> omega

lemma span_of_ge {p : ℕ} (hp : GLOBALMEM_SIZE ≤ p) (size : ℕ) : span p size = 0 := by
  unfold span
  omega

lemma add_span_lt {p : ℕ} (h : p < 2 ^ 63) (size : ℕ) : p + span p size < 2 ^ 63 := by
  unfold span GLOBALMEM_SIZE
  omega

lemma addLoff_eq {p : ℕ} {offset : ℤ} (hp : p < 2 ^ 63) (ho : -2 ^ 63 ≤ offset ∧ offset < 2 ^ 63) :
    addLoff p offset = if (p : ℤ) + offset < 2 ^ 63 then p + offset else p + offset - 2 ^ 64 := by
  unfold addLoff
  split
  · exact Int.bmod_eq_of_le (by omega) (by omega)
  · rw [← Int.sub_bmod_right]
    exact Int.bmod_eq_of_le (by omega) (by omega)

/-! ### One operation -/

lemma globalmemRead_eq (mem : ℕ → UInt8) (room : ℕ) {size p : ℕ} (hsize : size < 2 ^ 31)
    (hp : p < 2 ^ 63) :
    globalmemRead mem room size p =
      if room < span p size then ((p : ℤ), ⟨-EFAULT, []⟩)
      else (((p + span p size : ℕ) : ℤ), ⟨span p size, load mem p (span p size)⟩) := by
  unfold globalmemRead
  rw [toUnsignedLong_natCast hp]
  by_cases hend : GLOBALMEM_SIZE ≤ p
  · rw [if_pos hend, span_of_ge hend, if_neg (Nat.not_lt_zero room)]
    rfl
  · simp only [if_neg hend, clampCount_eq_span (Nat.lt_of_not_ge hend) hsize]
    push_cast
    rfl

lemma store_eq_overwrite {mem : ℕ → UInt8} {p n : ℕ} {bs buf : List UInt8} (hn : bs.length = n)
    (hbs : ∀ k < n, bs[k]? = some ((buf[k]?).getD 0)) : store mem p bs = overwrite mem p n buf := by
  funext i
  unfold overwrite
  split
  · rename_i hi
    rw [store, if_pos hi.1, hbs (i - p) (by omega), Option.getD_some]
  · rename_i hi
    rcases Nat.lt_or_ge i p with hlt | hge
    · exact store_of_lt hlt
    · exact store_of_ge (by omega)

lemma store_padded {mem : ℕ → UInt8} {p n : ℕ} {buf : List UInt8} (h : buf.length < n) :
    store mem p (buf ++ List.replicate (n - buf.length) 0) = overwrite mem p n buf := by
  refine store_eq_overwrite (by simp; omega) fun k hk => ?_
  rcases Nat.lt_or_ge k buf.length with hlt | hge
  · rw [List.getElem?_append_left hlt, List.getElem?_eq_getElem hlt, Option.getD_some]
  · rw [List.getElem?_append_right hge, List.getElem?_replicate_of_lt (by omega),
      List.getElem?_eq_none hge, Option.getD_none]

lemma store_take {mem : ℕ → UInt8} {p n : ℕ} {buf : List UInt8} (h : n ≤ buf.length) :
    store mem p (buf.take n) = overwrite mem p n buf := by
  refine store_eq_overwrite (by simpa using h) fun k hk => ?_
  rw [List.getElem?_take_of_lt hk, List.getElem?_eq_getElem (by omega), Option.getD_some]

lemma overwrite_zero (mem : ℕ → UInt8) (p : ℕ) (buf : List UInt8) :
    overwrite mem p 0 buf = mem := by
  funext i
  exact if_neg (by omega)

lemma globalmemWrite_eq (mem : ℕ → UInt8) (buf : List UInt8) {size p : ℕ}
    (hsize : size < 2 ^ 31) (hp : p < 2 ^ 63) :
    globalmemWrite mem buf size p =
      (overwrite mem p (span p size) buf,
        if buf.length < span p size then ((p : ℤ), ⟨-EFAULT, []⟩)
        else (((p + span p size : ℕ) : ℤ), ⟨span p size, []⟩)) := by
  unfold globalmemWrite
  rw [toUnsignedLong_natCast hp]
  by_cases hend : GLOBALMEM_SIZE ≤ p
  · rw [if_pos hend, span_of_ge hend, if_neg (Nat.not_lt_zero _), overwrite_zero]
    rfl
  · simp only [if_neg hend, clampCount_eq_span (Nat.lt_of_not_ge hend) hsize]
    by_cases hshort : buf.length < span p size
    · rw [if_pos hshort, if_pos hshort, store_padded hshort]
    · rw [if_neg hshort, if_neg hshort, store_take (Nat.le_of_not_lt hshort)]
      push_cast
      rfl

lemma globalmemLlseek_eq {p : ℕ} {offset : ℤ} (hp : p < 2 ^ 63)
    (ho : -2 ^ 63 ≤ offset ∧ offset < 2 ^ 63) (orig : ℕ) :
    globalmemLlseek p offset orig =
      match seek p offset orig with
      | some q => ((q : ℤ), ⟨q, []⟩)
      | none => ((p : ℤ), ⟨-EINVAL, []⟩) := by
  match orig with
  | 0 =>
    simp only [globalmemLlseek, seek]
    by_cases hneg : offset < 0
    · rw [if_pos hneg, if_neg (by omega)]
    by_cases hbig : (GLOBALMEM_SIZE : ℤ) < offset % 2 ^ 32
    · rw [if_neg hneg, if_pos hbig, if_neg (by omega)]
    · rw [if_neg hneg, if_neg hbig, if_pos (by omega)]
      have hcast : ((offset % 2 ^ 32).toNat : ℤ) = offset % 2 ^ 32 := by omega
      simp only [hcast]
  | 1 =>
    -- a sum that leaves the range of `loff_t` comes out negative
    simp only [globalmemLlseek, seek, addLoff_eq hp ho]
    by_cases hin : 0 ≤ (p : ℤ) + offset ∧ (p : ℤ) + offset ≤ GLOBALMEM_SIZE
    · have hrange : (p : ℤ) + offset < 2 ^ 63 := by
        have := hin.2
        unfold GLOBALMEM_SIZE at this
        omega
      have hcast : (((p : ℤ) + offset).toNat : ℤ) = p + offset := by omega
      simp only [if_pos hrange, if_pos hin, hcast]
      rw [if_neg (by omega), if_neg (by omega)]
    · rw [if_neg hin]
      by_cases hrange : (p : ℤ) + offset < 2 ^ 63
      · simp only [if_pos hrange]
        by_cases hbig : (GLOBALMEM_SIZE : ℤ) < p + offset
        · rw [if_pos hbig]
        · rw [if_neg hbig, if_pos (by omega)]
      · simp only [if_neg hrange]
        have hneg : (p : ℤ) + offset - 2 ^ 64 < 0 := by omega
        rw [if_neg (by unfold GLOBALMEM_SIZE; omega), if_pos hneg]
  | _ + 2 => rfl

lemma seek_le {p q : ℕ} {offset : ℤ} {orig : ℕ} (h : seek p offset orig = some q) :
    q ≤ GLOBALMEM_SIZE := by
  match orig with
  | 0 =>
    obtain ⟨hin, h⟩ := Option.ite_none_right_eq_some.mp h
    have := Option.some.inj h
    omega
  | 1 =>
    obtain ⟨hin, h⟩ := Option.ite_none_right_eq_some.mp h
    have := Option.some.inj h
    omega
  | _ + 2 => cases h

lemma globalmemIoctl_eq (mem : ℕ → UInt8) (cmd : ℕ) :
    globalmemIoctl mem cmd =
      if cmd = MEM_CLEAR then (fun i => if i < GLOBALMEM_SIZE then 0 else mem i, ⟨0, []⟩)
      else (mem, ⟨-EINVAL, []⟩) := by
  have hclear : store mem 0 (List.replicate GLOBALMEM_SIZE 0) =
      fun i => if i < GLOBALMEM_SIZE then 0 else mem i := by
    funext i
    rw [store_replicate]
    simp
  rw [globalmemIoctl, hclear]

/-! ### The simulation -/

omit [DecidableEq δ] in
lemma Agree.setPos {s : St δ ι} {α : Disk δ ι} (h : Agree s α) (f : ι) {q : ℕ} (hq : q < 2 ^ 63) :
    Agree (s.setPos f q) { α with pos := Function.update α.pos f q } := by
  refine ⟨h.mem, fun g => ?_, fun g => ?_⟩
  · by_cases hg : g = f
    · subst hg
      simp [St.setPos, h.file g]
    · simp [St.setPos, Function.update_of_ne hg, h.file g]
  · by_cases hg : g = f
    · subst hg
      simpa using hq
    · simpa [Function.update_of_ne hg] using h.pos g

omit [DecidableEq δ] in
lemma Agree.setPos_self {s : St δ ι} {α : Disk δ ι} (h : Agree s α) (f : ι) :
    Agree (s.setPos f (α.pos f)) α := by
  have hset := h.setPos f (h.pos f)
  rwa [Function.update_eq_self] at hset

omit [DecidableEq ι] in
lemma Agree.setMem {s : St δ ι} {α : Disk δ ι} (h : Agree s α) (d : δ) (m : ℕ → UInt8) :
    Agree (s.setMem d m) { α with contents := Function.update α.contents d m } :=
  ⟨by rw [← h.mem]; rfl, h.file, h.pos⟩

omit [DecidableEq ι] in
lemma Agree.setMem_self {s : St δ ι} {α : Disk δ ι} (h : Agree s α) (d : δ) :
    Agree (s.setMem d (α.contents d)) α := by
  have hset := h.setMem d (α.contents d)
  rwa [Function.update_eq_self] at hset

/-- **One call**: the driver answers as the file does, and they agree afterwards. -/
lemma call_simulates {s : St δ ι} {α : Disk δ ι} (h : Agree s α) {a : Act ι} (ha : Admitted a) :
    (call s a).2 = (α.call a).2 ∧ Agree (call s a).1 (α.call a).1 := by
  cases a with
  | read f room size =>
    simp only [call, Disk.call, h.file f, h.mem, globalmemRead_eq _ room ha (h.pos f)]
    split
    · exact ⟨rfl, h.setPos_self f⟩
    · exact ⟨rfl, h.setPos f (add_span_lt (h.pos f) size)⟩
  | write f buf size =>
    simp only [call, Disk.call, h.file f, h.mem, globalmemWrite_eq _ buf ha (h.pos f)]
    have hwritten := h.setMem (α.dev f)
      (overwrite (α.contents (α.dev f)) (α.pos f) (span (α.pos f) size) buf)
    split
    · exact ⟨rfl, hwritten.setPos_self f⟩
    · exact ⟨rfl, hwritten.setPos f (add_span_lt (h.pos f) size)⟩
  | llseek f offset orig =>
    simp only [call, Disk.call, h.file f, globalmemLlseek_eq (h.pos f) ha orig]
    cases hseek : seek (α.pos f) offset orig with
    | none => exact ⟨rfl, h.setPos_self f⟩
    | some q =>
      have hq := seek_le hseek
      exact ⟨rfl, h.setPos f (by unfold GLOBALMEM_SIZE at hq; omega)⟩
  | ioctl f cmd =>
    simp only [call, Disk.call, h.file f, h.mem, globalmemIoctl_eq]
    split
    · exact ⟨rfl, h.setMem _ _⟩
    · exact ⟨rfl, h.setMem_self _⟩

/-- **The devices behave as random-access files**: every sequence of calls by any handles gets
the answers of the files, and afterwards every byte of every device and every position is
that of the files. -/
theorem globalmem_random_access {s : St δ ι} {α : Disk δ ι} (h : Agree s α) {as : List (Act ι)}
    (has : ∀ a ∈ as, Admitted a) :
    (serve call s as).2 = (serve Disk.call α as).2 ∧
      Agree (serve call s as).1 (serve Disk.call α as).1 :=
  serve_simulates (fun _ _ _ hR hK => call_simulates hR hK) h has

/-- Two handles of one device and one of another: a write across the end of the first device,
a read of it through the other handle, and a read at the end. -/
theorem globalmem_random_access_across_end :
    (serve call (⟨fun _ _ => 0, fun f => ⟨if f = 2 then 1 else 0, 0⟩⟩ : St (Fin 2) (Fin 3))
      [.llseek 0 0xffe 0, .write 0 [1, 2, 3] 3, .llseek 1 0xffd 0, .read 1 9 9, .read 1 9 9,
        .read 2 2 2]).2 =
      [⟨0xffe, []⟩, ⟨2, []⟩, ⟨0xffd, []⟩, ⟨3, [0, 1, 2]⟩, ⟨0, []⟩, ⟨2, [0, 0]⟩] := by
  have hagree : Agree (⟨fun _ _ => 0, fun f => ⟨if f = 2 then 1 else 0, 0⟩⟩ : St (Fin 2) (Fin 3))
      ⟨fun _ _ => 0, fun f => if f = 2 then 1 else 0, fun _ => 0⟩ :=
    ⟨rfl, fun _ => rfl, fun _ => Nat.two_pow_pos 63⟩
  refine (globalmem_random_access hagree (by simp [Admitted])).1.trans ?_
  decide +kernel

/-! ### Seeks -/

def InRange (pos : ℤ) : Prop := 0 ≤ pos ∧ pos ≤ GLOBALMEM_SIZE

instance (pos : ℤ) : Decidable (InRange pos) := inferInstanceAs (Decidable (_ ∧ _))

def target (fPos offset : ℤ) (orig : ℕ) : ℤ := if orig = 0 then offset else fPos + offset

/-- The seek succeeds if its target is in range, and goes there; otherwise it fails and leaves
the position. -/
def SeeksTarget (fPos offset : ℤ) (orig : ℕ) : Prop :=
  globalmemLlseek fPos offset orig =
    if InRange (target fPos offset orig) then
      (target fPos offset orig, ⟨target fPos offset orig, []⟩)
    else (fPos, ⟨-EINVAL, []⟩)

/-- An absolute offset behind four gigabytes whose lower half is a position. -/
def Truncated (offset : ℤ) (orig : ℕ) : Prop :=
  orig = 0 ∧ 2 ^ 32 ≤ offset ∧ offset % 2 ^ 32 ≤ GLOBALMEM_SIZE

lemma InRange.eq_natCast {pos : ℤ} (h : InRange pos) : ∃ p : ℕ, pos = p ∧ p ≤ GLOBALMEM_SIZE :=
  ⟨pos.toNat, by have := h.1; omega, by have := h.2; omega⟩

lemma clampCount_le {p : ℕ} (size : ℕ) : clampCount p size ≤ GLOBALMEM_SIZE - p := by
  unfold clampCount
  simp only
  split <;> omega

lemma inRange_add_clampCount {p : ℕ} (h : p ≤ GLOBALMEM_SIZE) (size : ℕ) :
    InRange ((p : ℤ) + clampCount p size) := by
  have hclamp := clampCount_le (p := p) size
  exact ⟨by omega, by omega⟩

lemma inRange_globalmemRead {pos : ℤ} (h : InRange pos) (mem : ℕ → UInt8) (room size : ℕ) :
    InRange (globalmemRead mem room size pos).1 := by
  obtain ⟨p, rfl, hp⟩ := h.eq_natCast
  have hlong : toUnsignedLong p = p :=
    toUnsignedLong_natCast (by unfold GLOBALMEM_SIZE at hp; omega)
  simp only [globalmemRead, hlong]
  split
  · exact h
  · split
    · exact h
    · exact inRange_add_clampCount hp size

lemma inRange_globalmemWrite {pos : ℤ} (h : InRange pos) (mem : ℕ → UInt8) (buf : List UInt8)
    (size : ℕ) : InRange (globalmemWrite mem buf size pos).2.1 := by
  obtain ⟨p, rfl, hp⟩ := h.eq_natCast
  have hlong : toUnsignedLong p = p :=
    toUnsignedLong_natCast (by unfold GLOBALMEM_SIZE at hp; omega)
  simp only [globalmemWrite, hlong]
  split
  · exact h
  · split
    · exact h
    · exact inRange_add_clampCount hp size

lemma inRange_globalmemLlseek {pos : ℤ} (h : InRange pos) (offset : ℤ) (orig : ℕ) :
    InRange (globalmemLlseek pos offset orig).1 := by
  match orig with
  | 0 =>
    simp only [globalmemLlseek]
    split
    · exact h
    · split
      · exact h
      · exact ⟨by omega, by omega⟩
  | 1 =>
    simp only [globalmemLlseek]
    split
    · exact h
    · split
      · exact h
      · exact ⟨by omega, by omega⟩
  | _ + 2 => exact h

omit [DecidableEq δ] in
lemma inRange_setPos {s : St δ ι} (h : ∀ g, InRange (s.file g).fPos) (f : ι) {pos : ℤ}
    (hpos : InRange pos) (g : ι) : InRange ((s.setPos f pos).file g).fPos := by
  by_cases hg : g = f
  · subst hg
    simpa [St.setPos] using hpos
  · simpa [St.setPos, Function.update_of_ne hg] using h g

lemma inRange_call {s : St δ ι} (h : ∀ g, InRange (s.file g).fPos) (a : Act ι) :
    ∀ g, InRange ((call s a).1.file g).fPos := by
  cases a with
  | read f room size => exact inRange_setPos h f (inRange_globalmemRead (h f) _ room size)
  | write f buf size => exact inRange_setPos h f (inRange_globalmemWrite (h f) _ buf size)
  | llseek f offset orig => exact inRange_setPos h f (inRange_globalmemLlseek (h f) offset orig)
  | ioctl f cmd => exact h

/-- **One seek.** The sum of the relative seek is compared as it is; of an absolute offset only
the lower half is. -/
lemma seeksTarget_iff {pos offset : ℤ} {orig : ℕ} (hpos : InRange pos)
    (ho : -2 ^ 63 ≤ offset ∧ offset < 2 ^ 63) (horig : orig = 0 ∨ orig = 1) :
    SeeksTarget pos offset orig ↔ ¬ Truncated offset orig := by
  obtain ⟨p, rfl, hp⟩ := hpos.eq_natCast
  have hsize : GLOBALMEM_SIZE = 4096 := rfl
  unfold SeeksTarget
  rw [globalmemLlseek_eq (by omega) ho]
  rcases horig with rfl | rfl
  · simp only [seek, target, if_true]
    by_cases hin : InRange offset
    · have hlow : offset % 2 ^ 32 = offset := Int.emod_eq_of_lt hin.1 (by have := hin.2; omega)
      have hcast : (offset.toNat : ℤ) = offset := Int.toNat_of_nonneg hin.1
      have hboth : 0 ≤ offset ∧ offset ≤ GLOBALMEM_SIZE := hin
      rw [if_pos hin, hlow, if_pos hboth]
      simp only [hcast, true_iff]
      rintro ⟨-, hbig, -⟩
      have := hin.2
      omega
    · rw [if_neg hin]
      by_cases htrunc : 0 ≤ offset ∧ offset % 2 ^ 32 ≤ GLOBALMEM_SIZE
      · -- the seek goes to the lower half of an offset that is too large
        rw [if_pos htrunc]
        refine iff_of_false (fun h => ?_) (not_not_intro ⟨rfl, ?_, htrunc.2⟩)
        · have hret : ((offset % 2 ^ 32).toNat : ℤ) = -EINVAL :=
            congrArg (fun r : ℤ × Reply => r.2.ret) h
          unfold EINVAL at hret
          omega
        · by_contra hsmall
          rw [Int.emod_eq_of_lt htrunc.1 (by omega)] at htrunc
          exact hin htrunc
      · rw [if_neg htrunc]
        simp only [true_iff]
        rintro ⟨-, hbig, hlow⟩
        exact htrunc ⟨by omega, hlow⟩
  · have hnot : ¬ Truncated offset 1 := fun h => absurd h.1 one_ne_zero
    simp only [seek, target, one_ne_zero, if_false, hnot, not_false_eq_true, iff_true]
    by_cases hin : InRange (p + offset)
    · have hcast : ((p + offset).toNat : ℤ) = p + offset := Int.toNat_of_nonneg hin.1
      rw [if_pos hin, if_pos (show 0 ≤ (p : ℤ) + offset ∧ (p : ℤ) + offset ≤ _ from hin)]
      simp only [hcast]
    · rw [if_neg hin, if_neg (show ¬ (0 ≤ (p : ℤ) + offset ∧ (p : ℤ) + offset ≤ _) from hin)]

/-- **Positions stay in range** over every sequence of calls, and then a seek goes to its target
exactly if its offset is not an absolute one that is cut down to a position. -/
theorem globalmem_llseek_targets {s : St δ ι} (h : ∀ f, InRange (s.file f).fPos)
    (as : List (Act ι)) (f : ι) :
    InRange ((serve call s as).1.file f).fPos ∧
      ∀ offset orig, -2 ^ 63 ≤ offset ∧ offset < 2 ^ 63 → orig = 0 ∨ orig = 1 →
        (SeeksTarget ((serve call s as).1.file f).fPos offset orig ↔ ¬ Truncated offset orig) := by
  have hrange := serve_invariant (I := fun s : St δ ι => ∀ g, InRange (s.file g).fPos)
    (fun _ a hs => inRange_call hs a) h as f
  exact ⟨hrange, fun offset orig => seeksTarget_iff hrange⟩

/-- A file stands at the end of its device: a relative seek whose sum overflows is refused. -/
theorem globalmem_llseek_targets_at_end :
    SeeksTarget ((serve call (⟨fun _ _ => 0, fun _ => ⟨0, 0⟩⟩ : St (Fin 1) (Fin 1))
      [.llseek 0 0x1000 0]).1.file 0).fPos (2 ^ 63 - 1) 1 := by
  have hzero : InRange 0 := by decide
  have hseek := globalmem_llseek_targets (δ := Fin 1) (ι := Fin 1)
    (s := ⟨fun _ _ => 0, fun _ => ⟨0, 0⟩⟩) (fun _ => hzero) [.llseek 0 0x1000 0] 0
  exact (hseek.2 (2 ^ 63 - 1) 1 (by decide) (by decide)).mpr fun h => absurd h.1 one_ne_zero

/-- An offset of four gigabytes and five bytes is accepted and leads to the fifth byte. -/
theorem globalmem_llseek_truncates :
    globalmemLlseek 0 (2 ^ 32 + 5) 0 = (5, ⟨5, []⟩) ∧ ¬ SeeksTarget 0 (2 ^ 32 + 5) 0 := by
  refine ⟨by decide, fun h => ?_⟩
  have hpos : (5 : ℤ) = 0 := congrArg Prod.fst h
  exact absurd hpos (by decide)

end LinuxSamples.GlobalMem
