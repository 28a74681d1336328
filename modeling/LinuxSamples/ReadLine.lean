import LinuxSamples.CString
import LinuxSamples.Run

/-!
`readLine` of `read_line.c` and `readLineBuf` of `read_line_buf.c`.

One reads byte after byte, the other fills a buffer that it keeps for the next call. On the same
bytes they return the same lines, however the reads split them, as long as no read of the second
one is interrupted: it does not start such a read again, and what it has taken of the line is lost.
-/

namespace LinuxSamples.ReadLine

open CString Run

/-- How a call of `read` goes: it is interrupted, it fails, or it returns at most `k + 1` bytes. -/
inductive Answer
  | intr
  | error
  | chunk (k : ℕ)
deriving DecidableEq

/-- A descriptor: the bytes that are still to come, and how the next calls of `read` go. All calls
behind these return as many bytes as they can. -/
structure File where
  bytes : List UInt8
  answers : List Answer

inductive Got
  | intr
  | error
  | data (bs : List UInt8)

/-- `read` of at most `n` bytes; there are none at the end of the file. -/
def read (f : File) (n : ℕ) : File × Got :=
  match f.answers with
  | [] => ({ f with bytes := f.bytes.drop n }, .data (f.bytes.take n))
  | .intr :: as => ({ f with answers := as }, .intr)
  | .error :: as => ({ f with answers := as }, .error)
  | .chunk k :: as =>
    let m := min n (k + 1)
    (⟨f.bytes.drop m, as⟩, .data (f.bytes.take m))

/-- What a call returns, and the bytes it has stored. -/
structure Reply where
  ret : ℤ
  stored : List UInt8
deriving DecidableEq

/-- A byte is stored if there is room for it. -/
def keep (n : ℕ) (stored : List UInt8) (c : UInt8) : List UInt8 :=
  if stored.length < n then stored ++ [c] else stored

/-! ### `readLine` -/

/-- The loop of `readLine`, and whether a zero is stored behind the bytes. -/
def readLoop : (fuel : ℕ) → File → (n : ℕ) → (stored : List UInt8) → Option (File × Reply × Bool)
  | 0, _, _, _ => none
  | fuel + 1, f, n, stored =>
    match read f 1 with
    | (f, .intr) => readLoop fuel f n stored
    | (f, .error) => some (f, ⟨-1, stored⟩, false)
    | (f, .data []) =>
      if stored.length = 0 then some (f, ⟨0, stored⟩, false)
      else some (f, ⟨stored.length, stored⟩, true)
    | (f, .data (ch :: _)) =>
      let stored := keep (n - 1) stored ch
      if ch = newline then some (f, ⟨stored.length, stored⟩, true)
      else readLoop fuel f n stored

def File.work (f : File) : ℕ := f.answers.length + f.bytes.length

def readLine (f : File) (n : ℕ) : Option (File × Reply × Bool) :=
  if n = 0 then some (f, ⟨-1, []⟩, false) else readLoop (f.work + 1) f n []

/-! ### `readLineBuf` -/

def rlMaxBuf : ℕ := 10

structure ReadLineBuf where
  buf : List UInt8
  next : ℤ
  len : ℤ

/-- `readLineBufInit`, with what stands in the array. -/
def readLineBufInit (buf : List UInt8) : ReadLineBuf := ⟨buf, 0, 0⟩

inductive Fetch
  | ready
  | eof
  | failed
deriving DecidableEq

/-- The buffer is filled again if it is empty. -/
def fetch (rl : ReadLineBuf) (f : File) : ReadLineBuf × File × Fetch :=
  if rl.len ≤ rl.next then
    match read f rlMaxBuf with
    | (f, .intr) => ({ rl with len := -1 }, f, .failed)
    | (f, .error) => ({ rl with len := -1 }, f, .failed)
    | (f, .data []) => ({ rl with len := 0 }, f, .eof)
    | (f, .data (b :: bs)) =>
      (⟨b :: bs ++ rl.buf.drop (bs.length + 1), 0, bs.length + 1⟩, f, .ready)
  else (rl, f, .ready)

def bufLoop : (fuel : ℕ) → ReadLineBuf → File → (n : ℕ) → (stored : List UInt8) →
    Option (ReadLineBuf × File × Reply)
  | 0, _, _, _, _ => none
  | fuel + 1, rl, f, n, stored =>
    match fetch rl f with
    | (rl, f, .failed) => some (rl, f, ⟨-1, stored⟩)
    | (rl, f, .eof) => some (rl, f, ⟨stored.length, stored⟩)
    | (rl, f, .ready) => do
      let c ← rl.buf[rl.next.toNat]?
      let rl := { rl with next := rl.next + 1 }
      let stored := keep n stored c
      if c = newline then some (rl, f, ⟨stored.length, stored⟩)
      else bufLoop fuel rl f n stored

/-- The bytes in the buffer that have not been fetched. -/
def ReadLineBuf.pending (rl : ReadLineBuf) : List UInt8 :=
  (rl.buf.take rl.len.toNat).drop rl.next.toNat

def readLineBuf (rl : ReadLineBuf) (f : File) (n : ℕ) : Option (ReadLineBuf × File × Reply) :=
  if n = 0 then some (rl, f, ⟨-1, []⟩)
  else bufLoop ((rl.pending ++ f.bytes).length + 1) rl f n []

/-! ### Lines -/

def line : List UInt8 → List UInt8
  | [] => []
  | c :: cs => if c = newline then [c] else c :: line cs

def afterLine (bs : List UInt8) : List UInt8 := bs.drop (line bs).length

lemma line_newline (cs : List UInt8) : line (newline :: cs) = [newline] := if_pos rfl

lemma line_cons {c : UInt8} (hc : c ≠ newline) (cs : List UInt8) :
    line (c :: cs) = c :: line cs := if_neg hc

lemma afterLine_newline (cs : List UInt8) : afterLine (newline :: cs) = cs := by
  rw [afterLine, line_newline]
  rfl

lemma afterLine_cons {c : UInt8} (hc : c ≠ newline) (cs : List UInt8) :
    afterLine (c :: cs) = afterLine cs := by
  rw [afterLine, line_cons hc]
  rfl

lemma keep_append (n : ℕ) (stored : List UInt8) (c : UInt8) (cs : List UInt8) :
    keep n stored c ++ cs.take (n - (keep n stored c).length) =
      stored ++ (c :: cs).take (n - stored.length) := by
  unfold keep
  split
  · rename_i hlt
    obtain ⟨k, hk⟩ : ∃ k, n - stored.length = k + 1 := ⟨n - stored.length - 1, by omega⟩
    have hk' : n - (stored ++ [c]).length = k := by
      rw [List.length_append, List.length_singleton]
      omega
    rw [hk, hk', List.take_succ_cons, List.append_assoc, List.singleton_append]
  · rename_i hge
    have hzero : n - stored.length = 0 := by omega
    rw [hzero, List.take_zero, List.take_zero]

lemma read_cases {f : File} (herr : .error ∉ f.answers) {n : ℕ} (hn : 0 < n) :
    (∃ as, f.answers = .intr :: as ∧ .error ∉ as ∧ read f n = (⟨f.bytes, as⟩, .intr)) ∨
    ∃ m as, 0 < m ∧ m ≤ n ∧ .error ∉ as ∧ as.length ≤ f.answers.length ∧
      read f n = (⟨f.bytes.drop m, as⟩, .data (f.bytes.take m)) := by
  obtain ⟨bytes, answers⟩ := f
  cases answers with
  | nil => exact Or.inr ⟨n, [], hn, le_rfl, List.not_mem_nil, le_rfl, rfl⟩
  | cons a as =>
    obtain ⟨hne, has⟩ := not_or.mp (List.mem_cons.not.mp herr)
    cases a with
    | intr => exact Or.inl ⟨as, rfl, has, rfl⟩
    | error => exact absurd rfl hne
    | chunk k =>
      exact Or.inr ⟨min n (k + 1), as, by omega, Nat.min_le_left .., has, Nat.le_succ _, rfl⟩

/-- **The loop of `readLine`** takes the first line, however often it is interrupted. -/
lemma readLoop_spec {n fuel : ℕ} {f : File} (hfuel : f.work < fuel) (herr : .error ∉ f.answers)
    (stored : List UInt8) :
    ∃ f' b, readLoop fuel f n stored =
        some (f', ⟨(stored ++ (line f.bytes).take (n - 1 - stored.length)).length,
          stored ++ (line f.bytes).take (n - 1 - stored.length)⟩, b) ∧
      f'.bytes = afterLine f.bytes ∧ .error ∉ f'.answers := by
  induction fuel generalizing f stored with
  | zero => exact absurd hfuel (Nat.not_lt_zero _)
  | succ fuel ih =>
    rcases read_cases herr Nat.one_pos with
      ⟨as, hans, has, hread⟩ | ⟨m, as, hm, hle, has, hlen, hread⟩
    · -- the read is started again
      have hwork : File.work ⟨f.bytes, as⟩ < fuel := by
        simp only [File.work, hans, List.length_cons] at hfuel ⊢
        omega
      rw [readLoop, hread]
      exact ih hwork has stored
    · obtain rfl : m = 1 := by omega
      rw [readLoop, hread]
      cases hbytes : f.bytes with
      | nil =>
        simp only [List.take_nil, List.drop_nil, line, List.append_nil]
        cases stored with
        | nil => exact ⟨⟨[], as⟩, false, rfl, rfl, has⟩
        | cons d stored => exact ⟨⟨[], as⟩, true, rfl, rfl, has⟩
      | cons ch cs =>
        simp only [List.take_succ_cons, List.take_zero, List.drop_succ_cons, List.drop_zero]
        by_cases hch : ch = newline
        · subst hch
          rw [if_pos rfl, line_newline, afterLine_newline]
          have hkeep := keep_append (n - 1) stored newline []
          rw [List.take_nil, List.append_nil] at hkeep
          rw [hkeep]
          exact ⟨⟨cs, as⟩, true, rfl, rfl, has⟩
        · rw [if_neg hch, line_cons hch, afterLine_cons hch, ← keep_append]
          refine ih ?_ has (keep (n - 1) stored ch)
          simp only [File.work, hbytes, List.length_cons] at hfuel ⊢
          omega

/-! ### The buffer -/

/-- The buffer has its size, and holds no more than that. -/
structure ReadLineBuf.Good (rl : ReadLineBuf) : Prop where
  length : rl.buf.length = rlMaxBuf
  next : 0 ≤ rl.next
  len : rl.len ≤ rlMaxBuf

namespace ReadLineBuf

variable {rl : ReadLineBuf}

lemma good_init {buf : List UInt8} (h : buf.length = rlMaxBuf) : (readLineBufInit buf).Good :=
  ⟨h, le_rfl, show (0 : ℤ) ≤ rlMaxBuf by decide⟩

lemma Good.pending_eq_nil (h : rl.Good) : rl.pending = [] ↔ rl.len ≤ rl.next := by
  have hnext := h.next
  rw [pending, List.drop_eq_nil_iff, List.length_take, h.length]
  have := h.len
  omega

lemma Good.fetch (h : rl.Good) {c : UInt8} {cs : List UInt8} (hp : rl.pending = c :: cs) :
    rl.buf[rl.next.toNat]? = some c ∧ { rl with next := rl.next + 1 }.pending = cs ∧
      { rl with next := rl.next + 1 }.Good := by
  have hnext := h.next
  have hlt : rl.next.toNat < (rl.buf.take rl.len.toNat).length := by
    by_contra hn
    rw [pending, List.drop_eq_nil_of_le (by omega)] at hp
    cases hp
  have hsucc : (rl.next + 1).toNat = rl.next.toNat + 1 := by omega
  rw [pending, List.drop_eq_getElem_cons hlt, List.cons.injEq] at hp
  refine ⟨?_, ?_, h.length, ?_, h.len⟩
  · rw [← hp.1, List.getElem_take, List.getElem?_eq_getElem]
  · rw [pending, hsucc]
    exact hp.2
  · show 0 ≤ rl.next + 1
    omega

lemma Good.filled (h : rl.Good) {b : UInt8} {bs : List UInt8} (hlen : bs.length < rlMaxBuf) :
    (ReadLineBuf.mk (b :: bs ++ rl.buf.drop (bs.length + 1)) 0 (bs.length + 1)).pending = b :: bs ∧
      (ReadLineBuf.mk (b :: bs ++ rl.buf.drop (bs.length + 1)) 0 (bs.length + 1)).Good := by
  have hnat : ((bs.length : ℤ) + 1).toNat = (b :: bs).length := by
    rw [List.length_cons]
    omega
  refine ⟨?_, ?_, le_rfl, ?_⟩
  · rw [pending, hnat, List.take_left]
    rfl
  · have := h.length
    simp only [List.cons_append, List.length_cons, List.length_append, List.length_drop]
    omega
  · show (bs.length : ℤ) + 1 ≤ rlMaxBuf
    omega

end ReadLineBuf

/-- None of the reads that the call needs for its line is interrupted, if these bytes are in the
buffer and those are still to come. -/
def Calm : List Answer → (pending bytes : List UInt8) → Prop
  | [], _, _ => True
  | .chunk k :: as, pending, bytes =>
    newline ∈ pending ∨ bytes = [] ∨
      Calm as (bytes.take (min rlMaxBuf (k + 1))) (bytes.drop (min rlMaxBuf (k + 1)))
  | .intr :: _, pending, _ => newline ∈ pending
  | .error :: _, pending, _ => newline ∈ pending

instance Calm.decidable :
    (as : List Answer) → (pending bytes : List UInt8) → Decidable (Calm as pending bytes)
  | [], _, _ => isTrue trivial
  | .chunk k :: as, pending, bytes =>
    have := Calm.decidable as (bytes.take (min rlMaxBuf (k + 1)))
      (bytes.drop (min rlMaxBuf (k + 1)))
    inferInstanceAs (Decidable (newline ∈ pending ∨ bytes = [] ∨ _))
  | .intr :: _, pending, _ => inferInstanceAs (Decidable (newline ∈ pending))
  | .error :: _, pending, _ => inferInstanceAs (Decidable (newline ∈ pending))

lemma calm_newline {as : List Answer} {pending bytes : List UInt8} (h : newline ∈ pending) :
    Calm as pending bytes := by
  cases as with
  | nil => trivial
  | cons a as =>
    cases a with
    | intr => exact h
    | error => exact h
    | chunk k => exact Or.inl h

lemma calm_cons {as : List Answer} {c : UInt8} (hc : c ≠ newline) {pending bytes : List UInt8} :
    Calm as (c :: pending) bytes ↔ Calm as pending bytes := by
  have hmem : newline ∈ c :: pending ↔ newline ∈ pending :=
    List.mem_cons.trans (or_iff_right (Ne.symm hc))
  cases as with
  | nil => rfl
  | cons a as =>
    cases a with
    | intr => exact hmem
    | error => exact hmem
    | chunk k => exact or_congr_left hmem

/-- What is in the buffer, and behind it what is still to come. -/
def ahead (rl : ReadLineBuf) (f : File) : List UInt8 := rl.pending ++ f.bytes

section Loop

variable {rl : ReadLineBuf} {f : File}

/-- What `fetch` leaves: no byte is left, or there is one in the buffer. -/
inductive Fetched (rl : ReadLineBuf) (f : File) : ReadLineBuf × File × Fetch → Prop
  | failed {rl' : ReadLineBuf} {f' : File} (good : rl'.Good) (err : .error ∉ f'.answers)
      (calm : ¬ Calm f.answers rl.pending f.bytes) : Fetched rl f (rl', f', .failed)
  | eof {rl' : ReadLineBuf} {f' : File} (good : rl'.Good) (err : .error ∉ f'.answers)
      (before : ahead rl f = []) (after : ahead rl' f' = [])
      (calm : Calm f.answers rl.pending f.bytes) : Fetched rl f (rl', f', .eof)
  | ready {rl' : ReadLineBuf} {f' : File} {c : UInt8} {cs : List UInt8} (good : rl'.Good)
      (err : .error ∉ f'.answers) (first : rl'.pending = c :: cs)
      (same : ahead rl' f' = ahead rl f)
      (calm : Calm f'.answers rl'.pending f'.bytes ↔ Calm f.answers rl.pending f.bytes) :
      Fetched rl f (rl', f', .ready)

lemma fetched_data (h : rl.Good) (hp : rl.pending = []) {m : ℕ} {as : List Answer} (hm : 0 < m)
    (hle : m ≤ rlMaxBuf) (has : .error ∉ as)
    (hread : read f rlMaxBuf = (⟨f.bytes.drop m, as⟩, .data (f.bytes.take m)))
    (hcalm : Calm f.answers [] f.bytes ↔
      f.bytes = [] ∨ Calm as (f.bytes.take m) (f.bytes.drop m)) :
    Fetched rl f (fetch rl f) := by
  rw [fetch, if_pos (h.pending_eq_nil.mp hp), hread]
  cases hbytes : f.bytes with
  | nil =>
    rw [List.take_nil, List.drop_nil]
    refine .eof ⟨h.length, h.next, show (0 : ℤ) ≤ rlMaxBuf by decide⟩ has ?_ ?_ ?_
    · rw [ahead, hp, hbytes]
      rfl
    · simp [ahead, ReadLineBuf.pending]
    · rw [hp]
      exact hcalm.mpr (Or.inl hbytes)
  | cons b bs =>
    obtain ⟨k, rfl⟩ : ∃ k, m = k + 1 := ⟨m - 1, by omega⟩
    rw [List.take_succ_cons]
    have hlen : (bs.take k).length < rlMaxBuf := by
      rw [List.length_take]
      omega
    obtain ⟨hpending, hgood⟩ := h.filled (b := b) hlen
    refine .ready hgood has hpending ?_ ?_
    · rw [ahead, ahead, hpending, hp, hbytes, List.nil_append, List.drop_succ_cons,
        List.cons_append, List.take_append_drop]
    · rw [hpending, hp, hcalm, hbytes, List.take_succ_cons, or_iff_right (List.cons_ne_nil b bs)]

lemma fetch_spec (h : rl.Good) (herr : .error ∉ f.answers) : Fetched rl f (fetch rl f) := by
  cases hp : rl.pending with
  | cons c cs =>
    have hlt : ¬ rl.len ≤ rl.next := by
      rw [← h.pending_eq_nil, hp]
      exact List.cons_ne_nil c cs
    rw [fetch, if_neg hlt]
    exact .ready h herr hp rfl Iff.rfl
  | nil =>
    obtain ⟨bytes, answers⟩ := f
    cases answers with
    | nil =>
      exact fetched_data h hp (by decide) le_rfl herr rfl (iff_of_true trivial (Or.inr trivial))
    | cons a as =>
      obtain ⟨hne, has⟩ := not_or.mp (List.mem_cons.not.mp herr)
      cases a with
      | intr =>
        rw [fetch, if_pos (h.pending_eq_nil.mp hp)]
        refine .failed ⟨h.length, h.next, show (-1 : ℤ) ≤ rlMaxBuf by decide⟩ has ?_
        rw [hp]
        exact List.not_mem_nil
      | error => exact absurd rfl hne
      | chunk k =>
        refine fetched_data (m := min rlMaxBuf (k + 1)) h hp ?_ (Nat.min_le_left ..) has rfl ?_
        · unfold rlMaxBuf
          omega
        · exact or_iff_right List.not_mem_nil

/-- **The loop of `readLineBuf`** takes the first line if no read is interrupted, and fails
otherwise. -/
lemma bufLoop_spec {n fuel : ℕ} (hfuel : (ahead rl f).length < fuel) (h : rl.Good)
    (herr : .error ∉ f.answers) (stored : List UInt8) :
    ∃ rl' f' r, bufLoop fuel rl f n stored = some (rl', f', r) ∧ rl'.Good ∧ .error ∉ f'.answers ∧
      (Calm f.answers rl.pending f.bytes →
        r = ⟨(stored ++ (line (ahead rl f)).take (n - stored.length)).length,
          stored ++ (line (ahead rl f)).take (n - stored.length)⟩ ∧
        ahead rl' f' = afterLine (ahead rl f)) ∧
      (¬ Calm f.answers rl.pending f.bytes → r.ret = -1) := by
  induction fuel generalizing rl f stored with
  | zero => exact absurd hfuel (Nat.not_lt_zero _)
  | succ fuel ih =>
    have hfetch := fetch_spec h herr
    rw [bufLoop]
    generalize fetch rl f = r at hfetch
    cases hfetch with
    | @failed rl' f' good err calm =>
      exact ⟨rl', f', _, rfl, good, err, fun hc => absurd hc calm, fun _ => rfl⟩
    | @eof rl' f' good err before after calm =>
      refine ⟨rl', f', _, rfl, good, err, fun _ => ⟨?_, ?_⟩, fun hn => absurd calm hn⟩
      · simp [before, line]
      · rw [after, before]
        rfl
    | @ready rl' f' c cs good err first same calm =>
      obtain ⟨hc, hcs, hgood⟩ := good.fetch first
      have hahead : ahead rl f = c :: (cs ++ f'.bytes) := by rw [← same, ahead, first]; rfl
      simp only [hc, Option.bind_eq_bind, Option.bind_some]
      rw [hahead, ← calm, first]
      by_cases hnl : c = newline
      · subst hnl
        rw [if_pos rfl, line_newline, afterLine_newline]
        refine ⟨_, _, _, rfl, hgood, err, fun _ => ⟨?_, ?_⟩, fun hn => ?_⟩
        · have hkeep := keep_append n stored newline []
          rw [List.take_nil, List.append_nil] at hkeep
          rw [hkeep]
        · rw [ahead, hcs]
        · exact absurd (calm_newline List.mem_cons_self) hn
      · rw [if_neg hnl, line_cons hnl, afterLine_cons hnl, ← keep_append, calm_cons hnl]
        have hnext : ahead { rl' with next := rl'.next + 1 } f' = cs ++ f'.bytes := by
          rw [ahead, hcs]
        have hshort : (ahead { rl' with next := rl'.next + 1 } f').length < fuel := by
          rw [hahead, List.length_cons] at hfuel
          rw [hnext]
          omega
        have hrest := ih hshort hgood err (keep n stored c)
        rwa [hnext, hcs] at hrest

end Loop

/-! ### Both on the same bytes -/

/-- `readLineBuf` with its descriptor, `readLine` with a descriptor of the same bytes, and what the
last call of each returned. -/
structure Both where
  rl : ReadLineBuf
  bufFile : File
  file : File
  last : Option (Reply × Reply)

/-- A call of each, with a buffer for `n` bytes and one for a zero more. -/
def step (s : Both) (n : ℕ+) : Option Both := do
  let (rl, bufFile, r) ← readLineBuf s.rl s.bufFile n
  let (file, r', _) ← readLine s.file (n + 1)
  return ⟨rl, bufFile, file, some (r, r')⟩

def start (buf bytes : List UInt8) (bufAnswers answers : List Answer) : Both :=
  ⟨readLineBufInit buf, ⟨bytes, bufAnswers⟩, ⟨bytes, answers⟩, none⟩

/-- The last calls returned the same, and the same bytes are left for the next ones. -/
def Same (s : Both) : Prop :=
  (∀ r ∈ s.last, r.1 = r.2) ∧ ahead s.rl s.bufFile = s.file.bytes

/-- No read of the next call of `readLineBuf` is interrupted. -/
def Undisturbed (s : Both) (_ : ℕ+) : Prop :=
  Calm s.bufFile.answers s.rl.pending s.bufFile.bytes

instance (s : Both) (n : ℕ+) : Decidable (Undisturbed s n) := Calm.decidable ..

structure Both.Ready (s : Both) : Prop where
  good : s.rl.Good
  bufErr : .error ∉ s.bufFile.answers
  err : .error ∉ s.file.answers

lemma step_spec {s : Both} (h : s.Ready) (n : ℕ+) :
    ∃ v, step s n = some v ∧ v.Ready ∧ (ahead s.rl s.bufFile = s.file.bytes →
      (Undisturbed s n → Same v) ∧ (¬ Undisturbed s n → ¬ Same v)) := by
  obtain ⟨rl, bufFile, r, hbuf, hgood, hbufErr, hcalm, hintr⟩ :=
    bufLoop_spec (n := n) (Nat.lt_succ_self _) h.good h.bufErr []
  obtain ⟨file, b, hline, hbytes, herr⟩ :=
    readLoop_spec (n := n + 1) (Nat.lt_succ_self _) h.err []
  have hstep : step s n = some ⟨rl, bufFile, file,
      some (r, ⟨((line s.file.bytes).take n).length, (line s.file.bytes).take n⟩)⟩ := by
    have hcall : readLineBuf s.rl s.bufFile n = some (rl, bufFile, r) := by
      rw [readLineBuf, if_neg n.ne_zero]
      exact hbuf
    have hcall' : readLine s.file (n + 1) = _ := (if_neg (Nat.succ_ne_zero n)).trans hline
    rw [step, hcall, hcall']
    rfl
  refine ⟨_, hstep, ⟨hgood, hbufErr, herr⟩, fun hsame => ⟨fun hok => ?_, fun hno hbad => ?_⟩⟩
  · obtain ⟨rfl, hahead⟩ := hcalm hok
    refine ⟨fun x hx => ?_, ?_⟩
    · obtain rfl := Option.some.inj hx
      rw [hsame]
      rfl
    · rw [hahead, hsame, hbytes]
  · -- the one has failed, and the other one has not
    have hret := congrArg Reply.ret (hbad.1 _ rfl)
    have hneg := hintr hno
    simp only at hret
    omega

/-- **When `readLineBuf` is equivalent to `readLine`.** For all bytes, all ways in which the reads
of both split them and are interrupted, and all sizes, every call returns. Each call of
`readLineBuf` returns the same count and stores the same bytes as that of `readLine`, and no byte
is lost in between, exactly if no read of `readLineBuf` is interrupted. -/
theorem readLineBuf_iff {buf : List UInt8} (hbuf : buf.length = rlMaxBuf) (bytes : List UInt8)
    {bufAnswers answers : List Answer} (hbufErr : .error ∉ bufAnswers) (herr : .error ∉ answers)
    (ns : List ℕ+) :
    (∃ s, exec step (start buf bytes bufAnswers answers) ns = some s) ∧
      (Always step Same (start buf bytes bufAnswers answers) ns ↔
        Guarded step Undisturbed (start buf bytes bufAnswers answers) ns) := by
  have hready : (start buf bytes bufAnswers answers).Ready :=
    ⟨ReadLineBuf.good_init hbuf, hbufErr, herr⟩
  have hsame : Same (start buf bytes bufAnswers answers) :=
    ⟨fun r hr => (by cases hr), by simp [ahead, start, readLineBufInit, ReadLineBuf.pending]⟩
  have hall : Guarded step (fun _ _ => True) (start buf bytes bufAnswers answers) ns :=
    Guarded.of_forall (fun _ _ _ => trivial) _
  obtain ⟨s, hs, -⟩ := hall.exists_exec (I := fun _ => Both.Ready) (n := 0) hready
    fun _ u n hu _ => by
      obtain ⟨v, hv, hready, -⟩ := step_spec hu n
      exact ⟨v, hv, hready⟩
  refine ⟨⟨s, hs⟩, always_iff_guarded (I := fun s => s.Ready ∧ Same s) (fun u hu => hu.2)
    (fun u n v hu hok hv => ?_) (fun u n v hu hno hv => ?_) hs ⟨hready, hsame⟩⟩
  · obtain ⟨v', hv', hready', hspec⟩ := step_spec hu.1 n
    obtain rfl := Option.some.inj (hv.symm.trans hv')
    exact ⟨hready', (hspec hu.2.2).1 hok⟩
  · obtain ⟨v', hv', -, hspec⟩ := step_spec hu.1 n
    obtain rfl := Option.some.inj (hv.symm.trans hv')
    exact (hspec hu.2.2).2 hno

/-- The lines `ab` and `c`, in pieces of one and of four bytes. -/
theorem readLineBuf_iff_pieces :
    Always step Same
      (start (List.replicate 10 0) [97, 98, 10, 99] [.chunk 0, .chunk 3] [.intr, .chunk 7])
      [1, 5, 2] :=
  (readLineBuf_iff (show (List.replicate 10 (0 : UInt8)).length = 10 from rfl) _ (by decide)
    (by decide) _).2.mpr (by decide)

/-- An interruption behind the first byte of `ab`: the call fails, and the next one returns the
rest of the line. -/
theorem readLineBuf_loses_byte :
    (exec step (start (List.replicate 10 0) [97, 98, 10] [.chunk 0, .intr] []) [5]).map
        Both.last = some (some (⟨-1, [97]⟩, ⟨3, [97, 98, 10]⟩)) ∧
      (exec step (start (List.replicate 10 0) [97, 98, 10] [.chunk 0, .intr] []) [5, 5]).map
        Both.last = some (some (⟨2, [98, 10]⟩, ⟨0, []⟩)) := by
  decide

end LinuxSamples.ReadLine
