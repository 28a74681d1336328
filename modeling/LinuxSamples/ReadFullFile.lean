import LinuxSamples.Ledger

/-!
The readers of whole files in `fileio-read-full-file.c`.

Each of them stores the size of the file before it allocates the buffer and reads into it, and
does not take the size back when it fails afterwards. `readfile_stdc` moreover never closes the
stream of a file that it has read, and takes an empty file for a file with a buffer. For every
answer of the library calls it is said when the contract is kept.
-/

namespace LinuxSamples.ReadFullFile

open Ledger

inductive Res
  | file
  | buffer
deriving DecidableEq

/-- `*filesize`, if the pointer is not null; what has been opened, closed, allocated and freed; and
what has been written to `stderr`. -/
structure Io where
  filesize : Option ℕ
  log : List (Ev Res)
  errs : List String

namespace Io

def setSize (s : Io) (size : ℕ) : Io := { s with filesize := some size }

def acquire (s : Io) (r : Res) : Io := { s with log := s.log ++ [.alloc r] }

def release (s : Io) (r : Res) : Io := { s with log := s.log ++ [.free r] }

def say (s : Io) (msg : String) : Io := { s with errs := s.errs ++ [msg] }

def check (s : Io) (ok : Bool) (msg : String) : Io := if ok then s else s.say msg

@[simp] lemma check_filesize (s : Io) (ok : Bool) (msg : String) :
    (s.check ok msg).filesize = s.filesize := by
  cases ok <;> rfl

@[simp] lemma check_log (s : Io) (ok : Bool) (msg : String) : (s.check ok msg).log = s.log := by
  cases ok <;> rfl

end Io

/-- The contents of the buffer that is returned, if any, and the effects. -/
structure Result where
  ret : Option (List UInt8)
  io : Io

/-- The memory that `malloc` returns, and a read of `n` bytes into it. -/
def readInto (memory : ℕ → UInt8) (content : List UInt8) (n : ℕ) : List UInt8 :=
  content.take n ++ ((List.range content.length).map memory).drop n

def short : String := "We read less from the file than we expected due to the problem above.\n"

def grown : String := "File increased in size unexpectedly.\n"

/-! ### `readfile_fstat` -/

/-- What the calls of `readfile_fstat` answer: whether `open`, `fstat`, `malloc` and `close`
succeed, whether the file is regular, how many bytes the first `read` returns at most unless it
fails, and what the second one returns. -/
structure PosixCalls where
  opened : Bool
  stated : Bool
  regular : Bool
  memory : Option (ℕ → UInt8)
  count : Option ℕ
  again : Option UInt8
  closed : Bool

/-- `readfile_fstat` from `malloc` on. -/
def fstatRead (c : PosixCalls) (content : List UInt8) (s : Io) : Result :=
  match c.memory with
  | none => ⟨none, (s.say "malloc() failed.\n").release .file⟩
  | some memory =>
    let s := s.acquire .buffer
    match c.count with
    | none => ⟨none, ((((s.say "read").say short).release .buffer).release .file)⟩
    | some count =>
      let n := min count content.length
      let fileContents := readInto memory content n
      if n < content.length then
        ⟨none, ((((s.say "read").say short).release .buffer).release .file)⟩
      else
        match c.again with
        | some _ => ⟨none, ((s.say grown).release .buffer).release .file⟩
        | none => ⟨some fileContents, (s.release .file).check c.closed "close"⟩

/-- `readfile_fstat`, for a file with this content. -/
def readfileFstat (c : PosixCalls) (content : List UInt8) (filename : Option String)
    (filesize : Option ℕ) : Result :=
  let s : Io := ⟨filesize, [], []⟩
  if filesize = none then ⟨none, s⟩
  else
    let s := s.setSize 0
    match filename with
    | none => ⟨none, s⟩
    | some name =>
      if c.opened = false then ⟨none, s.say "open"⟩
      else
        let s := s.acquire .file
        if c.stated = false then ⟨none, (s.say "stat").release .file⟩
        else if c.regular = false then ⟨none, (s.say s!"Not a file: {name}\n").release .file⟩
        else
          let s := s.setSize content.length
          if content.length = 0 then ⟨none, s.release .file⟩
          else fstatRead c content s

/-! ### `readfile_stdc` -/

/-- What the calls of `readfile_stdc` answer: whether `fopen`, the two calls of `fseek`, `ftell`
and `malloc` succeed, how many bytes the first `fread` returns at most, and what the second one
returns. -/
structure StdcCalls where
  opened : Bool
  seekEnd : Bool
  told : Bool
  seekSet : Bool
  memory : Option (ℕ → UInt8)
  count : ℕ
  again : Option UInt8

/-- `readfile_stdc` from `malloc` on. -/
def stdcRead (c : StdcCalls) (content : List UInt8) (s : Io) : Result :=
  match c.memory with
  | none => ⟨none, (s.say "malloc() failed.\n").release .file⟩
  | some memory =>
    let s := s.acquire .buffer
    let n := min c.count content.length
    let fileContents := readInto memory content n
    if n < content.length then
      ⟨none, ((((s.say "fread").say short).release .buffer).release .file)⟩
    else
      match c.again with
      | some _ => ⟨none, ((s.say grown).release .buffer).release .file⟩
      | none => ⟨some fileContents, s⟩

/-- `readfile_stdc`, for a file with this content. -/
def readfileStdc (c : StdcCalls) (content : List UInt8) (filename : Option String)
    (filesize : Option ℕ) : Result :=
  let s : Io := ⟨filesize, [], []⟩
  if filesize = none then ⟨none, s⟩
  else
    let s := s.setSize 0
    match filename with
    | none => ⟨none, s⟩
    | some _ =>
      if c.opened = false then ⟨none, s.say "fopen"⟩
      else
        let s := s.acquire .file
        if c.seekEnd = false then ⟨none, (s.say "fseek").release .file⟩
        else if c.told = false then ⟨none, (s.say "ftell").release .file⟩
        else if c.seekSet = false then ⟨none, (s.say "fseek").release .file⟩
        else stdcRead c content (s.setSize content.length)

/-! ### The contract -/

/-- The contract: a buffer with the bytes of the file, which is not empty, or no buffer and the
size zero; and everything but that buffer is closed and freed once. -/
def Contract (content : List UInt8) (r : Result) : Prop :=
  match r.ret with
  | some buf => buf = content ∧ 0 < buf.length ∧ r.io.filesize = some buf.length ∧
      Paired [] (r.io.log ++ [.free .buffer])
  | none => (∀ size ∈ r.io.filesize, size = 0) ∧ Paired [] r.io.log

lemma readInto_all (memory : ℕ → UInt8) (content : List UInt8) {n : ℕ} (h : content.length ≤ n) :
    readInto memory content n = content := by
  rw [readInto, List.take_of_length_le h, List.drop_eq_nil_of_le (by simpa using h),
    List.append_nil]

lemma contract_of_zero {content : List UInt8} {s : Io} (hs : s.filesize = some 0)
    (hp : Paired [] s.log) : Contract content ⟨none, s⟩ := by
  refine ⟨fun size h => ?_, hp⟩
  rw [hs] at h
  exact (Option.some.inj h).symm

lemma not_contract_of_size {content : List UInt8} {s : Io} {size : ℕ}
    (hs : s.filesize = some size) (hne : size ≠ 0) : ¬ Contract content ⟨none, s⟩ :=
  fun h => hne (h.1 size hs)

/-- The reads of `readfile_fstat` succeed. -/
def PosixCalls.Reads (c : PosixCalls) (content : List UInt8) : Prop :=
  c.memory ≠ none ∧ (∃ n ∈ c.count, content.length ≤ n) ∧ c.again = none

lemma fstatRead_contract {c : PosixCalls} {content : List UInt8} (hne : content.length ≠ 0)
    {s : Io} (hsize : s.filesize = some content.length) (hlog : s.log = [.alloc .file]) :
    Contract content (fstatRead c content s) ↔ c.Reads content := by
  unfold fstatRead PosixCalls.Reads
  cases hmem : c.memory with
  | none => exact iff_of_false (not_contract_of_size hsize hne) fun h => h.1 rfl
  | some memory =>
    cases hcount : c.count with
    | none =>
      refine iff_of_false (not_contract_of_size hsize hne) ?_
      rintro ⟨-, ⟨n, hn, -⟩, -⟩
      cases hn
    | some count =>
      by_cases hlt : min count content.length < content.length
      · simp only [hlt, if_true]
        refine iff_of_false (not_contract_of_size hsize hne) ?_
        rintro ⟨-, ⟨n, hn, hle⟩, -⟩
        obtain rfl := Option.some.inj hn
        omega
      · simp only [hlt, if_false]
        cases hagain : c.again with
        | some b =>
          refine iff_of_false (not_contract_of_size hsize hne) ?_
          rintro ⟨-, -, hnone⟩
          cases hnone
        | none =>
          refine iff_of_true ?_ ⟨Option.some_ne_none memory, ⟨count, rfl, by omega⟩, rfl⟩
          have hall := readInto_all memory content (Nat.le_of_not_lt hlt)
          have hpaired : Paired [] ([.alloc .file] ++ [.alloc .buffer] ++ [.free .file] ++
              [.free Res.buffer]) := by decide
          rw [← hlog] at hpaired
          refine ⟨hall, ?_, ?_, ?_⟩
          · rw [hall]
            exact Nat.pos_of_ne_zero hne
          · rw [hall, Io.check_filesize]
            exact hsize
          · rw [Io.check_log]
            exact hpaired

/-- When `readfile_fstat` keeps the contract: it fails before it has stored a size, the file is
empty, or everything succeeds. -/
def PosixCalls.Keeps (c : PosixCalls) (content : List UInt8) (filename : Option String)
    (filesize : Option ℕ) : Prop :=
  filesize = none ∨ filename = none ∨ c.opened = false ∨ c.stated = false ∨ c.regular = false ∨
    content = [] ∨ c.Reads content

lemma paired_file : Paired [] [.alloc .file, .free Res.file] := by decide

lemma paired_both :
    Paired [] [.alloc .file, .alloc .buffer, .free .buffer, .free Res.file] := by decide

lemma not_paired_open : ¬ Paired [] [.alloc .file, .alloc .buffer, .free Res.buffer] := by decide

lemma readfileFstat_contract (c : PosixCalls) (content : List UInt8) (filename : Option String)
    (filesize : Option ℕ) :
    Contract content (readfileFstat c content filename filesize) ↔
      c.Keeps content filename filesize := by
  unfold readfileFstat PosixCalls.Keeps
  by_cases hsize : filesize = none
  · rw [if_pos hsize]
    subst hsize
    exact iff_of_true ⟨fun _ h => (by cases h), rfl⟩ (Or.inl rfl)
  rw [if_neg hsize]
  cases filename with
  | none => exact iff_of_true (contract_of_zero rfl rfl) (Or.inr (Or.inl rfl))
  | some name =>
    simp only
    by_cases hopened : c.opened = false
    · rw [if_pos hopened]
      exact iff_of_true (contract_of_zero rfl rfl) (by simp [hopened])
    rw [if_neg hopened]
    by_cases hstated : c.stated = false
    · rw [if_pos hstated]
      exact iff_of_true (contract_of_zero rfl paired_file) (by simp [hstated])
    rw [if_neg hstated]
    by_cases hregular : c.regular = false
    · rw [if_pos hregular]
      exact iff_of_true (contract_of_zero rfl paired_file) (by simp [hregular])
    rw [if_neg hregular]
    by_cases hempty : content.length = 0
    · rw [if_pos hempty]
      refine iff_of_true (contract_of_zero ?_ paired_file) ?_
      · exact congrArg some hempty
      · simp [List.eq_nil_of_length_eq_zero hempty]
    rw [if_neg hempty, fstatRead_contract hempty rfl rfl]
    have hne : content ≠ [] := fun h => hempty (congrArg List.length h)
    simp [hsize, hopened, hstated, hregular, hne]

/-- **`readfile_stdc` from `malloc` on.** It keeps the contract only for an empty file, if there is
no memory or if the file grows. -/
lemma stdcRead_contract {c : StdcCalls} {content : List UInt8} {s : Io}
    (hsize : s.filesize = some content.length) (hlog : s.log = [.alloc .file]) :
    Contract content (stdcRead c content s) ↔
      content = [] ∧ (c.memory = none ∨ c.again ≠ none) := by
  obtain ⟨filesize, log, errs⟩ := s
  obtain rfl : log = [.alloc .file] := hlog
  unfold stdcRead
  cases content with
  | cons b bs =>
    have hne : (b :: bs).length ≠ 0 := Nat.succ_ne_zero _
    refine iff_of_false ?_ fun h => List.cons_ne_nil b bs h.1
    cases c.memory with
    | none => exact not_contract_of_size hsize hne
    | some memory =>
      simp only
      split
      · exact not_contract_of_size hsize hne
      · cases c.again with
        | none => exact fun h => not_paired_open h.2.2.2
        | some b => exact not_contract_of_size hsize hne
  | nil =>
    cases hmem : c.memory with
    | none =>
      refine iff_of_true (contract_of_zero hsize ?_) ⟨rfl, Or.inl rfl⟩
      exact paired_file
    | some memory =>
      cases hagain : c.again with
      | none =>
        refine iff_of_false (fun h => not_paired_open h.2.2.2) ?_
        rintro ⟨-, hnone | hsome⟩
        · cases hnone
        · exact hsome rfl
      | some b =>
        refine iff_of_true (contract_of_zero hsize ?_) ⟨rfl, Or.inr (Option.some_ne_none b)⟩
        exact paired_both

/-- When `readfile_stdc` keeps the contract: it fails before it has stored a size, or the file is
empty and there is no memory or the file grows. -/
def StdcCalls.Keeps (c : StdcCalls) (content : List UInt8) (filename : Option String)
    (filesize : Option ℕ) : Prop :=
  filesize = none ∨ filename = none ∨ c.opened = false ∨ c.seekEnd = false ∨ c.told = false ∨
    c.seekSet = false ∨ content = [] ∧ (c.memory = none ∨ c.again ≠ none)

lemma readfileStdc_contract (c : StdcCalls) (content : List UInt8) (filename : Option String)
    (filesize : Option ℕ) :
    Contract content (readfileStdc c content filename filesize) ↔
      c.Keeps content filename filesize := by
  unfold readfileStdc StdcCalls.Keeps
  by_cases hsize : filesize = none
  · rw [if_pos hsize]
    subst hsize
    exact iff_of_true ⟨fun _ h => (by cases h), rfl⟩ (Or.inl rfl)
  rw [if_neg hsize]
  cases filename with
  | none => exact iff_of_true (contract_of_zero rfl rfl) (Or.inr (Or.inl rfl))
  | some name =>
    simp only
    by_cases hopened : c.opened = false
    · rw [if_pos hopened]
      exact iff_of_true (contract_of_zero rfl rfl) (by simp [hopened])
    rw [if_neg hopened]
    by_cases hend : c.seekEnd = false
    · rw [if_pos hend]
      exact iff_of_true (contract_of_zero rfl paired_file) (by simp [hend])
    rw [if_neg hend]
    by_cases htold : c.told = false
    · rw [if_pos htold]
      exact iff_of_true (contract_of_zero rfl paired_file) (by simp [htold])
    rw [if_neg htold]
    by_cases hset : c.seekSet = false
    · rw [if_pos hset]
      exact iff_of_true (contract_of_zero rfl paired_file) (by simp [hset])
    rw [if_neg hset, stdcRead_contract rfl rfl]
    simp [hsize, hopened, hend, htold, hset]

/-- **When the readers keep their contract.** For every file and all answers of the library calls,
each of the two returns the file or nothing, takes the size back with an error, and closes and
frees everything else once, exactly under its condition. -/
theorem readers_contract_iff (p : PosixCalls) (c : StdcCalls) (content : List UInt8)
    (filename : Option String) (filesize : Option ℕ) :
    (Contract content (readfileFstat p content filename filesize) ↔
        p.Keeps content filename filesize) ∧
      (Contract content (readfileStdc c content filename filesize) ↔
        c.Keeps content filename filesize) :=
  ⟨readfileFstat_contract p content filename filesize,
    readfileStdc_contract c content filename filesize⟩

/-- `malloc` fails for a file of one byte, and the size is left at one; and a file of one byte that
is read without any failure leaves its stream open. -/
theorem readers_break_contract :
    ¬ Contract [97] (readfileFstat ⟨true, true, true, none, some 1, none, true⟩ [97] (some "a")
        (some 5)) ∧
      ¬ Contract [97] (readfileStdc ⟨true, true, true, true, some fun _ => 0, 1, none⟩ [97]
        (some "a") (some 5)) := by
  rw [readfileFstat_contract, readfileStdc_contract]
  simp [PosixCalls.Keeps, PosixCalls.Reads, StdcCalls.Keeps]

end LinuxSamples.ReadFullFile
