import LinuxSamples.Run
import LinuxSamples.CString

/-!
A file of numbered lines in the proc file system.

`write_proc` sets the number of the next line and `read_proc` prints from there on, as much as
its caller has room for, and keeps the number of the line it got to. So the reads page through
the file. A line is kept only if there is room for another one of its length behind it, which
leaves a caller with room for one line without any.
-/

namespace LinuxSamples.ProcLines

open LinuxSamples.Run LinuxSamples.CString

def MAX_LINE : ℕ := 1000

def EFAULT : ℤ := 14
def EINVAL : ℤ := 22

/-! ### The driver -/

/-- What `sprintf` puts on the page for one line. -/
def line (curline : ℕ) : List Char :=
  "Line #".toList ++ sprintfD curline ++ ": This is Brook's demo\n".toList

/-- The loop of `read_proc`, with what lies on the page before `p`. A line that is printed and
then not kept stays on the page behind `p`, where nobody looks. -/
def readLoop (count curline : ℕ) (page : List Char) : ℕ × List Char :=
  if curline < MAX_LINE ∧ page.length < count then
    let np := page ++ line curline
    if (count : ℤ) - np.length < (line curline).length then (curline, page)
    else readLoop count (curline + 1) np
  else (curline, page)
termination_by MAX_LINE - curline

structure Reply where
  text : List Char
  eof : Bool
  deriving DecidableEq

/-- `read_proc`: the stored number afterwards and what the caller gets. -/
def readProc (data count : ℕ) : ℕ × Reply :=
  let r := readLoop count data []
  (r.1, ⟨r.2, r.1 < MAX_LINE⟩)

/-- The loop of `write_proc` that reads a number, up to a newline. -/
def atoi : List Char → ℕ → Option ℕ
  | [], nr => some nr
  | p :: ps, nr =>
    if p = '\n' then some nr
    else if p.isDigit then atoi ps (nr * 10 + (p.toNat - '0'.toNat))
    else none

/-- `write_proc`: the stored number afterwards and the return value. `buf` is what can be read
from the caller. -/
def writeProc (data : ℕ) (buf : List Char) (count : ℕ) : ℕ × ℤ :=
  if count = 0 then (data, 0)
  else if 9 < count then (data, -EINVAL)
  else if buf.length < count then (data, -EFAULT)
  else
    match atoi (buf.take count) 0 with
    | none => (data, -EINVAL)
    | some nr => (nr, count)

/-! ### One read -/

def lines (a b : ℕ) : List Char := (List.range' a (b - a)).flatMap line

@[simp] lemma lines_self (a : ℕ) : lines a a = [] := by simp [lines]

lemma lines_append {a b c : ℕ} (hab : a ≤ b) (hbc : b ≤ c) :
    lines a b ++ lines b c = lines a c := by
  unfold lines
  obtain ⟨k, rfl⟩ := Nat.exists_eq_add_of_le hab
  obtain ⟨m, rfl⟩ := Nat.exists_eq_add_of_le hbc
  rw [← List.flatMap_append, Nat.add_sub_cancel_left, Nat.add_sub_cancel_left,
    List.range'_append_1, show a + k + m - a = k + m by omega]

lemma lines_eq_append {a b : ℕ} (h : a < b) : lines a b = line a ++ lines (a + 1) b := by
  rw [← lines_append (Nat.le_succ a) h]
  simp [lines]

lemma line_ne_nil (n : ℕ) : line n ≠ [] := by
  have hword : "Line #".toList ++ sprintfD n ≠ [] :=
    List.append_ne_nil_of_left_ne_nil (by decide) _
  exact List.append_ne_nil_of_left_ne_nil hword _

/-- **The loop** goes forward, puts the lines it passes on the page, and does not leave the
room it has. -/
lemma readLoop_spec (count curline : ℕ) (page : List Char) :
    curline ≤ (readLoop count curline page).1 ∧
      (readLoop count curline page).2 = page ++ lines curline (readLoop count curline page).1 ∧
      (page.length ≤ count → (readLoop count curline page).2.length ≤ count) := by
  fun_induction readLoop count curline page with
  | case1 curline page hgo np hshort => simp
  | case2 curline page hgo np hroom ih =>
    obtain ⟨hle, htext, hlen⟩ := ih
    refine ⟨by omega, ?_, fun _ => hlen (by omega)⟩
    rw [htext, List.append_assoc, ← lines_eq_append hle]
  | case3 curline page hstop => simp

lemma readLoop_of_room {count data : ℕ} (hdata : data < MAX_LINE)
    (hroom : 2 * (line data).length ≤ count) :
    readLoop count data [] = readLoop count (data + 1) (line data) := by
  have hpos := List.length_pos_iff.mpr (line_ne_nil data)
  rw [readLoop, if_pos ⟨hdata, by simp only [List.length_nil]; omega⟩]
  simp only [List.nil_append]
  rw [if_neg (by omega)]

lemma readLoop_of_short {count data : ℕ} (hshort : count < 2 * (line data).length) :
    readLoop count data [] = (data, []) := by
  rw [readLoop]
  split
  · simp only [List.nil_append]
    rw [if_pos (by omega)]
  · rfl

/-- What a read returns: no more than there is room for, and the lines between the numbers
stored before and after. -/
structure Pages (data count : ℕ) : Prop where
  fits : (readProc data count).2.text.length ≤ count
  forward : data ≤ (readProc data count).1
  text : (readProc data count).2.text = lines data (readProc data count).1

lemma pages (data count : ℕ) : Pages data count := by
  obtain ⟨hle, htext, hlen⟩ := readLoop_spec count data []
  exact ⟨hlen (Nat.zero_le count), hle, htext⟩

/-- A caller with room for the next line gets it. -/
def Advances (data count : ℕ) : Prop :=
  data < MAX_LINE → (line data).length ≤ count → line data <+: (readProc data count).2.text

/-- There is room for the next line, but not for two of its length. -/
def Tight (data count : ℕ) : Prop :=
  data < MAX_LINE ∧ (line data).length ≤ count ∧ count < 2 * (line data).length

lemma advances_iff (data count : ℕ) : Advances data count ↔ ¬ Tight data count := by
  constructor
  · rintro hadv ⟨hdata, hfits, hshort⟩
    have hnil := hadv hdata hfits
    simp only [readProc, readLoop_of_short hshort] at hnil
    exact line_ne_nil data (List.prefix_nil.mp hnil)
  · intro htight hdata hfits
    have hroom : 2 * (line data).length ≤ count := by
      by_contra hn
      exact htight ⟨hdata, hfits, by omega⟩
    have hloop := congrArg Prod.snd (readLoop_of_room hdata hroom)
    rw [(readLoop_spec count (data + 1) (line data)).2.1] at hloop
    exact ⟨_, hloop.symm⟩

/-! ### Any number of reads -/

def received (replies : List Reply) : List Char := replies.flatMap Reply.text

lemma serve_readProc (data : ℕ) (counts : List ℕ) :
    data ≤ (serve readProc data counts).1 ∧
      received (serve readProc data counts).2 = lines data (serve readProc data counts).1 := by
  induction counts generalizing data with
  | nil => simp [received]
  | cons count counts ih =>
    have hpage := pages data count
    obtain ⟨hle, hrest⟩ := ih (readProc data count).1
    rw [serve_cons]
    refine ⟨hpage.forward.trans hle, ?_⟩
    rw [← lines_append hpage.forward hle, ← hrest, ← hpage.text]
    rfl

/-- **Paging.** Every read returns the lines between the stored numbers, and a sequence of
reads returns each line once and in order. A read with room for the next line returns it
unless the room is for less than two lines of that length. -/
theorem procfs_lines_paging (data : ℕ) :
    (∀ count, Pages data count ∧ (Advances data count ↔ ¬ Tight data count)) ∧
      ∀ counts, data ≤ (serve readProc data counts).1 ∧
        received (serve readProc data counts).2 = lines data (serve readProc data counts).1 :=
  ⟨fun count => ⟨pages data count, advances_iff data count⟩, serve_readProc data⟩

/-- The first line has 30 characters, and a caller with room for 59 gets nothing. -/
theorem procfs_lines_stuck :
    (line 0).length = 30 ∧ readProc 0 59 = (0, ⟨[], true⟩) ∧ ¬ Advances 0 59 := by
  have hlen : (line 0).length = 30 := by decide
  refine ⟨hlen, ?_, fun hadv => (advances_iff 0 59).mp hadv ⟨by decide, ?_, ?_⟩⟩
  · rw [readProc, readLoop_of_short (by omega)]
    rfl
  · omega
  · omega

/-! ### Setting the line -/

lemma atoi_digits {ds : List Char} (h : ∀ c ∈ ds, c.isDigit) (nr : ℕ) :
    atoi ds nr = some (Nat.ofDigitChars 10 ds nr) := by
  induction ds generalizing nr with
  | nil => rfl
  | cons c ds ih =>
    have hc := h c List.mem_cons_self
    have hne : c ≠ '\n' := by
      rintro rfl
      exact absurd hc (by decide)
    rw [atoi, if_neg hne, if_pos hc, ih fun d hd => h d (List.mem_cons_of_mem c hd), Nat.mul_comm]
    rfl

/-- **The number that is written is the line that is read next.** -/
theorem received_after_write {n : ℕ} (h : n < 10 ^ 9) (data : ℕ) (behind : List Char)
    (counts : List ℕ) :
    let w := writeProc data (Nat.toDigits 10 n ++ behind) (Nat.toDigits 10 n).length
    w.2 = (Nat.toDigits 10 n).length ∧
      received (serve readProc w.1 counts).2 = lines n (serve readProc w.1 counts).1 := by
  have hpos := List.length_pos_iff.mpr (Nat.toDigits_ne_nil (b := 10) (n := n))
  have hlen : (Nat.toDigits 10 n).length ≤ 9 :=
    (Nat.length_toDigits_le_iff (by decide) (by decide)).mpr h
  have hatoi := atoi_digits (fun c hc => isDigit_toDigits (n := n) hc) 0
  rw [Nat.ofDigitChars_toDigits (by decide) le_rfl] at hatoi
  have hwrite : writeProc data (Nat.toDigits 10 n ++ behind) (Nat.toDigits 10 n).length =
      (n, ((Nat.toDigits 10 n).length : ℤ)) := by
    rw [writeProc, if_neg (by omega), if_neg (by omega), if_neg (by simp), List.take_left, hatoi]
  intro w
  have hw : w = (n, ((Nat.toDigits 10 n).length : ℤ)) := hwrite
  rw [hw]
  exact ⟨rfl, (serve_readProc n counts).2⟩

theorem received_after_write_seven :
    received (serve readProc (writeProc 0 ['7', '\n'] 1).1 [100, 40]).2 =
      lines 7 (serve readProc (writeProc 0 ['7', '\n'] 1).1 [100, 40]).1 :=
  (received_after_write (n := 7) (by decide) 0 ['\n'] [100, 40]).2

end LinuxSamples.ProcLines
