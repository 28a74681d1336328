import LinuxSamples.CText

/-!
The start time and the running time that the task manager shows.

`uptime` takes the running time from the time of day and adds a day if the difference is
negative. One day is enough for a machine that has run for less than that and no longer; after
it the start time is shown with minus signs, and after 10000 hours the running time does not fit
its buffer.
-/

namespace LinuxSamples.TaskManager

open CString

/-- The time of day in `struct tm`. -/
structure Tm where
  tmHour : ℕ
  tmMin : ℕ
  tmSec : ℕ
  hour_lt : tmHour < 24
  min_lt : tmMin < 60
  sec_lt : tmSec < 60

def Tm.nowTime (p : Tm) : ℤ := p.tmHour * 3600 + p.tmMin * 60 + p.tmSec

structure Hms where
  h : ℤ
  m : ℤ
  s : ℤ
  deriving DecidableEq, Repr

/-- The three assignments to `h`, `m` and `s`. The division goes to zero. -/
def hms (t : ℤ) : Hms :=
  let h := t.tdiv 3600
  let m := (t - h * 3600).tdiv 60
  ⟨h, m, t - h * 3600 - m * 60⟩

def startTime (nowTime runTime : ℤ) : ℤ :=
  let t := nowTime - runTime
  if t < 0 then 24 * 3600 + t else t

/-- `系统启动时间:`, the start time. -/
def startLabel : List UInt8 :=
  [231, 179, 187, 231, 187, 159, 229, 144, 175, 229, 138, 168, 230, 151, 182, 233, 151, 180, 58]

/-- `系统运行时间:` behind a newline, the running time. -/
def runLabel : List UInt8 :=
  [10, 231, 179, 187, 231, 187, 159, 232, 191, 144, 232, 161, 140, 230, 151, 182, 233, 151, 180, 58]

def colon : List UInt8 := [58, 0]

/-- The minutes and seconds are put behind the hours, through `tp`. -/
def catMinSec (dst tp : List UInt8) (t : Hms) : Option (List UInt8 × List UInt8) := do
  let dst ← strcat dst colon
  let tp ← store tp (bytes (sprintf2D t.m))
  let dst ← strcat dst tp
  let dst ← strcat dst colon
  let tp ← store tp (bytes (sprintf2D t.s))
  let dst ← strcat dst tp
  return (dst, tp)

/-- The label for the two times, made with `buffer`, `tp` and `start`. -/
def writeLabel (startTime runTime : ℤ) (buffer tp : List UInt8) : Option (List UInt8) := do
  let t := hms startTime
  let buffer ← store buffer (bytes (sprintfD t.h))
  let (buffer, tp) ← catMinSec buffer tp t
  let start ← strcat (fill 100 startLabel) buffer
  let start ← strcat start (runLabel ++ [0])
  let t := hms runTime
  let tp ← store tp (bytes (sprintfD t.h))
  let start ← strcat start tp
  let (start, _) ← catMinSec start tp t
  return start

/-- The label that `uptime` shows, from the time of day and from what it has read into `buf`. The
arrays `buffer` and `tp` begin with anything. -/
def uptime (p : Tm) (buf buffer tp : List UInt8) : Option (List UInt8) := do
  let (ch, rest) ← strtok buf
  let (_, rest) ← strtok rest
  let _ ← strtok rest
  let runTime := atoi (← ch)
  writeLabel (startTime p.nowTime runTime) runTime buffer tp

/-- What `read` leaves in the 30 characters of `buf`. -/
def readBuf (text buf : List UInt8) : List UInt8 := text.take 30 ++ buf.drop (text.take 30).length

/-- The seconds of running time with two decimals. -/
def runText (r : ℕ) (tenth hundredth : Fin 10) : List UInt8 :=
  bytes (Nat.toDigits 10 r) ++ [46, 48 + UInt8.ofNat tenth, 48 + UInt8.ofNat hundredth]

/-- The text of `/proc/uptime`: the running time and the idle time. -/
def procUptime (r : ℕ) (tenth hundredth : Fin 10) (idle : List UInt8) : List UInt8 :=
  runText r tenth hundredth ++ blank :: idle

/-! ### What should be shown -/

/-- The hours, minutes and seconds of a number of seconds. -/
def decomposition (x : ℕ) : Hms := ⟨x / 3600, x % 3600 / 60, x % 60⟩

def clockText (t : Hms) : List UInt8 :=
  bytes (sprintfD t.h) ++ (58 :: bytes (sprintf2D t.m) ++ (58 :: bytes (sprintf2D t.s)))

/-- The start time and the running time, in full. -/
def labelText (start run : Hms) : List UInt8 :=
  startLabel ++ clockText start ++ runLabel ++ clockText run

/-- The label for a machine that runs for `r` seconds. -/
def Right (p : Tm) (r : ℕ) (label : Option (List UInt8)) : Prop :=
  ∃ xs, label = some xs ∧
    Holds xs (labelText (decomposition ((p.nowTime - r) % 86400).toNat) (decomposition r))

/-- The three calls of `strtok` stay inside of `buf`. -/
def Ended (buf : List UInt8) : Prop :=
  ((strtok buf).bind fun a => (strtok a.2).bind fun b => strtok b.2).isSome

instance (buf : List UInt8) : Decidable (Ended buf) := inferInstanceAs (Decidable (_ = true))

/-! ### Writing the label -/

lemma holds_colon : Holds colon [58] := ⟨by decide, [], rfl⟩

lemma length_startLabel : startLabel.length = 19 := rfl

lemma length_runLabel : runLabel.length = 20 := rfl

lemma holds_startLabel : Holds (fill 100 startLabel) startLabel := ⟨by decide, _, rfl⟩

lemma holds_runLabel : Holds (runLabel ++ [0]) runLabel := ⟨by decide, [], rfl⟩

/-- What the minutes and seconds add to a text. -/
def minSecText (t : Hms) : List UInt8 :=
  58 :: bytes (sprintf2D t.m) ++ (58 :: bytes (sprintf2D t.s))

lemma append_minSecText (s : List UInt8) (t : Hms) :
    s ++ [58] ++ bytes (sprintf2D t.m) ++ [58] ++ bytes (sprintf2D t.s) = s ++ minSecText t := by
  simp [minSecText]

section CatMinSec

variable {dst tp s : List UInt8} {t : Hms}

lemma catMinSec_spec {n : ℕ} (hdst : Holds dst s) (hn : dst.length = n) (htp : tp.length = 5)
    (hm : (sprintf2D t.m).length < 5) (hs : (sprintf2D t.s).length < 5)
    (hfit : s.length + (minSecText t).length < n) :
    ∃ dst' tp', catMinSec dst tp t = some (dst', tp') ∧ dst'.length = n ∧ tp'.length = 5 ∧
      Holds dst' (s ++ minSecText t) := by
  have hlen : (minSecText t).length = (sprintf2D t.m).length + (sprintf2D t.s).length + 2 := by
    simp only [minSecText, List.length_append, List.length_cons, length_bytes]
    omega
  obtain ⟨d₁, h₁, hn₁, hd₁⟩ := hdst.strcat holds_colon hn (by rw [List.length_singleton]; omega)
  obtain ⟨tp₁, ht₁, hl₁, hh₁⟩ :=
    holds_store htp (zero_not_mem_sprintf2D t.m) (by rwa [length_bytes])
  obtain ⟨d₂, h₂, hn₂, hd₂⟩ := hd₁.strcat hh₁ hn₁
    (by simp only [List.length_append, List.length_singleton, length_bytes]; omega)
  obtain ⟨d₃, h₃, hn₃, hd₃⟩ := hd₂.strcat holds_colon hn₂
    (by simp only [List.length_append, List.length_singleton, length_bytes]; omega)
  obtain ⟨tp₂, ht₂, hl₂, hh₂⟩ :=
    holds_store hl₁ (zero_not_mem_sprintf2D t.s) (by rwa [length_bytes])
  obtain ⟨d₄, h₄, hn₄, hd₄⟩ := hd₃.strcat hh₂ hn₃
    (by simp only [List.length_append, List.length_singleton, length_bytes]; omega)
  refine ⟨d₄, tp₂, ?_, hn₄, hl₂, append_minSecText s t ▸ hd₄⟩
  simp [catMinSec, h₁, ht₁, h₂, h₃, ht₂, h₄]

lemma holds_of_catMinSec {dst' tp' : List UInt8} (hdst : Holds dst s)
    (h : catMinSec dst tp t = some (dst', tp')) : Holds dst' (s ++ minSecText t) := by
  simp only [catMinSec, Option.bind_eq_bind, Option.bind_eq_some_iff] at h
  obtain ⟨d₁, h₁, tp₁, ht₁, d₂, h₂, d₃, h₃, tp₂, ht₂, d₄, h₄, heq⟩ := h
  cases heq
  have hd₁ := hdst.of_strcat holds_colon h₁
  have hd₂ := hd₁.of_strcat (holds_of_store ht₁ (zero_not_mem_sprintf2D t.m)) h₂
  have hd₃ := hd₂.of_strcat holds_colon h₃
  exact append_minSecText s t ▸
    hd₃.of_strcat (holds_of_store ht₂ (zero_not_mem_sprintf2D t.s)) h₄

end CatMinSec

lemma holds_of_writeLabel {start run : ℤ} {buffer tp xs : List UInt8}
    (h : writeLabel start run buffer tp = some xs) :
    Holds xs (labelText (hms start) (hms run)) := by
  simp only [writeLabel, Option.bind_eq_bind, Option.bind_eq_some_iff] at h
  obtain ⟨b₁, hb₁, ⟨b₂, tp₂⟩, hb₂, s₁, hs₁, s₂, hs₂, tp₃, htp₃, s₃, hs₃, ⟨s₄, tp₄⟩, hs₄, heq⟩ := h
  cases heq
  have hbuffer := holds_of_catMinSec (holds_of_store hb₁ (zero_not_mem_sprintfD _)) hb₂
  have hstart := (holds_startLabel.of_strcat hbuffer hs₁).of_strcat holds_runLabel hs₂
  have hrun := hstart.of_strcat (holds_of_store htp₃ (zero_not_mem_sprintfD _)) hs₃
  have hall := holds_of_catMinSec hrun hs₄
  rwa [List.append_assoc _ _ (minSecText _)] at hall

lemma hms_natCast (x : ℕ) : hms x = decomposition x := by
  have hdiv : (x : ℤ).tdiv 3600 = x / 3600 := Int.tdiv_eq_ediv_of_nonneg (by omega)
  have hdiv' : ((x : ℤ) - x / 3600 * 3600).tdiv 60 = x % 3600 / 60 := by
    rw [Int.tdiv_eq_ediv_of_nonneg (by omega)]
    omega
  simp only [hms, decomposition, hdiv, hdiv', Hms.mk.injEq, true_and]
  omega

lemma length_sprintf2D_of_lt {n : ℤ} (h0 : 0 ≤ n) (h : n < 60) : (sprintf2D n).length = 2 := by
  have hle := length_sprintfD_le_of_lt (n := n) (k := 2) (by decide) h0 (by omega)
  rw [length_sprintf2D]
  omega

lemma length_minSecText (x : ℕ) :
    (sprintf2D (decomposition x).m).length = 2 ∧ (sprintf2D (decomposition x).s).length = 2 ∧
      (minSecText (decomposition x)).length = 6 := by
  have hm : (sprintf2D (decomposition x).m).length = 2 :=
    length_sprintf2D_of_lt (by simp only [decomposition]; omega)
      (by simp only [decomposition]; omega)
  have hs : (sprintf2D (decomposition x).s).length = 2 :=
    length_sprintf2D_of_lt (by simp only [decomposition]; omega)
      (by simp only [decomposition]; omega)
  refine ⟨hm, hs, ?_⟩
  simp only [minSecText, List.length_append, List.length_cons, length_bytes, hm, hs]

lemma length_hours_le {x : ℕ} (h : x < 360000) :
    (bytes (sprintfD (decomposition x).h)).length ≤ 2 := by
  rw [length_bytes]
  refine length_sprintfD_le_of_lt (by decide) ?_ ?_
  · simp only [decomposition]
    omega
  · simp only [decomposition]
    omega

lemma exists_writeLabel (start run : ℕ) {buffer tp : List UInt8} (hstart : start < 360000)
    (hrun : run < 360000) (hbuffer : buffer.length = 20) (htp : tp.length = 5) :
    ∃ xs, writeLabel start run buffer tp = some xs := by
  obtain ⟨hm, hs, hlen⟩ := length_minSecText start
  obtain ⟨hm', hs', hlen'⟩ := length_minSecText run
  have hh := length_hours_le hstart
  have hh' := length_hours_le hrun
  obtain ⟨b₁, hb₁, hn₁, hhold₁⟩ := holds_store hbuffer
    (zero_not_mem_sprintfD (decomposition start).h) (by omega)
  obtain ⟨b₂, tp₂, hb₂, hn₂, htp₂, hhold₂⟩ :=
    catMinSec_spec (t := decomposition start) hhold₁ hn₁ htp (by omega) (by omega) (by omega)
  obtain ⟨s₁, hs₁, hn₃, hhold₃⟩ := holds_startLabel.strcat hhold₂ (n := 100) rfl
    (by simp only [List.length_append, length_startLabel]; omega)
  obtain ⟨s₂, hs₂, hn₄, hhold₄⟩ := hhold₃.strcat holds_runLabel hn₃
    (by simp only [List.length_append, length_startLabel, length_runLabel]; omega)
  obtain ⟨tp₃, htp₃, hn₅, hhold₅⟩ := holds_store htp₂
    (zero_not_mem_sprintfD (decomposition run).h) (by omega)
  obtain ⟨s₃, hs₃, hn₆, hhold₆⟩ := hhold₄.strcat hhold₅ hn₄
    (by simp only [List.length_append, length_startLabel, length_runLabel]; omega)
  obtain ⟨s₄, tp₄, hs₄, -, -, -⟩ := catMinSec_spec (t := decomposition run) hhold₆ hn₆ hn₅
    (by omega) (by omega)
    (by simp only [List.length_append, length_startLabel, length_runLabel]; omega)
  refine ⟨s₄, ?_⟩
  simp [writeLabel, hms_natCast, hb₁, hb₂, hs₁, hs₂, htp₃, hs₃, hs₄]

/-! ### The sign -/

lemma minus_mem_clockText {t : Hms} : 45 ∈ clockText t ↔ t.h < 0 ∨ t.m < 0 ∨ t.s < 0 := by
  simp only [clockText, List.mem_append, List.mem_cons, List.cons_append, minus_mem_sprintfD,
    minus_mem_sprintf2D, show ¬ (45 : UInt8) = 58 by decide, false_or]

lemma minus_mem_clockText_hms {t : ℤ} (h : t < 0) : 45 ∈ clockText (hms t) := by
  rw [minus_mem_clockText]
  have hsum : t = (hms t).h * 3600 + (hms t).m * 60 + (hms t).s := by
    simp only [hms]
    ring
  omega

lemma minus_not_mem_clockText (x : ℕ) : 45 ∉ clockText (decomposition x) := by
  rw [minus_mem_clockText]
  simp only [decomposition]
  omega

lemma minus_not_mem_labelText (x y : ℕ) :
    45 ∉ labelText (decomposition x) (decomposition y) := by
  simp only [labelText, List.mem_append, minus_not_mem_clockText, or_false]
  decide

/-! ### Reading the file -/

section Read

variable {r : ℕ} {tenth hundredth : Fin 10} {idle buf : List UInt8}

lemma atoi_runText (hr : r < 10 ^ 8) : atoi (runText r tenth hundredth) = r :=
  atoi_of_lt (by omega) (List.takeWhile_cons_of_neg (by decide))

lemma word_runText : Word (runText r tenth hundredth) := by
  refine word_append.mpr ⟨word_toDigits r, ?_⟩
  revert tenth hundredth
  decide

lemma strtok_readBuf (hr : r < 10 ^ 8) (tenth hundredth : Fin 10) (idle buf : List UInt8) :
    ∃ rest, strtok (readBuf (procUptime r tenth hundredth idle) buf) =
      some (some (runText r tenth hundredth), rest) := by
  have hdigits : (Nat.toDigits 10 r).length ≤ 8 :=
    (Nat.length_toDigits_le_iff (by decide) (by decide)).mpr hr
  have hlen : (runText r tenth hundredth).length ≤ 11 := by
    simp only [runText, List.length_append, length_bytes, List.length_cons, List.length_nil]
    omega
  obtain ⟨k, hk⟩ : ∃ k, 30 - (runText r tenth hundredth).length = k + 1 :=
    ⟨29 - (runText r tenth hundredth).length, by omega⟩
  have htake : (procUptime r tenth hundredth idle).take 30 =
      runText r tenth hundredth ++ blank :: idle.take k := by
    rw [procUptime, List.take_append, List.take_of_length_le (by omega), hk, List.take_succ_cons]
  rw [readBuf, htake, List.append_assoc, List.cons_append]
  exact ⟨_, strtok_append_blank word_runText (by simp [runText]) _⟩

end Read

lemma uptime_eq {p : Tm} {buf buffer tp w rest : List UInt8}
    (h : strtok buf = some (some w, rest)) :
    uptime p buf buffer tp =
      if Ended buf then writeLabel (startTime p.nowTime (atoi w)) (atoi w) buffer tp else none := by
  simp only [uptime, Ended, h, Option.bind_eq_bind, Option.bind_some]
  cases strtok rest with
  | none => rfl
  | some b =>
    cases hb : strtok b.2 with
    | none => simp [hb]
    | some c => simp [hb]

lemma Tm.nowTime_range (p : Tm) : 0 ≤ p.nowTime ∧ p.nowTime < 86400 := by
  have := p.hour_lt
  have := p.min_lt
  have := p.sec_lt
  unfold Tm.nowTime
  omega

lemma startTime_eq {t r : ℤ} (ht : t < 86400) (hr : 0 ≤ r) (h : r ≤ t + 86400) :
    startTime t r = ((t - r) % 86400).toNat := by
  simp only [startTime]
  split
  · omega
  · omega

lemma startTime_neg {t r : ℤ} (h : t + 86400 < r) : startTime t r < 0 := by
  simp only [startTime]
  split
  · omega
  · omega

/-- **When the times are right.** For every time of day and every running time below `10 ^ 8`
seconds, the label shows the start time modulo a day and the running time, and the arrays are
not overrun, exactly if the machine was started today or yesterday, and the search for more words
ends inside of `buf`. -/
theorem uptime_right_iff (p : Tm) {r : ℕ} (hr : r < 10 ^ 8) (tenth hundredth : Fin 10)
    (idle buf : List UInt8) {buffer tp : List UInt8} (hbuffer : buffer.length = 20)
    (htp : tp.length = 5) :
    Right p r (uptime p (readBuf (procUptime r tenth hundredth idle) buf) buffer tp) ↔
      r ≤ p.nowTime + 86400 ∧ Ended (readBuf (procUptime r tenth hundredth idle) buf) := by
  obtain ⟨rest, hch⟩ := strtok_readBuf hr tenth hundredth idle buf
  obtain ⟨-, hnow⟩ := p.nowTime_range
  rw [uptime_eq hch, atoi_runText hr]
  by_cases hended : Ended (readBuf (procUptime r tenth hundredth idle) buf)
  · rw [if_pos hended, and_iff_left hended]
    constructor
    · rintro ⟨xs, hxs, hright⟩
      by_contra hlate
      have hshown := holds_of_writeLabel hxs
      have hsign : 45 ∈ labelText (hms (startTime p.nowTime r)) (hms r) := by
        have hmem := minus_mem_clockText_hms (startTime_neg (t := p.nowTime) (r := r) (by omega))
        simp only [labelText, List.mem_append]
        exact Or.inl (Or.inl (Or.inr hmem))
      rw [Option.some.inj (hshown.str.symm.trans hright.str)] at hsign
      exact minus_not_mem_labelText _ _ hsign
    · intro hle
      rw [startTime_eq hnow (by omega) hle]
      obtain ⟨xs, hxs⟩ := exists_writeLabel ((p.nowTime - r) % 86400).toNat r
        (by omega) (by omega) hbuffer htp
      refine ⟨xs, hxs, ?_⟩
      have hshown := holds_of_writeLabel hxs
      rwa [hms_natCast, hms_natCast] at hshown
  · rw [if_neg hended]
    refine iff_of_false ?_ fun h => hended h.2
    rintro ⟨xs, hxs, -⟩
    cases hxs

def pastMidnight : Tm := ⟨0, 0, 10, by decide, by decide, by decide⟩

def uptimeBuf (r : ℕ) : List UInt8 :=
  readBuf (procUptime r 1 2 (ascii "77.10\n")) (List.replicate 30 0)

/-- After 200000 seconds the machine is shown as started at `-31:-33:-10`, and the hours of
36000000 seconds are written behind the end of `tp`. -/
theorem uptime_shows_signs :
    (uptime pastMidnight (uptimeBuf 200000) (List.replicate 20 1) (List.replicate 5 1)).bind str =
        some (startLabel ++ ascii "-31:-33:-10" ++ runLabel ++ ascii "55:33:20") ∧
      ¬ Right pastMidnight 200000
        (uptime pastMidnight (uptimeBuf 200000) (List.replicate 20 1) (List.replicate 5 1)) ∧
      uptime pastMidnight (uptimeBuf 36000000) (List.replicate 20 1) (List.replicate 5 1) =
        none := by
  refine ⟨by decide, ?_, by decide⟩
  rintro ⟨xs, hxs, hright⟩
  have hstr : (uptime pastMidnight (uptimeBuf 200000) (List.replicate 20 1)
      (List.replicate 5 1)).bind str =
        some (labelText (decomposition ((pastMidnight.nowTime - 200000) % 86400).toNat)
          (decomposition 200000)) := by
    rw [hxs]
    exact hright.str
  revert hstr
  decide

theorem uptime_right_iff_yesterday :
    Right pastMidnight 3661
      (uptime pastMidnight (uptimeBuf 3661) (List.replicate 20 1) (List.replicate 5 1)) :=
  (uptime_right_iff pastMidnight (by decide) 1 2 (ascii "77.10\n") (List.replicate 30 0) rfl
    rfl).mpr ⟨by decide, by decide⟩

end LinuxSamples.TaskManager
