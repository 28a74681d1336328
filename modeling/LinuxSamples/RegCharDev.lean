import LinuxSamples.Run
import LinuxSamples.CString

/-!
The first character device: reads of a fixed text.

`dev_read` has a position, but it copies the text from the beginning whatever the position is,
and it takes the number of bytes that could not be copied for an error code. The reads
compose as those of a file exactly when at most one of them copies anything and that copy
does not fail.
-/

namespace LinuxSamples.RegCharDev

open LinuxSamples.Run LinuxSamples.CString

def EFAULT : ℤ := 14

def data : List UInt8 := ascii "brook" ++ [0]

/-- A read of `count` bytes into a buffer that can be written to for `room` bytes. -/
structure Call where
  count : ℕ
  room : ℕ

/-- The return value and the bytes that arrive. -/
structure Reply where
  ret : ℤ
  copied : List UInt8
  deriving DecidableEq

/-- `copy_to_user`: what arrives, and the number of bytes that do not. -/
def copyToUser (room : ℕ) (bs : List UInt8) : List UInt8 × ℕ := (bs.take room, bs.length - room)

/-- `dev_read`: the new position and the reply. -/
def devRead (fPos : ℕ) (c : Call) : ℕ × Reply :=
  if fPos ≥ data.length then (fPos, ⟨0, []⟩)
  else
    let count := if c.count > data.length then data.length else c.count
    let r := copyToUser c.room (data.take count)
    if (r.2 : ℤ) < 0 then (fPos, ⟨-EFAULT, r.1⟩)
    else (fPos + count, ⟨count, r.1⟩)

def step (fPos : ℕ) (c : Call) : Option ℕ := some (devRead fPos c).1

/-! ### What the reads should be -/

def Faults (fPos : ℕ) (c : Call) : Prop :=
  fPos < data.length ∧ c.room < min c.count data.length

instance (fPos : ℕ) (c : Call) : Decidable (Faults fPos c) :=
  inferInstanceAs (Decidable (_ ∧ _))

def FaultReported (fPos : ℕ) (c : Call) : Prop :=
  Faults fPos c → (devRead fPos c).2.ret = -EFAULT ∧ (devRead fPos c).1 = fPos

/-- The successful ones among the calls from a position on, with their replies. -/
def successful (fPos : ℕ) (calls : List Call) : List (Call × Reply) :=
  (calls.zip (serve devRead fPos calls).2).filter fun r => 0 ≤ r.2.ret

def returned (fPos : ℕ) (calls : List Call) : List UInt8 :=
  (successful fPos calls).flatMap fun r => r.2.copied

def asked (fPos : ℕ) (calls : List Call) : ℕ := ((successful fPos calls).map fun r => r.1.count).sum

/-- The calls go on from `fPos` as the reads of a file with the contents `data`. -/
structure ComposesFrom (fPos : ℕ) (calls : List Call) : Prop where
  begins : data.take fPos ++ returned fPos calls <+: data
  whole : data.length ≤ fPos + asked fPos calls → data.take fPos ++ returned fPos calls = data
  fault : Guarded step FaultReported fPos calls

/-- The reads of an open file return the contents in order, all of them once enough has been
asked for, and report a failing copy without moving. -/
structure Composes (calls : List Call) : Prop where
  begins : returned 0 calls <+: data
  whole : data.length ≤ asked 0 calls → returned 0 calls = data
  fault : Guarded step FaultReported 0 calls

/-- A copy is made only from the beginning, and all of it arrives. -/
def Harmless (fPos : ℕ) (c : Call) : Prop :=
  fPos < data.length → 0 < c.count → fPos = 0 ∧ min c.count data.length ≤ c.room

instance (fPos : ℕ) (c : Call) : Decidable (Harmless fPos c) :=
  inferInstanceAs (Decidable (_ → _))

/-! ### One call -/

lemma devRead_of_end {fPos : ℕ} (h : data.length ≤ fPos) (c : Call) :
    devRead fPos c = (fPos, ⟨0, []⟩) := if_pos h

lemma devRead_of_lt {fPos : ℕ} (h : fPos < data.length) (c : Call) :
    devRead fPos c = (fPos + min c.count data.length,
      ⟨min c.count data.length, (data.take c.count).take c.room⟩) := by
  have hcount : (if c.count > data.length then data.length else c.count) =
      min c.count data.length := by
    split <;> omega
  have htake : data.take (min c.count data.length) = data.take c.count := by
    rw [← List.take_eq_take_min]
  simp only [devRead, if_neg (Nat.not_le.mpr h), hcount, copyToUser, htake]
  rw [if_neg (by omega)]
  push_cast
  rfl

lemma devRead_ret_nonneg (fPos : ℕ) (c : Call) : 0 ≤ (devRead fPos c).2.ret := by
  rcases Nat.lt_or_ge fPos data.length with h | h
  · rw [devRead_of_lt h]
    positivity
  · rw [devRead_of_end h]

lemma successful_cons (fPos : ℕ) (c : Call) (calls : List Call) :
    successful fPos (c :: calls) =
      (c, (devRead fPos c).2) :: successful (devRead fPos c).1 calls := by
  rw [successful, serve_cons, List.zip_cons_cons, List.filter_cons_of_pos]
  · rfl
  · simpa using devRead_ret_nonneg fPos c

lemma returned_cons (fPos : ℕ) (c : Call) (calls : List Call) :
    returned fPos (c :: calls) =
      (devRead fPos c).2.copied ++ returned (devRead fPos c).1 calls := by
  rw [returned, successful_cons, List.flatMap_cons]
  rfl

lemma asked_cons (fPos : ℕ) (c : Call) (calls : List Call) :
    asked fPos (c :: calls) = c.count + asked (devRead fPos c).1 calls := by
  rw [asked, successful_cons, List.map_cons, List.sum_cons]
  rfl

lemma guarded_cons {ok : ℕ → Call → Prop} (fPos : ℕ) (c : Call) (calls : List Call) :
    Guarded step ok fPos (c :: calls) ↔
      ok fPos c ∧ Guarded step ok (devRead fPos c).1 calls := by
  simp [Guarded, step]

lemma not_begins_again {fPos n : ℕ} (hpos : 0 < fPos) (hend : fPos < data.length) (hn : 0 < n)
    (r : List UInt8) : ¬ data.take fPos ++ (data.take n ++ r) <+: data := by
  obtain ⟨m, rfl⟩ := Nat.exists_eq_add_of_lt hn
  have hfirst : data.take (0 + m + 1) = 98 :: data.tail.take m := by
    rw [Nat.zero_add]
    rfl
  rw [hfirst]
  rintro ⟨u, hu⟩
  have hget : data[fPos]? = some 98 := by
    rw [← hu, List.append_assoc, List.getElem?_append_right (List.length_take_le _ _),
      List.length_take, Nat.min_eq_left hend.le, Nat.sub_self]
    rfl
  have hlength : data.length = 6 := rfl
  rw [hlength] at hend
  interval_cases fPos <;> exact absurd hget (by decide)

lemma not_faults_iff {fPos : ℕ} {c : Call} (h : fPos < data.length) :
    ¬ Faults fPos c ↔ min c.count data.length ≤ c.room := by
  unfold Faults
  omega

lemma not_faults_of_reported {fPos : ℕ} {c : Call} (h : FaultReported fPos c) :
    ¬ Faults fPos c := by
  intro hfault
  have hret := devRead_ret_nonneg fPos c
  rw [(h hfault).1] at hret
  exact absurd hret (by decide)

lemma composesFrom_cons_of_moves {fPos : ℕ} {c : Call} (calls : List Call)
    (hfault : ¬ Faults fPos c)
    (htake : data.take fPos ++ (devRead fPos c).2.copied = data.take (devRead fPos c).1)
    (hasked : ∀ k, data.length ≤ fPos + (c.count + k) ↔ data.length ≤ (devRead fPos c).1 + k) :
    ComposesFrom fPos (c :: calls) ↔ ComposesFrom (devRead fPos c).1 calls := by
  have hreturned : data.take fPos ++ returned fPos (c :: calls) =
      data.take (devRead fPos c).1 ++ returned (devRead fPos c).1 calls := by
    rw [returned_cons, ← List.append_assoc, htake]
  have hreported : FaultReported fPos c := fun h => absurd h hfault
  constructor
  · intro h
    refine ⟨hreturned ▸ h.begins, fun hall => ?_, ((guarded_cons fPos c calls).mp h.fault).2⟩
    rw [← hreturned]
    exact h.whole (asked_cons fPos c calls ▸ (hasked _).mpr hall)
  · intro h
    refine ⟨hreturned ▸ h.begins, fun hall => ?_,
      (guarded_cons fPos c calls).mpr ⟨hreported, h.fault⟩⟩
    rw [hreturned]
    exact h.whole ((hasked _).mp (asked_cons fPos c calls ▸ hall))

/-- **One call.** A call that copies nothing, or all it can from the beginning, moves with what
it returns; any other one is the end of the composition. -/
lemma composesFrom_cons (fPos : ℕ) (c : Call) (calls : List Call) :
    ComposesFrom fPos (c :: calls) ↔
      Harmless fPos c ∧ ComposesFrom (devRead fPos c).1 calls := by
  rcases Nat.lt_or_ge fPos data.length with hlt | hend
  · by_cases hfault : Faults fPos c
    · refine iff_of_false (fun h => ?_) fun h => ?_
      · exact not_faults_of_reported ((guarded_cons fPos c calls).mp h.fault).1 hfault
      · have hroom := (h.1 hlt (by have := hfault.2; omega)).2
        exact (not_faults_iff hlt).mpr hroom hfault
    have hroom := (not_faults_iff hlt).mp hfault
    have hcopied : (devRead fPos c).2.copied = data.take c.count := by
      rw [devRead_of_lt hlt]
      exact List.take_of_length_le (by simpa using hroom)
    by_cases hagain : 0 < fPos ∧ 0 < c.count
    · -- the text begins again behind its first bytes
      refine iff_of_false (fun h => ?_) fun h => ?_
      · have hbegins := h.begins
        rw [returned_cons, hcopied] at hbegins
        exact not_begins_again hagain.1 hlt hagain.2 _ hbegins
      · have := (h.1 hlt hagain.2).1
        omega
    · have hharmless : Harmless fPos c := fun _ hcount => ⟨by omega, hroom⟩
      rw [composesFrom_cons_of_moves calls hfault ?_ fun k => ?_, and_iff_right hharmless]
      · rw [hcopied, devRead_of_lt hlt]
        rcases Nat.eq_zero_or_pos c.count with hzero | hcount
        · simp [hzero]
        · obtain rfl : fPos = 0 := by omega
          simp [← List.take_eq_take_min]
      · rw [devRead_of_lt hlt]
        simp only
        omega
  · -- nothing is left to read
    have hharmless : Harmless fPos c := fun hlt => absurd hend (by omega)
    have hfault : ¬ Faults fPos c := fun h => absurd hend (Nat.not_le.mpr h.1)
    rw [composesFrom_cons_of_moves calls hfault ?_ fun k => ?_, and_iff_right hharmless]
    · rw [devRead_of_end hend, List.append_nil]
    · rw [devRead_of_end hend]
      simp only
      omega

lemma composesFrom_iff (fPos : ℕ) (calls : List Call) :
    ComposesFrom fPos calls ↔ Guarded step Harmless fPos calls := by
  induction calls generalizing fPos with
  | nil =>
    refine iff_of_true ⟨?_, fun hall => ?_, trivial⟩ trivial
    · exact (List.append_nil _).symm ▸ List.take_prefix fPos data
    · exact (List.append_nil _).trans (List.take_of_length_le hall)
  | cons c calls ih => rw [composesFrom_cons, guarded_cons, ih]

/-- **Reads compose** exactly when a copy is made only from the beginning, and arrives. -/
theorem dev_read_composes_iff (calls : List Call) :
    Composes calls ↔ Guarded step Harmless 0 calls := by
  rw [← composesFrom_iff]
  constructor
  · intro h
    exact ⟨h.begins, fun hall => h.whole (by omega), h.fault⟩
  · intro h
    exact ⟨h.begins, fun hall => h.whole (by omega), h.fault⟩

theorem dev_read_composes_whole : Composes [⟨0, 0⟩, ⟨1024, 1024⟩, ⟨1024, 0⟩] :=
  (dev_read_composes_iff _).mpr (by decide)

/-- Two reads of two bytes get the same ones, and a read into a buffer that cannot be written
to reports six bytes. -/
theorem dev_read_begins_again :
    returned 0 [⟨2, 2⟩, ⟨2, 2⟩] = ascii "brbr" ∧ ¬ Composes [⟨2, 2⟩, ⟨2, 2⟩] ∧
      devRead 0 ⟨6, 0⟩ = (6, ⟨6, []⟩) ∧ ¬ Composes [⟨6, 0⟩] := by
  refine ⟨by decide, fun h => absurd h.begins (by decide), by decide, fun h => ?_⟩
  exact not_faults_of_reported h.fault.1 (by decide)

end LinuxSamples.RegCharDev
