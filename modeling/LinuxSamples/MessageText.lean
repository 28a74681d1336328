import LinuxSamples.MessageDevice

/-!
What is read back from the ioctl character device.

After a message has been set, the pointer stands at its beginning, and reads of any lengths go
on to the first zero. A write stores the characters of the message and no zero behind them, so
what comes back is the message with the rest of a longer one before it. Setting the message
with the ioctl stores the zero too, except for the empty message, which is not stored at all.
So the message comes back exactly if the cell behind it was zero already where none is stored.
-/

namespace LinuxSamples.MessageDevice

open LinuxSamples.Run LinuxSamples.Bytes

/-- A read, with the characters handed to the caller. -/
def readCall (s : St) (length : ℕ) : St × List UInt8 :=
  match s.messagePtr with
  | none => (s, [])
  | some q => deviceRead s q length

/-- What `IOCTL_GET_MSG` stores: the characters it reads, and a zero. -/
def fetched (s : St) : List UInt8 := (readCall s 99).2 ++ [0]

/-- The reads of lengths `ns`, and one of a length other than zero that returns nothing. -/
def EndsAfter (s : St) (ns : List ℕ) : Prop :=
  ∃ k ≠ 0, (readCall (serve readCall s ns).1 k).2 = []

/-- The reads come to an end, and what they return up to it is the text. -/
def ReadsBack (s : St) (text : List UInt8) : Prop :=
  (∃ ns, EndsAfter s ns) ∧ ∀ ns, EndsAfter s ns → (serve readCall s ns).2.flatten = text

def Sets (text : List UInt8) : Act → Prop
  | .write buffer length => length = text.length ∧ load buffer 0 length = text
  | .ioctl (.setMsg param) => load param 0 (text.length + 1) = text ++ [0]
  | _ => False

/-- Where no zero is stored behind the text, there is one. -/
def Clean (s : St) (text : List UInt8) : Act → Prop
  | .write _ _ => s.message text.length = 0
  | _ => text = [] → s.message 0 = 0

/-! ### One read and many -/

lemma readLoop_output (m : ℕ → UInt8) (length q : ℕ) :
    (readLoop m length q).2.2 = load m q ((readLoop m length q).2.1 - q) := by
  induction length generalizing q with
  | zero => simp [readLoop, load]
  | succ length ih =>
    rw [readLoop]
    split
    · simp [load]
    · have hle := le_readLoop_self (m := m) length (q + 1)
      simp only [ih (q + 1)]
      rw [show (readLoop m length (q + 1)).2.1 - q =
        1 + ((readLoop m length (q + 1)).2.1 - (q + 1)) by omega, load_add]
      rfl

/-- **One read** hands over the characters up to where it leaves the pointer, which is not
behind a zero; it returns nothing only at a zero or if nothing was asked for. -/
lemma readCall_spec {s : St} {q : ℕ} (hq : s.messagePtr = some q) (n : ℕ) :
    ∃ q', q ≤ q' ∧ (readCall s n).1.messagePtr = some q' ∧ (readCall s n).1.message = s.message ∧
      (readCall s n).2 = load s.message q (q' - q) ∧
      (∀ e, q ≤ e → s.message e = 0 → q' ≤ e) ∧
      ∀ e, q ≤ e → e ≤ q + n → (∀ i, q ≤ i → i < e → s.message i ≠ 0) → e ≤ q' := by
  have hcall : readCall s n = deviceRead s q n := by simp only [readCall, hq]
  rw [hcall]
  by_cases hz : s.message q = 0
  · refine ⟨q, le_rfl, ?_, last_deviceRead s q n, ?_, fun e he _ => he, fun e he _ hnz => ?_⟩
    · simp only [deviceRead, if_pos hz, hq]
    · simp [deviceRead, hz, load]
    · by_contra hlt
      exact hnz q le_rfl (by omega) hz
  · refine ⟨(readLoop s.message n q).2.1, le_readLoop_self n q, ?_, last_deviceRead s q n, ?_,
      fun e he hze => (readLoop_le_zero hze n he).2,
      fun e he hle hnz => le_readLoop hnz hle he⟩
    · simp only [deviceRead, if_neg hz]
    · simp only [deviceRead, if_neg hz, readLoop_output]

/-- **Many reads** together hand over the characters up to where they leave the pointer. -/
lemma serve_reads {s : St} {q : ℕ} (hq : s.messagePtr = some q) (ns : List ℕ) :
    ∃ q', q ≤ q' ∧ (serve readCall s ns).1.messagePtr = some q' ∧
      (serve readCall s ns).1.message = s.message ∧
      (serve readCall s ns).2.flatten = load s.message q (q' - q) ∧
      ∀ e, q ≤ e → s.message e = 0 → q' ≤ e := by
  induction ns generalizing s q with
  | nil => exact ⟨q, le_rfl, hq, rfl, by simp [load], fun e he _ => he⟩
  | cons n ns ih =>
    obtain ⟨q₁, hle₁, hptr₁, hmessage₁, hout₁, hzero₁, -⟩ := readCall_spec hq n
    obtain ⟨q₂, hle₂, hptr₂, hmessage₂, hout₂, hzero₂⟩ := ih hptr₁
    rw [hmessage₁] at hmessage₂ hout₂ hzero₂
    refine ⟨q₂, hle₁.trans hle₂, hptr₂, hmessage₂, ?_, fun e he hz => ?_⟩
    · rw [serve_cons, List.flatten_cons, hout₁, hout₂, show q₂ - q = (q₁ - q) + (q₂ - q₁) by omega,
        load_add, show q + (q₁ - q) = q₁ by omega]
    · exact hzero₂ e (hzero₁ e he hz) hz

lemma readCall_eq_nil_iff {s : St} {q : ℕ} (hq : s.messagePtr = some q) {k : ℕ} (hk : k ≠ 0) :
    (readCall s k).2 = [] ↔ s.message q = 0 := by
  obtain ⟨q', hle, -, -, hout, hzero, hpast⟩ := readCall_spec hq k
  rw [hout, ← List.length_eq_zero_iff, length_load]
  constructor
  · intro h
    by_contra hz
    have := hpast (q + 1) (by omega) (by omega) fun i hi hlt => by
      obtain rfl : i = q := by omega
      exact hz
    omega
  · intro hz
    have := hzero q le_rfl hz
    omega

/-! ### Reading a text back -/

section Text

variable {s : St} {text : List UInt8}

/-- The pointer is at the beginning of the message, which begins with the text. -/
structure Begins (s : St) (text : List UInt8) : Prop where
  messagePtr : s.messagePtr = some 0
  load : load s.message 0 text.length = text
  zero : 0 ∉ text

lemma Begins.ne_zero (h : Begins s text) {i : ℕ} (hi : i < text.length) : s.message i ≠ 0 := by
  have hget := getElem?_load s.message 0 hi
  rw [h.load, Nat.zero_add] at hget
  exact fun hz => h.zero (hz ▸ List.mem_of_getElem? hget)

lemma Begins.readsBack_iff (h : Begins s text) :
    ReadsBack s text ↔ s.message text.length = 0 := by
  constructor
  · rintro ⟨⟨ns, hends⟩, hall⟩
    obtain ⟨q, -, hq, hmessage, hout, -⟩ := serve_reads h.messagePtr ns
    have hlen : q = text.length := by
      have hflat := congrArg List.length ((hall ns hends).symm.trans hout)
      rw [length_load] at hflat
      omega
    obtain ⟨k, hk, hnil⟩ := hends
    rwa [readCall_eq_nil_iff hq hk, hmessage, hlen] at hnil
  · intro hz
    have hend {q : ℕ} (hq : s.message q = 0) : text.length ≤ q := by
      by_contra hlt
      exact h.ne_zero (by omega) hq
    refine ⟨⟨[text.length], 1, one_ne_zero, ?_⟩, fun ns hends => ?_⟩
    · obtain ⟨q, -, hq, hmessage, -, hzero, hpast⟩ :=
        readCall_spec h.messagePtr text.length
      have hlen : q = text.length := le_antisymm (hzero _ (Nat.zero_le _) hz)
        (hpast _ (Nat.zero_le _) (by omega) fun i _ hi => h.ne_zero hi)
      rw [serve_cons, serve_nil, readCall_eq_nil_iff hq one_ne_zero, hmessage, hlen, hz]
    · obtain ⟨k, hk, hnil⟩ := hends
      obtain ⟨q, -, hq, hmessage, hout, hzero⟩ := serve_reads h.messagePtr ns
      rw [readCall_eq_nil_iff hq hk, hmessage] at hnil
      have hlen : q = text.length :=
        le_antisymm (hzero _ (Nat.zero_le _) hz) (hend hnil)
      rw [hout, hlen, Nat.sub_zero, h.load]

lemma Begins.fetched_iff (h : Begins s text) (hlen : text.length < 99) :
    fetched s = text ++ [0] ↔ s.message text.length = 0 := by
  obtain ⟨q, -, -, -, hout, hzero, hpast⟩ := readCall_spec h.messagePtr 99
  have hle : text.length ≤ q :=
    hpast _ (Nat.zero_le _) (by omega) fun i _ hi => h.ne_zero hi
  rw [fetched, List.append_cancel_right_eq, hout, Nat.sub_zero]
  constructor
  · intro hload
    by_contra hz
    have hlong := hpast (text.length + 1) (Nat.zero_le _) (by omega) fun i _ hi => by
      rcases Nat.lt_succ_iff_lt_or_eq.mp hi with hi | rfl
      · exact h.ne_zero hi
      · exact hz
    have hlen' := congrArg List.length hload
    rw [length_load] at hlen'
    omega
  · intro hz
    rw [le_antisymm (hzero _ (Nat.zero_le _) hz) hle, h.load]

end Text

/-! ### Setting a text -/

lemma endOfMessage_eq {param : ℕ → UInt8} {n : ℕ} (hnz : ∀ i < n, param i ≠ 0)
    (hz : param n = 0) {k i : ℕ} {ch : UInt8} (hch : ch ≠ 0) (hi : i ≤ n) (hk : n < k + i) :
    endOfMessage param k i ch = n + 1 := by
  induction k generalizing i ch with
  | zero => omega
  | succ k ih =>
    rw [endOfMessage, if_neg hch]
    rcases Nat.lt_or_eq_of_le hi with hlt | rfl
    · exact ih (hnz i hlt) (by omega) (by omega)
    · rw [hz]
      cases k <;> simp [endOfMessage]

lemma deviceWrite_message (s : St) (buffer : ℕ → UInt8) {n : ℕ} (hn : n ≤ BUF_LEN) :
    (deviceWrite s buffer n).message = store s.message 0 (load buffer 0 n) := by
  simp only [deviceWrite, min_eq_left hn]

lemma begins_store {s : St} {m : ℕ → UInt8} {text rest : List UInt8} (hz : 0 ∉ text)
    (hptr : s.messagePtr = some 0) (hmessage : s.message = store m 0 (text ++ rest)) :
    Begins s text := by
  refine ⟨hptr, ?_, hz⟩
  have hload := load_store m 0 (text ++ rest)
  rw [List.length_append, load_add] at hload
  rw [hmessage]
  exact (List.append_inj hload (by simp)).1

section Set

variable {s : St} {text : List UInt8}

lemma write_spec (hz : 0 ∉ text) (hlen : text.length ≤ 79) {buffer : ℕ → UInt8}
    (hb : load buffer 0 text.length = text) :
    Begins (deviceWrite s buffer text.length) text ∧
      (deviceWrite s buffer text.length).message text.length = s.message text.length := by
  have hmessage : (deviceWrite s buffer text.length).message =
      store s.message 0 (text ++ []) := by
    rw [deviceWrite_message s buffer (by unfold BUF_LEN; omega), hb, List.append_nil]
  refine ⟨begins_store hz rfl hmessage, ?_⟩
  rw [hmessage, List.append_nil, store_of_ge (by omega)]

lemma setMsg_spec (hz : 0 ∉ text) (hlen : text.length ≤ 79) {param : ℕ → UInt8} (q : ℕ)
    (hp : load param 0 (text.length + 1) = text ++ [0]) :
    Begins (deviceIoctl s q (.setMsg param)) text ∧
      ((deviceIoctl s q (.setMsg param)).message text.length = 0 ↔
        (text = [] → s.message 0 = 0)) := by
  have hcell (i : ℕ) (hi : i < text.length + 1) : (text ++ [0])[i]? = some (param i) := by
    rw [← hp, getElem?_load param 0 hi, Nat.zero_add]
  have hend : param text.length = 0 := by
    simpa using (hcell text.length (by omega)).symm
  have hnz (i : ℕ) (hi : i < text.length) : param i ≠ 0 := by
    have hget := hcell i (by omega)
    rw [List.getElem?_append_left hi] at hget
    exact fun h => hz (h ▸ List.mem_of_getElem? hget)
  by_cases hnil : text = []
  · -- the loop stops at once
    subst hnil
    have hlength : endOfMessage param BUF_LEN 0 (param 0) = 0 := by
      rw [show param 0 = 0 from hend]
      rfl
    have hmessage : (deviceIoctl s q (.setMsg param)).message = s.message := by
      simp only [deviceIoctl, hlength]
      exact deviceWrite_message s param (Nat.zero_le _)
    refine ⟨⟨rfl, rfl, hz⟩, ?_⟩
    rw [hmessage]
    simp
  · have hpos := List.length_pos_iff.mpr hnil
    have hlength : endOfMessage param BUF_LEN 0 (param 0) = text.length + 1 :=
      endOfMessage_eq hnz hend (hnz 0 hpos) (Nat.zero_le _) (by unfold BUF_LEN; omega)
    have hmessage : (deviceIoctl s q (.setMsg param)).message =
        store s.message 0 (text ++ [0]) := by
      simp only [deviceIoctl, hlength]
      rw [deviceWrite_message s param (by unfold BUF_LEN; omega), hp]
    refine ⟨begins_store hz rfl hmessage, iff_of_true ?_ fun h => absurd h hnil⟩
    rw [hmessage]
    have hstore : store s.message 0 (text ++ [0]) (0 + text.length) = _ :=
      store_of_mem (by simp)
    simpa using hstore

end Set

/-! ### The message last set -/

lemma messagePtr_step {s s' : St} {a : Act} (h : 0 < s.deviceOpen → ∃ q, s.messagePtr = some q)
    (hs : step s a = some s') (hopen : 0 < s'.deviceOpen) : ∃ q, s'.messagePtr = some q := by
  have hread {q : ℕ} (hq : s.messagePtr = some q) (n : ℕ) :
      ∃ q', (deviceRead s q n).1.messagePtr = some q' := by
    obtain ⟨q', -, hq', -⟩ := readCall_spec hq n
    rw [readCall, hq] at hq'
    exact ⟨q', hq'⟩
  cases step_cases hs with
  | «open» =>
    unfold openDevice
    split
    · next hne => exact h (Nat.pos_of_ne_zero hne)
    · exact ⟨0, rfl⟩
  | release hpos => exact h hpos
  | read q length hq => exact hread hq length
  | write => exact ⟨0, rfl⟩
  | ioctl q r hq =>
    cases r with
    | setMsg param => exact ⟨0, rfl⟩
    | getMsg => exact hread hq 99
    | getNthByte param => exact ⟨q, hq⟩
    | other => exact ⟨q, hq⟩

/-- **The message last set.** After any calls that leave the device open, a text of at most 79
characters, none of them zero, is set by a write or by the ioctl. Reads of any lengths then
return it, up to the first one that returns nothing, exactly if the cell behind it was zero
where none is stored; and so does `IOCTL_GET_MSG`. -/
theorem message_last_set_iff {behind : ℕ → UInt8} {s : St} {as : List Act}
    (h : exec step (init behind) as = some s) (hopen : 0 < s.deviceOpen) {text : List UInt8}
    (hz : 0 ∉ text) (hlen : text.length ≤ 79) {a : Act} (ha : Sets text a) :
    ∃ s', step s a = some s' ∧ (ReadsBack s' text ↔ Clean s text a) ∧
      (fetched s' = text ++ [0] ↔ Clean s text a) := by
  obtain ⟨q, hq⟩ : ∃ q, s.messagePtr = some q :=
    Reach.invariant ⟨as, h⟩ (I := fun u => 0 < u.deviceOpen → ∃ q, u.messagePtr = some q)
      (fun h => absurd h (lt_irrefl 0)) (fun _ _ _ hu hv hpos => messagePtr_step hu hv hpos) hopen
  -- what the call leaves, in either case
  obtain ⟨s', hs', hbegins, hclean⟩ : ∃ s', step s a = some s' ∧ Begins s' text ∧
      (s'.message text.length = 0 ↔ Clean s text a) := by
    cases a with
    | write buffer length =>
      obtain ⟨rfl, hb⟩ := ha
      obtain ⟨hbegins, hmessage⟩ := write_spec (s := s) hz hlen hb
      exact ⟨_, if_pos hopen, hbegins, by rw [hmessage, Clean]⟩
    | ioctl r =>
      cases r with
      | setMsg param =>
        obtain ⟨hbegins, hmessage⟩ := setMsg_spec (s := s) hz hlen q ha
        exact ⟨_, (if_pos hopen).trans (by rw [hq]; rfl), hbegins, hmessage⟩
      | getMsg => exact ha.elim
      | getNthByte param => exact ha.elim
      | other => exact ha.elim
    | «open» => exact ha.elim
    | release => exact ha.elim
    | read length => exact ha.elim
  refine ⟨s', hs', ?_, ?_⟩
  · rw [hbegins.readsBack_iff, hclean]
  · rw [hbegins.fetched_iff (by omega), hclean]

theorem message_last_set_iff_fresh :
    ∃ s', exec step (init fun _ => 0) [.open, .write (fun _ => 65) 2] = some s' ∧
      ReadsBack s' [65, 65] ∧ fetched s' = [65, 65, 0] := by
  obtain ⟨s', hs', hreads, hfetched⟩ := message_last_set_iff
    (a := .write (fun _ => 65) 2) (rfl : exec step (init fun _ => 0) [.open] = _) (by decide)
    (show (0 : UInt8) ∉ [65, 65] by decide) (by decide) ⟨rfl, rfl⟩
  exact ⟨s', hs', hreads.mpr rfl, hfetched.mpr rfl⟩

/-- Two characters written over four come back as four, in reads of three characters and of
five, and setting the empty message changes nothing. -/
theorem message_last_set_mixed :
    (∃ s, exec step (init fun _ => 0)
        [.open, .write (fun _ => 65) 4, .write (fun _ => 66) 2] = some s ∧
      (serve readCall s [3, 5]).2 = [[66, 66, 65], [65]] ∧
      (readCall (serve readCall s [3, 5]).1 1).2 = [] ∧ fetched s = [66, 66, 65, 65, 0]) ∧
    ∃ s, exec step (init fun _ => 0)
        [.open, .write (fun _ => 65) 4, .ioctl (.setMsg fun _ => 0)] = some s ∧
      fetched s = [65, 65, 65, 65, 0] :=
  ⟨⟨_, rfl, by decide +kernel, by decide +kernel, by decide +kernel⟩, _, rfl, by decide +kernel⟩

end LinuxSamples.MessageDevice
