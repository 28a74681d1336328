import LinuxSamples.CText
import LinuxSamples.Run

/-!
The list of processes of the task manager.

`get_process_info` goes through `/proc`, cuts the line of each process into words and shows the
CPU use since the last refresh. The samples of the last refresh are kept by position, so that a
process is compared with whatever process stood at its place; the words are cut at blanks, and
a name may contain blanks; and the array holds 128 characters of the line, which may end before
the 26 words that are looked for.
-/

namespace LinuxSamples.TaskManager.ProcessList

open CString LinuxSamples.Run

def PMAX : ℕ := 100

/-- A row of the list. The rate is `none` if it is not a number. -/
structure Row where
  pid : Option (List UInt8)
  name : Option (List UInt8)
  status : Option (List UInt8)
  cpu : Option ℚ
  memory : ℚ

/-- `srate` for a difference of user times. A division by zero is infinite, or not a number. -/
def share (total d : ℤ) : Option ℚ :=
  if total = 0 then if d = 0 then none else some 0
  else
    let srate : ℚ := d / (2 * total)
    if srate < 0 ∨ srate > 1 then some 0 else some srate

structure Info where
  total : ℤ
  pfuser : ℕ → ℤ
  num : ℕ
  store : List Row
  sTotal : ℕ
  rTotal : ℕ

/-- An entry of `/proc` with the contents of its file `stat`, if that can be opened. -/
structure Entry where
  dName : List UInt8
  stat : Option (List UInt8)

/-- What `read` leaves in the 128 characters of `buffer`. -/
def readStat (stat : Option (List UInt8)) (buffer : List UInt8) : List UInt8 :=
  match stat with
  | none => buffer.take 128
  | some line => (line ++ buffer.drop line.length).take 128

/-- The end of a round: the row is stored, the state is counted, and the sample is kept. -/
def Info.push (s : Info) (row : Row) (status : List UInt8) (pcuser : ℤ) : Info :=
  { s with
    store := s.store ++ [row]
    sTotal := s.sTotal + if status = ascii "S" then 1 else 0
    rTotal := s.rTotal + if status = ascii "R" then 1 else 0
    pfuser := Function.update s.pfuser s.num pcuser
    num := (s.num + 1) % PMAX }

/-- One round of the loop of `get_process_info`. The result is `none` if a word is looked for
behind the end of `buffer`, or if a word that is used is not there. -/
def listEntry (s : Info) (e : Entry) (buffer : List UInt8) : Option Info :=
  if e.dName.head?.any isdigit then do
    let info ← strtoks 26 (readStat e.stat buffer)
    let pcuser := atoi (← info.getD 13 none)
    let srate := share s.total (pcuser - s.pfuser s.num)
    let mem := atoi (← info.getD 22 none)
    let status ← info.getD 2 none
    let row : Row := ⟨info.getD 0 none, info.getD 1 none, status, srate, mem / (1024 * 1024)⟩
    return s.push row status pcuser
  else some s

/-! ### Processes and refreshes -/

/-- A process, with its line in `stat`: the name in parentheses, the state and the fields from
number 3 on. -/
structure Proc (ι : Type) where
  who : ι
  pid : ℕ
  comm : List UInt8
  state : UInt8
  field : ℕ → ℤ
  comm_ne_zero : 0 ∉ comm
  state_word : Word [state]
  utime_nonneg : 0 ≤ field 13

variable {ι : Type}

def Proc.utime (p : Proc ι) : ℤ := p.field 13

def Proc.pidText (p : Proc ι) : List UInt8 := bytes (sprintfD p.pid)

def Proc.nameText (p : Proc ι) : List UInt8 := 40 :: p.comm ++ [41]

/-- The fields with the numbers from `i` on, `n` of them. -/
def Proc.fields (p : Proc ι) (i n : ℕ) : List (List UInt8) :=
  (List.range' i n).map fun k => bytes (sprintfD (p.field k))

def Proc.words (p : Proc ι) : List (List UInt8) :=
  p.pidText :: p.nameText :: [p.state] :: p.fields 3 23

def Proc.line (p : Proc ι) : List UInt8 :=
  spaced p.words ++ (spaced (p.fields 26 25) ++ (bytes (sprintfD (p.field 51)) ++ [newline]))

def Proc.entry (p : Proc ι) : Entry := ⟨p.pidText, some p.line⟩

/-- The program, whether it is still defined what it does, and beside it the processes of this
refresh with the CPU use that should be shown, and the user times at the last refresh in which
each process was listed. -/
structure St (ι : Type) where
  info : Info
  defined : Bool
  listed : List (Proc ι × Option ℚ)
  last : ι → Option ℤ

/-- `pfuser` is cleared at the start. -/
def St.init : St ι := ⟨⟨0, fun _ => 0, 0, [], 0, 0⟩, true, [], fun _ => none⟩

/-- The CPU use that should be shown: from the last refresh in which the process was listed. -/
def St.use [DecidableEq ι] (s : St ι) (p : Proc ι) : Option ℚ :=
  match s.last p.who with
  | some v => share s.info.total (p.utime - v)
  | none => some 0

inductive Act (ι : Type)
  /-- the list is cleared and made again; `total` has been measured in between -/
  | refresh (total : ℤ)
  /-- the next entry is a process -/
  | list (p : Proc ι) (buffer : List UInt8)
  /-- the next entry is something else -/
  | other (e : Entry) (buffer : List UInt8)

def step [DecidableEq ι] (s : St ι) : Act ι → Option (St ι)
  | .refresh total =>
    some { s with
      info := { s.info with total := total, num := 0, store := [], sTotal := 0, rTotal := 0 }
      listed := [] }
  | .list p buffer =>
    let next : St ι :=
      { s with
        listed := s.listed ++ [(p, s.use p)]
        last := Function.update s.last p.who (some p.utime) }
    match listEntry s.info p.entry buffer with
    | none => some { next with defined := false }
    | some info => some { next with info := info }
  | .other e buffer =>
    if e.dName.head?.any isdigit then none
    else (listEntry s.info e buffer).map fun info => { s with info := info }

/-- The row shows the process with the given CPU use. -/
def Row.Shows (row : Row) (r : Proc ι × Option ℚ) : Prop :=
  row.pid = some r.1.pidText ∧ row.name = some r.1.nameText ∧ row.status = some [r.1.state] ∧
    row.cpu = r.2

/-- **The list is right**: one row for each process, in order. -/
structure Right (s : St ι) : Prop where
  defined : s.defined = true
  rows : List.Forall₂ Row.Shows s.info.store s.listed

/-! ### The CPU use -/

/-- A difference of user times that is not shown as zero. -/
def Visible (total d : ℤ) : Prop :=
  0 < d ∧ d ≤ 2 * total ∨ d < 0 ∧ 2 * total ≤ d ∨ total = 0 ∧ d = 0

instance (total d : ℤ) : Decidable (Visible total d) := inferInstanceAs (Decidable (_ ∨ _))

lemma share_zero (d : ℤ) : share 0 d = if Visible 0 d then none else some 0 := by
  have hiff : Visible 0 d ↔ d = 0 := by
    unfold Visible
    omega
  simp only [share, if_true, hiff]

lemma visible_iff {total : ℤ} (h : total ≠ 0) (d : ℤ) :
    Visible total d ↔ 0 < (d : ℚ) / (2 * total) ∧ (d : ℚ) / (2 * total) ≤ 1 := by
  rcases lt_or_gt_of_ne h with hneg | hpos
  · have hden : (2 * total : ℚ) < 0 := by exact_mod_cast (by omega : 2 * total < 0)
    rw [div_pos_iff, div_le_one_of_neg hden, Visible]
    norm_cast
    omega
  · have hden : (0 : ℚ) < 2 * total := by exact_mod_cast (by omega : 0 < 2 * total)
    rw [div_pos_iff, div_le_one hden, Visible]
    norm_cast
    omega

lemma share_of_ne {total : ℤ} (h : total ≠ 0) (d : ℤ) :
    share total d = if Visible total d then some ((d : ℚ) / (2 * total)) else some 0 := by
  simp only [share, if_neg h, visible_iff h]
  split_ifs with hout hin hin
  · rcases hout with hout | hout
    · exact absurd hin.1 (by linarith)
    · exact absurd hin.2 (by linarith)
  · rfl
  · rfl
  · rw [not_or] at hout
    rw [le_antisymm (not_lt.mp fun hpos => hin ⟨hpos, not_lt.mp hout.2⟩) (not_lt.mp hout.1)]

lemma share_eq_zero_iff {total d : ℤ} : share total d = some 0 ↔ ¬ Visible total d := by
  by_cases h : total = 0
  · subst h
    rw [share_zero]
    split <;> simp [*]
  · rw [share_of_ne h]
    split
    · next hv =>
      have hpos := ((visible_iff h d).mp hv).1
      exact iff_of_false (fun heq => hpos.ne' (Option.some.inj heq)) (not_not.mpr hv)
    · next hv => exact iff_of_true rfl hv

/-- **Two differences show the same use** if they are equal, or if neither of them shows. -/
lemma share_eq_iff {total d d' : ℤ} :
    share total d = share total d' ↔ d = d' ∨ ¬ Visible total d ∧ ¬ Visible total d' := by
  by_cases hd : Visible total d
  · by_cases hd' : Visible total d'
    · simp only [hd, hd', not_true_eq_false, and_self, or_false]
      refine ⟨fun h => ?_, fun h => h ▸ rfl⟩
      by_cases h0 : total = 0
      · subst h0
        unfold Visible at hd hd'
        omega
      · rw [share_of_ne h0, share_of_ne h0, if_pos hd, if_pos hd', Option.some.injEq,
          div_left_inj' (by exact_mod_cast (by omega : 2 * total ≠ 0))] at h
        exact_mod_cast h
    · rw [share_eq_zero_iff.mpr hd', share_eq_zero_iff]
      refine iff_of_false (not_not.mpr hd) ?_
      rintro (rfl | h)
      · exact hd' hd
      · exact h.1 hd
  · rw [share_eq_zero_iff.mpr hd, eq_comm, share_eq_zero_iff]
    refine ⟨fun h => Or.inr ⟨hd, h⟩, ?_⟩
    rintro (rfl | h)
    · exact hd
    · exact h.2

/-! ### The words of a line -/

lemma Proc.isdigit_pid (p : Proc ι) : p.entry.dName.head?.any isdigit = true := by
  obtain ⟨c, cs, hcs⟩ := List.exists_cons_of_ne_nil (sprintfD_ne_nil p.pid)
  have hpid : p.entry.dName = c :: cs := hcs
  have hmem : c ∈ bytes (Nat.toDigits 10 p.pid) := by
    rw [← sprintfD_natCast, hcs]
    exact List.mem_cons_self
  rw [hpid, List.head?_cons, Option.any_some, isdigit_of_mem hmem]

lemma Proc.word_words {p : Proc ι} (hcomm : blank ∉ p.comm) :
    ∀ w ∈ p.words, Word w ∧ w ≠ [] := by
  have hname : Word p.nameText := by
    refine word_append.mpr ⟨word_cons.mpr ⟨by decide, by decide, hcomm, p.comm_ne_zero⟩, ?_⟩
    decide
  intro w hw
  simp only [Proc.words, Proc.fields, List.mem_cons, List.mem_map] at hw
  rcases hw with rfl | rfl | rfl | ⟨k, -, rfl⟩
  · exact ⟨word_sprintfD _, sprintfD_ne_nil _⟩
  · exact ⟨hname, List.cons_ne_nil _ _⟩
  · exact ⟨p.state_word, List.cons_ne_nil _ _⟩
  · exact ⟨word_sprintfD _, sprintfD_ne_nil _⟩

lemma strtoks_readStat {p : Proc ι} (hcomm : blank ∉ p.comm) (buffer : List UInt8) :
    strtoks 26 (readStat p.entry.stat buffer) =
      if (spaced p.words).length ≤ 128 then some (p.words.map some) else none := by
  have hwords := Proc.word_words hcomm
  simp only [Proc.entry, readStat, Proc.line, List.append_assoc]
  split
  · next hfit =>
    rw [List.take_append, List.take_of_length_le hfit]
    exact strtoks_spaced hwords _
  · next hlong =>
    rw [List.take_append_of_le_length (by omega)]
    exact strtoks_take_eq_none hwords (by omega)

/-- The row of a process whose line can be cut. -/
def Proc.row (p : Proc ι) (s : Info) : Row where
  pid := p.pidText
  name := p.nameText
  status := some [p.state]
  cpu := share s.total (atoi (bytes (sprintfD p.utime)) - s.pfuser s.num)
  memory := atoi (bytes (sprintfD (p.field 22))) / (1024 * 1024)

lemma listEntry_of_fits {p : Proc ι} (hcomm : blank ∉ p.comm)
    (hfit : (spaced p.words).length ≤ 128) (s : Info) (buffer : List UInt8) :
    listEntry s p.entry buffer =
      some (s.push (p.row s) [p.state] (atoi (bytes (sprintfD p.utime)))) := by
  have hinfo := strtoks_readStat hcomm buffer
  rw [if_pos hfit] at hinfo
  rw [listEntry, if_pos p.isdigit_pid, hinfo]
  rfl

lemma atoi_utime {p : Proc ι} (h : p.utime < 2 ^ 31) :
    atoi (bytes (sprintfD p.utime)) = p.utime := by
  obtain ⟨n, hn⟩ := Int.eq_ofNat_of_zero_le p.utime_nonneg
  have hutime : p.utime = n := hn
  have hatoi := atoi_of_lt (n := n) (by omega) (List.takeWhile_nil (p := isdigit))
  rwa [List.append_nil, ← sprintfD_natCast, ← hutime] at hatoi

lemma word_of_listEntry {p : Proc ι} {s info : Info} {buffer : List UInt8}
    (h : listEntry s p.entry buffer = some info) :
    ∃ row, info.store = s.store ++ [row] ∧ ∀ w, row.name = some w → Word w := by
  rw [listEntry, if_pos p.isdigit_pid] at h
  simp only [Option.bind_eq_bind, Option.bind_eq_some_iff] at h
  obtain ⟨l, hl, u, hu, m, hm, status, hstatus, heq⟩ := h
  cases heq
  refine ⟨_, rfl, fun w hw => ?_⟩
  have hget : l.getD 1 none = some w := hw
  refine word_of_mem_strtoks hl ?_
  rw [List.getD_eq_getElem?_getD] at hget
  cases h1 : l[1]? with
  | none =>
    rw [h1] at hget
    cases hget
  | some o =>
    rw [h1] at hget
    exact hget ▸ List.mem_of_getElem? h1

/-! ### Runs -/

lemma right_init : Right (St.init : St ι) := ⟨rfl, List.Forall₂.nil⟩

lemma forall₂_concat {α β : Type*} {R : α → β → Prop} {l : List α} {m : List β} {a : α} {b : β} :
    List.Forall₂ R (l ++ [a]) (m ++ [b]) ↔ R a b ∧ List.Forall₂ R l m := by
  rw [← List.forall₂_reverse_iff, List.reverse_concat', List.reverse_concat', List.forall₂_cons,
    List.forall₂_reverse_iff]

section Runs

variable [DecidableEq ι]

/-- The sample at the place of the process serves as well as its own: the differences are the
same, or neither shows. A process that is new must not show a difference at all. -/
def Fair (s : St ι) (p : Proc ι) : Prop :=
  let d := atoi (bytes (sprintfD p.utime)) - s.info.pfuser s.info.num
  match s.last p.who with
  | some v => d = p.utime - v ∨ ¬ Visible s.info.total d ∧ ¬ Visible s.info.total (p.utime - v)
  | none => ¬ Visible s.info.total d

/-- The condition on an entry that is a process. -/
def Meets (s : St ι) : Act ι → Prop
  | .list p _ => blank ∉ p.comm ∧ (spaced p.words).length ≤ 128 ∧ Fair s p
  | .refresh _ => True
  | .other _ _ => True

instance (s : St ι) (p : Proc ι) : Decidable (Fair s p) :=
  match h : s.last p.who with
  | some v => decidable_of_iff _ (by simp only [Fair, h]; exact Iff.rfl)
  | none => decidable_of_iff _ (by simp only [Fair, h]; exact Iff.rfl)

instance (s : St ι) : (a : Act ι) → Decidable (Meets s a)
  | .list p _ => inferInstanceAs (Decidable (blank ∉ p.comm ∧ _ ≤ 128 ∧ Fair s p))
  | .refresh _ => isTrue trivial
  | .other _ _ => isTrue trivial

lemma cpu_row_iff (s : St ι) (p : Proc ι) : (p.row s.info).cpu = s.use p ↔ Fair s p := by
  simp only [Proc.row, St.use, Fair]
  cases s.last p.who with
  | none => exact share_eq_zero_iff
  | some v => exact share_eq_iff

lemma right_step_iff {s s' : St ι} {a : Act ι} (hs : Right s) (h : step s a = some s') :
    Right s' ↔ Meets s a := by
  cases a with
  | refresh total =>
    cases h
    exact iff_of_true ⟨hs.defined, List.Forall₂.nil⟩ trivial
  | other e buffer =>
    simp only [step] at h
    split at h
    · cases h
    · next hdigit =>
      rw [listEntry, if_neg hdigit, Option.map_some, Option.some.injEq] at h
      subst h
      exact iff_of_true hs trivial
  | list p buffer =>
    by_cases hcomm : blank ∈ p.comm
    · -- the name is cut at its blank, if the words can be cut at all
      refine iff_of_false (fun hright => ?_) fun hmeets => hmeets.1 hcomm
      simp only [step] at h
      split at h
      · cases h
        exact Bool.false_ne_true hright.defined
      · next info hinfo =>
        cases h
        obtain ⟨row, hstore, hword⟩ := word_of_listEntry hinfo
        have hrows := hright.rows
        rw [hstore] at hrows
        have hshows := (forall₂_concat.mp hrows).1
        refine (hword _ hshows.2.1).1 ?_
        simp [Proc.nameText, hcomm]
    · by_cases hfit : (spaced p.words).length ≤ 128
      · simp only [step, listEntry_of_fits hcomm hfit] at h
        cases h
        have hmeets : Meets s (.list p buffer) ↔ Fair s p :=
          ⟨fun hm => hm.2.2, fun hf => ⟨hcomm, hfit, hf⟩⟩
        rw [hmeets, ← cpu_row_iff]
        constructor
        · intro hright
          exact (forall₂_concat.mp hright.rows).1.2.2.2
        · exact fun hcpu => ⟨hs.defined, forall₂_concat.mpr ⟨⟨rfl, rfl, rfl, hcpu⟩, hs.rows⟩⟩
      · have hnone : listEntry s.info p.entry buffer = none := by
          rw [listEntry, if_pos p.isdigit_pid, strtoks_readStat hcomm, if_neg hfit]
          rfl
        simp only [step, hnone] at h
        cases h
        exact iff_of_false (fun hright => Bool.false_ne_true hright.defined)
          fun hmeets => hfit hmeets.2.1

lemma always_right_iff {acts : List (Act ι)} {s t : St ι} (hs : Right s)
    (h : exec step s acts = some t) :
    Always step Right s acts ↔ Guarded step Meets s acts :=
  always_iff_guarded (I := Right) (fun _ hu => hu)
    (fun _ _ _ hu hmeets hstep => (right_step_iff hu hstep).mpr hmeets)
    (fun _ _ _ hu hno hstep hright => hno ((right_step_iff hu hstep).mp hright)) h hs

/-- **When the list is right.** Over every sequence of refreshes, the rows show the processes
with the CPU use of each, one row for each process, exactly if at every process the name has no
blank, the first 26 fields fit the array, and the sample that stands at its place will do. -/
theorem process_list_right_iff {acts : List (Act ι)} {s : St ι}
    (h : exec step St.init acts = some s) :
    Always step Right St.init acts ↔ Guarded step Meets St.init acts :=
  always_right_iff right_init h

/-- The process stands at its place, and if it is new, no difference shows there. -/
def Stays (place : ι → ℕ) (s : St ι) : Act ι → Prop
  | .list p _ => blank ∉ p.comm ∧ (spaced p.words).length ≤ 128 ∧ p.utime < 2 ^ 31 ∧
    s.info.num = place p.who ∧
      (s.last p.who = none → ¬ Visible s.info.total (p.utime - s.info.pfuser s.info.num))
  | .refresh _ => True
  | .other _ _ => True

/-- **Places.** If every process is listed where it was listed before, and no other process
there, the list is right. -/
theorem process_list_right_of_place {place : ι → ℕ} (hplace : place.Injective)
    {acts : List (Act ι)} {s : St ι} (h : exec step St.init acts = some s)
    (hstays : Guarded step (Stays place) St.init acts) : Always step Right St.init acts := by
  refine (always_right_iff right_init h).mpr (hstays.of_exec h
    (I := fun s => ∀ i v, s.last i = some v → s.info.pfuser (place i) = v)
    (fun i v hv => nomatch hv) ?_)
  intro u a v hkept hok hstep
  cases a with
  | refresh total =>
    cases hstep
    exact ⟨trivial, hkept⟩
  | other e buffer =>
    simp only [step] at hstep
    split at hstep
    · cases hstep
    · next hdigit =>
      rw [listEntry, if_neg hdigit, Option.map_some, Option.some.injEq] at hstep
      exact ⟨trivial, hstep ▸ hkept⟩
  | list p buffer =>
    obtain ⟨hcomm, hfit, hlt, hnum, hnew⟩ := hok
    refine ⟨⟨hcomm, hfit, ?_⟩, ?_⟩
    · rw [Fair, atoi_utime hlt]
      cases hlast : u.last p.who with
      | none => exact hnew hlast
      | some v => exact Or.inl (by rw [hnum, hkept _ v hlast])
    · simp only [step, listEntry_of_fits hcomm hfit] at hstep
      cases hstep
      intro i v hv
      simp only [Info.push, hnum, Function.update_apply, hplace.eq_iff] at hv ⊢
      split at hv
      · next heq => rw [if_pos heq, atoi_utime hlt, Option.some.inj hv]
      · next hne => rw [if_neg hne, hkept i v hv]

end Runs

/-- A sleeping process. All other numbers in its line are zero. -/
def sample (who : ℕ) (comm : List UInt8) (utime : ℕ) (h : 0 ∉ comm) : Proc ℕ where
  who := who
  pid := who
  comm := comm
  state := 83
  field k := if k = 13 then utime else 0
  comm_ne_zero := h
  state_word := by decide
  utime_nonneg := by simp

/-- Two processes, which keep their places. -/
def steady : List (Act ℕ) :=
  [.refresh 100, .list (sample 7 [120] 0 (by decide)) [],
    .list (sample 8 [121] 0 (by decide)) [],
    .refresh 50, .list (sample 7 [120] 10 (by decide)) [],
    .list (sample 8 [121] 30 (by decide)) []]

theorem process_list_right_iff_steady : Always step Right St.init steady :=
  (process_list_right_iff rfl).mpr (by decide)

/-- Process 7 is listed before process 8, and ends. -/
def ended : List (Act ℕ) :=
  [.refresh 1, .list (sample 7 [120] 500 (by decide)) [],
    .list (sample 8 [121] 1000 (by decide)) [],
    .refresh 500, .list (sample 8 [121] 1010 (by decide)) []]

def twoWords : List (Act ℕ) := [.refresh 100, .list (sample 7 [97, 32, 98] 0 (by decide)) []]

/-- The process that is left is shown with 51 percent instead of 1, since it stands at the place
of the one that ended; and a name with a blank is shown up to the blank. -/
theorem process_list_mixed_up :
    ¬ Always step Right St.init ended ∧
      (exec step St.init ended).map (fun s => s.info.store.map Row.cpu) =
        some [some (51 / 100)] ∧
      (exec step St.init ended).map (fun s => s.listed.map Prod.snd) = some [some (1 / 100)] ∧
      ¬ Always step Right St.init twoWords ∧
      (exec step St.init twoWords).map (fun s => s.info.store.map Row.name) =
        some [some (ascii "(a")] := by
  refine ⟨fun h => ?_, ?_, ?_, fun h => ?_, ?_⟩
  · exact absurd ((always_right_iff right_init rfl).mp h) (by decide)
  · decide +kernel
  · decide +kernel
  · exact absurd ((always_right_iff right_init rfl).mp h) (by decide)
  · decide +kernel

end LinuxSamples.TaskManager.ProcessList
