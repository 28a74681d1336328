import LinuxSamples.ViviLine

/-!
Which file can stop the virtual video driver.

`vivi_start_generating` leaves a mark in the file that found the driver idle, and
`vivi_stop_generating` looks for the mark before it stops. Nothing takes the mark away again: not
the stop, and not a start that fails. So a file that started the driver once can stop what another
file started since. The generation is stopped by its owner only, exactly if no such file calls.
-/

namespace LinuxSamples.Vivi

open LinuxSamples.Run

/-! ### Files -/

/-- The device and its open files. -/
structure Files where
  dev : St
  isOpen : ℕ → Bool

inductive FileAct
  | opens (file : ℕ)
  /-- `vivi_read`; `setup` says whether the queue can be set up for reading. -/
  | read (file : ℕ) (kthread setup : Bool)
  /-- `vivi_poll` -/
  | poll (file : ℕ) (kthread setup : Bool)
  /-- `vivi_close` -/
  | close (file : ℕ)
  | driver (a : Act)
  deriving DecidableEq

/-- The file whose marks an `ioctl` uses. -/
def Act.file : Act → Option ℕ
  | .streamon file _ => some file
  | .streamoff file => some file
  | _ => none

/-- What `videobuf_read_stream` and `videobuf_poll_stream` do to the queue, their buffers apart:
unless it streams, the first of them sets it up for reading. -/
def videobufRead (s : St) (setup : Bool) : St :=
  if s.streaming ∨ s.reading then s else { s with reading := setup }

/-- A call by an open file, or of the thread. The `private_data` of a file that is just opened
is not set. -/
def fileStep (s : Files) : FileAct → Option Files
  | .opens file =>
    if s.isOpen file then none
    else
      some ⟨{ s.dev with privateData := Function.update s.dev.privateData file false },
        Function.update s.isOpen file true⟩
  | .read file kthread setup =>
    if s.isOpen file then
      some { s with dev := videobufRead (startGenerating s.dev file kthread) setup }
    else none
  | .poll file kthread setup =>
    if s.isOpen file then
      some { s with dev := videobufRead (startGenerating s.dev file kthread) setup }
    else none
  | .close file =>
    if s.isOpen file then
      some ⟨stopGenerating s.dev file, Function.update s.isOpen file false⟩
    else none
  | .driver a =>
    if a.file.all s.isOpen then (step s.dev a).map fun dev => { s with dev := dev } else none

def noFiles : Files := ⟨init, fun _ => false⟩

/-! ### History -/

/-- Where a call gets to. -/
inductive Effect
  | fresh (file : ℕ)
  /-- `vivi_start_generating` is called. -/
  | start (file : ℕ) (kthread : Bool)
  /-- `vivi_stop_generating` is called. -/
  | stop (file : ℕ)
  | other

def Effect.stopped : Effect → Option ℕ
  | .stop file => some file
  | _ => none

lemma Effect.mem_stopped {e : Effect} {file : ℕ} : file ∈ e.stopped ↔ e = .stop file := by
  cases e <;> simp [Effect.stopped, eq_comm]

/-- `vidioc_streamon` gives up if `videobuf_streamon` fails, and `vidioc_streamoff` if
`videobuf_streamoff` does. -/
def effect (s : St) : FileAct → Effect
  | .opens file => .fresh file
  | .read file kthread _ => .start file kthread
  | .poll file kthread _ => .start file kthread
  | .close file => .stop file
  | .driver (.streamon file kthread) => if s.reading then .other else .start file kthread
  | .driver (.streamoff file) => if s.streaming then .stop file else .other
  | .driver _ => .other

/-- What is known from the calls so far: the file whose start set the bit for the present
generation, and the open files whose start found the bit clear at some time. -/
structure Track where
  owner : Option ℕ
  started : List ℕ

/-- The bit is `before` and `after` the call. -/
def Track.next (t : Track) (before after : Bool) : Effect → Track
  | .fresh file => { t with started := t.started.filter (· ≠ file) }
  | .start file _ =>
    if before then t else ⟨if after then some file else none, file :: t.started⟩
  | .stop _ => if before ∧ ¬ after then { t with owner := none } else t
  | .other => t

def trackStep (x : Files × Track) (a : FileAct) : Option (Files × Track) :=
  (fileStep x.1 a).map fun s =>
    (s, x.2.next x.1.dev.generating s.dev.generating (effect x.1.dev a))

/-- A stop that clears the bit is by the owner of the generation. -/
def ClearsOwn (x : Files × Track) (a : FileAct) : Prop :=
  ∀ file ∈ (effect x.1.dev a).stopped, ∀ s ∈ fileStep x.1 a,
    x.1.dev.generating = true → s.dev.generating = false → x.2.owner = some file

instance (x : Files × Track) (a : FileAct) : Decidable (ClearsOwn x a) :=
  inferInstanceAs (Decidable (∀ file ∈ (effect x.1.dev a).stopped, ∀ s ∈ fileStep x.1 a,
    x.1.dev.generating = true → s.dev.generating = false → x.2.owner = some file))

/-- An open file that started at some time does not call stop when there is a generation of
another file. -/
def NoStale (x : Files × Track) (a : FileAct) : Prop :=
  ∀ file ∈ (effect x.1.dev a).stopped, x.1.isOpen file = true → file ∈ x.2.started →
    ∀ owner ∈ x.2.owner, owner = file

instance (x : Files × Track) (a : FileAct) : Decidable (NoStale x a) :=
  inferInstanceAs (Decidable (∀ file ∈ (effect x.1.dev a).stopped, x.1.isOpen file = true →
    file ∈ x.2.started → ∀ owner ∈ x.2.owner, owner = file))

/-! ### Marks -/

/-- The bit and the marks. -/
structure Marks where
  generating : Bool
  privateData : ℕ → Bool

def Control.marks (c : Control) : Marks := ⟨c.generating, c.privateData⟩

def St.marks (s : St) : Marks := s.control.marks

def Effect.apply (m : Marks) : Effect → Marks
  | .fresh file => { m with privateData := Function.update m.privateData file false }
  | .start file kthread =>
    if m.generating then m else ⟨kthread, Function.update m.privateData file true⟩
  | .stop file => if m.privateData file ∧ m.generating then { m with generating := false } else m
  | .other => m

lemma marks_start (c : Control) (file : ℕ) (kthread : Bool) :
    (c.start file kthread).marks = (Effect.start file kthread).apply c.marks := by
  unfold Control.start Effect.apply Control.marks
  dsimp only
  split <;> rfl

lemma marks_stop (c : Control) (file : ℕ) :
    (c.stop file).marks = (Effect.stop file).apply c.marks := by
  unfold Control.stop Effect.apply Control.marks
  dsimp only
  split <;> rfl

lemma marks_step {s s' : St} {a : Act} (h : step s a = some s') :
    s'.marks = (effect s (.driver a)).apply s.marks := by
  have hc := control_step h
  have hsame : s'.control = s.control → s'.marks = s.marks := congrArg Control.marks
  cases a with
  | streamon file kthread =>
    change s'.control = if s.reading then s.control else s.control.start file kthread at hc
    change s'.marks = (if s.reading then Effect.other else .start file kthread).apply s.marks
    by_cases hreading : s.reading = true
    · rw [if_pos hreading] at hc ⊢
      exact hsame hc
    · rw [if_neg hreading] at hc ⊢
      exact (congrArg Control.marks hc).trans (marks_start ..)
  | streamoff file =>
    change s'.control = if s.streaming then s.control.stop file else s.control at hc
    change s'.marks = (if s.streaming then Effect.stop file else .other).apply s.marks
    by_cases hstreaming : s.streaming = true
    · rw [if_pos hstreaming] at hc ⊢
      exact (congrArg Control.marks hc).trans (marks_stop ..)
    · rw [if_neg hstreaming] at hc ⊢
      exact hsame hc
  | tick waiting vbuf elapsed =>
    rcases hc with hc | ⟨f, hc⟩
    · exact hsame hc
    · have hm := congrArg Control.marks hc
      exact hm
  | _ => exact hsame hc

lemma marks_videobufRead (s : St) (setup : Bool) : (videobufRead s setup).marks = s.marks := by
  unfold videobufRead
  split <;> rfl

lemma marks_fileStep {s s' : Files} {a : FileAct} (h : fileStep s a = some s') :
    s'.dev.marks = (effect s.dev a).apply s.dev.marks := by
  have hstart (file : ℕ) (kthread : Bool) :
      (startGenerating s.dev file kthread).marks =
        (Effect.start file kthread).apply s.dev.marks :=
    (congrArg Control.marks (control_startGenerating s.dev file kthread)).trans (marks_start ..)
  cases a with
  | opens file =>
    obtain ⟨-, h⟩ := Option.ite_none_left_eq_some.mp h
    cases h
    rfl
  | read file kthread setup =>
    obtain ⟨-, h⟩ := Option.ite_none_right_eq_some.mp h
    cases h
    exact (marks_videobufRead ..).trans (hstart file kthread)
  | poll file kthread setup =>
    obtain ⟨-, h⟩ := Option.ite_none_right_eq_some.mp h
    cases h
    exact (marks_videobufRead ..).trans (hstart file kthread)
  | close file =>
    obtain ⟨-, h⟩ := Option.ite_none_right_eq_some.mp h
    cases h
    exact (congrArg Control.marks (control_stopGenerating s.dev file)).trans (marks_stop ..)
  | driver a =>
    obtain ⟨-, h⟩ := Option.ite_none_right_eq_some.mp h
    obtain ⟨dev, hdev, h⟩ := Option.map_eq_some_iff.mp h
    cases h
    exact marks_step hdev

/-! ### The invariant -/

/-- The marks are those of the files that started, and there is an owner while the bit is set. -/
structure Tracked (m : Marks) (t : Track) : Prop where
  marked : ∀ file, m.privateData file = true ↔ file ∈ t.started
  owned : m.generating = true ↔ ∃ owner, t.owner = some owner

lemma Tracked.apply {m : Marks} {t : Track} (h : Tracked m t) (e : Effect) :
    Tracked (e.apply m) (t.next m.generating (e.apply m).generating e) := by
  cases e with
  | fresh file =>
    refine ⟨fun g => ?_, h.owned⟩
    by_cases hg : g = file
    · simp [Effect.apply, Track.next, hg]
    · simpa [Effect.apply, Track.next, hg] using h.marked g
  | start file kthread =>
    by_cases hgen : m.generating = true
    · rw [Effect.apply, Track.next, if_pos hgen, if_pos hgen]
      exact h
    · rw [Effect.apply, Track.next, if_neg hgen, if_neg hgen]
      refine ⟨fun g => ?_, by cases kthread <;> simp⟩
      by_cases hg : g = file
      · simp [hg]
      · simpa [hg] using h.marked g
  | stop file =>
    by_cases hclear : m.privateData file ∧ m.generating
    · rw [Effect.apply, if_pos hclear, Track.next, if_pos ⟨hclear.2, by simp⟩]
      exact ⟨h.marked, by simp⟩
    · rw [Effect.apply, if_neg hclear, Track.next, if_neg (by simp)]
      exact h
  | other => exact h

lemma tracked_trackStep {x y : Files × Track} {a : FileAct} (h : Tracked x.1.dev.marks x.2)
    (hstep : trackStep x a = some y) : Tracked y.1.dev.marks y.2 := by
  obtain ⟨s, hs, rfl⟩ := Option.map_eq_some_iff.mp hstep
  have hm := marks_fileStep hs
  have hgen : s.dev.generating = ((effect x.1.dev a).apply x.1.dev.marks).generating :=
    congrArg Marks.generating hm
  change Tracked s.dev.marks (x.2.next x.1.dev.generating s.dev.generating (effect x.1.dev a))
  rw [hgen, hm]
  exact h.apply (effect x.1.dev a)

/-! ### Owners -/

lemma isSome_fileStep_of_stop {s : Files} {a : FileAct} {file : ℕ}
    (he : effect s.dev a = .stop file) : (fileStep s a).isSome = s.isOpen file := by
  cases a with
  | close f =>
    cases he
    cases hopen : s.isOpen file <;> simp [fileStep, hopen]
  | driver a =>
    cases a with
    | streamon f kthread =>
      change (if s.dev.reading then Effect.other else .start f kthread) = .stop file at he
      split at he <;> cases he
    | streamoff f =>
      change (if s.dev.streaming then Effect.stop f else .other) = .stop file at he
      split at he
      · cases he
        cases hopen : s.isOpen file <;> simp [fileStep, Act.file, step, hopen]
      · cases he
    | _ => cases he
  | _ => cases he

lemma clearsOwn_iff {x : Files × Track} (h : Tracked x.1.dev.marks x.2) (a : FileAct) :
    ClearsOwn x a ↔ NoStale x a := by
  constructor
  · intro hown file he hopen hstarted owner howner
    have hstop := Effect.mem_stopped.mp he
    obtain ⟨s, hs⟩ := Option.isSome_iff_exists.mp ((isSome_fileStep_of_stop hstop).trans hopen)
    have hgen : x.1.dev.generating = true := h.owned.mpr ⟨owner, howner⟩
    have hmarked : x.1.dev.privateData file = true := (h.marked file).mpr hstarted
    have hm := marks_fileStep hs
    rw [hstop, Effect.apply, if_pos ⟨hmarked, hgen⟩] at hm
    have hclear : s.dev.generating = false := congrArg Marks.generating hm
    exact Option.some.inj (Eq.trans (Eq.symm howner) (hown file he s hs hgen hclear))
  · intro hstale file he s hs hgen hclear
    have hstop := Effect.mem_stopped.mp he
    have hm := marks_fileStep (Option.mem_def.mp hs)
    rw [hstop, Effect.apply] at hm
    split at hm
    · rename_i hmarked
      obtain ⟨owner, howner⟩ := h.owned.mp hgen
      have hopen : x.1.isOpen file = true :=
        (isSome_fileStep_of_stop hstop).symm.trans (Option.isSome_of_mem hs)
      rw [howner, hstale file he hopen ((h.marked file).mp hmarked.1) owner howner]
    · have hsame : s.dev.generating = x.1.dev.generating := congrArg Marks.generating hm
      rw [hsame, hgen] at hclear
      cases hclear

def begin : Files × Track := (noFiles, ⟨none, []⟩)

lemma tracked_begin : Tracked begin.1.dev.marks begin.2 where
  marked _ := iff_of_false Bool.false_ne_true List.not_mem_nil
  owned := iff_of_false Bool.false_ne_true fun ⟨_, h⟩ => nomatch h

/-- **Who stops the driver.** All along a run, a call of `vivi_stop_generating` clears the bit only
for the file that started the present generation, if and only if no other file that once
found the driver idle calls stop while it is open. -/
theorem vivi_stop_own_iff (as : List FileAct) :
    Guarded trackStep ClearsOwn begin as ↔ Guarded trackStep NoStale begin as := by
  constructor
  · intro h
    exact h.strengthen tracked_begin (fun x a hx => (clearsOwn_iff hx a).mp)
      fun x a y hx _ => tracked_trackStep hx
  · intro h
    exact h.strengthen tracked_begin (fun x a hx => (clearsOwn_iff hx a).mpr)
      fun x a y hx _ => tracked_trackStep hx

/-- The second file starts nothing, so it stops nothing. -/
theorem vivi_stop_own_second_file :
    Guarded trackStep ClearsOwn begin [.opens 1, .opens 2, .driver (.streamon 1 true),
      .poll 2 true true, .driver (.streamoff 2), .close 2, .close 1] :=
  (vivi_stop_own_iff _).mpr (by decide +kernel)

/-- The first file stops what it started, and the second one starts. -/
def handover : List FileAct :=
  [.opens 1, .opens 2, .driver (.streamon 1 true), .driver (.streamoff 1),
    .driver (.streamon 2 true)]

/-- The thread cannot be started for the first file. -/
def failedStart : List FileAct := [.opens 1, .opens 2, .read 1 false true, .read 2 true true]

/-- The second file reads, so that the first one is refused when it tries again. -/
def refusedStart : List FileAct :=
  [.opens 1, .opens 2, .driver (.streamon 1 true), .driver (.streamoff 1), .read 2 true true,
    .driver (.streamon 1 true), .driver (.streamoff 2)]

/-- The generation is that of the second file, and ends when the first one is closed. -/
def StopsOther (as : List FileAct) : Prop :=
  (exec trackStep begin as).map (fun x => (x.2.owner, x.1.dev.generating)) =
      some (some 2, true) ∧
    (exec trackStep begin (as ++ [.close 1])).map (fun x => x.1.dev.generating) = some false

instance (as : List FileAct) : Decidable (StopsOther as) := inferInstanceAs (Decidable (_ ∧ _))

/-- The first file stops what the second one has started. -/
theorem vivi_stop_stale :
    (StopsOther handover ∧ ¬ Guarded trackStep ClearsOwn begin (handover ++ [.close 1])) ∧
      (StopsOther failedStart ∧
        ¬ Guarded trackStep ClearsOwn begin (failedStart ++ [.close 1])) ∧
      StopsOther refusedStart ∧
        ¬ Guarded trackStep ClearsOwn begin (refusedStart ++ [.close 1]) := by
  decide +kernel

end LinuxSamples.Vivi
