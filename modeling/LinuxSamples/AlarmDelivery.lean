import LinuxSamples.AlarmCond

/-!
Every alarm is delivered once and in time, up to what hides a change of `current_alarm`.

In its timed wait the alarm thread compares `current_alarm` with the time it waits for. So the
invariant says what `current_alarm` tells about the list at each place of the thread, and the one
insertion that breaks it is one that sets `current_alarm` back to that very time.
-/

namespace LinuxSamples.AlarmCond

open LinuxSamples.Run LinuxSamples.CondVar

/-- What `current_alarm` says about the list. In the timed wait it is the time waited for, and
nothing earlier is in the list, until an earlier alarm comes in and the thread is woken. -/
def Tracks (clock : ℕ) (m : Shared) : Pc → Prop
  | .listWait woken =>
    (m.alarmList = [] → m.currentAlarm = 0) ∧ (woken = false → m.alarmList = [])
  | .timedWait alarm z =>
    0 < alarm.time ∧
    (m.currentAlarm = alarm.time ∧ (∀ a ∈ m.alarmList, alarm.time ≤ a.time) ∧ z ≠ .timedout ∨
      z = .timedout ∧ alarm.time ≤ clock ∨
      z = .woken ∧ m.currentAlarm ≠ alarm.time ∧ ∃ a ∈ m.alarmList, a.time < alarm.time)
  | _ => True

structure Inv (s : St) : Prop where
  sorted : s.mem.alarmList.Pairwise Alarm.Before
  once : (s.printed.map Prod.fst ++ s.pc.held ++ s.mem.alarmList).Perm s.inserted
  onTime : ∀ p ∈ s.printed, p.1.time ≤ p.2
  tracks : Tracks s.clock s.mem s.pc

lemma inv_init (clock : ℕ) : Inv (init clock) :=
  ⟨List.Pairwise.nil, List.Perm.refl _, (fun _ h => nomatch h), trivial⟩

lemma Inv.delivers {s : St} (h : Inv s) : Delivers s := by
  refine ⟨h.sorted, h.once, h.onTime, ?_⟩
  have htracks := h.tracks
  unfold Attentive
  split
  · next hpc =>
    rw [hpc] at htracks
    exact htracks.2 rfl
  · next alarm hpc =>
    rw [hpc] at htracks
    rcases htracks.2 with ⟨-, hall, -⟩ | ⟨hz, -⟩ | ⟨hz, -⟩
    · exact hall
    · cases hz
    · cases hz
  · trivial

lemma alarmInsert_list (m : Shared) (alarm : Alarm) :
    (alarmInsert m alarm).1.alarmList = linkIn alarm m.alarmList := by
  unfold alarmInsert
  split <;> rfl

lemma mem_linkIn {a alarm : Alarm} {l : List Alarm} : a ∈ linkIn alarm l ↔ a = alarm ∨ a ∈ l :=
  List.mem_orderedInsert _

lemma linkIn_ne_nil (alarm : Alarm) (l : List Alarm) : linkIn alarm l ≠ [] :=
  List.ne_nil_of_mem (mem_linkIn.mpr (Or.inl rfl))

@[simp] lemma held_signal (pc : Pc) : pc.signal.held = pc.held := by
  unfold Pc.signal
  split <;> rfl

lemma wokenFor_eq {pc : Pc} {alarm : Alarm} (h : alarm ∈ pc.wokenFor) :
    pc = .timedWait alarm .woken := by
  unfold Pc.wokenFor at h
  split at h
  · rw [Option.some.inj h]
  · cases h

/-- **The loop of the alarm thread** keeps the alarms together, and starts a wait only for the
first of them. -/
lemma inv_alarmNext {s : St} (hsorted : s.mem.alarmList.Pairwise Alarm.Before)
    (honce : (s.printed.map Prod.fst ++ s.mem.alarmList).Perm s.inserted)
    (hontime : ∀ p ∈ s.printed, p.1.time ≤ p.2)
    (hempty : s.mem.alarmList = [] → s.mem.currentAlarm = 0) : Inv (alarmNext s) := by
  unfold alarmNext
  split
  · next hnil =>
    refine ⟨hsorted, ?_, hontime, hempty, fun _ => hnil⟩
    simpa [Pc.held] using honce
  · next alarm link hcons =>
    rw [hcons] at hsorted honce
    obtain ⟨hfirst, hrest⟩ := List.pairwise_cons.mp hsorted
    split
    · next hlater =>
      refine ⟨hrest, ?_, hontime, by omega, Or.inl ⟨rfl, hfirst, fun hc => nomatch hc⟩⟩
      simpa [Pc.held] using honce
    · next hdue =>
      refine ⟨hrest, ?_, fun p hp => ?_, trivial⟩
      · simpa [St.print, Pc.held] using honce
      · rcases List.mem_append.mp hp with hp | hp
        · exact hontime p hp
        · obtain rfl := List.mem_singleton.mp hp
          exact le_of_not_gt hdue

lemma Inv.print {s : St} (h : Inv s) {alarm : Alarm} {z : Timed} (hpc : s.pc = .timedWait alarm z)
    (hdue : alarm.time ≤ s.clock) : Inv (s.print alarm) := by
  have honce := h.once
  rw [hpc] at honce
  refine ⟨h.sorted, ?_, fun p hp => ?_, trivial⟩
  · simpa [St.print, Pc.held] using honce
  · rcases List.mem_append.mp hp with hp | hp
    · exact h.onTime p hp
    · obtain rfl := List.mem_singleton.mp hp
      exact hdue

lemma perm_linkIn (front : List Alarm) (alarm : Alarm) (l : List Alarm) :
    (front ++ linkIn alarm l).Perm (alarm :: (front ++ l)) :=
  ((List.perm_orderedInsert _ alarm l).append_left front).trans List.perm_middle

lemma tracks_insert {s : St} (h : Inv s) (alarm : Alarm)
    (hkeep : ∀ held ∈ s.pc.wokenFor, ¬ s.mem.SetBack alarm.time held) :
    Tracks s.clock (alarmInsert s.mem alarm).1
      (if (alarmInsert s.mem alarm).2 then s.pc.signal else s.pc) := by
  have htracks := h.tracks
  cases hpc : s.pc with
  | start => unfold alarmInsert; split <;> trivial
  | top => unfold alarmInsert; split <;> trivial
  | listWait woken =>
    rw [hpc] at htracks
    have hne : (alarmInsert s.mem alarm).1.alarmList ≠ [] := by
      rw [alarmInsert_list]
      exact linkIn_ne_nil _ _
    cases woken with
    | true =>
      have hpc' : (if (alarmInsert s.mem alarm).2 then (Pc.listWait true).signal
          else Pc.listWait true) = .listWait true := by split <;> rfl
      rw [hpc']
      exact ⟨fun hc => absurd hc hne, fun hc => nomatch hc⟩
    | false =>
      -- the list was empty, so `current_alarm` is zero and the insertion signals
      have hzero := htracks.1 (htracks.2 rfl)
      have hsig : (alarmInsert s.mem alarm).2 = true := by simp [alarmInsert, hzero]
      rw [hsig, if_pos rfl]
      exact ⟨fun hc => absurd hc hne, fun hc => nomatch hc⟩
  | timedWait held z =>
    rw [hpc] at htracks
    obtain ⟨hpos, hcur⟩ := htracks
    rcases hcur with ⟨heq, hall, hz⟩ | ⟨rfl, hdue⟩ | ⟨rfl, hne, a, ha, hearly⟩
    · by_cases hlt : alarm.time < held.time
      · -- an earlier alarm changes `current_alarm`, and the thread is woken
        have hsig : alarmInsert s.mem alarm = (⟨linkIn alarm s.mem.alarmList, alarm.time⟩, true) :=
          if_pos (Or.inr (heq ▸ hlt))
        have hw : (Pc.timedWait held z).signal = .timedWait held .woken := by
          cases z with
          | blocked => rfl
          | woken => rfl
          | timedout => exact absurd rfl hz
        rw [hsig, if_pos rfl, hw]
        exact ⟨hpos, Or.inr (Or.inr ⟨rfl, hlt.ne, alarm, mem_linkIn.mpr (Or.inl rfl), hlt⟩)⟩
      · have hno : alarmInsert s.mem alarm =
            (⟨linkIn alarm s.mem.alarmList, s.mem.currentAlarm⟩, false) :=
          if_neg (by omega)
        rw [hno, if_neg Bool.false_ne_true]
        refine ⟨hpos, Or.inl ⟨heq, fun a ha => ?_, hz⟩⟩
        rcases mem_linkIn.mp ha with rfl | ha
        · exact le_of_not_gt hlt
        · exact hall a ha
    · have hw : (if (alarmInsert s.mem alarm).2 then (Pc.timedWait held .timedout).signal
          else Pc.timedWait held .timedout) = .timedWait held .timedout := by split <;> rfl
      rw [hw]
      exact ⟨hpos, Or.inr (Or.inl ⟨rfl, hdue⟩)⟩
    · have hw : (if (alarmInsert s.mem alarm).2 then (Pc.timedWait held .woken).signal
          else Pc.timedWait held .woken) = .timedWait held .woken := by split <;> rfl
      rw [hw]
      refine ⟨hpos, Or.inr (Or.inr ⟨rfl, ?_, a, ?_, hearly⟩)⟩
      · have hk := hkeep held (by rw [hpc]; rfl)
        unfold alarmInsert
        split
        · next hreset => exact fun hc => hk ⟨hc, hne, hc ▸ hreset⟩
        · exact hne
      · rw [alarmInsert_list]
        exact mem_linkIn.mpr (Or.inr ha)

lemma Tracks.tick {clock : ℕ} {m : Shared} {pc : Pc} (h : Tracks clock m pc) (d : ℕ) :
    Tracks (clock + d) m pc := by
  cases pc with
  | timedWait alarm z =>
    obtain ⟨hpos, hcur⟩ := h
    refine ⟨hpos, ?_⟩
    rcases hcur with hcur | ⟨hz, hdue⟩ | hcur
    · exact Or.inl hcur
    · exact Or.inr (Or.inl ⟨hz, by push_cast; omega⟩)
    · exact Or.inr (Or.inr hcur)
  | listWait woken => exact h
  | _ => trivial

lemma inv_step {s s' : St} {a : Act} (h : Inv s) (hok : KeepsChange s a)
    (hs : step s a = some s') : Inv s' := by
  have honce := h.once
  have htracks := h.tracks
  cases step_cases hs with
  | @tick d => exact ⟨h.sorted, honce, h.onTime, htracks.tick d⟩
  | request halarm =>
    subst halarm
    refine ⟨?_, ?_, h.onTime, tracks_insert h _ hok⟩
    · rw [alarmInsert_list]
      exact h.sorted.orderedInsert _ _
    · have hheld : ∀ b : Bool, (if b then s.pc.signal else s.pc).held = s.pc.held := by
        intro b
        cases b <;> simp
      simp only [alarmInsert_list, hheld]
      refine (perm_linkIn _ _ _).trans ?_
      exact (honce.cons _).trans (List.perm_append_singleton _ _).symm
  | lock hpc =>
    rw [hpc] at honce
    exact ⟨h.sorted, honce, h.onTime, trivial⟩
  | loop hpc =>
    simp only [hpc, Pc.held, List.append_nil] at honce
    exact inv_alarmNext h.sorted honce h.onTime fun _ => rfl
  | listed hpc =>
    rw [hpc] at htracks
    simp only [hpc, Pc.held, List.append_nil] at honce
    exact inv_alarmNext h.sorted honce h.onTime htracks.1
  | unchanged hpc hcur =>
    rw [hpc] at honce htracks
    refine ⟨h.sorted, honce, h.onTime, htracks.1, ?_⟩
    rcases htracks.2 with ⟨heq, hall, -⟩ | ⟨hz, -⟩ | ⟨-, hne, -⟩
    · exact Or.inl ⟨heq, hall, fun hc => nomatch hc⟩
    · cases hz
    · exact absurd hcur hne
  | changed hpc =>
    rw [hpc] at honce
    refine ⟨?_, ?_, h.onTime, trivial⟩
    · rw [alarmInsert_list]
      exact h.sorted.orderedInsert _ _
    · simp only [alarmInsert_list, Pc.held, List.append_nil]
      refine (perm_linkIn _ _ _).trans (List.Perm.trans ?_ honce)
      simpa [Pc.held] using List.perm_middle.symm
  | expired hpc =>
    rw [hpc] at htracks
    rcases htracks.2 with ⟨-, -, hz⟩ | ⟨-, hdue⟩ | ⟨hz, -⟩
    · exact absurd rfl hz
    · exact h.print hpc hdue
    · cases hz
  | spuriousList hpc =>
    rw [hpc] at honce htracks
    exact ⟨h.sorted, honce, h.onTime, htracks.1, fun hc => nomatch hc⟩
  | spuriousTimed hpc =>
    rw [hpc] at honce htracks
    refine ⟨h.sorted, honce, h.onTime, htracks.1, ?_⟩
    rcases htracks.2 with ⟨heq, hall, -⟩ | ⟨hz, -⟩ | ⟨hz, -⟩
    · exact Or.inl ⟨heq, hall, fun hc => nomatch hc⟩
    · cases hz
    · cases hz
  | timeout hpc hdue =>
    rw [hpc] at honce htracks
    exact ⟨h.sorted, honce, h.onTime, htracks.1, Or.inr (Or.inl ⟨rfl, hdue⟩)⟩

/-- **An insertion that takes the change back** lets the thread go to sleep again although an
earlier alarm is in the list. -/
lemma sleeps_on {s s' : St} {a : Act} (h : Inv s) (hbad : ¬ KeepsChange s a)
    (hs : step s a = some s') : ∃ s'', step s' .resume = some s'' ∧ ¬ Delivers s'' := by
  cases a with
  | request seconds message =>
    simp only [KeepsChange, not_forall, not_not] at hbad
    obtain ⟨alarm, hwoken, htime, hne, hreset⟩ := hbad
    have hpc : s.pc = .timedWait alarm .woken := wokenFor_eq hwoken
    have htracks := h.tracks
    rw [hpc] at htracks
    rcases htracks.2 with ⟨heq, -⟩ | ⟨hz, -⟩ | ⟨-, -, b, hb, hearly⟩
    · exact absurd heq hne
    · cases hz
    simp only [step, Option.ite_none_left_eq_some, Option.some.injEq] at hs
    obtain ⟨-, rfl⟩ := hs
    have hins : alarmInsert s.mem ⟨seconds, s.clock + seconds, message⟩ =
        (⟨linkIn ⟨seconds, s.clock + seconds, message⟩ s.mem.alarmList, alarm.time⟩, true) := by
      rw [alarmInsert, if_pos (by simpa only [htime] using hreset)]
      simp only [htime]
    refine ⟨⟨s.clock, _, .timedWait alarm .blocked, _, s.printed⟩,
      by simp only [step, hins, hpc, Pc.signal, if_true]; rfl, fun hd => ?_⟩
    have hatt := hd.attentive b (mem_linkIn.mpr (Or.inr hb))
    omega
  | _ => exact absurd trivial hbad

/-- **Every alarm is delivered once, in time, and never waited past**, in every run in which no
insertion sets `current_alarm` back to the time the woken thread was waiting for; the first
insertion that does lets the thread sleep past an alarm. -/
theorem alarm_delivers {clock : ℕ} {s : St} {as : List Act}
    (h : exec step (init clock) as = some s) (hg : Guarded step KeepsChange (init clock) as) :
    Delivers s ∧ ∀ a s', ¬ KeepsChange s a → step s a = some s' →
      ∃ s'', step s' .resume = some s'' ∧ ¬ Delivers s'' := by
  have hinv : Inv s := hg.invariant h (inv_init clock) fun _ _ _ hi hok hs => inv_step hi hok hs
  exact ⟨hinv.delivers, fun _ _ hbad hs => sleeps_on hinv hbad hs⟩

/-! ### Alarms for second zero -/

/-- The alarm inserted is not one for second zero. -/
def Nonzero (s : St) : Act → Prop
  | .request seconds _ => s.clock + seconds ≠ 0
  | _ => True

instance (s : St) (a : Act) : Decidable (Nonzero s a) := by
  unfold Nonzero
  split <;> infer_instance

/-- Without alarms for second zero, a changed `current_alarm` only goes down. -/
def Lowered (s : St) : Prop :=
  ∀ alarm ∈ s.pc.wokenFor, s.mem.currentAlarm = alarm.time ∨
    s.mem.currentAlarm < alarm.time ∧ s.mem.currentAlarm ≠ 0

lemma Lowered.keepsChange {s : St} (h : Lowered s) (a : Act) : KeepsChange s a := by
  cases a with
  | request seconds message =>
    rintro alarm halarm ⟨-, hne, hreset⟩
    rcases h alarm halarm with heq | ⟨hlt, hnz⟩
    · exact hne heq
    · omega
  | _ => trivial

lemma Inv.current_of_blocked {s : St} (h : Inv s) {alarm : Alarm}
    (hpc : s.pc = .timedWait alarm .blocked) : s.mem.currentAlarm = alarm.time := by
  have htracks := h.tracks
  rw [hpc] at htracks
  rcases htracks.2 with ⟨heq, -⟩ | ⟨hz, -⟩ | ⟨hz, -⟩
  · exact heq
  · cases hz
  · cases hz

lemma currentAlarm_insert {m : Shared} (alarm : Alarm) (hnz : m.currentAlarm ≠ 0) :
    (alarmInsert m alarm).1.currentAlarm = m.currentAlarm ∨
      (alarmInsert m alarm).1.currentAlarm = alarm.time ∧ alarm.time < m.currentAlarm := by
  unfold alarmInsert
  split
  · next hreset => exact Or.inr ⟨rfl, hreset.resolve_left hnz⟩
  · exact Or.inl rfl

lemma lowered_alarmNext (s : St) : Lowered (alarmNext s) := by
  unfold alarmNext
  split
  · exact fun _ hc => nomatch hc
  · split <;> exact fun _ hc => nomatch hc

lemma lowered_step {s s' : St} {a : Act} (hi : Inv s) (h : Lowered s) (hok : Nonzero s a)
    (hs : step s a = some s') : Lowered s' := by
  cases step_cases hs with
  | tick => exact h
  | @request seconds message new hnew =>
    intro alarm halarm
    -- the thread was asleep or awake in the same timed wait
    have hbefore : s.pc = .timedWait alarm .blocked ∨ s.pc = .timedWait alarm .woken := by
      have hpc' := wokenFor_eq halarm
      dsimp only at hpc'
      split at hpc'
      · unfold Pc.signal at hpc'
        split at hpc'
        · cases hpc'
        · next hpc => exact Or.inl (by rw [hpc]; cases hpc'; rfl)
        · exact Or.inr hpc'
      · exact Or.inr hpc'
    have hpos : 0 < alarm.time := by
      have htracks := hi.tracks
      rcases hbefore with hpc | hpc <;> rw [hpc] at htracks <;> exact htracks.1
    have hcur : s.mem.currentAlarm = alarm.time ∨
        s.mem.currentAlarm < alarm.time ∧ s.mem.currentAlarm ≠ 0 := by
      rcases hbefore with hpc | hpc
      · exact Or.inl (hi.current_of_blocked hpc)
      · exact h alarm (by rw [hpc]; rfl)
    have htime : new.time ≠ 0 := by
      rw [hnew]
      exact hok
    have hins := currentAlarm_insert (m := s.mem) new (by omega)
    dsimp only
    omega
  | spuriousTimed hpc =>
    intro held hheld
    obtain rfl := Option.some.inj hheld
    exact Or.inl (hi.current_of_blocked hpc)
  | loop => exact lowered_alarmNext _
  | listed => exact lowered_alarmNext _
  | _ => exact fun _ hc => nomatch hc

/-- **Without alarms for second zero every alarm is delivered.** -/
theorem alarm_delivers_of_nonzero {clock : ℕ} {s : St} {as : List Act}
    (h : exec step (init clock) as = some s) (hg : Guarded step Nonzero (init clock) as) :
    Delivers s := by
  have hinv : Inv s ∧ Lowered s := by
    refine hg.invariant (I := fun s => Inv s ∧ Lowered s) h
      ⟨inv_init clock, fun _ hc => nomatch hc⟩ ?_
    rintro u a v ⟨hi, hl⟩ hok hs
    exact ⟨inv_step hi (hl.keepsChange a) hs, lowered_step hi hl hok hs⟩
  exact hinv.1.delivers

theorem alarm_delivers_of_nonzero_tea :
    ∃ s, exec step (init 5) [.lock, .loop, .request 5 "tea", .resume, .request 2 "egg"] = some s ∧
      Delivers s := by
  obtain ⟨s, hs⟩ : ∃ s, exec step (init 5)
    [.lock, .loop, .request 5 "tea", .resume, .request 2 "egg"] = some s := ⟨_, rfl⟩
  exact ⟨s, hs, alarm_delivers_of_nonzero hs (by decide)⟩

/-- At second 5 the thread waits for second 10. An alarm for second 0 comes in and wakes it,
but before it runs another alarm for second 10 sets `current_alarm` back to 10. -/
theorem alarm_hidden_by_zero :
    ∃ s, exec step (init 5) [.lock, .loop, .request 5 "tea", .resume, .request (-5) "now",
      .request 5 "toast", .resume] = some s ∧ s.pc = .timedWait ⟨5, 10, "tea"⟩ .blocked ∧
      s.mem.alarmList = [⟨-5, 0, "now"⟩, ⟨5, 10, "toast"⟩] ∧ ¬ Delivers s := by
  refine ⟨_, rfl, rfl, rfl, fun h => ?_⟩
  have := h.attentive ⟨-5, 0, "now"⟩ (by decide)
  revert this
  decide

/-- An earlier alarm wakes the thread, which then waits for that one. -/
theorem alarm_delivers_earlier :
    ∃ s, exec step (init 5) [.lock, .loop, .request 5 "tea", .resume, .request 2 "egg", .resume,
      .loop] = some s ∧ s.pc = .timedWait ⟨2, 7, "egg"⟩ .blocked ∧ Delivers s := by
  obtain ⟨s, hs, hpc⟩ : ∃ s, exec step (init 5) [.lock, .loop, .request 5 "tea", .resume,
      .request 2 "egg", .resume, .loop] = some s ∧ s.pc = .timedWait ⟨2, 7, "egg"⟩ .blocked :=
    ⟨_, rfl, rfl⟩
  exact ⟨s, hs, hpc, (alarm_delivers hs (by decide)).1⟩

end LinuxSamples.AlarmCond
