import LinuxSamples.UsbSkel

/-!
What the USB skeleton driver leaves behind when the device is unplugged.

A transfer is started only by a thread that has seen the interface under the mutex, and
`skel_disconnect` takes the interface away under the mutex; so nothing is started later,
and the transfers of the anchor have been waited for. The transfer of the receiving side is
not in the anchor, and the messages about failed transfers are written without the mutex.
The driver leaves nothing behind and never uses a null pointer exactly when no receiving
transfer is in flight as `skel_disconnect` returns and no such message comes too late.
-/

namespace LinuxSamples.UsbSkel

open LinuxSamples.Run LinuxSamples.Mutex

/-- After the return of `skel_disconnect` nothing is in flight, and the interface has not been
used while its pointer was null. -/
structure Clean (s : St) : Prop where
  submitted : s.dev.gone = true → s.dev.submitted = 0
  urb : s.dev.gone = true → s.dev.bulkIn.urb = none
  oops : s.dev.oops = false

/-- The next step of a thread does not return from `skel_disconnect` with the receiving transfer
in flight, and does not report a failed write to an interface that is gone. -/
def Pc.Careful (d : Dev) : Pc → Prop
  | .write _ _ (.report _) => d.interface = true
  | .disconnect .kill => d.bulkIn.urb = none
  | _ => True

def Careful (s : St) : Act → Prop
  | .run t _ => (s.pc t).Careful s.dev
  | .readDone status _ => Reported status → s.dev.interface = true
  | .writeDone status => Reported status → s.dev.interface = true
  | _ => True

/-! ### One step -/

/-- The thread has seen the interface, and holds the mutex. -/
def Pc.connected : Pc → Bool
  | .read _ _ pc =>
    match pc with
    | .lock | .check | .unlock _ => false
    | _ => true
  | .write _ _ .submit => true
  | _ => false

/-- The thread has cleared the interface. -/
def Pc.cleared : Pc → Bool
  | .disconnect .unlock | .disconnect .kill => true
  | _ => false

/-- The interface is as the thread left it. -/
structure Fits (interface : Bool) (p : Pc) : Prop where
  connected : p.connected = true → interface = true
  cleared : p.cleared = true → interface = false

structure Tidy (d : Dev) : Prop where
  interface : d.gone = true → d.interface = false
  submitted : d.gone = true → d.submitted = 0
  urb : d.gone = true → d.bulkIn.urb = none
  oops : d.oops = false

lemma locked_of_connected {p : Pc} (h : p.connected = true) : p.locked = true := by
  cases p with
  | read count nonblock pc =>
    cases pc with
    | lock => cases h
    | _ => rfl
  | write count nonblock pc =>
    cases pc with
    | submit => rfl
    | _ => cases h
  | _ => cases h

lemma Tidy.deref {d : Dev} (hd : Tidy d) (h : d.interface = true) : Tidy d.deref := by
  refine ⟨hd.interface, hd.submitted, hd.urb, ?_⟩
  simp [Dev.deref, hd.oops, h]

lemma Tidy.not_gone {d : Dev} (hd : Tidy d) (h : d.interface = true) : d.gone ≠ true :=
  fun hgone => absurd ((hd.interface hgone).symm.trans h) (by decide)

lemma fits_read {i : Bool} (h : i = true) (count : ℕ) (nonblock : Bool) (pc : ReadPc) :
    Fits i (.read count nonblock pc) :=
  ⟨fun _ => h, fun hc => by cases hc⟩

lemma fits_disconnect {i : Bool} (h : i = false) (pc : DisconnectPc) : Fits i (.disconnect pc) :=
  ⟨fun hc => (by cases hc), fun _ => h⟩

lemma fits_of_neither {i : Bool} {p : Pc} (h : p.connected = false) (h' : p.cleared = false) :
    Fits i p :=
  ⟨fun hc => absurd (h.symm.trans hc) (by decide), fun hc => absurd (h'.symm.trans hc) (by decide)⟩

section Step

variable {d d' : Dev} {t : ℕ} {rv : ℤ} {p p' : Pc}

lemma readStep_tidy {count : ℕ} {nonblock : Bool} {pc : ReadPc}
    (h : readStep d t count nonblock rv pc = some (d', p')) (hd : Tidy d)
    (hp : Fits d.interface (.read count nonblock pc)) :
    Tidy d' ∧ Fits d'.interface p' ∧ d'.interface = d.interface := by
  cases pc with
  | lock =>
    obtain ⟨-, h⟩ := Option.ite_none_right_eq_some.mp h
    cases h
    exact ⟨⟨hd.interface, hd.submitted, hd.urb, hd.oops⟩, fits_of_neither rfl rfl, rfl⟩
  | check =>
    cases h
    refine ⟨hd, ?_, rfl⟩
    split
    · rename_i hinterface
      exact fits_read hinterface _ _ _
    · exact fits_of_neither rfl rfl
  | submit n next =>
    have hinterface := hp.connected rfl
    simp only [readStep] at h
    split at h
    · cases h
      exact ⟨hd, fits_read hinterface _ _ _, rfl⟩
    · obtain ⟨-, h⟩ := Option.ite_none_right_eq_some.mp h
      cases h
      refine ⟨⟨hd.interface, hd.submitted, fun hgone => ?_, hd.oops⟩, fits_read hinterface _ _ _,
        rfl⟩
      exact absurd hgone (hd.not_gone hinterface)
  | failed e next =>
    have hinterface := hp.connected rfl
    have hderef := hd.deref hinterface
    cases h
    exact ⟨⟨hderef.interface, hderef.submitted, hderef.urb, hderef.oops⟩,
      fits_read hinterface _ _ _, rfl⟩
  | unlock r =>
    cases h
    exact ⟨⟨hd.interface, hd.submitted, hd.urb, hd.oops⟩, fits_of_neither rfl rfl, rfl⟩
  | _ =>
    have hinterface := hp.connected rfl
    simp only [readStep] at h
    (repeat' split at h) <;> cases h <;>
      exact ⟨⟨hd.interface, hd.submitted, hd.urb, hd.oops⟩, fits_read hinterface _ _ _, rfl⟩

lemma writeStep_tidy {count : ℕ} {nonblock : Bool} {pc : WritePc}
    (h : writeStep d t count nonblock rv pc = some (d', p')) (hd : Tidy d)
    (hp : Fits d.interface (.write count nonblock pc))
    (hok : (Pc.write count nonblock pc).Careful d) :
    Tidy d' ∧ Fits d'.interface p' ∧ d'.interface = d.interface := by
  cases pc with
  | prepare =>
    cases h
    refine ⟨hd, ?_, rfl⟩
    split <;> exact fits_of_neither rfl rfl
  | check =>
    simp only [writeStep] at h
    split at h
    · rename_i hinterface
      cases h
      exact ⟨hd, ⟨fun _ => hinterface, fun hc => by cases hc⟩, rfl⟩
    · cases h
      exact ⟨⟨hd.interface, hd.submitted, hd.urb, hd.oops⟩, fits_of_neither rfl rfl, rfl⟩
  | submit =>
    have hinterface := hp.connected rfl
    simp only [writeStep] at h
    split at h
    · cases h
      refine ⟨⟨hd.interface, fun hgone => ?_, hd.urb, hd.oops⟩, fits_of_neither rfl rfl, rfl⟩
      exact absurd hgone (hd.not_gone hinterface)
    · cases h
      exact ⟨hd, fits_of_neither rfl rfl, rfl⟩
  | unlock r =>
    cases h
    refine ⟨⟨hd.interface, hd.submitted, hd.urb, hd.oops⟩, ?_, rfl⟩
    split <;> exact fits_of_neither rfl rfl
  | report r =>
    cases h
    exact ⟨hd.deref hok, fits_of_neither rfl rfl, rfl⟩
  | _ =>
    simp only [writeStep] at h
    (repeat' split at h) <;> cases h <;>
      exact ⟨⟨hd.interface, hd.submitted, hd.urb, hd.oops⟩, fits_of_neither rfl rfl, rfl⟩

lemma flushStep_tidy {pc : FlushPc} (h : flushStep d t pc = some (d', p')) (hd : Tidy d) :
    Tidy d' ∧ Fits d'.interface p' ∧ d'.interface = d.interface := by
  cases pc <;> simp only [flushStep] at h <;> (repeat' split at h) <;> cases h <;>
    exact ⟨⟨hd.interface, hd.submitted, hd.urb, hd.oops⟩, fits_of_neither rfl rfl, rfl⟩

lemma disconnectStep_tidy {pc : DisconnectPc} (h : disconnectStep d t pc = some (d', p'))
    (hd : Tidy d) (hp : Fits d.interface (.disconnect pc)) (hok : (Pc.disconnect pc).Careful d) :
    Tidy d' ∧ Fits d'.interface p' ∧
      (d'.interface = d.interface ∨ pc.locked = true ∧ d'.interface = false) := by
  cases pc with
  | lock =>
    obtain ⟨-, h⟩ := Option.ite_none_right_eq_some.mp h
    cases h
    exact ⟨⟨hd.interface, hd.submitted, hd.urb, hd.oops⟩, fits_of_neither rfl rfl, Or.inl rfl⟩
  | clear =>
    cases h
    exact ⟨⟨fun _ => rfl, hd.submitted, hd.urb, hd.oops⟩, fits_disconnect rfl _,
      Or.inr ⟨rfl, rfl⟩⟩
  | unlock =>
    cases h
    exact ⟨⟨hd.interface, hd.submitted, hd.urb, hd.oops⟩, fits_disconnect (hp.cleared rfl) _,
      Or.inl rfl⟩
  | kill =>
    obtain ⟨hsubmitted, h⟩ := Option.ite_none_right_eq_some.mp h
    cases h
    exact ⟨⟨fun _ => hp.cleared rfl, fun _ => hsubmitted, fun _ => hok, hd.oops⟩,
      fits_of_neither rfl rfl, Or.inl rfl⟩

lemma threadStep_tidy (h : threadStep d t rv p = some (d', p')) (hd : Tidy d)
    (hp : Fits d.interface p) (hok : p.Careful d) :
    Tidy d' ∧ Fits d'.interface p' ∧
      (d'.interface = d.interface ∨ p.locked = true ∧ d'.interface = false) := by
  cases p with
  | ret r => cases h
  | read count nonblock pc =>
    obtain ⟨hd', hp', hsame⟩ := readStep_tidy h hd hp
    exact ⟨hd', hp', Or.inl hsame⟩
  | write count nonblock pc =>
    obtain ⟨hd', hp', hsame⟩ := writeStep_tidy h hd hp hok
    exact ⟨hd', hp', Or.inl hsame⟩
  | flush pc =>
    obtain ⟨hd', hp', hsame⟩ := flushStep_tidy h hd
    exact ⟨hd', hp', Or.inl hsame⟩
  | disconnect pc => exact disconnectStep_tidy h hd hp hok

lemma fits_enter {c : Call} {i : Bool} (h : enter d c p = some (d', p')) : Fits i p' := by
  cases p with
  | ret r =>
    cases c with
    | disconnect =>
      obtain ⟨-, h⟩ := Option.ite_none_right_eq_some.mp h
      cases h
      exact fits_of_neither rfl rfl
    | flush =>
      cases h
      exact fits_of_neither rfl rfl
    | _ =>
      cases h
      split <;> exact fits_of_neither rfl rfl
  | _ => cases h

lemma Tidy.log (hd : Tidy d) {status : ℤ} (h : Reported status → d.interface = true) :
    Tidy (d.log status) := by
  unfold Dev.log
  split
  · rename_i hreported
    exact hd.deref (h hreported)
  · exact hd

lemma interface_log (d : Dev) (status : ℤ) : (d.log status).interface = d.interface := by
  unfold Dev.log
  split <;> rfl

lemma readCallback_tidy (hd : Tidy d) {status : ℤ} (h : Reported status → d.interface = true)
    (data : List UInt8) :
    Tidy (readCallback d status data) ∧ (readCallback d status data).interface = d.interface := by
  unfold readCallback
  split
  · have hlog := hd.log h
    exact ⟨⟨hlog.interface, hlog.submitted, fun _ => rfl, hlog.oops⟩, interface_log d status⟩
  · exact ⟨⟨hd.interface, hd.submitted, fun _ => rfl, hd.oops⟩, rfl⟩

lemma writeCallback_tidy (hd : Tidy d) {status : ℤ} (h : Reported status → d.interface = true) :
    Tidy (writeCallback d status) ∧ (writeCallback d status).interface = d.interface := by
  have hdone : Tidy { d with submitted := d.submitted - 1, limitSem := d.limitSem + 1 } := by
    refine ⟨hd.interface, fun hgone => ?_, hd.urb, hd.oops⟩
    have hzero := hd.submitted hgone
    change d.submitted - 1 = 0
    omega
  unfold writeCallback
  split
  · have hlog := hdone.log h
    exact ⟨⟨hlog.interface, hlog.submitted, hlog.urb, hlog.oops⟩, interface_log _ status⟩
  · exact ⟨hdone, rfl⟩

end Step

/-! ### Runs -/

structure TidyInv (s : St) : Prop where
  exclusive : s.Exclusive
  tidy : Tidy s.dev
  threads : ∀ t, Fits s.dev.interface (s.pc t)

lemma tidyInv_init (maxp : BitVec 16) : TidyInv (init maxp) where
  exclusive := exclusive_init maxp
  tidy := ⟨fun h => (by cases h), fun h => (by cases h), fun h => (by cases h), rfl⟩
  threads _ := fits_of_neither rfl rfl

/-- A step of one thread, for the other threads: those that have seen the interface hold the
mutex, and the interface does not come back. -/
lemma TidyInv.goto {s : St} {t : ℕ} {d' : Dev} {p' : Pc} (hi : TidyInv s)
    (hx : (s.goto t (d', p')).Exclusive) (hd : Tidy d') (hp : Fits d'.interface p')
    (hsame : d'.interface = s.dev.interface ∨
      (s.pc t).locked = true ∧ d'.interface = false) : TidyInv (s.goto t (d', p')) := by
  refine ⟨hx, hd, fun u => ?_⟩
  by_cases hut : u = t
  · subst hut
    change Fits d'.interface (Function.update s.pc u p' u)
    rwa [Function.update_self]
  · change Fits d'.interface (Function.update s.pc t p' u)
    rw [Function.update_of_ne hut]
    rcases hsame with hsame | ⟨hlocked, hfalse⟩
    · exact hsame ▸ hi.threads u
    · have hout := hi.exclusive.outside hlocked hut
      refine ⟨fun hc => ?_, fun _ => hfalse⟩
      exact absurd (hout.symm.trans (locked_of_connected hc)) (by decide)

lemma tidyInv_step {s s' : St} {a : Act} (hi : TidyInv s) (hok : Careful s a)
    (h : step s a = some s') : TidyInv s' := by
  have hstep := step_cases h
  have hx := exclusive_step hi.exclusive hstep
  have hd := hi.tidy
  cases hstep with
  | call hcall =>
    obtain ⟨-, -, b, rfl⟩ := enter_cases hcall
    exact hi.goto hx ⟨hd.interface, hd.submitted, hd.urb, hd.oops⟩ (fits_enter hcall) (Or.inl rfl)
  | @run t rv d' p' hrun =>
    obtain ⟨hd', hp', hsame⟩ := threadStep_tidy hrun hd (hi.threads t) hok
    exact hi.goto hx hd' hp' hsame
  | signal hsignal =>
    obtain ⟨rfl, -, hp'⟩ := interrupt_cases hsignal
    refine hi.goto hx hd ?_ (Or.inl rfl)
    rcases hp' with ⟨r, rfl⟩ | ⟨count, nonblock, r, rfl⟩ <;> exact fits_of_neither rfl rfl
  | readDone hurb hlen =>
    obtain ⟨hd', hsame⟩ := readCallback_tidy hd hok _
    exact ⟨hx, hd', fun t => hsame ▸ hi.threads t⟩
  | writeDone hpos =>
    obtain ⟨hd', hsame⟩ := writeCallback_tidy hd hok
    exact ⟨hx, hd', fun t => hsame ▸ hi.threads t⟩

lemma interface_of_deref {d : Dev} (h : d.deref.oops = false) : d.interface = true := by
  simp only [Dev.deref, Bool.or_eq_false_iff, Bool.not_eq_false'] at h
  exact h.2

lemma not_clean_of_careless {s s' : St} {a : Act} (hok : ¬ Careful s a)
    (h : step s a = some s') : ¬ Clean s' := by
  intro hclean
  cases step_cases h with
  | call => exact hok trivial
  | @run t rv d' p' hrun =>
    simp only [Careful] at hok
    cases hpc : s.pc t with
    | write count nonblock pc =>
      rw [hpc] at hok hrun
      cases pc with
      | report r =>
        cases hrun
        exact hok (interface_of_deref hclean.oops)
      | _ => exact hok trivial
    | disconnect pc =>
      rw [hpc] at hok hrun
      cases pc with
      | kill =>
        obtain ⟨-, hrun⟩ := Option.ite_none_right_eq_some.mp hrun
        cases hrun
        exact hok (hclean.urb rfl)
      | _ => exact hok trivial
    | _ =>
      rw [hpc] at hok
      exact hok trivial
  | signal => exact hok trivial
  | @readDone status data n hurb hlen =>
    obtain ⟨hreported, hfalse⟩ := Classical.not_imp.mp hok
    have hoops := hclean.oops
    simp only [readCallback, if_pos hreported.1, Dev.log, if_pos hreported] at hoops
    exact hfalse (interface_of_deref hoops)
  | @writeDone status hpos =>
    obtain ⟨hreported, hfalse⟩ := Classical.not_imp.mp hok
    have hoops := hclean.oops
    simp only [writeCallback, if_pos hreported.1, Dev.log, if_pos hreported] at hoops
    exact hfalse (interface_of_deref hoops)

/-- **Nothing is left behind** exactly when every action of the run is careful. -/
theorem usb_disconnect_clean_iff {maxp : BitVec 16} {as : List Act} {s : St}
    (h : exec step (init maxp) as = some s) :
    Always step Clean (init maxp) as ↔ Guarded step Careful (init maxp) as := by
  refine always_iff_guarded (I := TidyInv) ?_ (fun _ _ _ => tidyInv_step)
    (fun _ _ _ _ => not_clean_of_careless) h (tidyInv_init maxp)
  intro u hu
  exact ⟨hu.tidy.submitted, hu.tidy.urb, hu.tidy.oops⟩

instance (d : Dev) (p : Pc) : Decidable (p.Careful d) := by
  unfold Pc.Careful
  split <;> infer_instance

instance (s : St) (a : Act) : Decidable (Careful s a) := by
  cases a <;> unfold Careful <;> infer_instance

/-- A write is in flight when the device is unplugged, and `usb_kill_anchored_urbs` waits for
it. -/
def unpluggedWhileWriting : List Act :=
  .call 0 (.write 5 false) :: List.replicate 7 (.run 0 0) ++ .call 1 .disconnect ::
    List.replicate 3 (.run 1 0) ++ [.writeDone (-ENOENT), .run 1 0]

theorem usb_disconnect_clean_iff_while_writing :
    Always step Clean (init 4) unpluggedWhileWriting := by
  have hsome : (exec step (init 4) unpluggedWhileWriting).isSome = true := by decide +kernel
  obtain ⟨s, hs⟩ := Option.isSome_iff_exists.mp hsome
  exact (usb_disconnect_clean_iff hs).mpr (by decide +kernel)

/-- A read that does not wait has started a transfer, and the transfer is in flight after the
return of `skel_disconnect`; and a write that could not be submitted is reported after
`skel_disconnect` has cleared the pointer. -/
theorem usb_disconnect_unclean :
    (∃ s, exec step (init 4)
      (.call 0 (.read 4 true) :: List.replicate 10 (.run 0 0) ++ .call 1 .disconnect ::
        List.replicate 4 (.run 1 0)) = some s ∧
      s.pc 0 = .ret (-EAGAIN) ∧ s.dev.gone = true ∧ s.dev.bulkIn.urb = some 4) ∧
    ∃ s, exec step (init 4)
      (.call 0 (.write 5 false) :: List.replicate 5 (.run 0 0) ++
        [.run 0 (-ENOMEM), .run 0 0, .call 1 .disconnect, .run 1 0, .run 1 0, .run 0 0]) = some s ∧
      s.dev.interface = false ∧ s.dev.oops = true := by
  constructor
  · apply exists_exec_of_any
    decide +kernel
  · apply exists_exec_of_any
    decide +kernel

end LinuxSamples.UsbSkel
