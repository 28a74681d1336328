import LinuxSamples.UsbSkel
import LinuxSamples.Tally

/-!
The permits and the buffers of `skel_write`.

A write takes a permit of `limit_sem` before it does anything else. The permit comes back at the
end of the error path, or with the completion handler once the transfer has been submitted; and so
does the buffer. The model of the driver is run together with the buffers: the local variables
of the threads, the buffers of the transfers in flight and those that were freed.
-/

namespace LinuxSamples.UsbSkel

open LinuxSamples.Run LinuxSamples.Tally

/-! ### Buffers -/

/-- The local variables `urb`, which is set or null, and `buf` of `skel_write`. -/
structure Locals where
  urb : Bool
  buf : Option ℕ
  deriving DecidableEq

/-- The buffers are numbered as they are allocated, and `next` of them have been. `inFlight` are
those of the transfers in flight, `freed` what `usb_free_coherent` was called with. -/
structure Heap where
  next : ℕ
  locals : ℕ → Locals
  inFlight : List ℕ
  freed : List ℕ

def noBuffers : Heap := ⟨0, fun _ => ⟨false, none⟩, [], []⟩

def Heap.set (h : Heap) (t : ℕ) (l : Locals) : Heap :=
  { h with locals := Function.update h.locals t l }

/-- How far `skel_write` gets when it prepares a transfer. -/
inductive Outcome
  | noUrb
  | noBuffer
  | fault
  | ready
  deriving DecidableEq

def Outcome.rv : Outcome → ℤ
  | .noUrb => -ENOMEM
  | .noBuffer => -ENOMEM
  | .fault => -EFAULT
  | .ready => 0

/-- The allocations; the copy has no effect on them. -/
def Heap.prepare (h : Heap) (t : ℕ) : Outcome → Heap
  | .noUrb => h
  | .noBuffer => h.set t ⟨true, none⟩
  | .fault => { h.set t ⟨true, some h.next⟩ with next := h.next + 1 }
  | .ready => { h.set t ⟨true, some h.next⟩ with next := h.next + 1 }

def Heap.submit (h : Heap) (t : ℕ) : Heap :=
  { h with inFlight := h.inFlight ++ (h.locals t).buf.toList }

/-- The end of the error path. `usb_free_coherent` does nothing for a null pointer. -/
def Heap.error (h : Heap) (t : ℕ) : Heap :=
  if (h.locals t).urb then { h with freed := h.freed ++ (h.locals t).buf.toList } else h

/-- What a step of a thread does to the buffers. -/
def Heap.run (h : Heap) (t : ℕ) (rv : ℤ) : Pc → Option Heap
  -- there is an action of its own
  | .write _ _ .prepare => none
  | .write _ _ .submit => some (if rv = 0 then h.submit t else h)
  | .write _ _ (.up _) => some (h.error t)
  | _ => some h

inductive BufAct
  | call (t : ℕ) (c : Call)
  | run (t : ℕ) (rv : ℤ)
  | prepare (t : ℕ) (o : Outcome)
  | signal (t : ℕ)
  | readDone (status : ℤ) (data : List UInt8)
  /-- The transfer of the buffer `b` completes. -/
  | writeDone (b : ℕ) (status : ℤ)
  deriving DecidableEq

/-- The action of the driver, and the buffers behind it. -/
def lower (s : St) (h : Heap) : BufAct → Option (Act × Heap)
  | .call t c => some (.call t c, h.set t ⟨false, none⟩)
  | .run t rv => (h.run t rv (s.pc t)).map fun h' => (.run t rv, h')
  | .prepare t o =>
    match s.pc t with
    | .write _ _ .prepare => some (.run t o.rv, h.prepare t o)
    | _ => none
  | .signal t => some (.signal t, h)
  | .readDone status data => some (.readDone status data, h)
  | .writeDone b status =>
    if b ∈ h.inFlight then
      some (.writeDone status,
        { h with inFlight := h.inFlight.erase b, freed := h.freed ++ [b] })
    else none

def bufStep (x : St × Heap) (a : BufAct) : Option (St × Heap) :=
  (lower x.1 x.2 a).bind fun r => (step x.1 r.1).map fun s => (s, r.2)

/-! ### Permits -/

/-- The thread is between taking its permit and submitting or failing. -/
def WritePc.permit : WritePc → Bool
  | .down => false
  | .unlock r => r ≠ 0
  | _ => true

def Pc.permit : Pc → Bool
  | .write _ _ pc => pc.permit
  | _ => false

/-- The thread has the buffer `b`. -/
def holds (b : ℕ) (x : Pc × Locals) : Bool := x.1.permit && x.2.buf = some b

def threads (s : St) (h : Heap) (t : ℕ) : Pc × Locals := (s.pc t, h.locals t)

/-- The permits add up, and every buffer that was allocated has been freed once, or is that of
one transfer or of one writer. So it has been freed once when there is neither. -/
structure Conserved (s : St) (h : Heap) : Prop where
  finite : {t | (s.pc t).permit = true}.Finite
  permits : s.dev.limitSem + ncount Pc.permit s.pc + s.dev.submitted = WRITES_IN_FLIGHT
  flying : s.dev.submitted = h.inFlight.length
  buffers : ∀ b < h.next,
    h.freed.count b + h.inFlight.count b + ncount (holds b) (threads s h) = 1
  allocated : ∀ b ∈ h.freed, b < h.next
  freed : s.dev.submitted = 0 → (∀ t, (s.pc t).permit = false) → ∀ b < h.next, h.freed.count b = 1

/-! ### One step -/

/-- The variables are null until the transfer is prepared, and set behind that. On the error path
there is no buffer without a transfer. -/
def Locals.Fits (l : Locals) : Pc → Prop
  | .write _ _ pc =>
    match pc with
    | .down | .errors | .prepare => l = ⟨false, none⟩
    | .unlock _ | .lock | .check | .submit | .report _ => l.urb = true ∧ l.buf.isSome = true
    | .up _ => l.buf.isSome = true → l.urb = true
  | _ => True

/-- What counts for the buffer `b`: one, if it has been allocated. -/
def Heap.known (h : Heap) (b : ℕ) : ℤ := if b < h.next then 1 else 0

/-- One thread goes from `x` to `x'`. -/
structure Balanced (d d' : Dev) (h h' : Heap) (x x' : Pc × Locals) : Prop where
  permits : (d'.limitSem : ℤ) + ind Pc.permit x'.1 + d'.submitted =
    d.limitSem + ind Pc.permit x.1 + d.submitted
  flying : (d'.submitted : ℤ) - h'.inFlight.length = d.submitted - h.inFlight.length
  buffers : ∀ b,
    (h'.freed.count b : ℤ) + h'.inFlight.count b + ind (holds b) x' - h'.known b =
      h.freed.count b + h.inFlight.count b + ind (holds b) x - h.known b
  fits : x'.2.Fits x'.1

section Balance

variable {d d' : Dev} {h : Heap} {l : Locals} {t : ℕ} {rv : ℤ} {p p' : Pc}

lemma ind_congr {τ : Type*} {q : τ → Bool} {x y : τ} (hq : q x = q y) : ind q x = ind q y := by
  unfold ind
  rw [hq]

lemma Balanced.of_same (hsem : d'.limitSem = d.limitSem) (hsub : d'.submitted = d.submitted)
    (hperm : p'.permit = p.permit) (hfits : l.Fits p') : Balanced d d' h h (p, l) (p', l) where
  permits := by rw [hsem, hsub, ind_congr (q := Pc.permit) hperm]
  flying := by rw [hsub]
  buffers b := by
    have hholds : holds b (p', l) = holds b (p, l) := congrArg (· && _) hperm
    rw [ind_congr hholds]
  fits := hfits

lemma readStep_same {count : ℕ} {nonblock : Bool} {pc : ReadPc}
    (h : readStep d t count nonblock rv pc = some (d', p')) :
    d'.limitSem = d.limitSem ∧ d'.submitted = d.submitted ∧ p'.permit = false ∧
      ∀ l : Locals, l.Fits p' := by
  cases pc <;> simp only [readStep] at h <;> (repeat' split at h) <;> cases h <;>
    exact ⟨rfl, rfl, rfl, fun _ => trivial⟩

lemma flushStep_same {pc : FlushPc} (h : flushStep d t pc = some (d', p')) :
    d'.limitSem = d.limitSem ∧ d'.submitted = d.submitted ∧ p'.permit = false ∧
      ∀ l : Locals, l.Fits p' := by
  cases pc <;> simp only [flushStep] at h <;> (repeat' split at h) <;> cases h <;>
    exact ⟨rfl, rfl, rfl, fun _ => trivial⟩

lemma disconnectStep_same {pc : DisconnectPc} (h : disconnectStep d t pc = some (d', p')) :
    d'.limitSem = d.limitSem ∧ d'.submitted = d.submitted ∧ p'.permit = false ∧
      ∀ l : Locals, l.Fits p' := by
  cases pc <;> simp only [disconnectStep] at h <;> (repeat' split at h) <;> cases h <;>
    exact ⟨rfl, rfl, rfl, fun _ => trivial⟩

lemma ind_holds (b : ℕ) (p : Pc) (l : Locals) :
    ind (holds b) (p, l) = if p.permit then (l.buf.toList.count b : ℤ) else 0 := by
  unfold ind holds
  cases p.permit
  · rfl
  · cases l.buf with
    | none => simp
    | some c => simp [List.count_singleton]

lemma down_balanced {count : ℕ} {nonblock : Bool} (hpos : 0 < d.limitSem)
    (hnull : h.locals t = ⟨false, none⟩) :
    Balanced d { d with limitSem := d.limitSem - 1 } h h
      (.write count nonblock .down, h.locals t) (.write count nonblock .errors, h.locals t) where
  permits := by
    have hthen : ind Pc.permit (.write count nonblock .down) = 0 := rfl
    have hnow : ind Pc.permit (.write count nonblock .errors) = 1 := rfl
    dsimp only
    omega
  flying := rfl
  buffers b := by simp [ind_holds, hnull]
  fits := hnull

lemma submit_balanced {count : ℕ} {nonblock : Bool}
    (hfits : (h.locals t).Fits (.write count nonblock .submit)) :
    Balanced d { d with submitted := d.submitted + 1 } h (h.submit t)
      (.write count nonblock .submit, h.locals t)
      (.write count nonblock (.unlock 0), h.locals t) where
  permits := by
    have hthen : ind Pc.permit (.write count nonblock .submit) = 1 := rfl
    have hnow : ind Pc.permit (.write count nonblock (.unlock 0)) = 0 := rfl
    dsimp only
    omega
  flying := by
    obtain ⟨b, hb⟩ := Option.isSome_iff_exists.mp hfits.2
    simp [Heap.submit, hb]
  buffers b := by
    have hthen : ind (holds b) (.write count nonblock .submit, h.locals t) =
        (h.locals t).buf.toList.count b := ind_holds ..
    have hnow : ind (holds b) (.write count nonblock (.unlock 0), h.locals t) = 0 := ind_holds ..
    rw [hthen, hnow, Heap.submit, List.count_append]
    push_cast
    simp only [Heap.known]
    omega
  fits := hfits

lemma error_freed (hfits : (h.locals t).buf.isSome = true → (h.locals t).urb = true) :
    h.error t = { h with freed := h.freed ++ (h.locals t).buf.toList } := by
  unfold Heap.error
  split
  · rfl
  · rename_i hurb
    have hnone : (h.locals t).buf = none :=
      Option.not_isSome_iff_eq_none.mp fun hsome => hurb (hfits hsome)
    simp [hnone]

lemma error_balanced {count : ℕ} {nonblock : Bool} {r : ℤ}
    (hfits : (h.locals t).Fits (.write count nonblock (.up r))) :
    Balanced d { d with limitSem := d.limitSem + 1 } h (h.error t)
      (.write count nonblock (.up r), h.locals t) (.ret r, h.locals t) where
  permits := by
    have hthen : ind Pc.permit (.write count nonblock (.up r)) = 1 := rfl
    have hnow : ind Pc.permit (.ret r) = 0 := rfl
    dsimp only
    omega
  flying := by rw [error_freed hfits]
  buffers b := by
    have hthen : ind (holds b) (.write count nonblock (.up r), h.locals t) =
        (h.locals t).buf.toList.count b := ind_holds ..
    have hnow : ind (holds b) (.ret r, h.locals t) = 0 := ind_holds ..
    rw [hthen, hnow, error_freed hfits, List.count_append]
    push_cast
    simp only [Heap.known]
    omega
  fits := trivial

lemma writeStep_balanced {h' : Heap} {count : ℕ} {nonblock : Bool} {pc : WritePc}
    (hstep : writeStep d t count nonblock rv pc = some (d', p'))
    (hheap : h.run t rv (.write count nonblock pc) = some h')
    (hfits : (h.locals t).Fits (.write count nonblock pc)) :
    Balanced d d' h h' (.write count nonblock pc, h.locals t) (p', h.locals t) := by
  cases pc with
  | down =>
    cases hheap
    simp only [writeStep] at hstep
    split at hstep
    · rename_i hpos
      cases hstep
      exact down_balanced hpos hfits
    · obtain ⟨-, hstep⟩ := Option.ite_none_right_eq_some.mp hstep
      cases hstep
      exact .of_same rfl rfl rfl trivial
  | errors =>
    cases hheap
    have hnull : h.locals t = ⟨false, none⟩ := hfits
    simp only [writeStep] at hstep
    split at hstep
    · cases hstep
      exact .of_same rfl rfl rfl fun hsome => by rw [hnull] at hsome; cases hsome
    · cases hstep
      exact .of_same rfl rfl rfl hfits
  | prepare => cases hheap
  | lock =>
    cases hheap
    obtain ⟨-, hstep⟩ := Option.ite_none_right_eq_some.mp hstep
    cases hstep
    exact .of_same rfl rfl rfl hfits
  | check =>
    cases hheap
    simp only [writeStep] at hstep
    split at hstep
    · cases hstep
      exact .of_same rfl rfl rfl hfits
    · cases hstep
      exact .of_same rfl rfl rfl fun _ => hfits.1
  | submit =>
    simp only [writeStep] at hstep
    split at hstep
    · rename_i hrv
      cases hstep
      obtain rfl : h.submit t = h' := by simpa [Heap.run, hrv] using hheap
      exact submit_balanced hfits
    · rename_i hrv
      cases hstep
      obtain rfl : h = h' := by simpa [Heap.run, hrv] using hheap
      exact .of_same rfl rfl (by simp [Pc.permit, WritePc.permit, hrv]) hfits
  | unlock r =>
    cases hheap
    cases hstep
    by_cases hr : r = 0
    · rw [if_pos hr]
      exact .of_same rfl rfl (by simp [Pc.permit, WritePc.permit, hr]) trivial
    · rw [if_neg hr]
      exact .of_same rfl rfl (by simp [Pc.permit, WritePc.permit, hr]) hfits
  | report r =>
    cases hheap
    cases hstep
    exact .of_same rfl rfl rfl fun _ => hfits.1
  | up r =>
    cases hheap
    cases hstep
    exact error_balanced hfits

lemma locals_run {h' : Heap} (hheap : h.run t rv p = some h') : h'.locals = h.locals := by
  unfold Heap.run at hheap
  split at hheap
  · cases hheap
  · cases hheap
    split <;> rfl
  · cases hheap
    unfold Heap.error
    split <;> rfl
  · cases hheap
    rfl

lemma run_balanced {h' : Heap} (hstep : threadStep d t rv p = some (d', p'))
    (hheap : h.run t rv p = some h') (hfits : (h.locals t).Fits p) :
    Balanced d d' h h' (p, h.locals t) (p', h.locals t) := by
  cases p with
  | ret r => cases hstep
  | read count nonblock pc =>
    obtain ⟨hsem, hsub, hperm, hfits'⟩ := readStep_same hstep
    cases hheap
    exact .of_same hsem hsub hperm (hfits' _)
  | write count nonblock pc => exact writeStep_balanced hstep hheap hfits
  | flush pc =>
    obtain ⟨hsem, hsub, hperm, hfits'⟩ := flushStep_same hstep
    cases hheap
    exact .of_same hsem hsub hperm (hfits' _)
  | disconnect pc =>
    obtain ⟨hsem, hsub, hperm, hfits'⟩ := disconnectStep_same hstep
    cases hheap
    exact .of_same hsem hsub hperm (hfits' _)

lemma alloc_balanced {count : ℕ} {nonblock : Bool} (hnull : h.locals t = ⟨false, none⟩)
    (hperm : p'.permit = true) (hfits : (⟨true, some h.next⟩ : Locals).Fits p') :
    Balanced d d h { h.set t ⟨true, some h.next⟩ with next := h.next + 1 }
      (.write count nonblock .prepare, h.locals t) (p', ⟨true, some h.next⟩) where
  permits := by
    rw [ind_congr (q := Pc.permit) (x := p') (y := .write count nonblock .prepare) hperm]
  flying := rfl
  buffers b := by
    have hthen : ind (holds b) (.write count nonblock .prepare, h.locals t) = 0 := by
      rw [ind_holds, hnull]
      rfl
    have hnow : ind (holds b) (p', ⟨true, some h.next⟩) = [h.next].count b := by
      rw [ind_holds, if_pos hperm]
      rfl
    have hknown : h.known b + [h.next].count b = if b < h.next + 1 then 1 else 0 := by
      unfold Heap.known
      rcases lt_trichotomy b h.next with hlt | rfl | hgt
      · rw [if_pos hlt, if_pos (by omega), List.count_singleton, if_neg (by simp; omega)]
        rfl
      · rw [if_neg (by omega), if_pos (by omega), List.count_singleton_self]
        rfl
      · rw [if_neg (by omega), if_neg (by omega), List.count_singleton, if_neg (by simp; omega)]
        rfl
    rw [hthen, hnow, Heap.known, ← hknown]
    simp only [Heap.set]
    omega
  fits := hfits

lemma prepare_balanced {count : ℕ} {nonblock : Bool} {o : Outcome}
    (hstep : threadStep d t o.rv (.write count nonblock .prepare) = some (d', p'))
    (hfits : (h.locals t).Fits (.write count nonblock .prepare)) :
    ∃ l, (h.prepare t o).locals = Function.update h.locals t l ∧
      Balanced d d' h (h.prepare t o) (.write count nonblock .prepare, h.locals t) (p', l) := by
  have hnull : h.locals t = ⟨false, none⟩ := hfits
  cases o with
  | noUrb =>
    cases hstep
    refine ⟨h.locals t, (Function.update_eq_self t h.locals).symm, ?_⟩
    exact .of_same rfl rfl rfl fun hsome => by rw [hnull] at hsome; cases hsome
  | noBuffer =>
    cases hstep
    refine ⟨⟨true, none⟩, rfl, rfl, rfl, fun b => ?_, fun hsome => by cases hsome⟩
    rw [ind_holds, ind_holds, hnull]
    rfl
  | fault =>
    cases hstep
    exact ⟨_, rfl, alloc_balanced hnull rfl fun _ => rfl⟩
  | ready =>
    cases hstep
    exact ⟨_, rfl, alloc_balanced hnull rfl ⟨rfl, rfl⟩⟩

end Balance

/-! ### The invariant -/

structure BufInv (s : St) (h : Heap) : Prop where
  finite : {t | (s.pc t).permit = true}.Finite
  permits : (s.dev.limitSem : ℤ) + ncount Pc.permit s.pc + s.dev.submitted = WRITES_IN_FLIGHT
  flying : (s.dev.submitted : ℤ) - h.inFlight.length = 0
  buffers : ∀ b,
    (h.freed.count b : ℤ) + h.inFlight.count b + ncount (holds b) (threads s h) - h.known b = 0
  fits : ∀ t, (h.locals t).Fits (s.pc t)

lemma bufInv_init (maxp : BitVec 16) : BufInv (init maxp) noBuffers where
  finite := by simp [init, Pc.permit]
  permits := by
    rw [ncount_eq_zero fun t => rfl]
    rfl
  flying := rfl
  buffers b := by
    rw [ncount_eq_zero fun t => rfl]
    rfl
  fits t := trivial

lemma finite_holds {s : St} (h : {t | (s.pc t).permit = true}.Finite) (heap : Heap) (b : ℕ) :
    {t | holds b (threads s heap t) = true}.Finite := by
  refine h.subset fun t ht => ?_
  exact (Bool.and_eq_true_iff.mp ht).1

lemma threads_goto (s : St) (t : ℕ) (d' : Dev) (p' : Pc) {h h' : Heap} {l : Locals}
    (hl : h'.locals = Function.update h.locals t l) :
    threads (s.goto t (d', p')) h' = Function.update (threads s h) t (p', l) := by
  funext u
  unfold threads St.goto
  rw [hl]
  by_cases hu : u = t
  · subst hu
    simp
  · simp [hu]

lemma BufInv.goto {s : St} {h h' : Heap} (hi : BufInv s h) {t : ℕ} {d' : Dev} {p' : Pc} {l : Locals}
    (hl : h'.locals = Function.update h.locals t l)
    (hb : Balanced s.dev d' h h' (s.pc t, h.locals t) (p', l)) :
    BufInv (s.goto t (d', p')) h' where
  finite := finite_update hi.finite t p'
  permits := by
    have hcount := ncount_update hi.finite t p'
    have hpermits := hb.permits
    have hbefore := hi.permits
    simp only [St.goto]
    dsimp only at hpermits
    omega
  flying := hb.flying.trans hi.flying
  buffers b := by
    have hcount := ncount_update (finite_holds hi.finite h b) t (p', l)
    have hbuffers := hb.buffers b
    have hbefore := hi.buffers b
    rw [threads_goto s t d' p' hl]
    change _ = _ + (_ - ind (holds b) (s.pc t, h.locals t)) at hcount
    omega
  fits u := by
    simp only [St.goto, hl]
    by_cases hu : u = t
    · subst hu
      rw [Function.update_self, Function.update_self]
      exact hb.fits
    · rw [Function.update_of_ne hu, Function.update_of_ne hu]
      exact hi.fits u

lemma enter_same {d d' : Dev} {c : Call} {p p' : Pc} (h : enter d c p = some (d', p')) :
    d'.limitSem = d.limitSem ∧ d'.submitted = d.submitted ∧ p'.permit = false ∧ p.permit = false ∧
      (⟨false, none⟩ : Locals).Fits p' := by
  cases p with
  | ret r =>
    cases c with
    | read count nonblock =>
      cases h
      exact ⟨rfl, rfl, by split <;> rfl, rfl, by split <;> trivial⟩
    | write count nonblock =>
      cases h
      refine ⟨rfl, rfl, by split <;> rfl, rfl, ?_⟩
      split
      · trivial
      · rfl
    | flush =>
      cases h
      exact ⟨rfl, rfl, rfl, rfl, trivial⟩
    | disconnect =>
      obtain ⟨-, h⟩ := Option.ite_none_right_eq_some.mp h
      cases h
      exact ⟨rfl, rfl, rfl, rfl, trivial⟩
  | _ => cases h

lemma enter_balanced {d d' : Dev} {c : Call} {p p' : Pc} {h : Heap} {t : ℕ}
    (hstep : enter d c p = some (d', p')) :
    Balanced d d' h (h.set t ⟨false, none⟩) (p, h.locals t) (p', ⟨false, none⟩) := by
  obtain ⟨hsem, hsub, hperm', hperm, hfits⟩ := enter_same hstep
  refine ⟨?_, ?_, fun b => ?_, hfits⟩
  · rw [hsem, hsub, ind_congr (q := Pc.permit) (hperm'.trans hperm.symm)]
  · rw [hsub]
    rfl
  · rw [ind_holds, ind_holds, hperm, hperm']
    rfl

lemma interrupt_permit {d d' : Dev} {p p' : Pc} (h : interrupt d p = some (d', p')) :
    p'.permit = p.permit ∧ ∀ l : Locals, l.Fits p' := by
  unfold interrupt at h
  split at h
  all_goals cases h
  all_goals exact ⟨rfl, fun _ => trivial⟩

lemma readCallback_same (d : Dev) (status : ℤ) (data : List UInt8) :
    (readCallback d status data).limitSem = d.limitSem ∧
      (readCallback d status data).submitted = d.submitted := by
  unfold readCallback Dev.log Dev.deref
  split <;> [split; skip] <;> exact ⟨rfl, rfl⟩

lemma writeCallback_returns (d : Dev) (status : ℤ) :
    (writeCallback d status).limitSem = d.limitSem + 1 ∧
      (writeCallback d status).submitted = d.submitted - 1 := by
  unfold writeCallback Dev.log Dev.deref
  split <;> [split; skip] <;> exact ⟨rfl, rfl⟩

lemma BufInv.writeDone {s : St} {h : Heap} (hi : BufInv s h) {b : ℕ} (hb : b ∈ h.inFlight)
    (hpos : 0 < s.dev.submitted) (status : ℤ) :
    BufInv { s with dev := writeCallback s.dev status }
      { h with inFlight := h.inFlight.erase b, freed := h.freed ++ [b] } where
  finite := hi.finite
  permits := by
    obtain ⟨hsem, hsub⟩ := writeCallback_returns s.dev status
    have hbefore := hi.permits
    rw [hsem, hsub]
    dsimp only
    omega
  flying := by
    obtain ⟨-, hsub⟩ := writeCallback_returns s.dev status
    have hlen := List.length_erase_of_mem hb
    have hbefore := hi.flying
    rw [hsub, hlen]
    omega
  buffers c := by
    have hbefore := hi.buffers c
    have hcount : h.inFlight.count c = [b].count c + (h.inFlight.erase b).count c := by
      rw [(List.perm_cons_erase hb).count_eq, ← List.singleton_append, List.count_append]
    have hthreads : threads { s with dev := writeCallback s.dev status }
        { h with inFlight := h.inFlight.erase b, freed := h.freed ++ [b] } = threads s h := rfl
    rw [hthreads, List.count_append]
    simp only [Heap.known] at hbefore ⊢
    omega
  fits := hi.fits

lemma bufInv_bufStep {x y : St × Heap} {a : BufAct} (hi : BufInv x.1 x.2)
    (hstep : bufStep x a = some y) : BufInv y.1 y.2 := by
  obtain ⟨s, h⟩ := x
  obtain ⟨⟨act, h'⟩, hlower, hrest⟩ := Option.bind_eq_some_iff.mp hstep
  obtain ⟨s', hs', rfl⟩ := Option.map_eq_some_iff.mp hrest
  cases a with
  | call t c =>
    cases hlower
    cases step_cases hs' with
    | call hcall => exact hi.goto rfl (enter_balanced hcall)
  | run t rv =>
    obtain ⟨h'', hheap, hlower⟩ := Option.map_eq_some_iff.mp hlower
    cases hlower
    cases step_cases hs' with
    | run hrun =>
      have hl : h'.locals = Function.update h.locals t (h.locals t) :=
        (locals_run hheap).trans (Function.update_eq_self t h.locals).symm
      exact hi.goto hl (run_balanced hrun hheap (hi.fits t))
  | prepare t o =>
    simp only [lower] at hlower
    split at hlower
    · rename_i count nonblock hpc
      cases hlower
      cases step_cases hs' with
      | run hrun =>
        have hfits := hi.fits t
        dsimp only at hfits hrun
        rw [hpc] at hrun hfits
        obtain ⟨l, hl, hbal⟩ := prepare_balanced hrun hfits
        exact hi.goto hl (hpc ▸ hbal)
    · cases hlower
  | signal t =>
    cases hlower
    cases step_cases hs' with
    | signal hsignal =>
      obtain ⟨rfl, -, -⟩ := interrupt_cases hsignal
      obtain ⟨hperm, hfits⟩ := interrupt_permit hsignal
      exact hi.goto (Function.update_eq_self t h.locals).symm (.of_same rfl rfl hperm (hfits _))
  | readDone status data =>
    cases hlower
    cases step_cases hs' with
    | readDone =>
      obtain ⟨hsem, hsub⟩ := readCallback_same s.dev status data
      exact ⟨hi.finite, by rw [hsem, hsub]; exact hi.permits, by rw [hsub]; exact hi.flying,
        hi.buffers, hi.fits⟩
  | writeDone b status =>
    obtain ⟨hb, hlower⟩ := Option.ite_none_right_eq_some.mp hlower
    cases hlower
    cases step_cases hs' with
    | writeDone hpos => exact hi.writeDone hb hpos status

lemma BufInv.conserved {s : St} {h : Heap} (hi : BufInv s h) : Conserved s h where
  finite := hi.finite
  permits := by
    have hpermits := hi.permits
    omega
  flying := by
    have hflying := hi.flying
    omega
  buffers b hb := by
    have hbuffers := hi.buffers b
    rw [Heap.known, if_pos hb] at hbuffers
    omega
  allocated b hb := by
    by_contra hn
    have hbuffers := hi.buffers b
    have hpos := List.count_pos_iff.mpr hb
    rw [Heap.known, if_neg hn] at hbuffers
    omega
  freed hsub hidle b hb := by
    have hbuffers := hi.buffers b
    have hflying := hi.flying
    have hempty : h.inFlight = [] := List.eq_nil_of_length_eq_zero (by omega)
    have hnobody : ncount (holds b) (threads s h) = 0 :=
      ncount_eq_zero fun t => by simp [holds, threads, hidle t]
    rw [Heap.known, if_pos hb, hempty, List.count_nil, hnobody] at hbuffers
    omega

/-- **The flow control of `skel_write`** conserves its permits, and frees every buffer once: for
any number of writers, however they fail, and whatever order their transfers complete in. -/
theorem usb_write_conserves {maxp : BitVec 16} {s : St} {h : Heap}
    (hr : Reach bufStep (init maxp, noBuffers) (s, h)) : Conserved s h := by
  have hi : BufInv (s, h).1 (s, h).2 :=
    hr.invariant (I := fun x => BufInv x.1 x.2) (bufInv_init maxp) fun _ _ _ => bufInv_bufStep
  exact hi.conserved

/-- One write is submitted, one cannot copy its data, and one has just taken its permit. -/
def threeWrites : List BufAct :=
  [.call 0 (.write 5 false), .run 0 0, .run 0 0, .prepare 0 .ready, .run 0 0, .run 0 0, .run 0 0,
    .run 0 0, .call 1 (.write 5 false), .run 1 0, .run 1 0, .prepare 1 .fault, .run 1 0,
    .call 2 (.write 5 true), .run 2 0]

theorem usb_write_conserves_threeWrites :
    ∃ s h, exec bufStep (init 4, noBuffers) threeWrites = some (s, h) ∧
      (s.dev.limitSem = 6 ∧ s.dev.submitted = 1 ∧ h.inFlight = [0] ∧ h.freed = [1]) ∧
      Conserved s h := by
  obtain ⟨⟨s, h⟩, hrun, hfacts⟩ :
      ∃ x, exec bufStep (init 4, noBuffers) threeWrites = some x ∧
        (x.1.dev.limitSem = 6 ∧ x.1.dev.submitted = 1 ∧ x.2.inFlight = [0] ∧
          x.2.freed = [1]) := by
    apply exists_exec_of_any
    decide +kernel
  exact ⟨s, h, hrun, hfacts, usb_write_conserves ⟨threeWrites, hrun⟩⟩

end LinuxSamples.UsbSkel
