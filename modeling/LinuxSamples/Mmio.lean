import Mathlib.Tactic

/-!
Memory-mapped registers.

A device answers 32-bit reads and takes 32-bit writes at addresses of any kind, changing its
own state in ways nobody knows. A driver is run against a device together with the trace of
the accesses it has issued, each with what it was issued for; the lemmas say what the pieces of a
driver add to the trace, and what the accesses do to the words of a device that behave as memory.
-/

namespace LinuxSamples.Mmio

variable {ι α δ κ ω : Type*}

structure Device (α δ : Type*) where
  read : δ → α → UInt32 × δ
  write : δ → α → UInt32 → δ

inductive Access (κ : Type*)
  | read (a : κ)
  | write (a : κ) (v : UInt32)
  deriving DecidableEq, Repr

def Access.addr : Access κ → κ
  | .read a => a
  | .write a _ => a

/-- The state of the device and the accesses issued so far, in order. -/
structure Hw (κ δ : Type*) where
  dev : δ
  trace : List (Access κ)

def ioread32 (D : Device α δ) (a : ι × α) (h : Hw (ι × α) δ) : UInt32 × Hw (ι × α) δ :=
  let (v, d) := D.read h.dev a.2
  (v, ⟨d, h.trace ++ [.read a]⟩)

def iowrite32 (D : Device α δ) (v : UInt32) (a : ι × α) (h : Hw (ι × α) δ) : Hw (ι × α) δ :=
  ⟨D.write h.dev a.2 v, h.trace ++ [.write a v]⟩

@[simp] lemma trace_ioread32 (D : Device α δ) (a : ι × α) (h : Hw (ι × α) δ) :
    (ioread32 D a h).2.trace = h.trace ++ [.read a] := rfl

@[simp] lemma trace_iowrite32 (D : Device α δ) (v : UInt32) (a : ι × α) (h : Hw (ι × α) δ) :
    (iowrite32 D v a h).trace = h.trace ++ [.write a v] := rfl

lemma trace_foldl {f : Hw κ δ → ω → Hw κ δ} {g : ω → List (Access κ)}
    (hf : ∀ h i, (f h i).trace = h.trace ++ g i) (is : List ω) (h : Hw κ δ) :
    (is.foldl f h).trace = h.trace ++ is.flatMap g := by
  induction is generalizing h with
  | nil => simp
  | cons i is ih => rw [List.foldl_cons, ih, hf, List.flatMap_cons, List.append_assoc]

/-! ### Devices and their traces -/

/-- What the accesses make of the state of the device. -/
def replay (D : Device α δ) (d : δ) (t : List (Access (ι × α))) : δ :=
  t.foldl (fun d a =>
    match a with
    | .read a => (D.read d a.2).2
    | .write a v => D.write d a.2 v) d

lemma replay_append (D : Device α δ) (d : δ) (t u : List (Access (ι × α))) :
    replay D d (t ++ u) = replay D (replay D d t) u := List.foldl_append ..

/-- The device is where the trace has brought it. -/
def Replays (D : Device α δ) (d : δ) (h : Hw (ι × α) δ) : Prop := h.dev = replay D d h.trace

section Replays

variable {D : Device α δ} {d : δ} {h : Hw (ι × α) δ}

lemma Replays.ioread32 (hr : Replays D d h) (a : ι × α) : Replays D d (ioread32 D a h).2 := by
  rw [Replays, trace_ioread32, replay_append, ← hr]
  rfl

lemma Replays.iowrite32 (hr : Replays D d h) (v : UInt32) (a : ι × α) :
    Replays D d (iowrite32 D v a h) := by
  rw [Replays, trace_iowrite32, replay_append, ← hr]
  rfl

lemma Replays.foldl {f : Hw (ι × α) δ → ω → Hw (ι × α) δ}
    (hf : ∀ h i, Replays D d h → Replays D d (f h i)) (hr : Replays D d h) (is : List ω) :
    Replays D d (is.foldl f h) := by
  induction is generalizing h with
  | nil => exact hr
  | cons i is ih => exact ih (hf h i hr)

end Replays

/-! ### Memory -/

/-- The words in `W` behave as memory: `loc` says where they are and `val` what all words hold.
An access to one of them changes no other word. -/
structure Memory (D : Device α δ) (loc : ω → α) (W : ω → Prop) (val : δ → ω → UInt32) : Prop where
  read : ∀ d w, W w → (D.read d (loc w)).1 = val d w
  read_keeps : ∀ d w b, W w → val (D.read d (loc w)).2 b = val d b
  write_self : ∀ d w v, W w → val (D.write d (loc w) v) w = v
  write_keeps : ∀ d w b v, W w → b ≠ w → val (D.write d (loc w) v) b = val d b

section Memory

variable {D : Device α δ} {loc : ω → α} {W : ω → Prop} {val : δ → ω → UInt32}
  {t : List (Access (ι × α))}

lemma Memory.val_replay (M : Memory D loc W val) {b : ω}
    (ht : ∀ a ∈ t, ∃ w, W w ∧ w ≠ b ∧ a.addr.2 = loc w) (d : δ) :
    val (replay D d t) b = val d b := by
  induction t generalizing d with
  | nil => rfl
  | cons a t ih =>
    obtain ⟨⟨w, hw, hne, haddr⟩, ht⟩ := List.forall_mem_cons.mp ht
    refine (ih ht _).trans ?_
    cases a with
    | read a =>
      simp only [Access.addr] at haddr
      simp only [haddr]
      exact M.read_keeps d w b hw
    | write a v =>
      simp only [Access.addr] at haddr
      simp only [haddr]
      exact M.write_keeps d w b v hw hne.symm

/-- A word keeps the value that all writes have. -/
lemma Memory.val_replay_writes (M : Memory D loc W val) {v : UInt32} {b : ω}
    (ht : ∀ a ∈ t, ∃ i w, W w ∧ a = .write (i, loc w) v) {d : δ}
    (hb : val d b = v ∨ ∃ i, .write (i, loc b) v ∈ t) (hloc : ∀ w, W w → loc b = loc w → b = w) :
    val (replay D d t) b = v := by
  induction t generalizing d with
  | nil => simpa [replay] using hb
  | cons a t ih =>
    obtain ⟨⟨i, w, hw, rfl⟩, ht'⟩ := List.forall_mem_cons.mp ht
    refine ih ht' ?_
    by_cases hbw : b = w
    · subst hbw
      exact Or.inl (M.write_self d b v hw)
    · rcases hb with hb | ⟨j, hj⟩
      · exact Or.inl ((M.write_keeps d w b v hw hbw).trans hb)
      · rcases List.mem_cons.mp hj with heq | hj
        · exact absurd (hloc w hw (Prod.mk.inj (Access.write.inj heq).1).2) hbw
        · exact Or.inr ⟨j, hj⟩

end Memory

/-! ### A window

The other extreme: nothing but the words in `W` is there, one cell aside, which takes the writes
that go elsewhere and shows in all words that are not in `W`. -/

section Window

variable [DecidableEq α] (A : α → Prop) [DecidablePred A] (u : UInt32)

/-- Memory at the addresses in `A`. A read of any other address answers `u`. -/
def window : Device α ((α → UInt32) × UInt32) where
  read m a := (if A a then m.1 a else u, m)
  write m a v := if A a then (Function.update m.1 a v, m.2) else (m.1, v)

def windowVal (loc : ω → α) (W : ω → Prop) [DecidablePred W] (m : (α → UInt32) × UInt32) (w : ω) :
    UInt32 :=
  if W w then m.1 (loc w) else m.2

lemma memory_window {loc : ω → α} {W : ω → Prop} [DecidablePred W] (hA : ∀ w, W w → A (loc w))
    (hloc : ∀ w b, W w → W b → loc w = loc b → w = b) :
    Memory (window A u) loc W (windowVal loc W) where
  read m w hw := by simp [window, windowVal, hw, hA w hw]
  read_keeps _ _ _ _ := rfl
  write_self m w v hw := by simp [window, windowVal, hw, hA w hw]
  write_keeps m w b v hw hne := by
    by_cases hb : W b
    · have hne : loc b ≠ loc w := fun h => hne (hloc b w hb hw h)
      simp [window, windowVal, hb, hA w hw, hne]
    · simp [window, windowVal, hb, hA w hw]

lemma replay_window {v : UInt32} {t : List (Access (ι × α))} (ht : ∀ a ∈ t, ∃ x, a = .write x v)
    (m : (α → UInt32) × UInt32) :
    (∀ b, A b → (replay (window A u) m t).1 b =
      if ∃ a ∈ t, a.addr.2 = b then v else m.1 b) ∧
    (replay (window A u) m t).2 = if ∃ a ∈ t, ¬ A a.addr.2 then v else m.2 := by
  induction t generalizing m with
  | nil => simp [replay]
  | cons a t ih =>
    obtain ⟨⟨x, rfl⟩, ht'⟩ := List.forall_mem_cons.mp ht
    obtain ⟨hmem, helse⟩ := ih ht' ((window A u).write m x.2 v)
    refine ⟨fun b hb => (hmem b hb).trans ?_, helse.trans ?_⟩
    · by_cases hx : x.2 = b
      · subst hx
        simp [window, hb, Access.addr]
      · by_cases hA : A x.2 <;> simp [window, hA, Access.addr, hx, Ne.symm hx]
    · by_cases hA : A x.2 <;> simp [window, hA, Access.addr]

end Window

end LinuxSamples.Mmio
