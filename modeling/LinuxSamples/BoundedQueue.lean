import LinuxSamples.Run

/-!
The bounded queue as an abstract machine.

A queue holds a list of items no longer than its capacity. Its events take a run of items
off the front, put a run at the back, or throw everything away. The history of a queue
since it was last cleared determines its items: what was taken out, followed by what is
still there, is what was put in.
-/

namespace LinuxSamples.BoundedQueue

open LinuxSamples.Run

variable {α : Type*}

/-- A queue of at most `cap` items, front first. -/
@[ext] structure Q (α : Type*) (cap : ℕ) where
  items : List α
  bound : items.length ≤ cap

inductive Event (α : Type*)
  /-- `bs` is taken off the front -/
  | read (bs : List α)
  /-- `bs` is put at the back -/
  | write (bs : List α)
  | clear
  deriving DecidableEq, Repr

variable {cap : ℕ}

def Q.empty : Q α cap := ⟨[], Nat.zero_le _⟩

/-- What an event does; nothing else can be read than what is in front, and nothing can be
written that does not fit. -/
def step [DecidableEq α] (q : Q α cap) : Event α → Option (Q α cap)
  | .read bs =>
    if q.items = bs ++ q.items.drop bs.length then
      some ⟨q.items.drop bs.length, (q.items.length_drop.trans_le (Nat.sub_le ..)).trans q.bound⟩
    else none
  | .write bs =>
    if h : (q.items ++ bs).length ≤ cap then some ⟨q.items ++ bs, h⟩ else none
  | .clear => some Q.empty

/-- The items read since the last clear, in order; one more event. -/
def addReturned (acc : List α) : Event α → List α
  | .read bs => acc ++ bs
  | .write _ => acc
  | .clear => []

def returned (log : List (Event α)) : List α := log.foldl addReturned []

/-- The items written since the last clear, in order; one more event. -/
def addAccepted (acc : List α) : Event α → List α
  | .read _ => acc
  | .write bs => acc ++ bs
  | .clear => []

/-- The items written since the last clear, in order. -/
def accepted (log : List (Event α)) : List α := log.foldl addAccepted []

lemma returned_snoc (log : List (Event α)) (e : Event α) :
    returned (log ++ [e]) = addReturned (returned log) e := by
  simp [returned]

lemma accepted_snoc (log : List (Event α)) (e : Event α) :
    accepted (log ++ [e]) = addAccepted (accepted log) e := by
  simp [accepted]

section Step

variable [DecidableEq α] {q q' : Q α cap}

lemma step_read {bs rest : List α} (h : q.items = bs ++ rest) (h' : q'.items = rest) :
    step q (.read bs) = some q' := by
  have hdrop : q.items.drop bs.length = rest := by rw [h, List.drop_left]
  rw [step, if_pos (by rw [hdrop, h]), Option.some.injEq]
  ext1
  rw [h', ← hdrop]

lemma step_write {bs : List α} (h : q'.items = q.items ++ bs) :
    step q (.write bs) = some q' := by
  rw [step, dif_pos (h ▸ q'.bound), Option.some.injEq]
  ext1
  exact h.symm

lemma history_step {e : Event α} {log : List (Event α)}
    (h : returned log ++ q.items = accepted log) (he : step q e = some q') :
    returned (log ++ [e]) ++ q'.items = accepted (log ++ [e]) := by
  rw [returned_snoc, accepted_snoc, ← h]
  cases e with
  | read bs =>
    simp only [step] at he
    split at he
    · next hbs =>
      cases he
      rw [addReturned, addAccepted, List.append_assoc, ← hbs]
    · cases he
  | write bs =>
    simp only [step] at he
    split at he
    · cases he
      rw [addReturned, addAccepted, List.append_assoc]
    · cases he
  | clear =>
    cases he
    rfl

/-- **Nothing is lost, doubled or reordered.** -/
theorem history {log : List (Event α)} (h : exec step (Q.empty : Q α cap) log = some q) :
    returned log ++ q.items = accepted log := by
  induction log using List.reverseRecOn generalizing q with
  | nil =>
    cases h
    rfl
  | append_singleton log e ih =>
    rw [exec_append] at h
    obtain ⟨p, hp, he⟩ := Option.bind_eq_some_iff.mp h
    refine history_step (ih hp) ?_
    simpa [exec_cons] using he

end Step

end LinuxSamples.BoundedQueue
