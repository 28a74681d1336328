import LinuxSamples.Run

/-!
The two lockers of `backoff.c`, with back-off.

`lock_forward` takes the three mutexes from the first to the last, `lock_backward` from the last to
the first. Seen from its own end, each of them does the same: it locks one mutex, tries the others,
and if one is taken it unlocks its way back. The way back begins with the mutex that is taken.
Nothing prevents that: a normal mutex is unlocked by whoever unlocks it.
-/

namespace LinuxSamples.Backoff

open LinuxSamples.Run

inductive Who
  | forward
  | backward
  deriving DecidableEq

/-- The mutex that the locker comes to at place `k` of its way. -/
def Who.index : Who → ℕ → ℕ
  | .forward, k => k
  | .backward, k => 2 - k

/-- What a locker does next. At place 0 it waits for the mutex, at the others it only tries. -/
inductive Pc
  | lock (k : ℕ)
  | back (k : ℕ)
  /-- it has got all locks and unlocks them again -/
  | release (k : ℕ)
  | done
  deriving DecidableEq

/-- Who has locked a mutex, how far the lockers are, and in which round. -/
structure St where
  mutex : ℕ → Option Who
  pc : Who → Pc
  iterate : Who → ℕ

def St.goto (s : St) (w : Who) (pc : Pc) : St := { s with pc := Function.update s.pc w pc }

def St.acquire (s : St) (w : Who) (k : ℕ) : St :=
  { s with mutex := Function.update s.mutex (w.index k) (some w) }

def St.unlock (s : St) (w : Who) (k : ℕ) : St :=
  { s with mutex := Function.update s.mutex (w.index k) none }

variable (iterations : ℕ)

/-- Behind a lock: the next mutex, or all are there. -/
def Pc.got : ℕ → Pc
  | 2 => .release 2
  | k => .lock (k + 1)

def Pc.top (iterate : ℕ) : Pc := if iterate < iterations then .lock 0 else .done

/-- A locker goes on. There is no step while it waits for its first mutex. -/
def step (s : St) (w : Who) : Option St :=
  match s.pc w with
  | .lock 0 =>
    if s.mutex (w.index 0) = none then some ((s.acquire w 0).goto w (.lock 1)) else none
  | .lock (k + 1) =>
    if s.mutex (w.index (k + 1)) = none then some ((s.acquire w (k + 1)).goto w (.got (k + 1)))
    else some (s.goto w (.back (k + 1)))
  | .back 0 => some ((s.unlock w 0).goto w (.lock 0))
  | .back (k + 1) => some ((s.unlock w (k + 1)).goto w (.back k))
  | .release 0 =>
    let s := { s with iterate := Function.update s.iterate w (s.iterate w + 1) }
    some ((s.unlock w 0).goto w (.top iterations (s.iterate w)))
  | .release (k + 1) => some ((s.unlock w (k + 1)).goto w (.release k))
  | .done => none

def init : St where
  mutex _ := none
  pc _ := .top iterations 0
  iterate _ := 0

/-! ### What a locker may have locked -/

/-- The places of its way that the locker has been to, and still has to unlock. -/
def Pc.level : Pc → ℕ
  | .lock k => k
  | .back k => k + 1
  | .release k => k + 1
  | .done => 0

def Pc.Valid : Pc → Prop
  | .lock k => k ≤ 2
  | .back k => k ≤ 2
  | .release k => k ≤ 2
  | .done => True

lemma index_injective {w : Who} {j k : ℕ} (hj : j ≤ 2) (hk : k ≤ 2) (h : w.index j = w.index k) :
    j = k := by
  cases w with
  | forward => exact h
  | backward =>
    simp only [Who.index] at h
    omega

inductive Step (s : St) (w : Who) : St → Prop
  | acquire (k : ℕ) (pc : Pc) : s.pc w = .lock k → s.mutex (w.index k) = none → pc.level = k + 1 →
      pc.Valid → (∀ j, pc ≠ .back j) → Step s w ((s.acquire w k).goto w pc)
  | busy (k : ℕ) : s.pc w = .lock (k + 1) → s.mutex (w.index (k + 1)) ≠ none →
      Step s w (s.goto w (.back (k + 1)))
  | unlock (k : ℕ) (pc : Pc) (n : ℕ) : (s.pc w = .back k ∨ s.pc w = .release k) → pc.level = k →
      pc.Valid → (s.pc w = .release k → ∀ j, pc ≠ .back j) →
      Step s w (({ s with iterate := Function.update s.iterate w n }.unlock w k).goto w pc)

lemma level_top (n : ℕ) : (Pc.top iterations n).level = 0 ∧ (Pc.top iterations n).Valid ∧
    ∀ j, Pc.top iterations n ≠ .back j := by
  unfold Pc.top
  split
  · exact ⟨rfl, Nat.zero_le 2, fun j => by simp⟩
  · exact ⟨rfl, trivial, fun j => by simp⟩

lemma step_cases {s t : St} {w : Who} (hv : (s.pc w).Valid) (h : step iterations s w = some t) :
    Step s w t := by
  have hsame : { s with iterate := Function.update s.iterate w (s.iterate w) } = s := by
    rw [Function.update_eq_self]
  unfold step at h
  split at h
  · next hpc =>
    obtain ⟨hfree, h⟩ := Option.ite_none_right_eq_some.mp h
    cases h
    exact .acquire 0 _ hpc hfree rfl (Nat.le_succ 1) fun j => by simp
  · next k hpc =>
    split at h
    · next hfree =>
      cases h
      rw [hpc] at hv
      obtain rfl | rfl : k = 0 ∨ k = 1 := by
        change k + 1 ≤ 2 at hv
        omega
      · exact .acquire 1 _ hpc hfree rfl le_rfl fun j => by simp [Pc.got]
      · exact .acquire 2 _ hpc hfree rfl le_rfl fun j => by simp [Pc.got]
    · next hbusy =>
      cases h
      exact .busy k hpc hbusy
  · next hpc =>
    cases h
    have hstep := Step.unlock (s := s) (w := w) 0 (.lock 0) (s.iterate w) (Or.inl hpc) rfl
      (Nat.zero_le 2) fun _ j => by simp
    rwa [hsame] at hstep
  · next k hpc =>
    cases h
    rw [hpc] at hv
    have hstep := Step.unlock (s := s) (w := w) (k + 1) (.back k) (s.iterate w) (Or.inl hpc) rfl
      (Nat.le_of_succ_le hv) fun hr => by simp [hpc] at hr
    rwa [hsame] at hstep
  · next hpc =>
    cases h
    obtain ⟨hlevel, hvalid, hback⟩ := level_top iterations (s.iterate w + 1)
    have hstep := Step.unlock (s := s) (w := w) 0 _ (s.iterate w + 1) (Or.inr hpc) hlevel hvalid
      fun _ => hback
    simpa only [Function.update_self] using hstep
  · next k hpc =>
    cases h
    rw [hpc] at hv
    have hstep := Step.unlock (s := s) (w := w) (k + 1) (.release k) (s.iterate w) (Or.inr hpc) rfl
      (Nat.le_of_succ_le hv) fun _ j => by simp
    rwa [hsame] at hstep
  · cases h

/-- A mutex that is locked lies on the way of the one who has locked it, at a place that it has
still to unlock. -/
structure Owned (s : St) : Prop where
  valid : ∀ w, (s.pc w).Valid
  owner : ∀ w m, s.mutex m = some w → ∃ j < (s.pc w).level, m = w.index j

lemma owned_init : Owned (init iterations) where
  valid _ := (level_top iterations 0).2.1
  owner _ _ h := by cases h

lemma Owned.goto {s : St} (hs : Owned s) {w : Who} {pc : Pc} {mutex : ℕ → Option Who}
    {iterate : Who → ℕ} (hvalid : pc.Valid)
    (hother : ∀ v m, v ≠ w → mutex m = some v → s.mutex m = some v)
    (hown : ∀ m, mutex m = some w → ∃ j < pc.level, m = w.index j) :
    Owned ⟨mutex, Function.update s.pc w pc, iterate⟩ := by
  refine ⟨fun v => ?_, fun v m hm => ?_⟩ <;> dsimp only at * <;> by_cases hv : v = w
  · subst hv
    rwa [Function.update_self]
  · rw [Function.update_of_ne hv]
    exact hs.valid v
  · subst hv
    rw [Function.update_self]
    exact hown m hm
  · rw [Function.update_of_ne hv]
    exact hs.owner v m (hother v m hv hm)

lemma owned_step {s t : St} {w : Who} (hs : Owned s) (h : step iterations s w = some t) :
    Owned t := by
  cases step_cases iterations (hs.valid w) h with
  | acquire k pc hpc hfree hlevel hvalid =>
    refine hs.goto hvalid (fun v m hv hm => ?_) fun m hm => ?_
    · by_cases hmk : m = w.index k
      · simp only [hmk, St.acquire, Function.update_self, Option.some.injEq] at hm
        exact absurd hm.symm hv
      · exact (Function.update_of_ne hmk _ _).symm.trans hm
    · rw [hlevel]
      by_cases hmk : m = w.index k
      · exact ⟨k, Nat.lt_succ_self k, hmk⟩
      · obtain ⟨j, hj, rfl⟩ := hs.owner w m ((Function.update_of_ne hmk _ _).symm.trans hm)
        rw [hpc] at hj
        exact ⟨j, Nat.lt_succ_of_lt hj, rfl⟩
  | busy k hpc hbusy =>
    have hvalid := hs.valid w
    rw [hpc] at hvalid
    refine hs.goto hvalid (fun v m _ hm => hm) fun m hm => ?_
    obtain ⟨j, hj, rfl⟩ := hs.owner w m hm
    rw [hpc] at hj
    exact ⟨j, Nat.lt_succ_of_lt hj, rfl⟩
  | unlock k pc n hpc hlevel hvalid =>
    have hkept : ∀ {v m}, Function.update s.mutex (w.index k) none m = some v →
        m ≠ w.index k ∧ s.mutex m = some v := by
      intro v m hm
      by_cases hmk : m = w.index k
      · rw [hmk, Function.update_self] at hm
        cases hm
      · exact ⟨hmk, (Function.update_of_ne hmk _ _).symm.trans hm⟩
    refine hs.goto hvalid (fun v m _ hm => (hkept hm).2) fun m hm => ?_
    obtain ⟨hmk, hold⟩ := hkept hm
    obtain ⟨j, hj, rfl⟩ := hs.owner w m hold
    have hjk : j < k + 1 := by rcases hpc with hpc | hpc <;> rwa [hpc] at hj
    rw [hlevel]
    refine ⟨j, ?_, rfl⟩
    rcases Nat.lt_succ_iff_lt_or_eq.mp hjk with hlt | rfl
    · exact hlt
    · exact absurd rfl hmk

/-! ### Discipline -/

def Blocked (s : St) (w : Who) : Prop := s.pc w = .lock 0 ∧ s.mutex (w.index 0) ≠ none

/-- The locker has nothing locked when it begins anew. -/
def Empty (s : St) : Prop := ∀ w, s.pc w = .lock 0 → ∀ m, s.mutex m ≠ some w

structure Disciplined (s : St) : Prop where
  /-- Who unlocks a mutex has locked it. -/
  unlock : ∀ w k, s.pc w = .back k ∨ s.pc w = .release k → s.mutex (w.index k) = some w
  /-- Not both have got all locks. -/
  all : ¬ ∀ w, s.pc w = .release 2
  empty : Empty s
  live : ¬ ∀ w, Blocked s w

lemma Owned.empty {s : St} (hs : Owned s) : Empty s := by
  intro w hpc m hm
  obtain ⟨j, hj, -⟩ := hs.owner w m hm
  rw [hpc] at hj
  exact absurd hj (Nat.not_lt_zero j)

/-- **No deadlock**: what a waiting locker waits for is locked by the other one, which does not
wait. -/
lemma Owned.live {s : St} (hs : Owned s) : ¬ ∀ w, Blocked s w := by
  intro hall
  obtain ⟨v, hv⟩ := Option.ne_none_iff_exists'.mp (hall .forward).2
  exact hs.empty v (hall v).1 _ hv

def Uncontended (s : St) (w : Who) : Prop :=
  ∀ k, s.pc w = .lock (k + 1) → s.mutex (w.index (k + 1)) = none

instance (s : St) (w : Who) : Decidable (Uncontended s w) :=
  match h : s.pc w with
  | .lock (k + 1) =>
    decidable_of_iff (s.mutex (w.index (k + 1)) = none)
      ⟨fun hf j hj => by
        obtain rfl : k = j := by simpa [h] using hj
        exact hf, fun hu => hu k h⟩
  | .lock 0 => isTrue fun j hj => by simp [h] at hj
  | .back _ => isTrue fun j hj => by simp [h] at hj
  | .release _ => isTrue fun j hj => by simp [h] at hj
  | .done => isTrue fun j hj => by simp [h] at hj

/-- Without contention, what lies behind a locker is locked by it, and it does not back off. -/
structure Held (s : St) : Prop extends Owned s where
  held : ∀ w j, j < (s.pc w).level → s.mutex (w.index j) = some w
  ahead : ∀ w k, s.pc w ≠ .back k

lemma Held.disciplined {s : St} (hs : Held s) : Disciplined s where
  unlock w k hpc := by
    rcases hpc with hpc | hpc
    · exact absurd hpc (hs.ahead w k)
    · exact hs.held w k (by rw [hpc]; exact Nat.lt_succ_self k)
  all hall := by
    -- both have the first mutex, which is the last one of the other
    have hforward := hs.held .forward 0 (by rw [hall]; decide)
    have hbackward := hs.held .backward 2 (by rw [hall]; decide)
    have := hforward.symm.trans hbackward
    cases this
  empty := hs.toOwned.empty
  live := hs.toOwned.live

lemma held_init : Held (init iterations) where
  toOwned := owned_init iterations
  held w j hj := by
    change j < (Pc.top iterations 0).level at hj
    rw [(level_top iterations 0).1] at hj
    exact absurd hj (Nat.not_lt_zero j)
  ahead _ := (level_top iterations 0).2.2

lemma Held.goto {s : St} (hs : Held s) {w : Who} {pc : Pc} {mutex : ℕ → Option Who}
    {iterate : Who → ℕ} (howned : Owned ⟨mutex, Function.update s.pc w pc, iterate⟩)
    (hback : ∀ j, pc ≠ .back j) (hother : ∀ v m, v ≠ w → s.mutex m = some v → mutex m = some v)
    (hown : ∀ j < pc.level, mutex (w.index j) = some w) :
    Held ⟨mutex, Function.update s.pc w pc, iterate⟩ := by
  refine ⟨howned, fun v j hj => ?_, fun v j => ?_⟩ <;> dsimp only at * <;> by_cases hv : v = w
  · subst hv
    rw [Function.update_self] at hj
    exact hown j hj
  · rw [Function.update_of_ne hv] at hj
    exact hother v _ hv (hs.held v j hj)
  · subst hv
    rw [Function.update_self]
    exact hback j
  · rw [Function.update_of_ne hv]
    exact hs.ahead v j

lemma held_step {s t : St} {w : Who} (hs : Held s) (hok : Uncontended s w)
    (h : step iterations s w = some t) : Held t := by
  have howned := owned_step iterations hs.toOwned h
  cases step_cases iterations (hs.valid w) h with
  | acquire k pc hpc hfree hlevel hvalid hback =>
    refine hs.goto howned hback (fun v m hv hm => ?_) fun j hj => ?_
    · have hmk : m ≠ w.index k := fun hmk => by rw [hmk, hfree] at hm; cases hm
      exact (Function.update_of_ne hmk _ _).trans hm
    · rw [hlevel] at hj
      by_cases hjk : w.index j = w.index k
      · simp only [hjk, St.acquire, Function.update_self]
      · have hlt : j < k := by
          rcases Nat.lt_succ_iff_lt_or_eq.mp hj with hlt | rfl
          · exact hlt
          · exact absurd rfl hjk
        exact (Function.update_of_ne hjk _ _).trans (hs.held w j (by rwa [hpc]))
  | busy k hpc hbusy => exact absurd (hok k hpc) hbusy
  | unlock k pc n hpc hlevel hvalid hback =>
    have hrelease : s.pc w = .release k := hpc.resolve_left (hs.ahead w k)
    have hmine := hs.held w k (by rw [hrelease]; exact Nat.lt_succ_self k)
    have hk := hs.valid w
    rw [hrelease] at hk
    refine hs.goto howned (hback hrelease) (fun v m hv hm => ?_) fun j hj => ?_
    · have hmk : m ≠ w.index k := fun hmk => by
        rw [hmk, hmine, Option.some.injEq] at hm
        exact hv hm.symm
      exact (Function.update_of_ne hmk _ _).trans hm
    · rw [hlevel] at hj
      have hjk : w.index j ≠ w.index k := fun hjk =>
        absurd (index_injective (hj.le.trans hk) hk hjk) hj.ne
      exact (Function.update_of_ne hjk _ _).trans
        (hs.held w j (by rw [hrelease]; exact Nat.lt_succ_of_lt hj))

/-- **A try that finds its mutex locked** makes the locker unlock what it does not have. -/
lemma not_disciplined_of_busy {s t : St} {w : Who} (hs : Owned s) (hbad : ¬ Uncontended s w)
    (h : step iterations s w = some t) : ¬ Disciplined t := by
  simp only [Uncontended, not_forall] at hbad
  obtain ⟨k, hpc, hbusy⟩ := hbad
  have ht : t = s.goto w (.back (k + 1)) := by
    simp only [step, hpc, if_neg hbusy, Option.some.injEq] at h
    exact h.symm
  subst ht
  intro hd
  have hmine : s.mutex (w.index (k + 1)) = some w :=
    hd.unlock w (k + 1) (Or.inl (Function.update_self _ _ _))
  obtain ⟨j, hj, hindex⟩ := hs.owner w _ hmine
  have hk := hs.valid w
  rw [hpc] at hj hk
  have hle : j ≤ 2 := hj.le.trans hk
  exact absurd (index_injective hk hle hindex) hj.ne'

/-- **The lockers with back-off.** In every state one of them can go on, and who begins anew has
nothing locked. They are disciplined exactly as long as no try finds its mutex locked. -/
theorem backoff_disciplined_iff {s : St} {as : List Who}
    (h : exec (step iterations) (init iterations) as = some s) :
    (Empty s ∧ ¬ ∀ w, Blocked s w) ∧
      (Always (step iterations) Disciplined (init iterations) as ↔
        Guarded (step iterations) Uncontended (init iterations) as) := by
  have howned : Owned s :=
    Reach.invariant ⟨as, h⟩ (owned_init iterations) fun _ _ _ => owned_step iterations
  refine ⟨⟨howned.empty, howned.live⟩, ?_⟩
  exact always_iff_guarded (I := Held) (fun _ hs => hs.disciplined)
    (fun _ _ _ hs hok hstep => held_step iterations hs hok hstep)
    (fun _ _ _ hs hbad hstep => not_disciplined_of_busy iterations hs.toOwned hbad hstep)
    h (held_init iterations)

/-- The forward locker finishes a round, and then the backward locker takes its first lock. -/
theorem backoff_disciplined_iff_in_turn :
    ∃ s, exec (step 2) (init 2) (List.replicate 6 .forward ++ [.backward]) = some s ∧
      s.iterate .forward = 1 ∧ s.mutex 2 = some .backward ∧
      Always (step 2) Disciplined (init 2) (List.replicate 6 .forward ++ [.backward]) := by
  refine ⟨_, rfl, rfl, rfl, ((backoff_disciplined_iff 2 rfl).2).mpr ?_⟩
  decide

/-- The forward locker backs off from the last mutex, which is the first one of the other. -/
def firstConflict : List Who := [.forward, .backward, .forward, .forward]

/-- It unlocks that mutex too, and gets all of them. The other locker backs off in its turn, and
gets all of them as well. -/
def secondConflict : List Who :=
  List.replicate 6 .forward ++ List.replicate 12 .backward

/-- The forward locker is about to unlock a mutex of the backward one, and a little later both
have got all locks. -/
theorem backoff_unlocks_foreign :
    (∃ s, exec (step 1) (init 1) firstConflict = some s ∧ s.pc .forward = .back 2 ∧
        s.mutex (Who.forward.index 2) = some .backward ∧ ¬ Disciplined s) ∧
      ∃ s, exec (step 1) (init 1) (firstConflict ++ secondConflict) = some s ∧
        s.pc .forward = .release 2 ∧ s.pc .backward = .release 2 := by
  refine ⟨⟨_, rfl, rfl, rfl, fun h => ?_⟩, _, rfl, rfl, rfl⟩
  have hmine := h.unlock .forward 2 (Or.inl rfl)
  cases hmine

end LinuxSamples.Backoff
