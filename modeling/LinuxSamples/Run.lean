import Mathlib.Tactic

/-!
Systems given by a partial step function, and their runs.

A step function takes a state and an action and answers with the next state, or with
nothing when the action is not enabled. Everything proved about the programs of this
development that take step after step goes through the rules of this file: a property of
the reachable states follows from one step, and a property of the runs whose steps meet a
condition follows from one such step.
-/

namespace LinuxSamples.Run

variable {σ α : Type*} (step : σ → α → Option σ)

/-- The state a list of actions leads to, if every one of them is enabled in turn. -/
def exec (s : σ) : List α → Option σ
  | [] => some s
  | a :: as => (step s a).bind fun t => exec t as

@[simp] lemma exec_nil (s : σ) : exec step s [] = some s := rfl

lemma exec_cons (s : σ) (a : α) (as : List α) :
    exec step s (a :: as) = (step s a).bind fun t => exec step t as := rfl

lemma exec_append (s : σ) (as bs : List α) :
    exec step s (as ++ bs) = (exec step s as).bind fun t => exec step t bs := by
  induction as generalizing s with
  | nil => rfl
  | cons a as ih =>
    rw [List.cons_append, exec_cons, exec_cons]
    cases step s a with
    | none => rfl
    | some t => exact ih t

/-- Some list of actions leads from `s` to `t`. -/
def Reach (s t : σ) : Prop := ∃ as, exec step s as = some t

variable {step}

lemma exists_exec_of_any {P : σ → Prop} [DecidablePred P] {s : σ} {as : List α}
    (h : (exec step s as).any (fun t => P t) = true) : ∃ t, exec step s as = some t ∧ P t := by
  cases hexec : exec step s as with
  | none =>
    rw [hexec] at h
    cases h
  | some t =>
    rw [hexec, Option.any_some, decide_eq_true_eq] at h
    exact ⟨t, rfl, h⟩

/-- **The invariant rule.** What holds at the start and is kept by every step holds in
every reachable state. -/
theorem Reach.invariant {I : σ → Prop} {s t : σ} (h : Reach step s t) (hs : I s)
    (hstep : ∀ u a v, I u → step u a = some v → I v) : I t := by
  obtain ⟨as, has⟩ := h
  induction as generalizing s with
  | nil =>
    rw [exec_nil, Option.some.injEq] at has
    exact has ▸ hs
  | cons a as ih =>
    rw [exec_cons] at has
    obtain ⟨u, hu, hrest⟩ := Option.bind_eq_some_iff.mp has
    exact ih (hstep s a u hs hu) hrest

/-- **The rule for finishing.** While the rank `r` of a state is not zero, actions of the kind `K`
can lower it and keep `I`. Then such actions lead to rank zero. -/
theorem exists_exec_rank_eq_zero {K : α → Prop} {I : σ → Prop} {r : σ → ℕ}
    (h : ∀ u, I u → 0 < r u →
      ∃ as v, (∀ a ∈ as, K a) ∧ exec step u as = some v ∧ r v < r u ∧ I v)
    {s : σ} (hs : I s) :
    ∃ as t, (∀ a ∈ as, K a) ∧ exec step s as = some t ∧ r t = 0 ∧ I t := by
  induction hm : r s using Nat.strong_induction_on generalizing s with
  | _ m ih =>
    rcases Nat.eq_zero_or_pos (r s) with hzero | hpos
    · exact ⟨[], s, by simp, rfl, hzero, hs⟩
    · obtain ⟨as, u, has, hu, hless, hI⟩ := h s hs hpos
      obtain ⟨bs, v, hbs, hv, hzero, hI'⟩ := ih (r u) (hm ▸ hless) hI rfl
      refine ⟨as ++ bs, v, fun a ha => ?_, ?_, hzero, hI'⟩
      · rcases List.mem_append.mp ha with ha | ha
        · exact has a ha
        · exact hbs a ha
      · rw [exec_append, hu]
        exact hv

/-- **The rule for bounded runs.** If every step lowers the rank of a state, a run has no more
steps than the rank it begins with. -/
theorem length_le_of_exec {I : σ → Prop} {r : σ → ℕ}
    (hstep : ∀ u a v, I u → step u a = some v → I v ∧ r v < r u) {s t : σ} {as : List α}
    (hs : I s) (has : exec step s as = some t) : as.length + r t ≤ r s := by
  induction as generalizing s with
  | nil =>
    rw [exec_nil, Option.some.injEq] at has
    rw [has, List.length_nil, Nat.zero_add]
  | cons a as ih =>
    rw [exec_cons] at has
    obtain ⟨u, hu, hrest⟩ := Option.bind_eq_some_iff.mp has
    obtain ⟨hI, hless⟩ := hstep s a u hs hu
    have := ih hI hrest
    rw [List.length_cons]
    omega

/-- **The rule for costs.** If every step costs no more than it lowers the rank, a whole run costs
no more than it lowers the rank. -/
theorem cost_le_of_exec {I : σ → Prop} {r : σ → ℤ} {c : α → ℤ}
    (hstep : ∀ u a v, I u → step u a = some v → I v ∧ r v + c a ≤ r u) {s t : σ} {as : List α}
    (hs : I s) (has : exec step s as = some t) : r t + (as.map c).sum ≤ r s := by
  induction as generalizing s with
  | nil =>
    rw [exec_nil, Option.some.injEq] at has
    rw [has, List.map_nil, List.sum_nil, add_zero]
  | cons a as ih =>
    rw [exec_cons] at has
    obtain ⟨u, hu, hrest⟩ := Option.bind_eq_some_iff.mp has
    obtain ⟨hI, hcost⟩ := hstep s a u hs hu
    have := ih hI hrest
    rw [List.map_cons, List.sum_cons]
    omega

/-! ### Runs -/

variable (step)

/-- `P` holds in every state of the run. -/
def Always (P : σ → Prop) (s : σ) : List α → Prop
  | [] => P s
  | a :: as => P s ∧ ∀ t ∈ step s a, Always P t as

/-- Every action of the run meets the condition `ok` in the state it is taken in. -/
def Guarded (ok : σ → α → Prop) (s : σ) : List α → Prop
  | [] => True
  | a :: as => ok s a ∧ ∀ t ∈ step s a, Guarded ok t as

/-- The condition can be checked along a run. -/
instance Guarded.decidable {ok : σ → α → Prop} [∀ s a, Decidable (ok s a)] (s : σ) :
    (as : List α) → Decidable (Guarded step ok s as)
  | [] => isTrue trivial
  | a :: as =>
    match h : step s a with
    | none => decidable_of_iff (ok s a) (by simp [Guarded, h])
    | some t =>
      have : Decidable (Guarded step ok t as) := Guarded.decidable t as
      decidable_of_iff (ok s a ∧ Guarded step ok t as) (by simp [Guarded, h])

variable {step}

lemma Always.head {P : σ → Prop} {s : σ} {as : List α} (h : Always step P s as) : P s := by
  cases as with
  | nil => exact h
  | cons a as => exact h.1

lemma Guarded.of_forall {ok : σ → α → Prop} {as : List α} (h : ∀ a ∈ as, ∀ s, ok s a) (s : σ) :
    Guarded step ok s as := by
  induction as generalizing s with
  | nil => trivial
  | cons a as ih =>
    exact ⟨h a List.mem_cons_self s, fun t _ => ih (fun b hb => h b (List.mem_cons_of_mem a hb)) t⟩

lemma guarded_iff_forall {ok : α → Prop} {s t : σ} {as : List α}
    (has : exec step s as = some t) : Guarded step (fun _ a => ok a) s as ↔ ∀ a ∈ as, ok a := by
  refine ⟨fun h => ?_, fun h => Guarded.of_forall (fun a ha _ => h a ha) s⟩
  induction as generalizing s with
  | nil => exact fun a ha => absurd ha List.not_mem_nil
  | cons a as ih =>
    rw [exec_cons] at has
    obtain ⟨u, hu, hrest⟩ := Option.bind_eq_some_iff.mp has
    exact List.forall_mem_cons.mpr ⟨h.1, ih hrest (h.2 u hu)⟩

lemma Guarded.and {ok ok' : σ → α → Prop} {s : σ} {as : List α} (h : Guarded step ok s as)
    (h' : Guarded step ok' s as) : Guarded step (fun s a => ok s a ∧ ok' s a) s as := by
  induction as generalizing s with
  | nil => trivial
  | cons a as ih => exact ⟨⟨h.1, h'.1⟩, fun t ht => ih (h.2 t ht) (h'.2 t ht)⟩

/-- **The rule for conditional runs.** If every step that meets `ok` keeps `I`, then the
last state of a run whose actions all meet `ok` satisfies `I`. -/
theorem Guarded.invariant {ok : σ → α → Prop} {I : σ → Prop} {s t : σ} {as : List α}
    (hg : Guarded step ok s as) (has : exec step s as = some t) (hs : I s)
    (hstep : ∀ u a v, I u → ok u a → step u a = some v → I v) : I t := by
  induction as generalizing s with
  | nil =>
    rw [exec_nil, Option.some.injEq] at has
    exact has ▸ hs
  | cons a as ih =>
    rw [exec_cons] at has
    obtain ⟨u, hu, hrest⟩ := Option.bind_eq_some_iff.mp has
    exact ih (hg.2 u hu) hrest (hstep s a u hs hg.1 hu)

/-- **The rule for runs that go through.** Let every action that meets `ok` be enabled in a state
that satisfies `I n` and lead to one that satisfies `I (n + 1)`. Then such actions lead to a state
that satisfies `I` at their number. -/
theorem Guarded.exists_exec {ok : σ → α → Prop} {I : ℕ → σ → Prop} {s : σ} {as : List α} {n : ℕ}
    (hg : Guarded step ok s as) (hs : I n s)
    (hstep : ∀ n u a, I n u → ok u a → ∃ v, step u a = some v ∧ I (n + 1) v) :
    ∃ t, exec step s as = some t ∧ I (n + as.length) t := by
  induction as generalizing s n with
  | nil => exact ⟨s, rfl, hs⟩
  | cons a as ih =>
    obtain ⟨u, hu, hI⟩ := hstep n s a hs hg.1
    obtain ⟨t, ht, hlast⟩ := ih (hg.2 u hu) hI
    refine ⟨t, by rwa [exec_cons, hu], ?_⟩
    rwa [List.length_cons, Nat.add_comm as.length 1, ← Nat.add_assoc]

/-- **Strengthening a condition.** A condition that every action meets in turn may use an
invariant that it keeps. -/
theorem Guarded.strengthen {ok ok' : σ → α → Prop} {I : σ → Prop} {s : σ} {as : List α}
    (hg : Guarded step ok s as) (hs : I s) (hok : ∀ u a, I u → ok u a → ok' u a)
    (hstep : ∀ u a v, I u → ok' u a → step u a = some v → I v) : Guarded step ok' s as := by
  induction as generalizing s with
  | nil => trivial
  | cons a as ih =>
    have ha := hok s a hs hg.1
    exact ⟨ha, fun t ht => ih (hg.2 t ht) (hstep s a t hs ha ht)⟩

/-- **What a run shows of its actions.** Along a run that there is, an action meets what an
invariant gives for the actions that are enabled. -/
theorem Guarded.of_exec {ok ok' : σ → α → Prop} {I : σ → Prop} {s t : σ} {as : List α}
    (hg : Guarded step ok s as) (has : exec step s as = some t) (hs : I s)
    (hstep : ∀ u a v, I u → ok u a → step u a = some v → ok' u a ∧ I v) :
    Guarded step ok' s as := by
  induction as generalizing s with
  | nil => trivial
  | cons a as ih =>
    rw [exec_cons] at has
    obtain ⟨u, hu, hrest⟩ := Option.bind_eq_some_iff.mp has
    obtain ⟨hok, hI⟩ := hstep s a u hs hg.1 hu
    refine ⟨hok, fun v hv => ?_⟩
    obtain rfl : u = v := Option.some.inj (hu.symm.trans hv)
    exact ih (hg.2 u hu) hrest hI

/-- **The exact rule.** Let `I` be kept by the steps that meet `ok` and give `P`, and let a
step from `I` that does not meet `ok` break `P` at once. Then `P` holds all along a run
exactly when all actions of the run meet `ok`. -/
theorem always_iff_guarded {ok : σ → α → Prop} {I P : σ → Prop}
    (hP : ∀ u, I u → P u)
    (hstep : ∀ u a v, I u → ok u a → step u a = some v → I v)
    (hbreak : ∀ u a v, I u → ¬ ok u a → step u a = some v → ¬ P v)
    {s t : σ} {as : List α} (has : exec step s as = some t) (hs : I s) :
    Always step P s as ↔ Guarded step ok s as := by
  induction as generalizing s with
  | nil => exact ⟨fun _ => trivial, fun _ => hP s hs⟩
  | cons a as ih =>
    rw [exec_cons] at has
    obtain ⟨u, hu, hrest⟩ := Option.bind_eq_some_iff.mp has
    constructor
    · rintro ⟨-, h⟩
      have hok : ok s a := by
        by_contra hn
        exact hbreak s a u hs hn hu (h u hu).head
      refine ⟨hok, fun v hv => ?_⟩
      obtain rfl : u = v := Option.some.inj (hu.symm.trans hv)
      exact (ih hrest (hstep s a u hs hok hu)).mp (h u hu)
    · rintro ⟨hok, h⟩
      refine ⟨hP s hs, fun v hv => ?_⟩
      obtain rfl : u = v := Option.some.inj (hu.symm.trans hv)
      exact (ih hrest (hstep s a u hs hok hu)).mpr (h u hu)

/-- **The rule for losses.** Let the steps that meet `ok` leave the number `r` alone and all others
raise it. Then `r` is at the end what it was exactly when all actions of the run meet `ok`. -/
theorem eq_iff_guarded {ok : σ → α → Prop} {I : σ → Prop} {r : σ → ℤ}
    (hI : ∀ u a v, I u → step u a = some v → I v)
    (hok : ∀ u a v, I u → ok u a → step u a = some v → r v = r u)
    (hbad : ∀ u a v, I u → ¬ ok u a → step u a = some v → r u < r v)
    {s t : σ} {as : List α} (has : exec step s as = some t) (hs : I s) :
    r s ≤ r t ∧ (r t = r s ↔ Guarded step ok s as) := by
  induction as generalizing s with
  | nil =>
    rw [exec_nil, Option.some.injEq] at has
    exact has ▸ ⟨le_rfl, iff_of_true rfl trivial⟩
  | cons a as ih =>
    rw [exec_cons] at has
    obtain ⟨u, hu, hrest⟩ := Option.bind_eq_some_iff.mp has
    obtain ⟨hle, hiff⟩ := ih hrest (hI s a u hs hu)
    have hcons : Guarded step ok s (a :: as) ↔ ok s a ∧ Guarded step ok u as := by
      simp [Guarded, hu]
    rw [hcons, ← hiff]
    by_cases ha : ok s a
    · have := hok s a u hs ha hu
      exact ⟨by omega, by rw [this, and_iff_right ha]⟩
    · have := hbad s a u hs ha hu
      exact ⟨by omega, iff_of_false (by omega) fun h => ha h.1⟩

/-! ### Servers -/

section Serve

variable {τ ρ : Type*}

/-- The last state of a server that answers each call, and its answers. -/
def serve (call : σ → α → σ × ρ) (s : σ) : List α → σ × List ρ
  | [] => (s, [])
  | a :: as =>
    let r := call s a
    let rest := serve call r.1 as
    (rest.1, r.2 :: rest.2)

@[simp] lemma serve_nil (call : σ → α → σ × ρ) (s : σ) : serve call s [] = (s, []) := rfl

lemma serve_cons (call : σ → α → σ × ρ) (s : σ) (a : α) (as : List α) :
    serve call s (a :: as) =
      ((serve call (call s a).1 as).1, (call s a).2 :: (serve call (call s a).1 as).2) := rfl

/-- **The invariant rule for servers.** What every call keeps holds after all of them. -/
theorem serve_invariant {I : σ → Prop} {call : σ → α → σ × ρ} (h : ∀ s a, I s → I (call s a).1)
    {s : σ} (hs : I s) (as : List α) : I (serve call s as).1 := by
  induction as generalizing s with
  | nil => exact hs
  | cons a as ih => exact ih (h s a hs)

/-- **The simulation rule.** If related servers answer every call of the kind `K` alike and stay
related, they answer every list of such calls alike. -/
theorem serve_simulates {K : α → Prop} {R : σ → τ → Prop} {call : σ → α → σ × ρ}
    {call' : τ → α → τ × ρ}
    (h : ∀ s t a, R s t → K a → (call s a).2 = (call' t a).2 ∧ R (call s a).1 (call' t a).1)
    {s : σ} {t : τ} (hR : R s t) {as : List α} (has : ∀ a ∈ as, K a) :
    (serve call s as).2 = (serve call' t as).2 ∧ R (serve call s as).1 (serve call' t as).1 := by
  induction as generalizing s t with
  | nil => exact ⟨rfl, hR⟩
  | cons a as ih =>
    obtain ⟨hreply, hnext⟩ := h s t a hR (has a List.mem_cons_self)
    obtain ⟨hreplies, hlast⟩ := ih hnext fun b hb => has b (List.mem_cons_of_mem a hb)
    exact ⟨congrArg₂ List.cons hreply hreplies, hlast⟩

end Serve

end LinuxSamples.Run
