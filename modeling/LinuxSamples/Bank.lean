import LinuxSamples.Links
import LinuxSamples.Run

/-!
The bank simulation of `bank.cpp`, on the queue of `queue.cpp`.

The queue is a linked list with pointers to its first and last node and a count of its items.
The simulation adds a customer to it, or takes one out, at most once in a cycle, and keeps five
running totals. The totals fit together at the end of every cycle: whoever joined was served or
is still in line, and the line lengths added up over the cycles are the waits of all of them.
-/

namespace LinuxSamples.Bank

open Links Run

/-- A customer, with the time of arrival and the processing time. -/
structure Customer where
  arrive : ℤ
  processtime : ℤ
deriving DecidableEq

/-- `Customer::set`, with the number that `rand` returns. -/
def Customer.set (when : ℤ) (rand : ℕ) : Customer := ⟨when, rand % 3 + 1⟩

/-- `Queue`, in the heap of its nodes. -/
structure Queue where
  heap : Heap Customer
  front : Option ℕ
  rear : Option ℕ
  items : ℤ
  qsize : ℤ

namespace Queue

def new (heap : Heap Customer) (qs : ℤ) : Queue := ⟨heap, none, none, 0, qs⟩

def isempty (q : Queue) : Bool := q.items = 0

def isfull (q : Queue) : Bool := q.items = q.qsize

def queuecount (q : Queue) : ℤ := q.items

/-- The new node is linked at the end: the heap and `front`. -/
def link (q : Queue) (item : Customer) (add : ℕ) : Option (Heap Customer × Option ℕ) :=
  let heap := alloc q.heap add ⟨item, some none⟩
  if q.front = none then some (heap, some add)
  else do
    let heap ← setCell heap q.rear fun c => { c with next := some (some add) }
    return (heap, q.front)

/-- `enqueue`, with the node that `new` returns. -/
def enqueue (q : Queue) (item : Customer) (add : ℕ) : Option (Queue × Bool) :=
  if q.isfull then some (q, false)
  else do
    let (heap, front) ← q.link item add
    return ({ q with heap, front, items := q.items + 1, rear := some add }, true)

/-- `dequeue`: the queue, `item`, and what is returned. -/
def dequeue (q : Queue) (item : Customer) : Option (Queue × Customer × Bool) :=
  match q.front with
  | none => some (q, item, false)
  | some temp => do
    let node ← load q.heap (some temp)
    let front ← node.next
    let items := q.items - 1
    let rear := if items = 0 then none else q.rear
    return ({ q with heap := free q.heap temp, front, items, rear }, node.item, true)

/-- The queue holds the customers of `l`, in this order. -/
structure Holds (q : Queue) (l : List (ℕ × Customer)) : Prop where
  path : Path q.heap q.front l none
  nodup : (l.map Prod.fst).Nodup
  rear : q.rear = l.getLast?.map Prod.fst
  items : q.items = l.length
  le : q.items ≤ q.qsize

variable {q : Queue} {l : List (ℕ × Customer)}

lemma holds_new (heap : Heap Customer) {qs : ℤ} (h : 0 ≤ qs) : (new heap qs).Holds [] :=
  ⟨rfl, List.nodup_nil, rfl, rfl, h⟩

lemma link_spec (hq : q.Holds l) (item : Customer) {add : ℕ} (hadd : q.heap add = none) :
    ∃ heap front, q.link item add = some (heap, front) ∧
      Path heap front (l ++ [(add, item)]) none ∧
      ((l ++ [(add, item)]).map Prod.fst).Nodup := by
  rcases List.eq_nil_or_concat' l with rfl | ⟨m, ⟨a, last⟩, rfl⟩
  · have hopen := open_alloc q.heap add ⟨item, some none⟩
    refine ⟨_, _, if_pos (path_nil.mp hq.path), hopen.close rfl, ?_⟩
    exact List.nodup_singleton add
  · have hopen := hq.path.open hq.nodup
    obtain ⟨heap, hstore, hopen'⟩ := hopen.extend (d := ⟨item, some none⟩) hadd
    have hrear : q.rear = some a := by rw [hq.rear, List.getLast?_concat]; rfl
    refine ⟨heap, q.front, ?_, hopen'.close rfl, ?_⟩
    · rw [link, if_neg hopen.head_ne_none, hrear, hstore]
      rfl
    · rw [List.map_append]
      exact hopen'.nodup

lemma enqueue_spec (hq : q.Holds l) (hfull : q.isfull = false) (item : Customer) {add : ℕ}
    (hadd : q.heap add = none) :
    ∃ q', q.enqueue item add = some (q', true) ∧ q'.Holds (l ++ [(add, item)]) ∧
      q'.items = q.items + 1 ∧ q'.qsize = q.qsize := by
  obtain ⟨heap, front, hlink, hpath, hnodup⟩ := link_spec hq item hadd
  have hne : q.items ≠ q.qsize := of_decide_eq_false hfull
  have hle := hq.le
  refine ⟨{ q with heap, front, items := q.items + 1, rear := some add }, ?_,
    ⟨hpath, hnodup, ?_, ?_, ?_⟩, rfl, rfl⟩
  · simp [enqueue, hfull, hlink]
  · rw [List.getLast?_concat]
    rfl
  · simp [hq.items]
  · show q.items + 1 ≤ q.qsize
    omega

lemma dequeue_spec {c : ℕ × Customer} (hq : q.Holds (c :: l)) (item : Customer) :
    ∃ q', q.dequeue item = some (q', c.2, true) ∧ q'.Holds l ∧ q'.items = q.items - 1 ∧
      q'.qsize = q.qsize := by
  obtain ⟨next, hfront, hnode, hpath⟩ := hq.path.tail hq.nodup
  have hitems : q.items - 1 = l.length := by
    have := hq.items
    rw [List.length_cons] at this
    omega
  have hle := hq.le
  refine ⟨{ q with heap := free q.heap c.1, front := next, items := q.items - 1,
                   rear := if q.items - 1 = 0 then none else q.rear }, ?_,
    ⟨hpath, (List.nodup_cons.mp hq.nodup).2, ?_, hitems, ?_⟩, rfl, rfl⟩
  · simp [dequeue, hfront, load, hnode]
  · show (if q.items - 1 = 0 then none else q.rear) = l.getLast?.map Prod.fst
    rw [hitems, hq.rear]
    cases l with
    | nil => rfl
    | cons d l => rw [List.getLast?_cons_cons]; rfl
  · show q.items - 1 ≤ q.qsize
    omega

def destroy : (fuel : ℕ) → Heap Customer → (front : Option ℕ) → Option (Heap Customer)
  | 0, _, _ => none
  | _ + 1, heap, none => some heap
  | fuel + 1, heap, some temp => do
    let node ← load heap (some temp)
    destroy fuel (free heap temp) (← node.next)

lemma destroy_spec {heap : Heap Customer} {p : Option ℕ} (hpath : Path heap p l none)
    (hnodup : (l.map Prod.fst).Nodup) :
    ∃ heap', (∀ fuel, l.length < fuel → destroy fuel heap p = some heap') ∧
      ∀ b, heap' b = if b ∈ l.map Prod.fst then none else heap b := by
  induction l generalizing heap p with
  | nil =>
    obtain rfl := path_nil.mp hpath
    refine ⟨heap, fun fuel hfuel => ?_, fun b => by simp⟩
    obtain ⟨fuel, rfl⟩ := Nat.exists_eq_succ_of_ne_zero hfuel.ne'
    rfl
  | cons c l ih =>
    obtain ⟨next, rfl, hnode, hl⟩ := hpath.tail hnodup
    obtain ⟨heap', hrun, hheap⟩ := ih hl (List.nodup_cons.mp hnodup).2
    refine ⟨heap', fun fuel hfuel => ?_, fun b => ?_⟩
    · obtain ⟨fuel, rfl⟩ := Nat.exists_eq_succ_of_ne_zero (Nat.ne_zero_of_lt hfuel)
      have hrest := hrun fuel (by rw [List.length_cons] at hfuel; omega)
      simp only [destroy, load, Option.bind_some, hnode, Option.bind_eq_bind]
      exact hrest
    · rw [hheap, List.map_cons]
      by_cases hb : b = c.1
      · simp [hb, free]
      · have hmem : b ∈ c.1 :: l.map Prod.fst ↔ b ∈ l.map Prod.fst :=
          List.mem_cons.trans (or_iff_right hb)
        rw [if_congr hmem rfl rfl, free, Function.update_of_ne hb]

/-- The heap has the nodes of the line and no others. -/
def Owns (q : Queue) : Prop := ∃ l, q.Holds l ∧ ∀ b ∉ l.map Prod.fst, q.heap b = none

lemma link_keeps {item : Customer} {add b : ℕ} {r : Heap Customer × Option ℕ}
    (h : q.link item add = some r) (hb : q.heap b = none) (hne : b ≠ add) : r.1 b = none := by
  have halloc : alloc q.heap add ⟨item, some none⟩ b = none :=
    (Function.update_of_ne hne _ _).trans hb
  unfold link at h
  split at h
  · obtain rfl := Option.some.inj h
    exact halloc
  · obtain ⟨heap, hset, h⟩ := Option.bind_eq_some_iff.mp h
    obtain rfl := Option.some.inj h
    exact setCell_keeps hset halloc

lemma Owns.enqueue (h : q.Owns) (hfull : ¬ q.isfull = true) {item : Customer} {add : ℕ}
    (hadd : q.heap add = none) {r : Queue × Bool} (he : q.enqueue item add = some r) :
    r.1.Owns := by
  obtain ⟨l, hl, hrest⟩ := h
  obtain ⟨q', hq', hholds, -⟩ := enqueue_spec hl ((Bool.not_eq_true _).mp hfull) item hadd
  obtain rfl := Option.some.inj (he.symm.trans hq')
  rw [Queue.enqueue, if_neg hfull] at he
  obtain ⟨x, hlink, he⟩ := Option.bind_eq_some_iff.mp he
  obtain rfl : _ = q' := congrArg Prod.fst (Option.some.inj he)
  refine ⟨_, hholds, fun b hb => ?_⟩
  simp only [List.map_append, List.map_cons, List.map_nil, List.mem_append,
    List.mem_singleton, not_or] at hb
  exact link_keeps hlink (hrest b hb.1) hb.2

lemma Owns.dequeue (h : q.Owns) {item : Customer} {r : Queue × Customer × Bool}
    (hd : q.dequeue item = some r) : r.1.Owns := by
  obtain ⟨_ | ⟨c, l⟩, hl, hrest⟩ := h
  · rw [Queue.dequeue, path_nil.mp hl.path] at hd
    cases hd
    exact ⟨[], hl, hrest⟩
  · obtain ⟨q', hq', hholds, -⟩ := dequeue_spec hl item
    obtain rfl := Option.some.inj (hd.symm.trans hq')
    obtain ⟨next, hfront, hnode, -⟩ := hl.path.tail hl.nodup
    simp only [Queue.dequeue, hfront, load, Option.bind_some, hnode, Option.bind_eq_bind] at hd
    obtain rfl : _ = q' := congrArg Prod.fst (Option.some.inj hd)
    refine ⟨l, hholds, fun b hb => ?_⟩
    by_cases hne : b = c.1
    · exact hne ▸ Function.update_self ..
    · refine (Function.update_of_ne hne _ _).trans (hrest b ?_)
      exact List.not_mem_cons_of_ne_of_not_mem hne hb

end Queue

/-! ### The simulation -/

/-- The variables of `main`. The customers who joined the line and those who left it are kept
beside them. -/
structure Sim where
  line : Queue
  temp : Customer
  turnaways : ℤ
  customers : ℤ
  served : ℤ
  sumLine : ℤ
  waitTime : ℤ
  lineWait : ℤ
  cycle : ℤ
  joined : List Customer
  left : List Customer

/-- A new customer: the number `rand` returns in `Customer::set`, and the node `new` returns. -/
structure Arrival where
  rand : ℕ
  add : ℕ

def start (heap : Heap Customer) (qs : ℤ) : Sim where
  line := .new heap qs
  temp := ⟨0, 0⟩
  turnaways := 0
  customers := 0
  served := 0
  sumLine := 0
  waitTime := 0
  lineWait := 0
  cycle := 0
  joined := []
  left := []

namespace Sim

def arrive (s : Sim) : Option Arrival → Option Sim
  | none => some s
  | some a =>
    if s.line.isfull then some { s with turnaways := s.turnaways + 1 }
    else do
      let temp := Customer.set s.cycle a.rand
      let (line, _) ← s.line.enqueue temp a.add
      return { s with customers := s.customers + 1, temp, line, joined := s.joined ++ [temp] }

def attend (s : Sim) : Option Sim :=
  if s.waitTime ≤ 0 ∧ s.line.isempty = false then do
    let (line, temp, _) ← s.line.dequeue s.temp
    return { s with line, temp, waitTime := temp.processtime,
                    lineWait := s.lineWait + (s.cycle - temp.arrive), served := s.served + 1,
                    left := s.left ++ [temp] }
  else some s

def tick (s : Sim) : Sim :=
  { s with waitTime := if 0 < s.waitTime then s.waitTime - 1 else s.waitTime
           sumLine := s.sumLine + s.line.queuecount
           cycle := s.cycle + 1 }

end Sim

def step (s : Sim) (a : Option Arrival) : Option Sim := do
  return (← (← s.arrive a).attend).tick

def average (sum count : ℤ) : Option ℚ := if count = 0 then none else some (sum / count)

structure Report where
  customers : ℤ
  served : ℤ
  turnaways : ℤ
  averageSize : Option ℚ
  averageWait : Option ℚ

/-- What is reported at the end, if there were customers. -/
def report (s : Sim) (cyclelimit : ℤ) : Option Report :=
  if 0 < s.customers then
    some ⟨s.customers, s.served, s.turnaways, average s.sumLine cyclelimit,
      average s.lineWait s.served⟩
  else none

/-! ### The accounts -/

/-- The totals of a state whose line is `l`, when every arrival lies before `now`. -/
structure Sim.Accounts (s : Sim) (now : ℤ) (l : List (ℕ × Customer)) : Prop where
  line : s.line.Holds l
  joined : s.joined = s.left ++ l.map Prod.snd
  sorted : (s.joined.map Customer.arrive).Pairwise (· < ·)
  past : ∀ c ∈ s.joined, c.arrive < now
  served : s.served = s.left.length
  customers : s.customers = s.served + s.line.queuecount
  customers_le : s.customers ≤ now
  sumLine : s.sumLine = s.lineWait + (l.map fun c => s.cycle - c.2.arrive).sum
  sumLine_le : s.sumLine ≤ s.cycle * s.line.qsize
  idle : s.served = 0 → s.waitTime ≤ 0

namespace Sim.Accounts

variable {s : Sim} {now : ℤ} {l : List (ℕ × Customer)}

lemma start {heap : Heap Customer} {qs : ℤ} (h : 0 ≤ qs) : (start heap qs).Accounts 0 [] where
  line := Queue.holds_new heap h
  joined := rfl
  sorted := List.Pairwise.nil
  past := by simp [Bank.start]
  served := rfl
  customers := rfl
  customers_le := le_rfl
  sumLine := rfl
  sumLine_le := by simp [Bank.start]
  idle := fun _ => le_rfl

lemma mono (h : s.Accounts now l) {now' : ℤ} (hle : now ≤ now') : s.Accounts now' l :=
  { h with
    past := fun c hc => (h.past c hc).trans_le hle
    customers_le := h.customers_le.trans hle }

lemma arrive (h : s.Accounts s.cycle l) {a : Option Arrival}
    (hfresh : ∀ n ∈ a, s.line.heap n.add = none) :
    ∃ s' l', s.arrive a = some s' ∧ s'.Accounts (s.cycle + 1) l' ∧ s'.cycle = s.cycle ∧
      s'.line.qsize = s.line.qsize := by
  have hmono := h.mono (Int.le_add_one le_rfl)
  cases a with
  | none => exact ⟨s, l, rfl, hmono, rfl, rfl⟩
  | some a =>
    cases hfull : s.line.isfull with
    | true =>
      refine ⟨{ s with turnaways := s.turnaways + 1 }, l, ?_, { hmono with }, rfl, rfl⟩
      simp [Sim.arrive, hfull]
    | false =>
      obtain ⟨line, henq, hline, hitems, hqsize⟩ := Queue.enqueue_spec h.line hfull
        (Customer.set s.cycle a.rand) (hfresh a rfl)
      refine ⟨{ s with
        customers := s.customers + 1, temp := Customer.set s.cycle a.rand, line := line,
        joined := s.joined ++ [Customer.set s.cycle a.rand] },
        l ++ [(a.add, Customer.set s.cycle a.rand)], ?_, ?_, rfl, hqsize⟩
      · simp [Sim.arrive, hfull, henq]
      · constructor
        case line => exact hline
        case joined => simp [h.joined]
        case sorted =>
          rw [List.map_append, List.pairwise_append]
          refine ⟨h.sorted, List.pairwise_singleton _ _, fun x hx y hy => ?_⟩
          obtain ⟨c, hc, rfl⟩ := List.mem_map.mp hx
          rw [List.map_singleton, List.mem_singleton] at hy
          exact hy ▸ h.past c hc
        case past =>
          intro c hc
          rcases List.mem_append.mp hc with hc | hc
          · exact hmono.past c hc
          · rw [List.mem_singleton.mp hc]
            exact Int.lt_succ s.cycle
        case served => exact h.served
        case customers =>
          have := h.customers
          simp only [Queue.queuecount] at this ⊢
          omega
        case customers_le =>
          have := h.customers_le
          show s.customers + 1 ≤ s.cycle + 1
          omega
        case sumLine => simpa [Customer.set] using h.sumLine
        case sumLine_le =>
          show s.sumLine ≤ s.cycle * line.qsize
          rw [hqsize]
          exact h.sumLine_le
        case idle => exact h.idle

/-- **The next customer is attended.** The wait goes from the line into `line_wait`. If there has
not been any customer before, there is none now. -/
lemma attend (h : s.Accounts now l) :
    ∃ s' l', s.attend = some s' ∧ s'.Accounts now l' ∧ (s'.served = 0 → s'.customers = 0) ∧
      s'.cycle = s.cycle ∧ s'.line.qsize = s.line.qsize := by
  have hitems := h.line.items
  by_cases hnext : s.waitTime ≤ 0 ∧ s.line.isempty = false
  · have hne : s.line.items ≠ 0 := of_decide_eq_false hnext.2
    cases l with
    | nil => exact absurd hitems hne
    | cons c l =>
      obtain ⟨line, hdeq, hline, hcount, hqsize⟩ := Queue.dequeue_spec h.line s.temp
      have hserved := h.served
      refine ⟨{ s with
        line := line, temp := c.2, waitTime := c.2.processtime,
        lineWait := s.lineWait + (s.cycle - c.2.arrive), served := s.served + 1,
        left := s.left ++ [c.2] }, l, ?_, ?_, fun hzero => ?_, rfl, hqsize⟩
      · simp [Sim.attend, hnext, hdeq]
      · constructor
        case line => exact hline
        case joined => simp [h.joined]
        case sorted => exact h.sorted
        case past => exact h.past
        case served => simp [h.served]
        case customers =>
          have := h.customers
          simp only [Queue.queuecount] at this ⊢
          omega
        case customers_le => exact h.customers_le
        case sumLine =>
          have := h.sumLine
          rw [List.map_cons, List.sum_cons] at this
          show s.sumLine = s.lineWait + (s.cycle - c.2.arrive) +
            (l.map fun d => s.cycle - d.2.arrive).sum
          omega
        case sumLine_le =>
          show s.sumLine ≤ s.cycle * line.qsize
          rw [hqsize]
          exact h.sumLine_le
        case idle =>
          intro hzero
          simp only at hzero
          omega
      · simp only at hzero
        omega
  · refine ⟨s, l, if_neg hnext, h, fun hzero => ?_, rfl, rfl⟩
    have hempty : s.line.items = 0 := by
      by_contra hne
      exact hnext ⟨h.idle hzero, decide_eq_false hne⟩
    have := h.customers
    simp only [Queue.queuecount] at this
    omega

lemma sum_wait_succ (l : List (ℕ × Customer)) (cycle : ℤ) :
    (l.map fun c => cycle + 1 - c.2.arrive).sum =
      (l.map fun c => cycle - c.2.arrive).sum + l.length := by
  induction l with
  | nil => rfl
  | cons c l ih =>
    simp only [List.map_cons, List.sum_cons, ih, List.length_cons]
    push_cast
    ring

lemma tick (h : s.Accounts (s.cycle + 1) l) : s.tick.Accounts s.tick.cycle l :=
  { h with
    sumLine := by
      have := h.line.items
      simp only [Sim.tick, Queue.queuecount, sum_wait_succ, h.sumLine]
      omega
    sumLine_le := by
      have := h.line.le
      have := h.sumLine_le
      simp only [Sim.tick, Queue.queuecount, add_mul, one_mul]
      omega
    idle := by
      intro hzero
      have := h.idle hzero
      simp only [Sim.tick]
      omega }

end Sim.Accounts

structure Balanced (qs : ℤ) (c : ℕ) (s : Sim) : Prop where
  accounts : ∃ l, s.Accounts c l
  idle : s.served = 0 → s.customers = 0
  cycle : s.cycle = c
  qsize : s.line.qsize = qs

/-- `new` returns a node that is not in use. -/
def Fresh (s : Sim) (a : Option Arrival) : Prop := ∀ n ∈ a, s.line.heap n.add = none

instance (s : Sim) : (a : Option Arrival) → Decidable (Fresh s a)
  | none => isTrue (by simp [Fresh])
  | some n => decidable_of_iff ((s.line.heap n.add).isNone = true) (by simp [Fresh])

lemma step_balanced {qs : ℤ} {c : ℕ} {s : Sim} {a : Option Arrival} (hs : Balanced qs c s)
    (ha : Fresh s a) : ∃ s', step s a = some s' ∧ Balanced qs (c + 1) s' := by
  obtain ⟨l, h⟩ := hs.accounts
  rw [← hs.cycle] at h
  obtain ⟨s₁, l₁, hs₁, h₁, hcycle₁, hqs₁⟩ := h.arrive ha
  obtain ⟨s₂, l₂, hs₂, h₂, hidle, hcycle₂, hqs₂⟩ := h₁.attend
  rw [← hcycle₁, ← hcycle₂] at h₂
  have hcycle : s₂.tick.cycle = (c + 1 : ℕ) := by
    rw [Sim.tick, hcycle₂, hcycle₁, hs.cycle]
    rfl
  refine ⟨s₂.tick, ?_, ⟨l₂, ?_⟩, hidle, hcycle, hqs₂.trans (hqs₁.trans hs.qsize)⟩
  · simp [step, hs₁, hs₂]
  · rw [← hcycle]
    exact h₂.tick

lemma start_balanced (heap : Heap Customer) {qs : ℤ} (h : 0 ≤ qs) :
    Balanced qs 0 (start heap qs) where
  accounts := ⟨[], Sim.Accounts.start h⟩
  idle := fun _ => rfl
  cycle := rfl
  qsize := rfl

lemma average_ne_none {sum count : ℤ} (h : count ≠ 0) : average sum count ≠ none := by
  rw [average, if_neg h]
  exact Option.some_ne_none _

/-- **The accounts of the simulation.** For every limit of the queue and every sequence of
arrivals, at the end of every cycle the queue holds, in their order, the customers who joined and
have not left, the totals fit together, and the averages reported are quotients of numbers that
are not zero below. -/
theorem bank_accounts {heap : Heap Customer} {qs : ℤ} (hqs : 0 ≤ qs) {as : List (Option Arrival)}
    (hfresh : Guarded step Fresh (start heap qs) as) :
    ∃ s l, exec step (start heap qs) as = some s ∧ s.cycle = as.length ∧ s.line.qsize = qs ∧
      s.Accounts as.length l ∧ (0 < s.customers → 0 < s.served) ∧
      ∀ r ∈ report s as.length, r.averageSize ≠ none ∧ r.averageWait ≠ none := by
  obtain ⟨s, hexec, hs⟩ := hfresh.exists_exec (start_balanced heap hqs) fun _ _ _ => step_balanced
  rw [Nat.zero_add] at hs
  obtain ⟨l, haccounts⟩ := hs.accounts
  have hserved : 0 < s.customers → 0 < s.served := by
    intro hpos
    have := hs.idle
    have := haccounts.served
    omega
  refine ⟨s, l, hexec, hs.cycle, hs.qsize, haccounts, hserved, fun r hr => ?_⟩
  rw [report] at hr
  split at hr
  · rename_i hpos
    obtain rfl := Option.some.inj hr
    have hcycles := haccounts.customers_le
    exact ⟨average_ne_none (by omega), average_ne_none (hserved hpos).ne'⟩
  · cases hr

/-- A customer arrives at an empty bank with room for two, and another one two minutes later. -/
theorem bank_accounts_two :
    ∃ s l, exec step (start (fun _ => none) 2) [some ⟨5, 0⟩, none, some ⟨4, 1⟩] = some s ∧
      s.cycle = 3 ∧ s.line.qsize = 2 ∧ s.Accounts 3 l ∧ (0 < s.customers → 0 < s.served) ∧
      ∀ r ∈ report s 3, r.averageSize ≠ none ∧ r.averageWait ≠ none :=
  bank_accounts (by decide) (by decide)

lemma owns_step {s s' : Sim} {a : Option Arrival} (h : s.line.Owns) (ha : Fresh s a)
    (hs : step s a = some s') : s'.line.Owns := by
  obtain ⟨s₁, harrive, hs⟩ := Option.bind_eq_some_iff.mp hs
  obtain ⟨s₂, hattend, hs⟩ := Option.bind_eq_some_iff.mp hs
  obtain rfl := Option.some.inj hs
  have h₁ : s₁.line.Owns := by
    unfold Sim.arrive at harrive
    split at harrive
    · cases harrive
      exact h
    · split at harrive
      · cases harrive
        exact h
      · obtain ⟨r, he, harrive⟩ := Option.bind_eq_some_iff.mp harrive
        cases harrive
        exact h.enqueue (by assumption) (ha _ rfl) he
  unfold Sim.attend at hattend
  split at hattend
  · obtain ⟨r, hd, hattend⟩ := Option.bind_eq_some_iff.mp hattend
    cases hattend
    exact h₁.dequeue hd
  · cases hattend
    exact h₁

/-- **No node is lost.** After any run of the simulation the destructor of the queue returns and
leaves no node. -/
theorem bank_no_leak {qs : ℤ} (hqs : 0 ≤ qs) {as : List (Option Arrival)} {s : Sim}
    (hs : exec step (start (fun _ => none) qs) as = some s)
    (hfresh : Guarded step Fresh (start (fun _ => none) qs) as) {fuel : ℕ}
    (hfuel : s.line.items < fuel) :
    Queue.destroy fuel s.line.heap s.line.front = some fun _ => none := by
  obtain ⟨l, hl, hrest⟩ := hfresh.invariant (I := fun s => s.line.Owns) hs
    ⟨[], Queue.holds_new _ hqs, fun _ _ => rfl⟩ fun _ _ _ => owns_step
  obtain ⟨heap, hrun, hheap⟩ := Queue.destroy_spec hl.path hl.nodup
  have hnone : heap = fun _ => none := by
    funext b
    rw [hheap b]
    exact ite_eq_left_iff.mpr (hrest b)
  rw [← hnone]
  refine hrun fuel ?_
  have := hl.items
  omega

theorem bank_no_leak_two :
    ∃ s, exec step (start (fun _ => none) 2) [some ⟨5, 0⟩, none, some ⟨4, 1⟩] = some s ∧
      Queue.destroy 3 s.line.heap s.line.front = some fun _ => none := by
  obtain ⟨s, hs, hitems⟩ : ∃ s, exec step (start (fun _ => none) 2)
    [some ⟨5, 0⟩, none, some ⟨4, 1⟩] = some s ∧ s.line.items < (3 : ℕ) := ⟨_, rfl, by decide⟩
  exact ⟨s, hs, bank_no_leak (by decide) hs (by decide) hitems⟩

end LinuxSamples.Bank
