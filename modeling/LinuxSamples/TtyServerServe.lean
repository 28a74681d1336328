import LinuxSamples.TtyServerOwner

/-!
Every request is served.

As long as no request is made behind a `REQ_QUIT`, the server is there and awake while there is a
request in the queue, and a client sleeps only while its request is not done. So there is always
someone who can go on with a request that is not freed yet, and each such step lowers
what there is to do.
-/

namespace LinuxSamples.TtyServer

open LinuxSamples.Run LinuxSamples.Pool

variable {ι : Type}

/-- No request is made once there was a `REQ_QUIT`. -/
def Orderly (s : St ι) : Act ι → Prop
  | .request _ _ _ _ _ => s.quit = false
  | _ => True

instance (s : St ι) : (a : Act ι) → Decidable (Orderly s a)
  | .request _ _ _ _ _ => inferInstanceAs (Decidable (s.quit = false))
  | .resume _ => isTrue trivial
  | .look _ => isTrue trivial
  | .process _ _ => isTrue trivial
  | .answer _ => isTrue trivial
  | .reply _ => isTrue trivial
  | .spuriousServer _ => isTrue trivial
  | .spuriousClient _ => isTrue trivial

/-- A `REQ_QUIT` is the last request, the server ends behind the last request, and it does not
sleep while there is a request in the queue. -/
structure Alive (s : St ι) : Prop where
  last : ∀ id r, s.heap id = some r → r.operation = .quit →
    s.quit = true ∧ id + 1 = s.allocated
  gone : .gone ∈ s.servers → s.quit = true ∧ s.taken = s.allocated
  awake : s.queue ≠ [] → ∀ x ∈ s.servers, x.blocked = false

lemma alive_init : Alive (init : St ι) := ⟨by simp [init], by simp [init], by simp [init]⟩

lemma Alive.move {s s' : St ι} (h : Alive s)
    (hheap : ∀ id r', s'.heap id = some r' →
      ∃ r, s.heap id = some r ∧ r'.operation = r.operation)
    (hquit : s'.quit = s.quit) (hallocated : s'.allocated = s.allocated)
    (htaken : s'.taken = s.taken) (hqueue : s'.queue = s.queue)
    (hservers : ∀ x ∈ s'.servers, x ∈ s.servers ∨
      x.blocked = false ∧ (x = .gone → s.quit = true ∧ s.taken = s.allocated)) : Alive s' where
  last := by
    intro id r' hr' hop
    obtain ⟨r, hr, hsame⟩ := hheap id r' hr'
    rw [hquit, hallocated]
    exact h.last id r hr (hsame.symm.trans hop)
  gone := by
    intro hgone
    rw [hquit, htaken, hallocated]
    rcases hservers .gone hgone with hmem | ⟨-, hlast⟩
    · exact h.gone hmem
    · exact hlast rfl
  awake := by
    intro hne x hx
    rw [hqueue] at hne
    rcases hservers x hx with hmem | ⟨hawake, -⟩
    · exact h.awake hne x hmem
    · exact hawake

lemma Alive.next {s : St ι} (h : Alive s) {id : ℕ} {r : Request} {operation : Op}
    (hr : s.heap id = some r) (hop : r.operation = operation) (hlast : id + 1 = s.taken) :
    (Server.next operation).blocked = false ∧
      (Server.next operation = .gone → s.quit = true ∧ s.taken = s.allocated) := by
  unfold Server.next
  split
  · next hquit =>
    obtain ⟨h1, h2⟩ := h.last id r hr (hop.trans hquit)
    exact ⟨rfl, fun _ => ⟨h1, by omega⟩⟩
  · exact ⟨rfl, fun hc => by cases hc⟩

lemma Alive.look {s : St ι} (hi : Inv s) (h : Alive s) {t : ℕ} {x : Server}
    (hx : s.servers[t]? = some x) : Alive (TtyServer.look s t) := by
  obtain ⟨hs, rfl⟩ := hi.serving.eq_singleton hx
  unfold TtyServer.look
  split
  · next hq =>
    refine ⟨h.last, fun hgone => ?_, fun hne => absurd hq hne⟩
    simp [St.setServer, hs] at hgone
  · next id rest hq =>
    unfold St.deref
    split
    · refine ⟨h.last, fun hgone => by simp [hs] at hgone, fun _ y hy => ?_⟩
      obtain rfl : y = .process id := by simpa [hs] using hy
      rfl
    · exact ⟨h.last, h.gone, h.awake⟩

lemma operation_update {heap : ℕ → Option Request} {id : ℕ} {r : Request} {v : Option Request}
    (hr : heap id = some r) (hv : ∀ r' ∈ v, r'.operation = r.operation) :
    ∀ id' r', Function.update heap id v id' = some r' →
      ∃ r, heap id' = some r ∧ r'.operation = r.operation := by
  intro id' r' hr'
  by_cases hne : id' = id
  · subst hne
    rw [Function.update_self] at hr'
    exact ⟨r, hr, hv r' hr'⟩
  · rw [Function.update_of_ne hne] at hr'
    exact ⟨r', hr', rfl⟩

lemma Alive.process {s : St ι} (hi : Inv s) (h : Alive s) {t id : ℕ}
    (hx : s.servers[t]? = some (.process id)) (stdin : List Char) :
    Alive (TtyServer.process s t id stdin) := by
  obtain ⟨-, r, hr, -⟩ := hi.cells.held (.process id) (List.mem_of_getElem? hx) id rfl
  have hop : (r.process stdin).operation = r.operation := by
    unfold Request.process
    split <;> rfl
  unfold TtyServer.process
  rw [Cells.deref hr]
  refine h.move (operation_update hr (by simpa using hop)) rfl rfl rfl rfl fun y hy => ?_
  rcases List.mem_or_eq_of_mem_set hy with hy | rfl
  · exact Or.inl hy
  · exact Or.inr ⟨rfl, fun hc => by cases hc⟩

lemma Alive.answer {s : St ι} (hi : Inv s) (h : Alive s) {t id : ℕ} {operation : Op}
    (hx : s.servers[t]? = some (.answer id operation)) :
    Alive (TtyServer.answer s t id operation) := by
  obtain ⟨hlast, r, hr, -, hop, -⟩ :=
    hi.cells.held (.answer id operation) (List.mem_of_getElem? hx) id rfl
  unfold TtyServer.answer
  rw [Cells.deref hr]
  split
  · refine h.move (fun id r hr => ⟨r, hr, rfl⟩) rfl rfl rfl rfl fun y hy => ?_
    rcases List.mem_or_eq_of_mem_set hy with hy | rfl
    · exact Or.inl hy
    · exact Or.inr ⟨rfl, fun hc => by cases hc⟩
  · refine h.move (operation_update hr (by simp)) rfl rfl rfl rfl fun y hy => ?_
    rcases List.mem_or_eq_of_mem_set hy with hy | rfl
    · exact Or.inl hy
    · exact Or.inr (h.next hr hop hlast)

lemma Alive.reply {s : St ι} (hi : Inv s) (h : Alive s) {t id : ℕ} {operation : Op}
    (hx : s.servers[t]? = some (.reply id operation)) :
    Alive (TtyServer.reply s t id operation) := by
  obtain ⟨hlast, r, hr, -, hop, -⟩ :=
    hi.cells.held (.reply id operation) (List.mem_of_getElem? hx) id rfl
  unfold TtyServer.reply
  rw [Cells.deref hr]
  refine h.move (operation_update hr (by simp)) rfl rfl rfl rfl fun y hy => ?_
  rcases List.mem_or_eq_of_mem_set hy with hy | rfl
  · exact Or.inl hy
  · exact Or.inr (h.next hr hop hlast)

variable [DecidableEq ι]

lemma Alive.request {s s' : St ι} (hi : Inv s) (h : Alive s) {i : ι} {operation : Op}
    {sync : Bool} {string : Option (List Char)} {c : Option ℕ} (hquit : s.quit = false)
    (hs : TtyServer.request s i operation sync string c = some s') : Alive s' := by
  unfold TtyServer.request at hs
  obtain ⟨servers, hsig, rfl⟩ := Option.map_eq_some_iff.mp hs
  obtain ⟨x, rfl, hawake, hx⟩ := hi.serving.signal hsig
  refine ⟨?_, ?_, ?_⟩
  · intro id r hr hop
    by_cases hne : id = s.allocated
    · subst hne
      simp only [Function.update_self, Option.some.injEq] at hr
      subst hr
      have hop : operation = .quit := hop
      exact ⟨by simp [hop], rfl⟩
    · simp only [Function.update_of_ne hne] at hr
      have := (h.last id r hr hop).1
      rw [hquit] at this
      cases this
  · intro hgone
    obtain rfl := List.mem_singleton.mp hgone
    rcases hx with hx | ⟨hlooks, -⟩
    · have := (h.gone (by simp [hx])).1
      rw [hquit] at this
      cases this
    · cases hlooks
  · intro _ y hy
    obtain rfl := List.mem_singleton.mp hy
    exact hawake

lemma Alive.resume {s : St ι} (hi : Inv s) (h : Alive s) {i : ι} {id : ℕ} {operation : Op}
    (hw : s.client i = .wait id operation true) : Alive (TtyServer.resume s i id operation) := by
  obtain ⟨r, hr, -⟩ := hi.clients.waits i id operation true hw
  unfold TtyServer.resume
  rw [Cells.deref hr]
  split
  · exact h.move (operation_update hr (by simp)) rfl rfl rfl rfl fun x hx => Or.inl hx
  · exact ⟨h.last, h.gone, h.awake⟩

lemma alive_step {s s' : St ι} {a : Act ι} (hi : Inv s) (h : Alive s) (hok : Orderly s a)
    (hs : step s a = some s') : Alive s' := by
  cases step_cases hs with
  | request _ hs => exact h.request hi hok hs
  | resume hw => exact h.resume hi hw
  | look hx => exact h.look hi hx
  | process hx => exact h.process hi hx _
  | answer hx => exact h.answer hi hx
  | reply hx => exact h.reply hi hx
  | spuriousServer =>
    refine h.move (fun id r hr => ⟨r, hr, rfl⟩) rfl rfl rfl rfl fun y hy => ?_
    rcases List.mem_or_eq_of_mem_set hy with hy | rfl
    · exact Or.inl hy
    · exact Or.inr ⟨rfl, fun hc => by cases hc⟩
  | spuriousClient => exact ⟨h.last, h.gone, h.awake⟩

/-! ### What there is to do -/

/-- What a server has to do for its request. -/
def Server.rank : Server → ℕ
  | .process _ => 3
  | .answer _ _ => 2
  | .reply _ _ => 1
  | _ => 0

def St.rank (s : St ι) : ℕ :=
  4 * (s.allocated - s.taken) + total Server.rank s.servers + (s.allocated - s.freed.length)

/-- A step that a server or a waiting client takes by itself. -/
def Act.own : Act ι → Bool
  | .resume _ => true
  | .look _ => true
  | .process _ _ => true
  | .answer _ => true
  | .reply _ => true
  | _ => false

omit [DecidableEq ι] in
lemma rank_next (operation : Op) : (Server.next operation).rank = 0 := by
  unfold Server.next
  split <;> rfl

lemma own_step_of_holds {s : St ι} (hi : Inv s) {x : Server} {id : ℕ} (hs : s.servers = [x])
    (hid : x.holds = some id) :
    ∃ a s', Act.own a ∧ step s a = some s' ∧ s'.rank < s.rank ∧ s'.allocated = s.allocated := by
  obtain ⟨-, r, hr, -⟩ := hi.cells.held x (by simp [hs]) id hid
  have hx : s.servers[0]? = some x := by simp [hs]
  cases x with
  | process id' =>
    obtain rfl := Option.some.inj hid
    refine ⟨.process 0 [], _, rfl, by simp only [step, hx]; rfl, ?_⟩
    rw [TtyServer.process, Cells.deref hr]
    refine ⟨?_, rfl⟩
    simp only [St.rank, hs, List.set_cons_zero, total_singleton, Server.rank]
    omega
  | answer id' operation =>
    obtain rfl := Option.some.inj hid
    refine ⟨.answer 0, _, rfl, by simp only [step, hx]; rfl, ?_⟩
    rw [TtyServer.answer, Cells.deref hr]
    split
    · refine ⟨?_, rfl⟩
      simp only [St.rank, St.setServer, hs, List.set_cons_zero, total_singleton, Server.rank]
      omega
    · refine ⟨?_, rfl⟩
      simp only [St.rank, hs, List.set_cons_zero, total_singleton, rank_next,
        List.length_append, List.length_singleton]
      simp only [Server.rank]
      omega
  | reply id' operation =>
    obtain rfl := Option.some.inj hid
    refine ⟨.reply 0, _, rfl, by simp only [step, hx]; rfl, ?_⟩
    rw [TtyServer.reply, Cells.deref hr]
    refine ⟨?_, rfl⟩
    simp only [St.rank, hs, List.set_cons_zero, total_singleton, rank_next]
    simp only [Server.rank]
    omega
  | _ => cases hid

lemma own_step_of_queue {s : St ι} (hi : Inv s) (ha : Alive s) (hlt : s.taken < s.allocated)
    (hno : ∀ x ∈ s.servers, x.holds = none) :
    ∃ a s', Act.own a ∧ step s a = some s' ∧ s'.rank < s.rank ∧ s'.allocated = s.allocated := by
  have hsingle := hi.serving.single
  rw [if_pos (hi.serving.used.mpr (by omega))] at hsingle
  obtain ⟨x, hs⟩ := List.length_eq_one_iff.mp hsingle
  have hx : s.servers[0]? = some x := by simp [hs]
  obtain ⟨m, hm⟩ : ∃ m, s.allocated - s.taken = m + 1 := ⟨s.allocated - s.taken - 1, by omega⟩
  have hqueue := hi.serving.queue
  rw [hm, List.range'_succ] at hqueue
  have hlooks : x.looks = true := by
    have hawake := ha.awake (by simp [hqueue]) x (by simp [hs])
    have hholds := hno x (by simp [hs])
    cases x with
    | lock => rfl
    | wait woken => simpa [Server.blocked, Server.looks] using hawake
    | gone =>
      have := (ha.gone (by simp [hs])).2
      omega
    | _ => cases hholds
  obtain ⟨r, hr, -⟩ := hi.cells.queued s.taken le_rfl hlt
  refine ⟨.look 0, _, rfl, by simp only [step, hx, hlooks, if_true]; rfl, ?_⟩
  simp only [TtyServer.look, hqueue]
  rw [Cells.deref hr]
  refine ⟨?_, rfl⟩
  simp only [St.rank, hs, List.set_cons_zero, total_singleton, Server.rank]
  omega

omit [DecidableEq ι] in
lemma Records.subset_range {s : St ι} (h : Records s) :
    s.freed.map Freed.id ⊆ List.range s.allocated :=
  fun id hid => List.mem_range.mpr ((h.freed id).mp hid).1

lemma own_step_of_done {s : St ι} (hi : Inv s) (htaken : s.taken = s.allocated)
    (hno : ∀ x ∈ s.servers, x.holds = none) (hlt : s.freed.length < s.allocated) :
    ∃ a s', Act.own a ∧ step s a = some s' ∧ s'.rank < s.rank ∧ s'.allocated = s.allocated := by
  obtain ⟨id, hid, hnot⟩ : ∃ id < s.allocated, id ∉ s.freed.map Freed.id := by
    by_contra hc
    push Not at hc
    have hsub : List.range s.allocated ⊆ s.freed.map Freed.id :=
      fun id hid => hc id (List.mem_range.mp hid)
    have hle := (List.nodup_range.subperm hsub).length_le
    simp only [List.length_range, List.length_map] at hle
    omega
  obtain ⟨r, hr⟩ : ∃ r, s.heap id = some r := by
    refine Option.ne_none_iff_exists'.mp fun hnone => ?_
    exact hnot ((hi.records.freed id).mpr ⟨hid, hnone⟩)
  have hun : s.Unheld id := by
    intro x hx hc
    rw [hno x hx] at hc
    cases hc
  obtain ⟨hsync, hdone, -⟩ := hi.cells.closed id r (by omega) hun hr
  obtain ⟨i, woken, hw⟩ := hi.clients.owner id r hr hsync
  obtain ⟨r', hr', -, -, hsleep⟩ := hi.clients.waits i id r.operation woken hw
  obtain rfl := Option.some.inj (hr.symm.trans hr')
  obtain rfl : woken = true := by
    by_contra hc
    simp [hsleep (by simpa using hc)] at hdone
  refine ⟨.resume i, _, rfl, by simp only [step, hw]; rfl, ?_⟩
  rw [TtyServer.resume, Cells.deref hr, if_pos hdone]
  refine ⟨?_, rfl⟩
  simp only [St.rank, List.length_append, List.length_singleton]
  omega

lemma own_step {s : St ι} (hi : Inv s) (ha : Alive s) (hpos : 0 < s.rank) :
    ∃ a s', Act.own a ∧ step s a = some s' ∧ s'.rank < s.rank ∧ s'.allocated = s.allocated := by
  by_cases hno : ∀ x ∈ s.servers, x.holds = none
  · have hidle : total Server.rank s.servers = 0 := by
      refine List.sum_eq_zero fun n hn => ?_
      obtain ⟨x, hx, rfl⟩ := List.mem_map.mp hn
      have := hno x hx
      cases x <;> first | rfl | cases this
    rcases hi.serving.le.lt_or_eq with hlt | htaken
    · exact own_step_of_queue hi ha hlt hno
    · refine own_step_of_done hi htaken hno ?_
      unfold St.rank at hpos
      omega
  · push Not at hno
    obtain ⟨x, hx, hne⟩ := hno
    obtain ⟨id, hid⟩ := Option.ne_none_iff_exists'.mp hne
    obtain ⟨t, ht⟩ := List.mem_iff_getElem?.mp hx
    exact own_step_of_holds hi (hi.serving.eq_singleton ht).1 hid

/-- All requests are processed in turn and freed, and all calls have returned. -/
structure Settled (s : St ι) : Prop where
  processed : s.processed.map Prod.fst = List.range s.allocated
  freed : (s.freed.map Freed.id).Perm (List.range s.allocated)
  out : ∀ i, s.client i = .out

omit [DecidableEq ι] in
lemma Inv.settled {s : St ι} (h : Inv s) (hrank : s.rank = 0) : Settled s := by
  unfold St.rank at hrank
  have hle := h.serving.le
  have hperm : (s.freed.map Freed.id).Perm (List.range s.allocated) := by
    refine (h.records.nodup.subperm h.records.subset_range).perm_of_length_le ?_
    simp only [List.length_range, List.length_map]
    omega
  refine ⟨?_, hperm, fun i => ?_⟩
  · have horder := h.serving.order
    have hpend : s.servers.flatMap Server.pending = [] := by
      refine List.flatMap_eq_nil_iff.mpr fun x hx => ?_
      have hzero : x.rank = 0 := eq_zero_of_total_eq_zero (by omega) hx
      cases x <;> first | rfl | cases hzero
    rw [hpend, List.append_nil] at horder
    rw [horder]
    congr 1
    omega
  · cases hc : s.client i with
    | out => rfl
    | wait id operation woken =>
      obtain ⟨r, hr, -⟩ := h.clients.waits i id operation woken hc
      have hmem := hperm.symm.subset (List.mem_range.mpr (h.cells.lt_allocated hr))
      have hnone := ((h.records.freed id).mp hmem).2
      rw [hr] at hnone
      cases hnone

lemma settle {s : St ι} (hi : Inv s) (ha : Alive s) :
    ∃ bs t, (∀ b ∈ bs, Act.own b) ∧ exec step s bs = some t ∧ Settled t ∧
      t.allocated = s.allocated := by
  have hstep : ∀ u : St ι, Inv u ∧ Alive u ∧ u.allocated = s.allocated → 0 < u.rank →
      ∃ bs v, (∀ b ∈ bs, Act.own b) ∧ exec step u bs = some v ∧ v.rank < u.rank ∧
        Inv v ∧ Alive v ∧ v.allocated = s.allocated := by
    rintro u ⟨hi, ha, hu⟩ hpos
    obtain ⟨a, v, hown, hv, hless, hsame⟩ := own_step hi ha hpos
    have hok : Orderly u a := by
      cases a <;> trivial
    exact ⟨[a], v, by simpa using hown, by simp [exec_cons, hv], hless, inv_step hi hv,
      alive_step hi ha hok hv, hsame.trans hu⟩
  obtain ⟨bs, t, hown, hexec, hzero, hinv, -, hsame⟩ :=
    exists_exec_rank_eq_zero hstep ⟨hi, ha, rfl⟩
  exact ⟨bs, t, hown, hexec, hinv.settled hzero, hsame⟩

/-- **The tty server serves each request once.** In a run in which no request is made behind a
`REQ_QUIT`: nobody touches a request that is freed; one server is created, with the first request;
requests are processed in the order in which they were appended, which is that of their
numbers; a synchronous call has returned only if its request was processed, and if that is a
read, with its text; no request is freed twice, and the server frees the asynchronous ones and the
caller the others. Without further requests the server and the clients can come to a state where
every request was processed and freed and every call has returned, and while that is not so one of
them can go on. -/
theorem tty_server_serves_once {as : List (Act ι)} {s : St ι} (h : exec step init as = some s)
    (hg : Guarded step Orderly init as) :
    s.fault = false ∧
    s.servers.length = (if s.allocated = 0 then 0 else 1) ∧
    (∃ n ≤ s.allocated, s.processed.map Prod.fst = List.range n) ∧
    (∀ c ∈ s.returned, ∃ text, (c.id, text) ∈ s.processed ∧
      (c.operation = .read → c.string = text)) ∧
    (s.freed.map Freed.id).Nodup ∧ (∀ f ∈ s.freed, f.byServer = !f.synchronous) ∧
    (Settled s ∨ ∃ a s', Act.own a ∧ step s a = some s' ∧ s'.rank < s.rank) ∧
    ∃ bs t, (∀ b ∈ bs, Act.own b) ∧ exec step s bs = some t ∧ Settled t ∧
      t.allocated = s.allocated := by
  obtain ⟨hi, ha⟩ : Inv s ∧ Alive s :=
    hg.invariant (I := fun u => Inv u ∧ Alive u) h ⟨inv_init, alive_init⟩
      fun u a v hu hok hv => ⟨inv_step hu.1 hv, alive_step hu.1 hu.2 hok hv⟩
  refine ⟨hi.fault, ?_, ?_, hi.records.returned, hi.records.nodup, hi.records.who, ?_,
    settle hi ha⟩
  · have hsingle := hi.serving.single
    have hused := hi.serving.used
    by_cases hzero : s.allocated = 0
    · rw [hsingle, if_pos hzero, if_neg fun hrun => by have := hused.mp hrun; omega]
    · rw [hsingle, if_neg hzero, if_pos (hused.mpr (by omega))]
  · have htake := congrArg (List.take s.processed.length) hi.serving.order
    rw [List.take_left' (by simp), List.take_range] at htake
    exact ⟨_, (Nat.min_le_right _ _).trans hi.serving.le, htake⟩
  · rcases Nat.eq_zero_or_pos s.rank with hzero | hpos
    · exact Or.inl (hi.settled hzero)
    · obtain ⟨a, s', hown, hs', hless, -⟩ := own_step hi ha hpos
      exact Or.inr ⟨a, s', hown, hs', hless⟩

/-- A write that nobody waits for, a read whose client is woken for no reason, and the end of the
server. -/
theorem tty_server_serves_once_read : ∃ s : St (Fin 2), exec step init [
      .request 0 .write false (some ['a']) none, .request 1 .read true none none,
      .spuriousClient 1, .look 0, .resume 1, .process 0 [], .answer 0, .look 0,
      .process 0 ['h', 'i', '\n'], .answer 0, .reply 0, .resume 1, .look 0,
      .request 0 .quit true none (some 0), .look 0, .process 0 [], .answer 0, .reply 0,
      .resume 0] = some s ∧
    s.processed = [(0, ['a']), (1, ['h', 'i']), (2, [])] ∧
    s.returned = [⟨1, .read, ['h', 'i']⟩, ⟨2, .quit, []⟩] ∧
    s.freed = [⟨0, true, false⟩, ⟨1, false, true⟩, ⟨2, false, true⟩] ∧
    s.fault = false ∧ s.servers.length = 1 := by
  obtain ⟨s, hs, hprocessed, hreturned, hfreed, hallocated⟩ :
      ∃ s : St (Fin 2), exec step init [
        .request 0 .write false (some ['a']) none, .request 1 .read true none none,
        .spuriousClient 1, .look 0, .resume 1, .process 0 [], .answer 0, .look 0,
        .process 0 ['h', 'i', '\n'], .answer 0, .reply 0, .resume 1, .look 0,
        .request 0 .quit true none (some 0), .look 0, .process 0 [], .answer 0, .reply 0,
        .resume 0] = some s ∧
      s.processed = [(0, ['a']), (1, ['h', 'i']), (2, [])] ∧
      s.returned = [⟨1, .read, ['h', 'i']⟩, ⟨2, .quit, []⟩] ∧
      s.freed = [⟨0, true, false⟩, ⟨1, false, true⟩, ⟨2, false, true⟩] ∧ s.allocated = 3 :=
    ⟨_, rfl, by decide, by decide, by decide, by decide⟩
  obtain ⟨hfault, hservers, -⟩ := tty_server_serves_once hs (by decide)
  exact ⟨s, hs, hprocessed, hreturned, hfreed, hfault, by rw [hservers, hallocated]; rfl⟩

end LinuxSamples.TtyServer
