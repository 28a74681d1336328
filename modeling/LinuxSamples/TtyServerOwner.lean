import LinuxSamples.TtyServer

/-!
Who owns a request.

A request in the queue or with the server is not done. An asynchronous one is freed by the server
when it is; a synchronous one belongs to the client that waits for it, who frees it only
after `done_flag` was set, which is the last thing the server does with it. So the owner of a
request can be read off the state, and nobody else touches it.
-/

namespace LinuxSamples.TtyServer

open LinuxSamples.Run LinuxSamples.Pool

variable {ι : Type}

/-- The request that a server works on. -/
def Server.holds : Server → Option ℕ
  | .process id => some id
  | .answer id _ => some id
  | .reply id _ => some id
  | _ => none

/-- The request that a server has removed from the queue and not processed. -/
def Server.pending : Server → List ℕ
  | .process id => [id]
  | _ => []

/-- What a server knows of its request `r`, of number `id`. -/
def Server.Knows (processed : List (ℕ × List Char)) (r : Request) : Server → Prop
  | .answer id operation => r.operation = operation ∧ (id, r.text) ∈ processed
  | .reply id operation =>
    r.operation = operation ∧ (id, r.text) ∈ processed ∧ r.synchronous = true
  | _ => True

/-- No server works on request `id`. -/
def St.Unheld (s : St ι) (id : ℕ) : Prop := ∀ x ∈ s.servers, x.holds ≠ some id

structure Serving (s : St ι) : Prop where
  single : s.servers.length = if s.running then 1 else 0
  used : s.running = true ↔ 0 < s.allocated
  queue : s.queue = List.range' s.taken (s.allocated - s.taken)
  le : s.taken ≤ s.allocated
  order : s.processed.map Prod.fst ++ s.servers.flatMap Server.pending = List.range s.taken

structure Cells (s : St ι) : Prop where
  fresh : ∀ id, s.allocated ≤ id → s.heap id = none
  queued : ∀ id, s.taken ≤ id → id < s.allocated →
    ∃ r, s.heap id = some r ∧ r.doneFlag = false
  held : ∀ x ∈ s.servers, ∀ id, x.holds = some id → id + 1 = s.taken ∧
    ∃ r, s.heap id = some r ∧ r.doneFlag = false ∧ x.Knows s.processed r
  closed : ∀ id r, id < s.taken → s.Unheld id → s.heap id = some r →
    r.synchronous = true ∧ r.doneFlag = true ∧ (id, r.text) ∈ s.processed

structure Clients (s : St ι) : Prop where
  waits : ∀ i id operation woken, s.client i = .wait id operation woken →
    ∃ r, s.heap id = some r ∧ r.synchronous = true ∧ r.operation = operation ∧
      (woken = false → r.doneFlag = false)
  owner : ∀ id r, s.heap id = some r → r.synchronous = true →
    ∃ i woken, s.client i = .wait id r.operation woken
  inj : ∀ i j id o o' w w', s.client i = .wait id o w → s.client j = .wait id o' w' → i = j

structure Records (s : St ι) : Prop where
  freed : ∀ id, id ∈ s.freed.map Freed.id ↔ id < s.allocated ∧ s.heap id = none
  nodup : (s.freed.map Freed.id).Nodup
  who : ∀ f ∈ s.freed, f.byServer = !f.synchronous
  returned : ∀ c ∈ s.returned, ∃ text, (c.id, text) ∈ s.processed ∧
    (c.operation = .read → c.string = text)

structure Inv (s : St ι) : Prop where
  fault : s.fault = false
  serving : Serving s
  cells : Cells s
  clients : Clients s
  records : Records s

lemma inv_init : Inv (init : St ι) where
  fault := rfl
  serving := ⟨rfl, by simp [init], rfl, le_rfl, rfl⟩
  cells := ⟨by simp [init], by simp [init], by simp [init], by simp [init]⟩
  clients := ⟨by simp [init], by simp [init], by simp [init]⟩
  records := ⟨by simp [init], by simp [init], by simp [init], by simp [init]⟩

/-! ### Reading the owner off the state -/

lemma Serving.eq_singleton {s : St ι} (h : Serving s) {t : ℕ} {x : Server}
    (hx : s.servers[t]? = some x) : s.servers = [x] ∧ t = 0 := by
  have hlt : t < s.servers.length := (List.getElem?_eq_some_iff.mp hx).1
  have hlen := h.single
  have hone : s.servers.length = 1 := by
    split at hlen <;> omega
  obtain ⟨y, hy⟩ := List.length_eq_one_iff.mp hone
  obtain rfl : t = 0 := by omega
  rw [hy] at hx ⊢
  obtain rfl : y = x := by simpa using hx
  exact ⟨rfl, rfl⟩

lemma Cells.lt_allocated {s : St ι} (h : Cells s) {id : ℕ} {r : Request}
    (hr : s.heap id = some r) : id < s.allocated := by
  by_contra hc
  rw [h.fresh id (by omega)] at hr
  cases hr

lemma Cells.closed_of_done {s : St ι} (h : Cells s) {id : ℕ} {r : Request}
    (hr : s.heap id = some r) (hdone : r.doneFlag = true) : id < s.taken ∧ s.Unheld id := by
  constructor
  · by_contra hc
    obtain ⟨r', hr', hd⟩ := h.queued id (by omega) (h.lt_allocated hr)
    obtain rfl := Option.some.inj (hr.symm.trans hr')
    rw [hdone] at hd
    cases hd
  · intro x hx hholds
    obtain ⟨-, r', hr', hd, -⟩ := h.held x hx id hholds
    obtain rfl := Option.some.inj (hr.symm.trans hr')
    rw [hdone] at hd
    cases hd

lemma unheld_of_ne {s : St ι} {x : Server} {id id' : ℕ} (hs : s.servers = [x])
    (hid : x.holds = some id) (hne : id' ≠ id) : s.Unheld id' := by
  intro z hz hc
  rw [hs, List.mem_singleton] at hz
  subst hz
  exact hne (Option.some.inj (hc.symm.trans hid))

/-! ### Writing to a cell -/

lemma Cells.fresh_update {s : St ι} (h : Cells s) {id : ℕ} (hid : id < s.allocated)
    (v : Option Request) :
    ∀ id', s.allocated ≤ id' → Function.update s.heap id v id' = none := by
  intro id' hle
  rw [Function.update_of_ne (by omega)]
  exact h.fresh id' hle

lemma Cells.queued_update {s : St ι} (h : Cells s) {id : ℕ} (hid : id < s.taken)
    (v : Option Request) : ∀ id', s.taken ≤ id' → id' < s.allocated →
      ∃ r, Function.update s.heap id v id' = some r ∧ r.doneFlag = false := by
  intro id' hle hlt
  rw [Function.update_of_ne (by omega)]
  exact h.queued id' hle hlt

lemma Records.freed_update {s : St ι} (h : Records s) {id : ℕ} {r : Request}
    (hr : s.heap id = some r) (r' : Request) : ∀ id', id' ∈ s.freed.map Freed.id ↔
      id' < s.allocated ∧ Function.update s.heap id (some r') id' = none := by
  intro id'
  rw [h.freed id']
  by_cases hne : id' = id
  · simp [hne, hr]
  · rw [Function.update_of_ne hne]

/-! ### The steps of the server -/

lemma Cells.deref {s : St ι} {id : ℕ} {r : Request} (hr : s.heap id = some r)
    (f : Request → St ι) : s.deref id f = f r := by
  simp only [St.deref, hr]

lemma Inv.moveServer {s : St ι} (h : Inv s) {t : ℕ} {x y : Server}
    (hx : s.servers[t]? = some x) (hholds : y.holds = x.holds) (hpending : y.pending = x.pending)
    (hknows : ∀ id r, x.holds = some id → s.heap id = some r → x.Knows s.processed r →
      y.Knows s.processed r) : Inv (s.setServer t y) := by
  obtain ⟨hs, rfl⟩ := h.serving.eq_singleton hx
  have hset : (s.setServer 0 y).servers = [y] := by simp [St.setServer, hs]
  refine ⟨h.fault, ⟨?_, h.serving.used, h.serving.queue, h.serving.le, ?_⟩,
    ⟨h.cells.fresh, h.cells.queued, ?_, ?_⟩, ⟨h.clients.waits, h.clients.owner, h.clients.inj⟩,
    ⟨h.records.freed, h.records.nodup, h.records.who, h.records.returned⟩⟩
  · have := h.serving.single
    simp only [hset, hs] at this ⊢
    exact this
  · have horder := h.serving.order
    simp only [hs, List.flatMap_singleton] at horder
    simp only [hset, List.flatMap_singleton, hpending]
    exact horder
  · intro z hz id hid
    rw [hset, List.mem_singleton] at hz
    subst hz
    rw [hholds] at hid
    obtain ⟨hlast, r, hr, hdone, hk⟩ := h.cells.held x (by simp [hs]) id hid
    exact ⟨hlast, r, hr, hdone, hknows id r hid hr hk⟩
  · intro id r hlt hun hr
    refine h.cells.closed id r hlt (fun z hz => ?_) hr
    rw [hs, List.mem_singleton] at hz
    subst hz
    rw [← hholds]
    exact hun y (by simp [hset])

lemma idle_of_looks {x : Server} (h : x.looks = true) : x.holds = none ∧ x.pending = [] := by
  cases x <;> first | exact ⟨rfl, rfl⟩ | cases h

lemma Inv.look {s : St ι} (h : Inv s) {t : ℕ} {x : Server} (hx : s.servers[t]? = some x)
    (hlooks : x.looks) : Inv (TtyServer.look s t) := by
  have hidle := idle_of_looks hlooks
  have hqueue := h.serving.queue
  unfold TtyServer.look
  split
  · exact h.moveServer hx hidle.1.symm hidle.2.symm fun _ _ _ _ _ => trivial
  · next id rest hq =>
    obtain ⟨hs, rfl⟩ := h.serving.eq_singleton hx
    have hlt : s.taken < s.allocated := by
      by_contra hc
      have hzero : s.allocated - s.taken = 0 := by omega
      rw [hq, hzero] at hqueue
      cases hqueue
    obtain ⟨m, hm⟩ : ∃ m, s.allocated - s.taken = m + 1 := ⟨s.allocated - s.taken - 1, by omega⟩
    rw [hq, hm, List.range'_succ, List.cons.injEq] at hqueue
    obtain ⟨rfl, hrest⟩ := hqueue
    obtain ⟨r, hr, hdone⟩ := h.cells.queued s.taken le_rfl hlt
    rw [Cells.deref hr]
    have hset : s.servers.set 0 (.process s.taken) = [.process s.taken] := by simp [hs]
    have horder := h.serving.order
    simp only [hs, List.flatMap_singleton, hidle.2, List.append_nil] at horder
    refine ⟨h.fault, ⟨?_, h.serving.used, ?_, hlt, ?_⟩, ⟨h.cells.fresh, ?_, ?_, ?_⟩,
      ⟨h.clients.waits, h.clients.owner, h.clients.inj⟩,
      ⟨h.records.freed, h.records.nodup, h.records.who, h.records.returned⟩⟩
    · have := h.serving.single
      simp only [hs] at this ⊢
      exact this
    · have hsub : s.allocated - (s.taken + 1) = m := by omega
      simp only [hsub, hrest]
    · simp only [hset, List.flatMap_singleton, Server.pending, horder, List.range_succ]
    · exact fun id hle => h.cells.queued id (by dsimp only at hle; omega)
    · intro z hz id hid
      rw [hset, List.mem_singleton] at hz
      subst hz
      obtain rfl := Option.some.inj hid
      exact ⟨rfl, r, hr, hdone, trivial⟩
    · intro id r' hlt' hun hr'
      have hne : id ≠ s.taken := by
        rintro rfl
        exact hun (.process s.taken) (by simp [hset]) rfl
      refine h.cells.closed id r' (by dsimp only at hlt'; omega) (fun z hz => ?_) hr'
      rw [hs, List.mem_singleton] at hz
      subst hz
      simp [hidle.1]

lemma Inv.process {s : St ι} (h : Inv s) {t id : ℕ} (hx : s.servers[t]? = some (.process id))
    (stdin : List Char) : Inv (TtyServer.process s t id stdin) := by
  obtain ⟨hs, rfl⟩ := h.serving.eq_singleton hx
  obtain ⟨hlast, r, hr, hdone, -⟩ := h.cells.held (.process id) (by simp [hs]) id rfl
  have hsame : (r.process stdin).synchronous = r.synchronous ∧
      (r.process stdin).operation = r.operation ∧ (r.process stdin).doneFlag = r.doneFlag := by
    unfold Request.process
    split <;> exact ⟨rfl, rfl, rfl⟩
  obtain ⟨hsync, hop, hflag⟩ := hsame
  have hset : s.servers.set 0 (.answer id r.operation) = [.answer id r.operation] := by simp [hs]
  unfold TtyServer.process
  rw [Cells.deref hr]
  have horder := h.serving.order
  simp only [hs, List.flatMap_singleton, Server.pending] at horder
  refine ⟨h.fault, ⟨?_, h.serving.used, h.serving.queue, h.serving.le, ?_⟩,
    ⟨h.cells.fresh_update (h.cells.lt_allocated hr) _, h.cells.queued_update (by omega) _, ?_, ?_⟩,
    ⟨?_, ?_, h.clients.inj⟩,
    ⟨h.records.freed_update hr _, h.records.nodup, h.records.who, ?_⟩⟩
  · have := h.serving.single
    simp only [hs] at this ⊢
    exact this
  · simpa [hset, Server.pending] using horder
  · intro z hz id' hid
    rw [hset, List.mem_singleton] at hz
    subst hz
    obtain rfl := Option.some.inj hid
    exact ⟨hlast, _, Function.update_self .., hflag.trans hdone, hop, by simp⟩
  · intro id' r' hlt hun hr'
    have hne : id' ≠ id := by
      rintro rfl
      exact hun (.answer id' r.operation) (by simp [hset]) rfl
    simp only [Function.update_of_ne hne] at hr'
    obtain ⟨h1, h2, h3⟩ := h.cells.closed id' r' hlt (unheld_of_ne hs rfl hne) hr'
    exact ⟨h1, h2, List.mem_append_left _ h3⟩
  · intro i id' operation woken hi
    obtain ⟨r', hr', h1, h2, h3⟩ := h.clients.waits i id' operation woken hi
    by_cases hne : id' = id
    · subst hne
      obtain rfl := Option.some.inj (hr.symm.trans hr')
      exact ⟨_, Function.update_self .., hsync.trans h1, hop.trans h2,
        fun hw => hflag.trans (h3 hw)⟩
    · exact ⟨r', by simp only [Function.update_of_ne hne, hr'], h1, h2, h3⟩
  · intro id' r' hr' h1
    by_cases hne : id' = id
    · subst hne
      simp only [Function.update_self, Option.some.injEq] at hr'
      subst hr'
      rw [hop]
      exact h.clients.owner id' r hr (hsync ▸ h1)
    · simp only [Function.update_of_ne hne] at hr'
      exact h.clients.owner id' r' hr' h1
  · intro c hc
    obtain ⟨text, htext, hread⟩ := h.records.returned c hc
    exact ⟨text, List.mem_append_left _ htext, hread⟩

lemma Cells.free {s : St ι} (h : Cells s) {id : ℕ} (hid : id < s.taken) {servers : List Server}
    {client : ι → Client} {freed : List Freed} {returned : List Returned}
    (hheld : ∀ x ∈ servers, ∀ id', x.holds = some id' → id' ≠ id ∧ x ∈ s.servers)
    (hun : ∀ id', id' ≠ id → (∀ x ∈ servers, x.holds ≠ some id') → s.Unheld id') :
    Cells { s with
      heap := Function.update s.heap id none, servers := servers, client := client
      freed := freed, returned := returned } where
  fresh := by
    intro id' hle
    by_cases hne : id' = id
    · subst hne
      exact Function.update_self ..
    · simp only [Function.update_of_ne hne]
      exact h.fresh id' hle
  queued := h.queued_update hid _
  held := by
    intro x hx id' hholds
    obtain ⟨hne, hmem⟩ := hheld x hx id' hholds
    simp only [Function.update_of_ne hne]
    exact h.held x hmem id' hholds
  closed := by
    intro id' r hlt hunheld hr
    by_cases hne : id' = id
    · simp [hne] at hr
    · simp only [Function.update_of_ne hne] at hr
      exact h.closed id' r hlt (hun id' hne hunheld) hr

lemma Records.free {s : St ι} (h : Records s) {id : ℕ} {r : Request} (hr : s.heap id = some r)
    (hlt : id < s.allocated) {byServer : Bool} (hwho : byServer = !r.synchronous)
    {servers : List Server} {client : ι → Client} {returned : List Returned}
    (hret : ∀ c ∈ returned, ∃ text, (c.id, text) ∈ s.processed ∧
      (c.operation = .read → c.string = text)) :
    Records { s with
      heap := Function.update s.heap id none, servers := servers, client := client
      freed := s.freed ++ [⟨id, byServer, r.synchronous⟩], returned := returned } where
  freed := by
    intro id'
    simp only [List.map_append, List.mem_append, h.freed id', List.map_cons, List.map_nil,
      List.mem_singleton]
    by_cases hne : id' = id
    · simp [hne, hlt]
    · simp [hne]
  nodup := by
    have hnew : id ∉ s.freed.map Freed.id := by simp [h.freed id, hr]
    simpa [List.nodup_append, h.nodup] using hnew
  who := by
    intro f hf
    rcases List.mem_append.mp hf with hf | hf
    · exact h.who f hf
    · obtain rfl := List.mem_singleton.mp hf
      exact hwho
  returned := hret

lemma holds_next (operation : Op) : (Server.next operation).holds = none := by
  unfold Server.next
  split <;> rfl

lemma pending_next (operation : Op) : (Server.next operation).pending = [] := by
  unfold Server.next
  split <;> rfl

lemma Serving.through {s : St ι} (h : Serving s) {x : Server} (hs : s.servers = [x])
    (hpending : x.pending = []) (operation : Op) {heap : ℕ → Option Request}
    {client : ι → Client} {freed : List Freed} :
    Serving { s with
      heap := heap, servers := [.next operation], client := client, freed := freed } := by
  have hsingle := h.single
  have horder := h.order
  rw [hs] at hsingle horder
  refine ⟨hsingle, h.used, h.queue, h.le, ?_⟩
  simpa [hpending, pending_next] using horder

lemma Inv.answer {s : St ι} (h : Inv s) {t id : ℕ} {operation : Op}
    (hx : s.servers[t]? = some (.answer id operation)) :
    Inv (TtyServer.answer s t id operation) := by
  obtain ⟨hs, rfl⟩ := h.serving.eq_singleton hx
  obtain ⟨hlast, r, hr, hdone, hop, htext⟩ :=
    h.cells.held (.answer id operation) (by simp [hs]) id rfl
  unfold TtyServer.answer
  rw [Cells.deref hr]
  split
  · next hsync =>
    refine h.moveServer hx rfl rfl ?_
    intro id' r' hid hr' hk
    obtain rfl := Option.some.inj hid
    obtain rfl := Option.some.inj (hr.symm.trans hr')
    exact ⟨hk.1, hk.2, hsync⟩
  · next hsync =>
    have hset : s.servers.set 0 (.next operation) = [.next operation] := by simp [hs]
    rw [hset]
    refine ⟨h.fault, h.serving.through hs rfl operation, ?_, ⟨?_, ?_, h.clients.inj⟩, ?_⟩
    · refine h.cells.free (by omega) (fun x hx id' hid => ?_) fun id' hne _ =>
        unheld_of_ne hs rfl hne
      obtain rfl := List.mem_singleton.mp hx
      rw [holds_next] at hid
      cases hid
    · intro i id' operation' woken hi
      obtain ⟨r', hr', h1, h2, h3⟩ := h.clients.waits i id' operation' woken hi
      have hne : id' ≠ id := by
        rintro rfl
        obtain rfl := Option.some.inj (hr.symm.trans hr')
        exact hsync h1
      exact ⟨r', by simp only [Function.update_of_ne hne, hr'], h1, h2, h3⟩
    · intro id' r' hr' h1
      have hne : id' ≠ id := by
        rintro rfl
        simp at hr'
      simp only [Function.update_of_ne hne] at hr'
      exact h.clients.owner id' r' hr' h1
    · exact h.records.free hr (h.cells.lt_allocated hr) (by simpa using hsync) h.records.returned

lemma wakeDone_eq_wait {x : Client} {id id' : ℕ} {operation : Op} {woken : Bool}
    (h : x.wakeDone id = .wait id' operation woken) :
    ∃ w, x = .wait id' operation w ∧ woken = (w || id' = id) := by
  cases x with
  | out => cases h
  | wait id'' operation' w =>
    simp only [Client.wakeDone, Client.wait.injEq] at h
    obtain ⟨rfl, rfl, rfl⟩ := h
    exact ⟨w, rfl, rfl⟩

/-- **The server replies**: the request goes over to the client that waits for it. -/
lemma Inv.reply {s : St ι} (h : Inv s) {t id : ℕ} {operation : Op}
    (hx : s.servers[t]? = some (.reply id operation)) :
    Inv (TtyServer.reply s t id operation) := by
  obtain ⟨hs, rfl⟩ := h.serving.eq_singleton hx
  obtain ⟨hlast, r, hr, hdone, hop, htext, hsync⟩ :=
    h.cells.held (.reply id operation) (by simp [hs]) id rfl
  have hset : s.servers.set 0 (.next operation) = [.next operation] := by simp [hs]
  unfold TtyServer.reply
  rw [Cells.deref hr, hset]
  refine ⟨h.fault, h.serving.through hs rfl operation,
    ⟨h.cells.fresh_update (h.cells.lt_allocated hr) _, h.cells.queued_update (by omega) _, ?_, ?_⟩,
    ⟨?_, ?_, ?_⟩,
    ⟨h.records.freed_update hr _, h.records.nodup, h.records.who, h.records.returned⟩⟩
  · intro x hx id' hid
    obtain rfl := List.mem_singleton.mp hx
    rw [holds_next] at hid
    cases hid
  · intro id' r' hlt _ hr'
    by_cases hne : id' = id
    · subst hne
      simp only [Function.update_self, Option.some.injEq] at hr'
      subst hr'
      exact ⟨hsync, rfl, htext⟩
    · simp only [Function.update_of_ne hne] at hr'
      exact h.cells.closed id' r' hlt (unheld_of_ne hs rfl hne) hr'
  · intro i id' operation' woken hi
    obtain ⟨w, hw, rfl⟩ := wakeDone_eq_wait hi
    obtain ⟨r', hr', h1, h2, h3⟩ := h.clients.waits i id' operation' w hw
    by_cases hne : id' = id
    · subst hne
      obtain rfl := Option.some.inj (hr.symm.trans hr')
      exact ⟨_, Function.update_self .., h1, h2, fun hc => by simp at hc⟩
    · refine ⟨r', by simp only [Function.update_of_ne hne, hr'], h1, h2, fun hc => h3 ?_⟩
      simpa [hne] using hc
  · intro id' r' hr' h1
    have howner : ∃ i woken, s.client i = .wait id' r'.operation woken := by
      by_cases hne : id' = id
      · subst hne
        simp only [Function.update_self, Option.some.injEq] at hr'
        subst hr'
        exact h.clients.owner id' r hr hsync
      · simp only [Function.update_of_ne hne] at hr'
        exact h.clients.owner id' r' hr' h1
    obtain ⟨i, woken, hi⟩ := howner
    exact ⟨i, woken || id' = id, by simp only [hi, Client.wakeDone]⟩
  · intro i j id' o o' w w' hi hj
    obtain ⟨_, hi, -⟩ := wakeDone_eq_wait hi
    obtain ⟨_, hj, -⟩ := wakeDone_eq_wait hj
    exact h.clients.inj i j id' o o' _ _ hi hj

/-! ### The steps of the clients -/

/-- The server behind the signal of a request: it is the one there was, which was awake, or it is
about to look at the queue. -/
lemma Serving.signal {s : St ι} (h : Serving s) {c : Option ℕ} {servers : List Server}
    (hsig : Pool.signal Server.blocked Server.wake
      (if s.running then s.servers else s.servers ++ [.lock]) c = some servers) :
    ∃ x, servers = [x] ∧ x.blocked = false ∧
      (s.servers = [x] ∨ x.looks = true ∧ ∀ y ∈ s.servers, y.holds = none ∧ y.pending = []) := by
  have hsingle := h.single
  split at hsingle
  · next hrun =>
    obtain ⟨y, hy⟩ := List.length_eq_one_iff.mp hsingle
    rw [if_pos hrun, hy] at hsig
    obtain ⟨hno, rfl⟩ | ⟨t, z, hz, hb, rfl⟩ := Pool.signal_cases hsig
    · exact ⟨y, rfl, by simpa using hno, Or.inl hy⟩
    · obtain ⟨rfl, rfl⟩ : t = 0 ∧ y = z := by
        cases t with
        | zero => exact ⟨rfl, by simpa using hz⟩
        | succ t => cases hz
      cases y with
      | wait woken =>
        exact ⟨.wait true, rfl, rfl, Or.inr ⟨rfl, by simp [hy, Server.holds, Server.pending]⟩⟩
      | _ => cases hb
  · next hrun =>
    have hnil := List.length_eq_zero_iff.mp hsingle
    rw [if_neg hrun, hnil] at hsig
    obtain ⟨-, rfl⟩ | ⟨t, z, hz, hb, -⟩ := Pool.signal_cases hsig
    · exact ⟨.lock, rfl, rfl, Or.inr ⟨rfl, by simp [hnil]⟩⟩
    · -- the new server does not sleep
      have hmem := List.mem_of_getElem? hz
      obtain rfl : z = .lock := by simpa using hmem
      cases hb

variable [DecidableEq ι]

lemma Inv.moveClient {s : St ι} (h : Inv s) {i : ι} {id : ℕ} {operation : Op} {w w' : Bool}
    (hi : s.client i = .wait id operation w)
    (hw : ∀ r, s.heap id = some r → w' = false → r.doneFlag = false) :
    Inv { s with client := Function.update s.client i (.wait id operation w') } := by
  -- who waits for what is as before
  have hback : ∀ j id' o v, Function.update s.client i (.wait id operation w') j = .wait id' o v →
      ∃ v', s.client j = .wait id' o v' ∧ (j ≠ i → v' = v) := by
    intro j id' o v hj
    by_cases hne : j = i
    · subst hne
      rw [Function.update_self] at hj
      obtain ⟨rfl, rfl, rfl⟩ := Client.wait.inj hj
      exact ⟨w, hi, fun hc => absurd rfl hc⟩
    · rw [Function.update_of_ne hne] at hj
      exact ⟨v, hj, fun _ => rfl⟩
  refine ⟨h.fault, ⟨h.serving.single, h.serving.used, h.serving.queue, h.serving.le,
    h.serving.order⟩, ⟨h.cells.fresh, h.cells.queued, h.cells.held, h.cells.closed⟩, ⟨?_, ?_, ?_⟩,
    ⟨h.records.freed, h.records.nodup, h.records.who, h.records.returned⟩⟩
  · intro j id' o v hj
    obtain ⟨v', hv', hsame⟩ := hback j id' o v hj
    obtain ⟨r, hr, h1, h2, h3⟩ := h.clients.waits j id' o v' hv'
    refine ⟨r, hr, h1, h2, fun hv => ?_⟩
    by_cases hne : j = i
    · subst hne
      simp only [Function.update_self, Client.wait.injEq] at hj
      obtain ⟨rfl, -, rfl⟩ := hj
      exact hw r hr hv
    · exact h3 ((hsame hne).trans hv)
  · intro id' r hr h1
    obtain ⟨j, v, hj⟩ := h.clients.owner id' r hr h1
    by_cases hne : j = i
    · subst hne
      obtain ⟨rfl, rfl, -⟩ := Client.wait.inj (hi.symm.trans hj)
      exact ⟨j, w', Function.update_self ..⟩
    · exact ⟨j, v, by simp only [Function.update_of_ne hne, hj]⟩
  · intro j k id' o o' v v' hj hk
    obtain ⟨_, hj, -⟩ := hback j id' o v hj
    obtain ⟨_, hk, -⟩ := hback k id' o' v' hk
    exact h.clients.inj j k id' o o' _ _ hj hk

/-- **A client comes back from its wait**: it frees its request if that is done. -/
lemma Inv.resume {s : St ι} (h : Inv s) {i : ι} {id : ℕ} {operation : Op}
    (hi : s.client i = .wait id operation true) : Inv (TtyServer.resume s i id operation) := by
  obtain ⟨r, hr, hsync, hop, -⟩ := h.clients.waits i id operation true hi
  unfold TtyServer.resume
  rw [Cells.deref hr]
  split
  · next hdone =>
    obtain ⟨hlt, hun⟩ := h.cells.closed_of_done hr hdone
    obtain ⟨-, -, htext⟩ := h.cells.closed id r hlt hun hr
    have hother : ∀ j id' o v, Function.update s.client i .out j = .wait id' o v →
        s.client j = .wait id' o v ∧ id' ≠ id := by
      intro j id' o v hj
      by_cases hne : j = i
      · simp [hne] at hj
      · rw [Function.update_of_ne hne] at hj
        refine ⟨hj, ?_⟩
        rintro rfl
        exact hne (h.clients.inj j i id' o operation v true hj hi)
    refine ⟨h.fault, ⟨h.serving.single, h.serving.used, h.serving.queue, h.serving.le,
      h.serving.order⟩, ?_, ⟨?_, ?_, ?_⟩, ?_⟩
    · refine h.cells.free hlt (fun x hx id' hid => ⟨?_, hx⟩) fun id' _ hu => hu
      rintro rfl
      exact hun x hx hid
    · intro j id' o v hj
      obtain ⟨hj, hne⟩ := hother j id' o v hj
      simp only [Function.update_of_ne hne]
      exact h.clients.waits j id' o v hj
    · intro id' r' hr' h1
      have hne : id' ≠ id := by
        rintro rfl
        simp at hr'
      simp only [Function.update_of_ne hne] at hr'
      obtain ⟨j, v, hj⟩ := h.clients.owner id' r' hr' h1
      have hji : j ≠ i := by
        rintro rfl
        exact hne (Client.wait.inj (hj.symm.trans hi)).1
      exact ⟨j, v, by simp only [Function.update_of_ne hji, hj]⟩
    · intro j k id' o o' v v' hj hk
      exact h.clients.inj j k id' o o' v v' (hother j id' o v hj).1 (hother k id' o' v' hk).1
    · refine h.records.free hr (h.cells.lt_allocated hr) (by simp [hsync]) fun c hc => ?_
      rcases List.mem_append.mp hc with hc | hc
      · exact h.records.returned c hc
      · obtain rfl := List.mem_singleton.mp hc
        exact ⟨r.text, htext, fun hread => if_pos hread⟩
  · next hdone =>
    refine h.moveClient hi fun r' hr' _ => ?_
    obtain rfl := Option.some.inj (hr.symm.trans hr')
    simpa using hdone

omit [DecidableEq ι] in
lemma signal_same {s : St ι} {x : Server}
    (hx : s.servers = [x] ∨ x.looks = true ∧ ∀ y ∈ s.servers, y.holds = none ∧ y.pending = []) :
    x.pending = s.servers.flatMap Server.pending ∧
      (∀ id, x.holds = some id → x ∈ s.servers) ∧
      ∀ y ∈ s.servers, ∀ id, y.holds = some id → y = x := by
  rcases hx with hx | ⟨hlooks, hidle⟩
  · simp [hx]
  · obtain ⟨hholds, hpend⟩ := idle_of_looks hlooks
    refine ⟨?_, fun id hid => by simp [hholds] at hid, fun y hy id hid => ?_⟩
    · rw [hpend]
      exact (List.flatMap_eq_nil_iff.mpr fun y hy => (hidle y hy).2).symm
    · simp [(hidle y hy).1] at hid

lemma Inv.waits_request {s : St ι} (h : Inv s) {i j : ι} {operation o : Op} {sync v : Bool} {id : ℕ}
    (hj : Function.update s.client i
      (if sync then .wait s.allocated operation false else .out) j = .wait id o v) :
    j = i ∧ id = s.allocated ∧ sync = true ∧ operation = o ∧ v = false ∨
      id ≠ s.allocated ∧ s.client j = .wait id o v := by
  by_cases hne : j = i
  · subst hne
    rw [Function.update_self] at hj
    split at hj
    · next hsync =>
      obtain ⟨rfl, rfl, rfl⟩ := Client.wait.inj hj
      exact Or.inl ⟨rfl, rfl, hsync, rfl, rfl⟩
    · cases hj
  · rw [Function.update_of_ne hne] at hj
    obtain ⟨r, hr, -⟩ := h.clients.waits j id o v hj
    exact Or.inr ⟨(h.cells.lt_allocated hr).ne, hj⟩

omit [DecidableEq ι] in
lemma Cells.push {s s' : St ι} (h : Cells s) (hle : s.taken ≤ s.allocated) {r : Request}
    (hr : r.doneFlag = false) {x : Server} (hback : ∀ id, x.holds = some id → x ∈ s.servers)
    (hforth : ∀ y ∈ s.servers, ∀ id, y.holds = some id → y = x)
    (hheap : s'.heap = Function.update s.heap s.allocated (some r))
    (halloc : s'.allocated = s.allocated + 1) (htaken : s'.taken = s.taken)
    (hservers : s'.servers = [x]) (hprocessed : s'.processed = s.processed) : Cells s' := by
  have hold : ∀ {id}, id ≠ s.allocated → s'.heap id = s.heap id := fun hne => by
    rw [hheap, Function.update_of_ne hne]
  refine ⟨?fresh, ?queued, ?held, ?closed⟩
  case fresh =>
    intro id hid
    rw [hold (by omega)]
    exact h.fresh id (by omega)
  case queued =>
    intro id hid hlt
    by_cases hne : id = s.allocated
    · exact ⟨r, by rw [hheap, hne, Function.update_self], hr⟩
    · rw [hold hne]
      exact h.queued id (by omega) (by omega)
  case held =>
    intro y hy id hid
    rw [hservers] at hy
    obtain rfl := List.mem_singleton.mp hy
    obtain ⟨hlast, hrest⟩ := h.held y (hback id hid) id hid
    rw [hold (by omega), htaken, hprocessed]
    exact ⟨hlast, hrest⟩
  case closed =>
    intro id r hlt hun hr
    rw [htaken] at hlt
    rw [hold (by omega)] at hr
    rw [hprocessed]
    refine h.closed id r hlt (fun y hy hid => ?_) hr
    obtain rfl := hforth y hy id hid
    exact hun y (by simp [hservers]) hid

lemma Inv.clients_push {s s' : St ι} (h : Inv s) {i : ι} (hi : s.client i = .out) {operation : Op}
    {sync : Bool} {r : Request} (hsync : r.synchronous = sync) (hop : r.operation = operation)
    (hdone : r.doneFlag = false)
    (hheap : s'.heap = Function.update s.heap s.allocated (some r))
    (hclient : s'.client = Function.update s.client i
      (if sync then .wait s.allocated operation false else .out)) : Clients s' := by
  refine ⟨?waits, ?owner, ?inj⟩ <;> rw [hclient]
  case waits =>
    intro j id o v hj
    rw [hheap]
    rcases h.waits_request hj with ⟨rfl, rfl, hs, rfl, rfl⟩ | ⟨hne, hj⟩
    · exact ⟨r, Function.update_self .., hsync.trans hs, hop, fun _ => hdone⟩
    · rw [Function.update_of_ne hne]
      exact h.clients.waits j id o v hj
  case owner =>
    intro id q hq hs
    rw [hheap] at hq
    by_cases hne : id = s.allocated
    · rw [hne, Function.update_self] at hq
      obtain rfl := Option.some.inj hq
      exact ⟨i, false, by rw [Function.update_self, if_pos (hsync.symm.trans hs), hne, hop]⟩
    · rw [Function.update_of_ne hne] at hq
      obtain ⟨j, v, hj⟩ := h.clients.owner id q hq hs
      have hji : j ≠ i := by
        rintro rfl
        rw [hi] at hj
        cases hj
      exact ⟨j, v, by rw [Function.update_of_ne hji, hj]⟩
  case inj =>
    intro j k id o o' v v' hj hk
    rcases h.waits_request hj with ⟨rfl, rfl, -⟩ | ⟨hne, hj⟩
    · rcases h.waits_request hk with ⟨rfl, -⟩ | ⟨hne, -⟩
      · rfl
      · exact absurd rfl hne
    · rcases h.waits_request hk with ⟨-, heq, -⟩ | ⟨-, hk⟩
      · exact absurd heq hne
      · exact h.clients.inj j k id o o' v v' hj hk

lemma Inv.request {s s' : St ι} (h : Inv s) {i : ι} {operation : Op} {sync : Bool}
    {string : Option (List Char)} {c : Option ℕ} (hi : s.client i = .out)
    (hs : TtyServer.request s i operation sync string c = some s') : Inv s' := by
  unfold TtyServer.request at hs
  obtain ⟨servers, hsig, rfl⟩ := Option.map_eq_some_iff.mp hs
  obtain ⟨x, rfl, -, hx⟩ := h.serving.signal hsig
  obtain ⟨hpend, hback, hforth⟩ := signal_same hx
  have hle := h.serving.le
  refine ⟨?fault, ⟨rfl, by simp, ?queue, by dsimp only; omega, ?order⟩,
    h.cells.push hle rfl hback hforth rfl rfl rfl rfl rfl, h.clients_push hi rfl rfl rfl rfl rfl,
    ⟨?freed, h.records.nodup, h.records.who, h.records.returned⟩⟩
  case fault =>
    -- the last request of the queue is not yet taken
    cases hlast : s.queue.getLast? with
    | none => simp [h.fault]
    | some last =>
      have hmem := List.mem_of_getLast? hlast
      rw [h.serving.queue, List.mem_range'_1] at hmem
      obtain ⟨r, hr, -⟩ := h.cells.queued last hmem.1 (by omega)
      simp [h.fault, hr]
  case queue =>
    have hsub : s.allocated + 1 - s.taken = s.allocated - s.taken + 1 := by omega
    have hend : s.taken + (s.allocated - s.taken) = s.allocated := by omega
    simp only [hsub, List.range'_concat, one_mul, hend, h.serving.queue]
  case order =>
    simp only [List.flatMap_singleton, hpend]
    exact h.serving.order
  case freed =>
    intro id
    rw [h.records.freed id]
    by_cases hne : id = s.allocated
    · simp [hne]
    · have hlt : id < s.allocated + 1 ↔ id < s.allocated := by omega
      simp only [Function.update_of_ne hne, hlt]

lemma inv_step {s s' : St ι} {a : Act ι} (h : Inv s) (hs : step s a = some s') : Inv s' := by
  cases step_cases hs with
  | request hi hs => exact h.request hi hs
  | resume hi => exact h.resume hi
  | look hx hlooks => exact h.look hx hlooks
  | process hx => exact h.process hx _
  | answer hx => exact h.answer hx
  | reply hx => exact h.reply hx
  | spuriousServer hx => exact h.moveServer hx rfl rfl fun _ _ _ _ _ => trivial
  | spuriousClient hi => exact h.moveClient hi fun _ _ hc => by cases hc

end LinuxSamples.TtyServer
