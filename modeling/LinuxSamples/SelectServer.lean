import LinuxSamples.Run
import LinuxSamples.Slots

/-!
The `select` server of `server.c`.

A round of the loop copies the set of descriptors, waits until some of them are ready, takes a
new connection if the listening socket is among them, and reads from the clients that are ready
until as many have been read from as `select` announced. Descriptors are integers, as the calls
return them; what is done with one outside the range of an `fd_set` is noted. The answers of
`select`, `accept` and `read` are the input of a round.
-/

namespace LinuxSamples.SelectServer

open LinuxSamples.Run

def MAXLINE : ℕ := 80

def FD_SETSIZE : ℕ := 1024

abbrev Ix := Fin FD_SETSIZE

/-- What `read` answers. -/
inductive Read
  | data (bs : List UInt8)
  | eof
  | error
  deriving DecidableEq, Repr

/-- The variables of `main`, the descriptors that are open, and what the macros of an `fd_set` have
been applied to; of the last round the ready set, the calls of `read` with their answers, the
descriptors closed and the texts written. -/
structure St where
  client : Ix → ℤ
  allset : Finset ℤ
  maxfd : ℤ
  maxi : ℤ
  opened : Finset ℤ
  sets : List ℤ
  ready : Finset ℤ
  reads : List (ℤ × Read)
  closed : List ℤ
  written : List (ℤ × List UInt8)

/-- A descriptor that an `fd_set` has a bit for. -/
def InSet (fd : ℤ) : Prop := 0 ≤ fd ∧ fd < FD_SETSIZE

instance (fd : ℤ) : Decidable (InSet fd) := inferInstanceAs (Decidable (_ ∧ _))

/-- `FD_SET`; a descriptor without a bit leaves the set as it is and destroys other memory. -/
def fdSet (fd : ℤ) (set : Finset ℤ) : Finset ℤ := if InSet fd then insert fd set else set

/-- The variables in front of the loop. -/
def init (listenfd : ℤ) : St where
  client := fun _ => -1
  allset := fdSet listenfd ∅
  maxfd := listenfd
  maxi := -1
  opened := {listenfd}
  sets := [listenfd]
  ready := ∅
  reads := []
  closed := []
  written := []

/-- The answers in a round: the ready set of `select`, the result of `accept`, and the results of
`read` by descriptor. -/
structure Round where
  ready : Finset ℤ
  connfd : ℤ
  read : ℤ → Read

def toupper (c : UInt8) : UInt8 := if 97 ≤ c ∧ c ≤ 122 then c - 32 else c

/-- The first entry of `client` that is available. -/
def available (client : Ix → ℤ) : Option Ix :=
  (List.finRange FD_SETSIZE).find? fun i => client i < 0

/-- A new client; without an entry for it the server exits. -/
def newClient (s : St) (connfd : ℤ) : Option St :=
  (available s.client).map fun i =>
    { s with
      client := Function.update s.client i connfd
      allset := fdSet connfd s.allset
      maxfd := if connfd > s.maxfd then connfd else s.maxfd
      maxi := if i > s.maxi then i else s.maxi
      opened := if 0 ≤ connfd then insert connfd s.opened else s.opened
      sets := s.sets ++ [connfd] }

/-- What is done with the answer to the `read` from client `i`. -/
def serveClient (s : St) (i : Ix) (sockfd : ℤ) (n : Read) : St :=
  let s := { s with reads := s.reads ++ [(sockfd, n)] }
  match n with
  | .eof =>
    { s with
      client := Function.update s.client i (-1)
      allset := s.allset.erase sockfd
      opened := s.opened.erase sockfd
      sets := s.sets ++ [sockfd]
      closed := s.closed ++ [sockfd] }
  | .data bs => { s with written := s.written ++ [(sockfd, bs.map toupper)] }
  -- nothing is converted, and `write` is called with the count -1
  | .error => s

/-- The loop over the clients, with the indices to come. -/
def scan (r : Round) : List Ix → ℤ → St → St
  | [], _, s => s
  | i :: is, nready, s =>
    let sockfd := s.client i
    if sockfd < 0 then scan r is nready s
    else
      let s := { s with sets := s.sets ++ [sockfd] }
      if sockfd ∈ r.ready then
        let s := serveClient s i sockfd (r.read sockfd)
        if nready - 1 = 0 then s else scan r is (nready - 1) s
      else scan r is nready s

def indices (maxi : ℤ) : List Ix := (List.finRange FD_SETSIZE).filter fun i => i ≤ maxi

def checkClients (r : Round) (nready : ℤ) (s : St) : St := scan r (indices s.maxi) nready s

/-- At most `MAXLINE` bytes are read. -/
def Read.valid : Read → Bool
  | .data bs => bs ≠ [] ∧ bs.length ≤ MAXLINE
  | .eof | .error => true

/-- What the kernel may answer: ready descriptors are among those asked for, and a new descriptor
is not open. -/
def Possible (s : St) (r : Round) : Prop :=
  (∀ fd ∈ r.ready, fd ∈ s.allset ∧ fd < s.maxfd + 1) ∧
  (r.connfd = -1 ∨ 0 ≤ r.connfd ∧ r.connfd ∉ s.opened) ∧ ∀ fd ∈ r.ready, (r.read fd).valid

instance (s : St) (r : Round) : Decidable (Possible s r) :=
  inferInstanceAs (Decidable (_ ∧ _ ∧ _))

/-- One turn of the endless loop, from the call of `select` on. -/
def round (listenfd : ℤ) (s : St) (r : Round) : Option St :=
  if Possible s r then
    let nready : ℤ := r.ready.card
    let s := { s with
      sets := s.sets ++ [listenfd], ready := r.ready, reads := [], closed := [], written := [] }
    if listenfd ∈ r.ready then
      (newClient s r.connfd).map fun s =>
        if nready - 1 = 0 then s else checkClients r (nready - 1) s
    else some (checkClients r nready s)
  else none

/-! ### The bookkeeping -/

/-- The bookkeeping at the top of a round, and what the round before has done. -/
structure Exact (listenfd : ℤ) (s : St) : Prop where
  allset : ∀ fd, fd ∈ s.allset ↔ fd = listenfd ∨ 0 ≤ fd ∧ ∃ i, s.client i = fd
  maxfd : ∀ fd ∈ s.allset, fd ≤ s.maxfd
  maxi : ∀ i, 0 ≤ s.client i → (i : ℤ) ≤ s.maxi
  sets : ∀ fd ∈ s.sets, InSet fd
  reads : ∀ fd ∈ s.ready, fd ≠ listenfd → (s.reads.map Prod.fst).count fd = 1
  removed : ∀ fd n, (fd, n) ∈ s.reads → n = .eof ∨ n = .error →
    fd ∈ s.closed ∧ ∀ i, s.client i ≠ fd

/-- A new connection has a descriptor that fits into an `fd_set`, and no `read` fails. -/
def Sane (listenfd : ℤ) (r : Round) : Prop :=
  (listenfd ∈ r.ready → InSet r.connfd) ∧
    ∀ fd ∈ r.ready, fd ≠ listenfd → r.read fd ≠ .error

def holding (client : Ix → ℤ) (i : Ix) : Option ℤ := if client i < 0 then none else some (client i)

lemma holding_eq_some_iff {client : Ix → ℤ} {i : Ix} {fd : ℤ} :
    holding client i = some fd ↔ 0 ≤ fd ∧ client i = fd := by
  unfold holding
  split
  · simp only [reduceCtorEq, false_iff]
    omega
  · simp only [Option.some.injEq]
    omega

lemma holding_update (client : Ix → ℤ) (i : Ix) (fd : ℤ) : holding (Function.update client i fd) =
    Function.update (holding client) i (if fd < 0 then none else some fd) := by
  funext j
  by_cases hj : j = i
  · subst hj
    simp [holding]
  · simp [holding, hj]

/-- **The invariant of a round.** -/
structure Core (listenfd : ℤ) (s : St) : Prop where
  owned : Slots.Owned (fun fd => fd ∈ s.allset ∧ fd ≠ listenfd) (holding s.client)
  listen : listenfd ∈ s.allset
  opened : s.opened = s.allset
  maxfd : ∀ fd ∈ s.allset, fd ≤ s.maxfd
  maxi : ∀ i, 0 ≤ s.client i → (i : ℤ) ≤ s.maxi
  range : ∀ fd ∈ s.allset, InSet fd
  sets : ∀ fd ∈ s.sets, InSet fd
  gone : ∀ fd, (fd, Read.eof) ∈ s.reads → 0 ≤ fd ∧ fd ∈ s.closed ∧ fd ∉ s.allset

section Core

variable {listenfd : ℤ} {s : St} {i : Ix}

lemma Core.mem_allset (h : Core listenfd s) {fd : ℤ} :
    fd ∈ s.allset ↔ fd = listenfd ∨ 0 ≤ fd ∧ ∃ i, s.client i = fd := by
  constructor
  · intro hfd
    by_cases hl : fd = listenfd
    · exact Or.inl hl
    · obtain ⟨i, hi⟩ := h.owned.stored fd ⟨hfd, hl⟩
      obtain ⟨hpos, hi⟩ := holding_eq_some_iff.mp hi
      exact Or.inr ⟨hpos, i, hi⟩
  · rintro (rfl | ⟨hpos, i, hi⟩)
    · exact h.listen
    · exact (h.owned.held i fd (holding_eq_some_iff.mpr ⟨hpos, hi⟩)).1

lemma Core.client_mem (h : Core listenfd s) (hi : 0 ≤ s.client i) :
    s.client i ∈ s.allset ∧ s.client i ≠ listenfd :=
  h.owned.held i _ (holding_eq_some_iff.mpr ⟨hi, rfl⟩)

lemma Core.note (h : Core listenfd s) {fd : ℤ} (hfd : InSet fd) :
    Core listenfd { s with sets := s.sets ++ [fd] } :=
  { h with
    sets := fun k hk => by
      rcases List.mem_append.mp hk with hk | hk
      · exact h.sets k hk
      · exact List.mem_singleton.mp hk ▸ hfd }

lemma Core.begin (h : Core listenfd s) (ready : Finset ℤ) :
    Core listenfd { s with
      sets := s.sets ++ [listenfd], ready := ready, reads := [], closed := [], written := [] } :=
  { h.note (h.range _ h.listen) with gone := fun _ hm => absurd hm List.not_mem_nil }

lemma Core.newClient (h : Core listenfd s) {connfd : ℤ} (hset : InSet connfd)
    (hnew : connfd ∉ s.opened) (hreads : s.reads = []) {s' : St}
    (hs : newClient s connfd = some s') : Core listenfd s' := by
  obtain ⟨i, hi, rfl⟩ := Option.map_eq_some_iff.mp hs
  have hfree : s.client i < 0 := by simpa using List.find?_some hi
  rw [h.opened] at hnew
  have hne : connfd ≠ listenfd := fun hc => hnew (hc ▸ h.listen)
  have hnone : holding s.client i = none := if_pos hfree
  simp only [fdSet, if_pos hset, if_pos hset.1]
  refine ⟨?_, Finset.mem_insert_of_mem h.listen, congrArg (insert connfd) h.opened,
    fun fd hfd => ?_, fun j hj => ?_, fun fd hfd => ?_, (h.note hset).sets, fun fd hm => ?_⟩
  · have htake := h.owned.take hnone (k := connfd) fun hu => hnew hu.1
    have hused : (fun fd => fd ∈ insert connfd s.allset ∧ fd ≠ listenfd) =
        fun fd => fd = connfd ∨ fd ∈ s.allset ∧ fd ≠ listenfd := by
      funext fd
      by_cases hfd : fd = connfd
      · simp [hfd, hne]
      · simp [hfd]
    rw [hused, holding_update, if_neg (by have := hset.1; omega)]
    exact htake
  · rcases Finset.mem_insert.mp hfd with rfl | hfd
    · simp only
      split <;> omega
    · have := h.maxfd fd hfd
      simp only
      split <;> omega
  · by_cases hji : j = i
    · subst hji
      simp only
      split <;> omega
    · simp only [Function.update_of_ne hji] at hj
      have := h.maxi j hj
      simp only
      split <;> omega
  · rcases Finset.mem_insert.mp hfd with rfl | hfd
    · exact hset
    · exact h.range fd hfd
  · simp only [hreads] at hm
    exact absurd hm List.not_mem_nil

lemma Core.serveClient (h : Core listenfd s) (hi : 0 ≤ s.client i) (n : Read) :
    Core listenfd (serveClient s i (s.client i) n) := by
  obtain ⟨hmem, hne⟩ := h.client_mem hi
  have hgone : n ≠ .eof → ∀ fd, (fd, Read.eof) ∈ s.reads ++ [(s.client i, n)] →
      0 ≤ fd ∧ fd ∈ s.closed ∧ fd ∉ s.allset := by
    intro hn fd hm
    rcases List.mem_append.mp hm with hm | hm
    · exact h.gone fd hm
    · exact absurd (Prod.mk.inj (List.mem_singleton.mp hm)).2.symm hn
  cases n with
  | data bs => exact { h with gone := hgone (fun hn => by cases hn) }
  | error => exact { h with gone := hgone (by decide) }
  | eof =>
    refine ⟨?_, Finset.mem_erase.mpr ⟨hne.symm, h.listen⟩,
      congrArg (fun o => o.erase (s.client i)) h.opened,
      fun fd hfd => h.maxfd fd (Finset.mem_of_mem_erase hfd), fun j hj => ?_,
      fun fd hfd => h.range fd (Finset.mem_of_mem_erase hfd), (h.note (h.range _ hmem)).sets,
      fun fd hm => ?_⟩
    · have hrel := h.owned.release (holding_eq_some_iff.mpr ⟨hi, rfl⟩)
      have hused : (fun fd => fd ∈ s.allset.erase (s.client i) ∧ fd ≠ listenfd) =
          fun fd => fd ≠ s.client i ∧ fd ∈ s.allset ∧ fd ≠ listenfd := by
        funext fd
        simp [and_assoc]
      simp only [SelectServer.serveClient]
      rw [hused, holding_update, if_pos (by decide)]
      exact hrel
    · by_cases hji : j = i
      · subst hji
        simp only [SelectServer.serveClient, Function.update_self] at hj
        omega
      · simp only [SelectServer.serveClient, Function.update_of_ne hji] at hj
        exact h.maxi j hj
    · rcases List.mem_append.mp hm with hm | hm
      · obtain ⟨hpos, hclosed, hnot⟩ := h.gone fd hm
        exact ⟨hpos, List.mem_append_left _ hclosed, fun hc => hnot (Finset.mem_of_mem_erase hc)⟩
      · obtain rfl := (Prod.mk.inj (List.mem_singleton.mp hm)).1
        exact ⟨hi, List.mem_append_right _ (List.mem_singleton.mpr rfl),
          Finset.notMem_erase _ _⟩

end Core

/-! ### The loop over the clients -/

section Scan

variable {listenfd : ℤ} {r : Round} {s : St}

/-- **The invariant rule for the loop.** What the test of a client and serving one keep holds
behind the loop. -/
lemma scan_invariant {P : St → Prop}
    (hnote : ∀ s i, 0 ≤ s.client i → P s → P { s with sets := s.sets ++ [s.client i] })
    (hserve : ∀ s i, 0 ≤ s.client i → P s →
      P (serveClient s i (s.client i) (r.read (s.client i))))
    (hs : P s) (is : List Ix) (nready : ℤ) : P (scan r is nready s) := by
  induction is generalizing s nready with
  | nil => exact hs
  | cons i is ih =>
    rw [scan]
    split
    · exact ih hs nready
    · next hi =>
      have hi : 0 ≤ s.client i := by omega
      have hnoted := hnote s i hi hs
      simp only
      split
      · have hserved := hserve { s with sets := s.sets ++ [s.client i] } i hi hnoted
        split
        · exact hserved
        · exact ih hserved _
      · exact ih hnoted nready

lemma Core.scan (h : Core listenfd s) (is : List Ix) (nready : ℤ) :
    Core listenfd (scan r is nready s) :=
  scan_invariant (P := Core listenfd) (fun _ _ hi h => h.note (h.range _ (h.client_mem hi).1))
    (fun _ _ hi h => h.serveClient hi _) h is nready

def readyAt (r : Round) (client : Ix → ℤ) (i : Ix) : Bool := 0 ≤ client i ∧ client i ∈ r.ready

lemma serveClient_client {i j : Ix} (hji : j ≠ i) (s : St) (fd : ℤ) (n : Read) :
    (serveClient s i fd n).client j = s.client j := by
  cases n with
  | eof => exact Function.update_of_ne hji ..
  | data | error => rfl

lemma serveClient_reads (s : St) (i : Ix) (fd : ℤ) (n : Read) :
    (serveClient s i fd n).reads = s.reads ++ [(fd, n)] := by
  cases n <;> rfl

/-- **The counter stops the loop in time**: if it counts the ready clients to come, all of them are
read from, once and in order. -/
lemma scan_reads {is : List Ix} (hnd : is.Nodup) {nready : ℤ}
    (hcount : nready = (is.filter (readyAt r s.client)).length) :
    (scan r is nready s).reads = s.reads ++
      (is.filter (readyAt r s.client)).map fun i => (s.client i, r.read (s.client i)) := by
  induction is generalizing s nready with
  | nil => simp [scan]
  | cons i is ih =>
    obtain ⟨hi, hnd⟩ := List.nodup_cons.mp hnd
    rw [scan]
    split
    · next hneg =>
      have hskip : readyAt r s.client i = false := by
        simp only [readyAt, decide_eq_false_iff_not]
        omega
      rw [List.filter_cons_of_neg (by simp [hskip])] at hcount ⊢
      exact ih hnd hcount
    · next hpos =>
      simp only
      split
      · next hmem =>
        have hready : readyAt r s.client i = true := by
          simp only [readyAt, decide_eq_true_eq]
          exact ⟨by omega, hmem⟩
        rw [List.filter_cons_of_pos hready] at hcount ⊢
        rw [List.length_cons] at hcount
        generalize hs' : serveClient _ i (s.client i) (r.read (s.client i)) = s'
        have hclient : ∀ j ∈ is, s'.client j = s.client j := by
          intro j hj
          have hji : j ≠ i := fun hc => hi (hc ▸ hj)
          rw [← hs', serveClient_client hji]
        have hfilter : is.filter (readyAt r s'.client) = is.filter (readyAt r s.client) := by
          refine List.filter_congr fun j hj => ?_
          rw [readyAt, readyAt, hclient j hj]
        have hreads : s'.reads = s.reads ++ [(s.client i, r.read (s.client i))] := by
          rw [← hs', serveClient_reads]
        split
        · have hnil : is.filter (readyAt r s.client) = [] :=
            List.length_eq_zero_iff.mp (by omega)
          rw [hnil, hreads]
          rfl
        · rw [ih hnd (by rw [hfilter]; omega), hfilter, hreads, List.append_assoc, List.map_cons,
            List.singleton_append]
          congr 2
          refine List.map_congr_left fun j hj => ?_
          rw [hclient j (List.mem_of_mem_filter hj)]
      · next hmem =>
        have hskip : readyAt r s.client i = false := by
          simp only [readyAt, decide_eq_false_iff_not]
          exact fun hc => hmem hc.2
        rw [List.filter_cons_of_neg (by simp [hskip])] at hcount ⊢
        exact ih hnd hcount

lemma scan_client {j : Ix} (hj : r.read (s.client j) ≠ .eof) (is : List Ix) (nready : ℤ) :
    (scan r is nready s).client j = s.client j := by
  refine scan_invariant (P := fun t => t.client j = s.client j) (fun _ _ _ h => h)
    (fun t i _ h => ?_) rfl is nready
  by_cases hji : j = i
  · subst hji
    cases hn : r.read (t.client j) with
    | eof => exact absurd (h ▸ hn) hj
    | data | error => exact h
  · rw [serveClient_client hji, h]

lemma scan_ready (is : List Ix) (nready : ℤ) : (scan r is nready s).ready = s.ready := by
  refine scan_invariant (P := fun t => t.ready = s.ready) (fun _ _ _ h => h)
    (fun t i _ h => ?_) rfl is nready
  cases r.read (t.client i) <;> exact h

lemma mem_scan_sets {fd : ℤ} (hfd : fd ∈ s.sets) (is : List Ix) (nready : ℤ) :
    fd ∈ (scan r is nready s).sets := by
  refine scan_invariant (P := fun t => fd ∈ t.sets) (fun _ _ _ h => List.mem_append_left _ h)
    (fun t i _ h => ?_) hfd is nready
  cases r.read (t.client i) with
  | eof => exact List.mem_append_left _ h
  | data | error => exact h

/-- The clients that are ready, in the order of their entries. -/
def readyClients (r : Round) (s : St) : List ℤ :=
  ((indices s.maxi).filter (readyAt r s.client)).map s.client

lemma nodup_indices (maxi : ℤ) : (indices maxi).Nodup := (List.nodup_finRange _).filter _

lemma Core.mem_readyClients (h : Core listenfd s) (hsub : ∀ fd ∈ r.ready, fd ∈ s.allset) {fd : ℤ} :
    fd ∈ readyClients r s ↔ fd ∈ r.ready ∧ fd ≠ listenfd := by
  simp only [readyClients, indices, List.mem_map, List.mem_filter, List.mem_finRange, true_and,
    readyAt, decide_eq_true_eq]
  constructor
  · rintro ⟨i, ⟨-, hpos, hmem⟩, rfl⟩
    exact ⟨hmem, (h.client_mem hpos).2⟩
  · rintro ⟨hmem, hne⟩
    obtain ⟨i, hi⟩ := h.owned.stored fd ⟨hsub fd hmem, hne⟩
    obtain ⟨hpos, rfl⟩ := holding_eq_some_iff.mp hi
    exact ⟨i, ⟨h.maxi i hpos, hpos, hmem⟩, rfl⟩

lemma Core.nodup_readyClients (h : Core listenfd s) : (readyClients r s).Nodup := by
  refine List.Nodup.map_on (fun i hi j hj hij => ?_) ((nodup_indices _).filter _)
  simp only [List.mem_filter, readyAt, decide_eq_true_eq] at hi hj
  exact h.owned.alone i j _ (holding_eq_some_iff.mpr ⟨hi.2.1, rfl⟩)
    (holding_eq_some_iff.mpr ⟨hi.2.1, hij.symm⟩)

lemma Core.length_readyClients (h : Core listenfd s) (hsub : ∀ fd ∈ r.ready, fd ∈ s.allset) :
    (readyClients r s).length = (r.ready.erase listenfd).card := by
  rw [← List.toFinset_card_of_nodup h.nodup_readyClients]
  congr 1
  ext fd
  rw [List.mem_toFinset, h.mem_readyClients hsub, Finset.mem_erase, and_comm]

lemma Core.checkClients_reads (h : Core listenfd s) (hsub : ∀ fd ∈ r.ready, fd ∈ s.allset)
    (hreads : s.reads = []) {nready : ℤ} (hnready : nready = (r.ready.erase listenfd).card) :
    (checkClients r nready s).reads = (readyClients r s).map fun fd => (fd, r.read fd) := by
  have hcount : nready = ((indices s.maxi).filter (readyAt r s.client)).length := by
    rw [hnready, ← h.length_readyClients hsub, readyClients, List.length_map]
  rw [checkClients, scan_reads (nodup_indices _) hcount, hreads, List.nil_append, readyClients,
    List.map_map]
  rfl

end Scan

/-! ### Rounds -/

section Round

variable {listenfd : ℤ} {r : Round} {s : St}

/-- What the reads of a round say about the bookkeeping behind it. -/
structure Served (r : Round) (s t : St) : Prop where
  ready : t.ready = r.ready
  reads : t.reads = (readyClients r s).map fun fd => (fd, r.read fd)
  kept : ∀ j, r.read (s.client j) ≠ .eof → t.client j = s.client j

lemma Served.exact_iff {t : St} (h : Served r s t) (hs : Core listenfd s) (ht : Core listenfd t)
    (hsub : ∀ fd ∈ r.ready, fd ∈ s.allset) :
    Exact listenfd t ↔ ∀ fd ∈ r.ready, fd ≠ listenfd → r.read fd ≠ .error := by
  have hmem : ∀ {fd n}, (fd, n) ∈ t.reads ↔ (fd ∈ r.ready ∧ fd ≠ listenfd) ∧ n = r.read fd := by
    intro fd n
    rw [h.reads, List.mem_map]
    constructor
    · rintro ⟨k, hk, hkn⟩
      obtain ⟨rfl, rfl⟩ := Prod.mk.inj hkn
      exact ⟨(hs.mem_readyClients hsub).mp hk, rfl⟩
    · rintro ⟨hfd, rfl⟩
      exact ⟨fd, (hs.mem_readyClients hsub).mpr hfd, rfl⟩
  constructor
  · intro hexact fd hfd hne herr
    obtain ⟨-, hno⟩ := hexact.removed fd .error (hmem.mpr ⟨⟨hfd, hne⟩, herr.symm⟩) (Or.inr rfl)
    obtain ⟨i, hi⟩ := hs.owned.stored fd ⟨hsub fd hfd, hne⟩
    obtain ⟨-, rfl⟩ := holding_eq_some_iff.mp hi
    exact hno i (h.kept i (by rw [herr]; decide))
  · intro hsane
    refine ⟨fun fd => ht.mem_allset, ht.maxfd, ht.maxi, ht.sets, fun fd hfd hne => ?_,
      fun fd n hread hn => ?_⟩
    · have hfst : t.reads.map Prod.fst = readyClients r s := by
        rw [h.reads, List.map_map]
        exact List.map_id _
      rw [hfst]
      exact List.count_eq_one_of_mem hs.nodup_readyClients
        ((hs.mem_readyClients hsub).mpr ⟨h.ready ▸ hfd, hne⟩)
    · obtain ⟨⟨hfd, hne⟩, rfl⟩ := hmem.mp hread
      have heof : r.read fd = .eof := hn.resolve_right (hsane fd hfd hne)
      rw [heof] at hread
      obtain ⟨hpos, hclosed, hnot⟩ := ht.gone fd hread
      exact ⟨hclosed, fun i hi => hnot (ht.mem_allset.mpr (Or.inr ⟨hpos, i, hi⟩))⟩

lemma served_checkClients (h : Core listenfd s) (hsub : ∀ fd ∈ r.ready, fd ∈ s.allset)
    (hready : s.ready = r.ready) (hreads : s.reads = []) {nready : ℤ}
    (hnready : nready = (r.ready.erase listenfd).card) : Served r s (checkClients r nready s) where
  ready := by rw [checkClients, scan_ready, hready]
  reads := h.checkClients_reads hsub hreads hnready
  kept _ hj := by rw [checkClients, scan_client hj]

/-- The state in which `select` has returned. -/
def begun (listenfd : ℤ) (s : St) (r : Round) : St :=
  { s with
    sets := s.sets ++ [listenfd], ready := r.ready, reads := [], closed := [], written := [] }

lemma served_continue (h : Core listenfd s) (hsub : ∀ fd ∈ r.ready, fd ∈ s.allset)
    (hready : s.ready = r.ready) (hreads : s.reads = [])
    (hnready : (r.ready.erase listenfd).card = 0) : Served r s s where
  ready := hready
  reads := by
    have hnil : readyClients r s = [] :=
      List.length_eq_zero_iff.mp ((h.length_readyClients hsub).trans hnready)
    rw [hreads, hnil, List.map_nil]
  kept _ _ := rfl

lemma newClient_frame {connfd : ℤ} {s' : St} (hs : newClient s connfd = some s') :
    s'.ready = s.ready ∧ s'.reads = s.reads ∧ s.allset ⊆ s'.allset ∧ connfd ∈ s'.sets := by
  obtain ⟨i, -, rfl⟩ := Option.map_eq_some_iff.mp hs
  refine ⟨rfl, rfl, ?_, List.mem_append_right _ (List.mem_singleton.mpr rfl)⟩
  simp only [fdSet]
  split
  · exact Finset.subset_insert ..
  · exact subset_rfl

/-- The rest of a round behind the new client. -/
def goOn (r : Round) (nready : ℤ) (s : St) : St := if nready = 0 then s else checkClients r nready s

lemma served_goOn (h : Core listenfd s) (hsub : ∀ fd ∈ r.ready, fd ∈ s.allset)
    (hready : s.ready = r.ready) (hreads : s.reads = []) {nready : ℤ}
    (hnready : nready = (r.ready.erase listenfd).card) :
    Served r s (goOn r nready s) ∧ Core listenfd (goOn r nready s) := by
  unfold goOn
  split
  · exact ⟨served_continue h hsub hready hreads (by omega), h⟩
  · exact ⟨served_checkClients h hsub hready hreads hnready, h.scan _ _⟩

lemma mem_goOn_sets {fd : ℤ} (hfd : fd ∈ s.sets) (nready : ℤ) : fd ∈ (goOn r nready s).sets := by
  unfold goOn
  split
  · exact hfd
  · exact mem_scan_sets hfd _ _

lemma round_new (h : Core listenfd s) (hsub : ∀ fd ∈ r.ready, fd ∈ s.allset)
    (hready : s.ready = r.ready) (hreads : s.reads = []) (hlisten : listenfd ∈ r.ready)
    (hfresh : r.connfd = -1 ∨ 0 ≤ r.connfd ∧ r.connfd ∉ s.opened) {s₁ : St}
    (hs : newClient s r.connfd = some s₁) :
    (Exact listenfd (goOn r (r.ready.card - 1) s₁) ↔ Sane listenfd r) ∧
      (Sane listenfd r → Core listenfd (goOn r (r.ready.card - 1) s₁)) := by
  obtain ⟨hready₁, hreads₁, hsub₁, hsets⟩ := newClient_frame hs
  have hcard : ((r.ready.card : ℤ) - 1) = (r.ready.erase listenfd).card := by
    have hpos := Finset.card_pos.mpr ⟨listenfd, hlisten⟩
    rw [Finset.card_erase_of_mem hlisten]
    omega
  by_cases hset : InSet r.connfd
  · have hnew : r.connfd ∉ s.opened := by
      rcases hfresh with hc | hc
      · rw [hc] at hset
        exact absurd hset (by decide)
      · exact hc.2
    have h₁ := h.newClient hset hnew hreads hs
    have hsub' : ∀ fd ∈ r.ready, fd ∈ s₁.allset := fun fd hfd => hsub₁ (hsub fd hfd)
    obtain ⟨hserved, hcore⟩ := served_goOn h₁ hsub' (hready₁.trans hready)
      (hreads₁.trans hreads) hcard
    refine ⟨(hserved.exact_iff h₁ hcore hsub').trans ?_, fun _ => hcore⟩
    exact ⟨fun hall => ⟨fun _ => hset, hall⟩, fun hsane => hsane.2⟩
  · -- the macro has been applied to a descriptor without a bit
    have hbad : ¬ Sane listenfd r := fun hsane => hset (hsane.1 hlisten)
    refine ⟨iff_of_false (fun hexact => ?_) hbad, fun hsane => absurd hsane hbad⟩
    exact hset (hexact.sets _ (mem_goOn_sets hsets _))

/-- **One round.** The bookkeeping stays exact if and only if the round is sane. -/
lemma round_step {s' : St} (h : Core listenfd s) (hs : round listenfd s r = some s') :
    (Exact listenfd s' ↔ Sane listenfd r) ∧ (Sane listenfd r → Core listenfd s') := by
  obtain ⟨⟨hask, hfresh, -⟩, hs⟩ := Option.ite_none_right_eq_some.mp hs
  have hbegun : Core listenfd (begun listenfd s r) := h.begin r.ready
  have hsub : ∀ fd ∈ r.ready, fd ∈ s.allset := fun fd hfd => (hask fd hfd).1
  simp only at hs
  split at hs
  · next hlisten =>
    obtain ⟨s₁, hnew, rfl⟩ := Option.map_eq_some_iff.mp hs
    exact round_new hbegun hsub rfl rfl hlisten hfresh hnew
  · next hlisten =>
    have hcard : (r.ready.card : ℤ) = (r.ready.erase listenfd).card := by
      rw [Finset.erase_eq_of_notMem hlisten]
    obtain rfl := Option.some.inj hs
    have hserved := served_checkClients hbegun hsub rfl rfl hcard
    have hcore : Core listenfd (checkClients r r.ready.card (begun listenfd s r)) :=
      hbegun.scan _ _
    refine ⟨(hserved.exact_iff hbegun hcore hsub).trans ?_, fun _ => hcore⟩
    exact ⟨fun hall => ⟨fun hc => absurd hc hlisten, hall⟩, fun hsane => hsane.2⟩

end Round

lemma core_init {listenfd : ℤ} (h : InSet listenfd) : Core listenfd (init listenfd) := by
  have hall : (init listenfd).allset = {listenfd} := if_pos h
  have hused : (fun fd => fd ∈ (init listenfd).allset ∧ fd ≠ listenfd) = fun _ => False := by
    funext fd
    simp [hall]
  have hnone : holding (init listenfd).client = fun _ => none := by
    funext i
    simp [holding, init]
  refine ⟨?_, hall ▸ Finset.mem_singleton_self _, hall.symm, fun fd hfd => ?_, fun i hi => ?_,
    fun fd hfd => ?_, fun fd hfd => ?_, fun fd hm => absurd hm List.not_mem_nil⟩
  · rw [hused, hnone]
    exact Slots.owned_empty
  · rw [hall] at hfd
    exact (Finset.mem_singleton.mp hfd).le
  · exact absurd hi (by simp [init])
  · rw [hall] at hfd
    exact Finset.mem_singleton.mp hfd ▸ h
  · exact List.mem_singleton.mp hfd ▸ h

/-- **When the bookkeeping of the server is exact**: at the top of every round exactly if the
listening socket and all new connections have descriptors that fit into an `fd_set` and no `read`
fails. -/
theorem select_exact_iff {listenfd : ℤ} {s : St} {rounds : List Round}
    (h : exec (round listenfd) (init listenfd) rounds = some s) :
    Always (round listenfd) (Exact listenfd) (init listenfd) rounds ↔
      InSet listenfd ∧ ∀ r ∈ rounds, Sane listenfd r := by
  by_cases hset : InSet listenfd
  · rw [and_iff_right hset, ← guarded_iff_forall h]
    refine always_iff_guarded (I := fun s => Core listenfd s ∧ Exact listenfd s)
      (fun _ hi => hi.2) (fun u r v hi hok hv => ?_) (fun u r v hi hbad hv => ?_) h
      ⟨core_init hset, ?_⟩
    · obtain ⟨hexact, hcore⟩ := round_step hi.1 hv
      exact ⟨hcore hok, hexact.mpr hok⟩
    · exact mt (round_step hi.1 hv).1.mp hbad
    · have hinit := core_init hset
      exact ⟨fun fd => hinit.mem_allset, hinit.maxfd, hinit.maxi, hinit.sets,
        fun fd hfd => absurd hfd (Finset.notMem_empty fd),
        fun fd n hm => absurd hm List.not_mem_nil⟩
  · refine iff_of_false (fun hall => hset ?_) fun hc => hset hc.1
    exact hall.head.sets listenfd (List.mem_singleton.mpr rfl)

def connects (fd : ℤ) : Round := ⟨{3}, fd, fun _ => .eof⟩

/-- A failed `accept` makes the server set a bit that does not exist, and a client whose `read`
failed is neither closed nor removed. -/
theorem select_not_exact :
    (∃ s, exec (round 3) (init 3) [connects (-1)] = some s ∧ -1 ∈ s.sets) ∧
    ∃ s, exec (round 3) (init 3) [connects 4, ⟨{4}, -1, fun _ => .error⟩] = some s ∧
      s.reads = [(4, .error)] ∧ s.closed = [] ∧ s.client ⟨0, by decide⟩ = 4 := by
  constructor
  · apply exists_exec_of_any
    decide +kernel
  · apply exists_exec_of_any
    decide +kernel

instance (listenfd : ℤ) (r : Round) : Decidable (Sane listenfd r) :=
  inferInstanceAs (Decidable (_ ∧ _))

/-- Two clients, of which the first sends a text and leaves. -/
def comeAndGo : List Round :=
  [connects 4, ⟨{3, 4}, 5, fun _ => .data [104, 105]⟩, ⟨{4}, -1, fun _ => .eof⟩]

theorem select_exact_iff_comeAndGo :
    (∃ s, exec (round 3) (init 3) comeAndGo = some s ∧ s.allset = {3, 5}) ∧
      Always (round 3) (Exact 3) (init 3) comeAndGo := by
  have hrun : ∃ s, exec (round 3) (init 3) comeAndGo = some s ∧ s.allset = {3, 5} := by
    apply exists_exec_of_any
    decide +kernel
  obtain ⟨s, hs, hset⟩ := hrun
  exact ⟨⟨s, hs, hset⟩, (select_exact_iff hs).mpr ⟨by decide, by decide⟩⟩

end LinuxSamples.SelectServer
