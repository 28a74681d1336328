import LinuxSamples.FifoSeqnumSafe

/-!
The sequence number service without kills and failures: every request is answered in the end.

The two calls of `open` on the FIFO of a client wait for each other. A client has made its FIFO
before it sends its request and comes to open it whatever the others do, so the server waits only
for a client that can take a step, and the requests are served in their order.
-/

namespace LinuxSamples.FifoSeqnum

open Run

variable {n : ℕ} {req : Fin n → Request} {s s' : St n}

/-- The actions without a kill and without an `open` that fails. -/
def Act.quiet : Act n → Bool
  | .fail _ => false
  | .kill _ => false
  | .skip => false
  | _ => true

/-- The server has come to open the FIFO of the client and has not closed it without a response in
it. -/
def St.Connected (req : Fin n → Request) (s : St n) (c : Fin n) (g : ℕ) : Prop :=
  s.server = .opening c g true ∨ s.server = .write c g ∨ s.buf ((req c).pid, g) ≠ []

/-- What holds for a client at each point. -/
inductive Ok (req : Fin n → Request) (s : St n) (c : Fin n) : Pc → Prop
  | unborn : Ok req s c .unborn
  | mkfifo : Ok req s c .mkfifo
  | openServer (hf : s.fifo (req c).pid ≠ none) : Ok req s c .openServer
  | write (hf : s.fifo (req c).pid ≠ none) (ho : s.opened = true) : Ok req s c .write
  | openOwn (hf : s.fifo (req c).pid ≠ none) (ho : s.opened = true)
      (hq : c ∈ s.queue ∨ s.server = .openClient c) : Ok req s c .openOwn
  | awaited (g : ℕ) (hf : s.fifo (req c).pid = some g) (ho : s.opened = true)
      (hq : s.server = .opening c g false) : Ok req s c .openOwn
  | opening (g : ℕ) (hf : s.fifo (req c).pid = some g) (ho : s.opened = true)
      (hq : c ∈ s.queue ∨ s.server = .openClient c) : Ok req s c (.opening g false)
  | met (g : ℕ) (hf : s.fifo (req c).pid = some g) (ho : s.opened = true)
      (hc : s.Connected req c g) : Ok req s c (.opening g true)
  | read (g : ℕ) (hf : s.fifo (req c).pid = some g) (ho : s.opened = true)
      (hc : s.Connected req c g) : Ok req s c (.read g)
  | exit (g : Option ℕ) (hx : s.printed c ≠ none)
      (hb : ∀ g', s.server = .close c g' → s.buf ((req c).pid, g') = []) : Ok req s c (.exit g)
  | gone (hx : s.printed c ≠ none)
      (hb : ∀ g, s.server = .close c g → s.buf ((req c).pid, g) = [])
      (hf : ∀ g, s.server = .close c g → s.fifo (req c).pid ≠ some g) : Ok req s c .gone

/-- The invariant of the runs without kills and failures. -/
structure Settled (req : Fin n → Request) (s : St n) : Prop where
  addressed : Addressed req s
  counted : Counted req s
  once : ∀ k, (s.buf k).length ≤ 1
  made : ∀ p g, s.fifo p = some g → g < s.made
  named : ∀ c g, s.server.fd = some (c, g) →
    g < s.made ∧ ((s.pc c).live = true → s.fifo (req c).pid = some g)
  ok : ∀ c, Ok req s c (s.pc c)

lemma Ok.frame {c : Fin n} {p : Pc} (h : Ok req s c p)
    (hfifo : p.live = true → s'.fifo (req c).pid = s.fifo (req c).pid)
    (hopened : s.opened = true → s'.opened = true) (hqueue : c ∈ s.queue → c ∈ s'.queue)
    (hpending : s.server.pending = some c → s'.server = s.server)
    (hbuf : ∀ g, p.fd = some g → s.buf ((req c).pid, g) ≠ [] → s'.buf ((req c).pid, g) ≠ [])
    (hclose : ∀ g, s'.server = .close c g → s.server = .close c g ∧
      (s.buf ((req c).pid, g) = [] → s'.buf ((req c).pid, g) = []) ∧
      (p.live = false → s.fifo (req c).pid ≠ some g → s'.fifo (req c).pid ≠ some g))
    (hprinted : s.printed c ≠ none → s'.printed c ≠ none) : Ok req s' c p := by
  have hwait : c ∈ s.queue ∨ s.server = .openClient c →
      c ∈ s'.queue ∨ s'.server = .openClient c := by
    refine Or.imp hqueue fun hq => ?_
    rw [hpending (by rw [hq]; rfl), hq]
  have hconn : ∀ g, p.fd = some g → s.Connected req c g → s'.Connected req c g := by
    rintro g hg (hq | hq | hb)
    · exact Or.inl (by rw [hpending (by rw [hq]; rfl), hq])
    · exact Or.inr (Or.inl (by rw [hpending (by rw [hq]; rfl), hq]))
    · exact Or.inr (Or.inr (hbuf g hg hb))
  cases h with
  | unborn => exact .unborn
  | mkfifo => exact .mkfifo
  | openServer hf => exact .openServer (by rwa [hfifo rfl])
  | write hf ho => exact .write (by rwa [hfifo rfl]) (hopened ho)
  | openOwn hf ho hq => exact .openOwn (by rwa [hfifo rfl]) (hopened ho) (hwait hq)
  | awaited g hf ho hq =>
    exact .awaited g (by rwa [hfifo rfl]) (hopened ho) (by rw [hpending (by rw [hq]; rfl), hq])
  | opening g hf ho hq => exact .opening g (by rwa [hfifo rfl]) (hopened ho) (hwait hq)
  | met g hf ho hc => exact .met g (by rwa [hfifo rfl]) (hopened ho) (hconn g rfl hc)
  | read g hf ho hc => exact .read g (by rwa [hfifo rfl]) (hopened ho) (hconn g rfl hc)
  | exit g hx hb =>
    refine .exit g (hprinted hx) fun g' hq => ?_
    obtain ⟨hq, hempty, -⟩ := hclose g' hq
    exact hempty (hb g' hq)
  | gone hx hb hf =>
    refine .gone (hprinted hx) (fun g hq => ?_) fun g hq => ?_
    · obtain ⟨hq, hempty, -⟩ := hclose g hq
      exact hempty (hb g hq)
    · obtain ⟨hq, -, hname⟩ := hclose g hq
      exact hname rfl (hf g hq)

/-! ### Requests that wait -/

lemma Counted.not_mem_queue (h : Counted req s) {c : Fin n} (hc : s.server.pending = some c) :
    c ∉ s.queue := by
  have hnodup := (List.nodup_append.mp h.nodup).2.1
  rw [hc] at hnodup
  exact (List.nodup_cons.mp hnodup).1

lemma Counted.owner_ne (h : Counted req s) {c : Fin n}
    (hc : c ∈ s.queue ∨ s.server.pending = some c) {x : Response n} (hx : x ∈ s.served) :
    x.owner ≠ c := by
  have hmem : c ∈ s.server.pending.toList ++ s.queue := by
    rw [List.mem_append, Option.mem_toList]
    exact hc.symm
  exact (List.nodup_append.mp h.nodup).2.2 x.owner (List.mem_map_of_mem hx) c hmem

namespace Settled

lemma start : Settled req (start : St n) where
  addressed := Addressed.start
  counted := Counted.start
  once := fun _ => Nat.zero_le 1
  made := fun _ _ h => by cases h
  named := fun _ _ h => by cases h
  ok := fun _ => .unborn

lemma printed_eq_none (h : Settled req s) {c : Fin n}
    (hc : c ∈ s.queue ∨ s.server.pending = some c) : s.printed c = none := by
  cases hx : s.printed c with
  | none => rfl
  | some x =>
    exact absurd (h.addressed.printed c x hx) (h.counted.owner_ne hc (h.counted.printed c x hx))

lemma buf_eq_nil (h : Settled req s) {c : Fin n} {g : ℕ}
    (hc : c ∈ s.queue ∨ s.server.pending = some c)
    (hfd : (s.pc c).fd = some g ∨ s.server.fd = some (c, g)) : s.buf ((req c).pid, g) = [] := by
  refine List.eq_nil_iff_forall_not_mem.mpr fun x hx => ?_
  refine h.counted.owner_ne hc (h.counted.buf _ x hx) ?_
  rcases hfd with hfd | hfd
  · exact h.addressed.reader c g hfd x hx
  · exact h.addressed.writer c g hfd x hx

lemma waits (h : Settled req s) {c : Fin n} (hc : c ∈ s.queue ∨ s.server = .openClient c) :
    s.opened = true ∧ (s.pc c = .openOwn ∧ s.fifo (req c).pid ≠ none ∨
      ∃ g, s.pc c = .opening g false ∧ s.fifo (req c).pid = some g) := by
  have hc' : c ∈ s.queue ∨ s.server.pending = some c := hc.imp_right fun hq => by rw [hq]; rfl
  have hpast : (s.pc c).past = true :=
    h.counted.past c (h.counted.mem_requests_of_outstanding
      (hc'.elim Or.inl outstanding_of_pending))
  have hnot : ∀ g, (s.pc c).fd = some g → ¬ s.Connected req c g := by
    rintro g hg (hq | hq | hb)
    · rcases hc with hc | hc
      · exact h.counted.not_mem_queue (by rw [hq]; rfl) hc
      · exact absurd (hq.symm.trans hc) (by simp)
    · rcases hc with hc | hc
      · exact h.counted.not_mem_queue (by rw [hq]; rfl) hc
      · exact absurd (hq.symm.trans hc) (by simp)
    · exact hb (h.buf_eq_nil hc' (Or.inl hg))
  have hok := h.ok c
  generalize s.pc c = p at hok hpast hnot ⊢
  cases hok with
  | unborn => cases hpast
  | mkfifo => cases hpast
  | openServer hf => cases hpast
  | write hf ho => cases hpast
  | openOwn hf ho hq => exact ⟨ho, Or.inl ⟨rfl, hf⟩⟩
  | awaited g hf ho hq => exact ⟨ho, Or.inl ⟨rfl, by simp [hf]⟩⟩
  | opening g hf ho hq => exact ⟨ho, Or.inr ⟨g, rfl, hf⟩⟩
  | met g hf ho hq => exact absurd hq (hnot g rfl)
  | read g hf ho hq => exact absurd hq (hnot g rfl)
  | exit g hx hb => exact absurd (h.printed_eq_none hc') hx
  | gone hx hb hf => exact absurd (h.printed_eq_none hc') hx

lemma live_of_outstanding (h : Settled req s) {c : Fin n} (hc : s.Outstanding req c) :
    (s.pc c).live = true := by
  have hpast := h.counted.past c (h.counted.mem_requests_of_outstanding hc)
  have hok := h.ok c
  generalize s.pc c = p at hok hpast ⊢
  cases hok with
  | unborn => cases hpast
  | gone hx hb hf =>
    rcases outstanding_iff.mp hc with hq | hq | ⟨g, hq, hne⟩
    · exact absurd (h.printed_eq_none (Or.inl hq)) hx
    · exact absurd (h.printed_eq_none (Or.inr hq)) hx
    · exact absurd (hb g hq) hne
  | _ => rfl

lemma fresh (h : Settled req s) {a : Act n} (hstep : step req s a = some s') : Fresh req s a := by
  cases step_cases hstep with
  | start c hp hd =>
    intro d hout hpid
    have hlive := h.live_of_outstanding hout
    rw [hd d hpid] at hlive
    cases hlive
  | client c _ hc => trivial
  | fail c hp => trivial
  | kill c hp => trivial
  | server _ hc => trivial
  | skip hq => trivial

end Settled

/-! ### Steps of a client -/

structure Local (req : Fin n → Request) (c : Fin n) (s s' : St n) : Prop where
  pc : ∀ d, d ≠ c → s'.pc d = s.pc d
  fifo : ∀ p, p ≠ (req c).pid → s'.fifo p = s.fifo p
  name : ∀ g, s'.fifo (req c).pid = some g →
    s.fifo (req c).pid = some g ∨ g = s.made ∧ s.made < s'.made
  own : (s.pc c).past = true → (s'.pc c).live = true →
    (s.pc c).live = true ∧ s'.fifo (req c).pid = s.fifo (req c).pid
  made : s.made ≤ s'.made
  opened : s.opened = true → s'.opened = true
  queue : ∀ d ∈ s.queue, d ∈ s'.queue
  pending : ∀ d, (req d).pid ≠ (req c).pid → s.server.pending = some d → s'.server = s.server
  fd : s'.server.fd = s.server.fd
  close : ∀ d g, s'.server = .close d g → s.server = .close d g
  buf : ∀ p, p ≠ (req c).pid → ∀ g, s'.buf (p, g) = s.buf (p, g)
  less : ∀ k, (s'.buf k).Sublist (s.buf k)
  printed : ∀ d, s.printed d ≠ none → s'.printed d ≠ none

lemma local_setPc {c : Fin n} (p : Pc) (hc : (s.pc c).past = true → (s.pc c).live = true) :
    Local req c s (s.setPc c p) where
  pc := fun d hd => by rw [setPc_pc, Function.update_of_ne hd]
  fifo := fun _ _ => rfl
  name := fun _ h => Or.inl h
  own := fun hpast _ => ⟨hc hpast, rfl⟩
  made := le_rfl
  opened := id
  queue := fun _ h => h
  pending := fun _ _ _ => rfl
  fd := rfl
  close := fun _ _ h => h
  buf := fun _ _ _ => rfl
  less := fun _ => List.Sublist.refl _
  printed := fun _ h => h

lemma bufOnOpen_of_ne {p g : ℕ} {k : ℕ × ℕ} (hk : k.1 ≠ p) :
    s.bufOnOpen req p g k = s.buf k := by
  unfold St.bufOnOpen
  split
  · rfl
  · exact Function.update_of_ne (fun h => hk (congrArg Prod.fst h)) _ _

lemma bufOnOpen_sublist (p g : ℕ) (k : ℕ × ℕ) : (s.bufOnOpen req p g k).Sublist (s.buf k) := by
  unfold St.bufOnOpen
  split
  · exact List.Sublist.refl _
  · rcases eq_or_ne k (p, g) with rfl | hk
    · rw [Function.update_self]
      exact List.nil_sublist _
    · rw [Function.update_of_ne hk]

lemma Server.meet_of_ne {p g : ℕ} {q : Server n} {d : Fin n} (hd : (req d).pid ≠ p)
    (hq : q.pending = some d) : q.meet req p g = q := by
  cases q <;> simp_all [Server.meet, Server.pending]

lemma ClientStep.local {c : Fin n} (h : ClientStep req s c s') : Local req c s s' := by
  have hmove : ∀ p, (s.pc c).live = true → Local req c s (s.setPc c p) := fun p hlive =>
    local_setPc p fun _ => hlive
  cases h with
  | mkfifo hp =>
    refine { hmove .openServer (by rw [hp]; rfl) with
      fifo := fun p hne => Function.update_of_ne hne _ _
      name := fun g hg => ?_
      own := fun hpast => ?_
      made := Nat.le_succ s.made }
    · change Function.update s.fifo _ _ _ = some g at hg
      rw [Function.update_self, Option.some.injEq] at hg
      cases hf : s.fifo (req c).pid with
      | none => exact Or.inr ⟨by simpa [hf] using hg.symm, Nat.lt_succ_self s.made⟩
      | some g' => exact Or.inl (by simpa [hf] using hg)
    · rw [hp] at hpast
      cases hpast
  | openServer hp => exact { hmove .write (by rw [hp]; rfl) with opened := fun _ => rfl }
  | write hp =>
    exact { hmove .openOwn (by rw [hp]; rfl) with
      queue := fun d hd => List.mem_append_left _ hd }
  | missing hp hf => exact hmove _ (by rw [hp]; rfl)
  | enter g hp hf =>
    exact { hmove (.opening g (decide (s.HasWriter req (req c).pid g))) (by rw [hp]; rfl) with
      pending := fun d hd hq => Server.meet_of_ne hd hq
      fd := Server.fd_meet _ _ _
      close := fun _ _ => Server.meet_eq_close_iff.mp
      buf := fun p hp g => bufOnOpen_of_ne hp
      less := bufOnOpen_sublist _ _ }
  | opened g hp => exact hmove _ (by rw [hp]; rfl)
  | read g x xs hp hb =>
    refine { hmove (.exit (some g)) (by rw [hp]; rfl) with
      buf := fun p hne g' => Function.update_of_ne (fun h => hne (congrArg Prod.fst h)) _ _
      less := fun k => ?_
      printed := fun d hd => ?_ }
    · rw [receive_buf]
      rcases eq_or_ne k ((req c).pid, g) with rfl | hk
      · rw [Function.update_self, hb]
        exact List.sublist_cons_self x xs
      · rw [Function.update_of_ne hk]
    · rw [receive_printed]
      rcases eq_or_ne d c with rfl | hdc
      · simp
      · rwa [Function.update_of_ne hdc]
  | eof g hp hb hw => exact hmove _ (by rw [hp]; rfl)
  | exit g hp =>
    refine { hmove .gone (by rw [hp]; rfl) with
      fifo := fun p hne => Function.update_of_ne hne _ _
      name := fun g hg => ?_
      own := fun _ hlive => ?_ }
    · change Function.update s.fifo _ _ _ = some g at hg
      rw [Function.update_self] at hg
      cases hg
    · simp [St.setPc, Pc.live] at hlive

lemma receive_pc (c : Fin n) (g : ℕ) (x : Response n) (xs : List (Response n)) :
    (s.receive req c g x xs).pc = Function.update s.pc c (.exit (some g)) := rfl

lemma Pc.eq_gone {p : Pc} (hpast : p.past = true) (hlive : p.live = false) : p = .gone := by
  cases p <;> simp_all [Pc.past, Pc.live]

namespace Settled

lemma past_of_fd (h : Settled req s) {c : Fin n} {g : ℕ} (hc : s.server.fd = some (c, g)) :
    (s.pc c).past = true := by
  refine h.counted.past c ?_
  rcases Server.pending_or_close_of_fd hc with hq | hq
  · exact h.counted.mem_requests_of_outstanding (outstanding_of_pending hq)
  · exact List.mem_append_left _ (h.counted.sent c g hq)

lemma of_local (h : Settled req s) {c : Fin n} (hl : Local req c s s')
    (huniq : ∀ d, d ≠ c → (s.pc d).live = true → (req d).pid ≠ (req c).pid)
    (ha : Addressed req s') (hc : Counted req s') (hok : Ok req s' c (s'.pc c)) :
    Settled req s' := by
  have hempty : ∀ k, s.buf k = [] → s'.buf k = [] := fun k hk =>
    List.sublist_nil.mp (hk ▸ hl.less k)
  have hname : ∀ p g, s'.fifo p = some g → s.fifo p = some g ∨ g = s.made ∧ s.made < s'.made := by
    intro p g hg
    rcases eq_or_ne p (req c).pid with rfl | hp
    · exact hl.name g hg
    · exact Or.inl (hl.fifo p hp ▸ hg)
  refine ⟨ha, hc, fun k => (hl.less k).length_le.trans (h.once k), fun p g hg => ?_,
    fun d g hd => ?_, fun d => ?_⟩
  · rcases hname p g hg with hold | ⟨rfl, hlt⟩
    · exact (h.made p g hold).trans_le hl.made
    · exact hlt
  · rw [hl.fd] at hd
    obtain ⟨hlt, hsame⟩ := h.named d g hd
    refine ⟨hlt.trans_le hl.made, fun hlive => ?_⟩
    have hpast := h.past_of_fd hd
    rcases eq_or_ne d c with rfl | hdc
    · obtain ⟨hlive, hfifo⟩ := hl.own hpast hlive
      rw [hfifo]
      exact hsame hlive
    · rw [hl.pc d hdc] at hlive
      rw [hl.fifo _ (huniq d hdc hlive)]
      exact hsame hlive
  · rcases eq_or_ne d c with rfl | hdc
    · exact hok
    · rw [hl.pc d hdc]
      have hpid : (s.pc d).live = true → (req d).pid ≠ (req c).pid := huniq d hdc
      refine (h.ok d).frame (fun hlive => hl.fifo _ (hpid hlive)) hl.opened (hl.queue d)
        (fun hq => hl.pending d (hpid ?_) hq) (fun g hfd hne => ?_) (fun g hq => ?_) (hl.printed d)
      · exact h.live_of_outstanding (outstanding_of_pending hq)
      · rwa [hl.buf _ (hpid (Pc.live_of_fd hfd))]
      · refine ⟨hl.close d g hq, hempty _, fun _ hf hf' => ?_⟩
        rcases hname _ g hf' with hold | ⟨rfl, -⟩
        · exact hf hold
        · exact lt_irrefl _ (h.named d s.made (by rw [hl.close d _ hq]; rfl)).1

lemma not_hasWriter (h : Settled req s) {c : Fin n} {g : ℕ} (hp : s.pc c = .openOwn)
    (hc : c ∈ s.queue ∨ s.server = .openClient c) (hf : s.fifo (req c).pid = some g) :
    ¬ s.HasWriter req (req c).pid g := by
  intro hw
  have hlive : (s.pc c).live = true := by rw [hp]; rfl
  obtain ⟨d, hd, hpid⟩ := hasWriter_iff.mp hw
  have hqueue : c ∈ s.queue := by
    refine hc.resolve_right fun hq => ?_
    rw [hq] at hd
    cases hd
  rcases Server.pending_or_close_of_fd hd with hq | hq
  · obtain rfl := h.addressed.outstanding d c (outstanding_of_pending hq) hlive hpid.symm
    exact h.counted.not_mem_queue hq hqueue
  · rcases eq_or_ne d c with rfl | hdc
    · obtain ⟨x, hx, howner⟩ := List.mem_map.mp (h.counted.sent d g hq)
      exact h.counted.owner_ne (Or.inl hqueue) hx howner
    · -- the FIFO that is being closed is that of a client that has ended and removed its name
      have hgone : s.pc d = .gone := by
        refine Pc.eq_gone (h.past_of_fd hd) ?_
        by_contra hl
        exact hdc (h.addressed.live c d hlive (by simpa using hl) hpid)
      have hok := h.ok d
      rw [hgone] at hok
      cases hok with
      | gone hx hb hname => exact hname g hq (hpid ▸ hf)

lemma ok_enter (h : Settled req s) {c : Fin n} {g : ℕ} (hp : s.pc c = .openOwn)
    (hf : s.fifo (req c).pid = some g) :
    Ok req (s.enter req c g) c ((s.enter req c g).pc c) := by
  have hok := h.ok c
  rw [hp] at hok
  rw [enter_pc, Function.update_self]
  cases hok with
  | openOwn hf' ho hq =>
    rw [decide_eq_false (h.not_hasWriter hp hq hf)]
    exact .opening g hf ho (hq.imp_right fun hq => by rw [enter_server, hq]; rfl)
  | awaited g' hf' ho hq =>
    obtain rfl : g' = g := Option.some.inj (hf'.symm.trans hf)
    rw [decide_eq_true (hasWriter_iff.mpr ⟨c, by rw [hq]; rfl, rfl⟩)]
    exact .met g' hf ho (Or.inl (by rw [enter_server, hq]; simp [Server.meet]))

lemma ok_receive (h : Settled req s) {c : Fin n} {g : ℕ} {x : Response n}
    {xs : List (Response n)} (hp : s.pc c = .read g) (hb : s.buf ((req c).pid, g) = x :: xs) :
    Ok req (s.receive req c g x xs) c ((s.receive req c g x xs).pc c) := by
  have hok := h.ok c
  rw [hp] at hok
  rw [receive_pc, Function.update_self]
  refine .exit (some g) ?_ fun g' hq => ?_
  · rw [receive_printed, Function.update_self]
    simp
  · cases hok with
    | read _ hf ho hc =>
      -- the server closes the FIFO that the client has read, and it held one response
      have hf' := (h.named c g' (by rw [show s.server = _ from hq]; rfl)).2 (by rw [hp]; rfl)
      obtain rfl : g = g' := Option.some.inj (hf.symm.trans hf')
      have honce := h.once ((req c).pid, g)
      rw [hb, List.length_cons] at honce
      rw [receive_buf, Function.update_self]
      exact List.eq_nil_of_length_eq_zero (by omega)

lemma not_eof (h : Settled req s) {c : Fin n} {g : ℕ} (hp : s.pc c = .read g)
    (hb : s.buf ((req c).pid, g) = []) : s.HasWriter req (req c).pid g := by
  have hok := h.ok c
  rw [hp] at hok
  cases hok with
  | read _ hf ho hc =>
    rcases hc with hq | hq | hne
    · exact hasWriter_iff.mpr ⟨c, by rw [hq]; rfl, rfl⟩
    · exact hasWriter_iff.mpr ⟨c, by rw [hq]; rfl, rfl⟩
    · exact absurd hb hne

lemma ok_client (h : Settled req s) {c : Fin n} (hstep : ClientStep req s c s') :
    Ok req s' c (s'.pc c) := by
  have hok := h.ok c
  cases hstep with
  | mkfifo hp =>
    rw [setPc_pc, Function.update_self]
    exact .openServer (by simp)
  | openServer hp =>
    rw [hp] at hok
    rw [setPc_pc, Function.update_self]
    cases hok with
    | openServer hf => exact .write hf rfl
  | write hp =>
    rw [hp] at hok
    rw [setPc_pc, Function.update_self]
    cases hok with
    | write hf ho =>
      exact .openOwn hf ho (Or.inl (List.mem_append_right _ (List.mem_singleton_self c)))
  | missing hp hf =>
    rw [hp] at hok
    cases hok with
    | openOwn hf' ho hq => exact absurd hf hf'
    | awaited g hf' ho hq => simp [hf] at hf'
  | enter g hp hf => exact h.ok_enter hp hf
  | opened g hp =>
    rw [hp] at hok
    rw [setPc_pc, Function.update_self]
    cases hok with
    | met _ hf ho hc => exact .read g hf ho hc
  | read g x xs hp hb => exact h.ok_receive hp hb
  | eof g hp hb hw => exact absurd (h.not_eof hp hb) hw
  | exit g hp =>
    rw [hp] at hok
    rw [setPc_pc, Function.update_self]
    cases hok with
    | exit _ hx hb => exact .gone hx hb fun g' _ => by simp

lemma client (h : Settled req s) {c : Fin n} (hstep : ClientStep req s c s') :
    Settled req s' := by
  have hlive : (s.pc c).live = true := by
    cases hstep with
    | _ => rw [‹s.pc c = _›]; rfl
  refine h.of_local hstep.local (fun d hdc hd hpid => ?_) (h.addressed.client hstep)
    (h.counted.client hstep) (h.ok_client hstep)
  exact hdc (h.addressed.live c d hlive hd hpid)

lemma born (h : Settled req s) {c : Fin n} (hp : s.pc c = .unborn)
    (hd : ∀ d, (req d).pid = (req c).pid → (s.pc d).live = false)
    (ha : Addressed req (s.setPc c .mkfifo)) (hc : Counted req (s.setPc c .mkfifo)) :
    Settled req (s.setPc c .mkfifo) := by
  refine h.of_local (local_setPc .mkfifo fun hpast => ?_) (fun d _ hlive hpid => ?_) ha hc ?_
  · rw [hp] at hpast
    cases hpast
  · rw [hd d hpid] at hlive
    cases hlive
  · rw [setPc_pc, Function.update_self]
    exact .mkfifo

end Settled

/-! ### Steps of the server -/

namespace Settled

/-- The server waits for a client at the `open` of its FIFO, and has a FIFO open that its client
has come to open. -/
lemma opens_together (h : Settled req s) {c : Fin n} {g : ℕ} (hfd : s.server.fd = some (c, g))
    (hpending : s.server.pending = some c) : s.opened = true ∧ s.fifo (req c).pid = some g ∧
      (s.server = .opening c g false ∧ s.pc c = .openOwn ∨
        (s.server = .opening c g true ∨ s.server = .write c g) ∧
          (s.pc c = .opening g true ∨ s.pc c = .read g)) := by
  have hpast := h.past_of_fd hfd
  have hnot : ¬ (c ∈ s.queue ∨ s.server = .openClient c) := by
    rintro (hc | hc)
    · exact h.counted.not_mem_queue hpending hc
    · rw [hc] at hfd
      cases hfd
  have hname : s.fifo (req c).pid = some g :=
    (h.named c g hfd).2 (h.live_of_outstanding (outstanding_of_pending hpending))
  have hconn : s.Connected req c g → s.server = .opening c g true ∨ s.server = .write c g := by
    rintro (hq | hq | hb)
    · exact Or.inl hq
    · exact Or.inr hq
    · exact absurd (h.buf_eq_nil (Or.inr hpending) (Or.inr hfd)) hb
  have hok := h.ok c
  generalize s.pc c = p at hok hpast ⊢
  cases hok with
  | unborn => cases hpast
  | mkfifo => cases hpast
  | openServer hf => cases hpast
  | write hf ho => cases hpast
  | openOwn hf ho hc => exact absurd hc hnot
  | awaited g' hf ho hq =>
    obtain rfl := Option.some.inj (hf.symm.trans hname)
    exact ⟨ho, hf, Or.inl ⟨hq, rfl⟩⟩
  | opening g' hf ho hc => exact absurd hc hnot
  | met g' hf ho hc =>
    obtain rfl := Option.some.inj (hf.symm.trans hname)
    exact ⟨ho, hf, Or.inr ⟨hconn hc, Or.inl rfl⟩⟩
  | read g' hf ho hc =>
    obtain rfl := Option.some.inj (hf.symm.trans hname)
    exact ⟨ho, hf, Or.inr ⟨hconn hc, Or.inr rfl⟩⟩
  | exit g' hx hb => exact absurd (h.printed_eq_none (Or.inr hpending)) hx
  | gone hx hb hf => exact absurd (h.printed_eq_none (Or.inr hpending)) hx

lemma ok_of_connected (h : Settled req s) {c : Fin n} {g : ℕ}
    (hq : s.server = .opening c g true ∨ s.server = .write c g) (hpc : s'.pc c = s.pc c)
    (hfifo : s'.fifo = s.fifo) (hopened : s'.opened = s.opened) (hc : s'.Connected req c g) :
    Ok req s' c (s'.pc c) := by
  have hfd : s.server.fd = some (c, g) := by rcases hq with hq | hq <;> rw [hq] <;> rfl
  have hpending : s.server.pending = some c := by rcases hq with hq | hq <;> rw [hq] <;> rfl
  obtain ⟨ho, hf, ⟨hq', -⟩ | ⟨-, hp | hp⟩⟩ := h.opens_together hfd hpending
  · rcases hq with hq | hq <;> simp [hq] at hq'
  · rw [hpc, hp]
    exact .met g (hfifo ▸ hf) (hopened ▸ ho) hc
  · rw [hpc, hp]
    exact .read g (hfifo ▸ hf) (hopened ▸ ho) hc

lemma of_server (h : Settled req s) {q : Server n} {queue : List (Fin n)} {seqNum : ℤ}
    (ha : Addressed req { s with server := q, queue := queue, seqNum := seqNum })
    (hc : Counted req { s with server := q, queue := queue, seqNum := seqNum })
    (hfd : ∀ x, q.fd = some x → s.server.fd = some x) (hclose : ∀ c g, q ≠ .close c g)
    (hok : ∀ c, c ∈ s.queue ∧ c ∉ queue ∨ s.server.pending = some c →
      Ok req { s with server := q, queue := queue, seqNum := seqNum } c (s.pc c)) :
    Settled req { s with server := q, queue := queue, seqNum := seqNum } := by
  refine ⟨ha, hc, h.once, h.made, fun c g hx => h.named c g (hfd _ hx), fun c => ?_⟩
  by_cases hmoved : c ∈ s.queue ∧ c ∉ queue ∨ s.server.pending = some c
  · exact hok c hmoved
  · rw [not_or, not_and_not_right] at hmoved
    exact (h.ok c).frame (fun _ => rfl) id hmoved.1 (fun hq => absurd hq hmoved.2)
      (fun _ _ hb => hb) (fun g hq => absurd hq (hclose c g)) id

lemma fetch (h : Settled req s) {c : Fin n} {q : List (Fin n)} (hq : s.server = .read)
    (hr : s.queue = c :: q)
    (ha : Addressed req { s with queue := q, server := .openClient c })
    (hc : Counted req { s with queue := q, server := .openClient c }) :
    Settled req { s with queue := q, server := .openClient c } := by
  refine h.of_server ha hc (by simp [Server.fd]) (by simp) fun d hd => ?_
  have hdc : d = c := by
    simp only [hq, hr, List.mem_cons, Server.pending, reduceCtorEq, or_false] at hd
    tauto
  obtain ⟨ho, ⟨hp, hf⟩ | ⟨g, hp, hf⟩⟩ := h.waits (Or.inl (hr ▸ List.mem_cons_self))
  · rw [hdc, hp]
    exact .openOwn hf ho (Or.inr rfl)
  · rw [hdc, hp]
    exact .opening g hf ho (Or.inr rfl)

lemma enterServer (h : Settled req s) {c : Fin n} {g : ℕ} (hq : s.server = .openClient c)
    (hf : s.fifo (req c).pid = some g) : Settled req (s.enterServer req c g) := by
  have hout : s.Outstanding req c := outstanding_of_pending (by rw [hq]; rfl)
  have hlive : ∀ d, (s.pc d).live = true → (req d).pid = (req c).pid → d = c := fun d =>
    h.addressed.outstanding c d hout
  have hpc : ∀ d, d ≠ c → (s.enterServer req c g).pc d = s.pc d := by
    intro d hdc
    rw [enterServer_pc]
    split
    · rename_i hpid
      have hdead : (s.pc d).live ≠ true := fun hl => hdc (hlive d hl hpid)
      cases hp : s.pc d <;> simp_all [Pc.live, Pc.meet]
    · rfl
  refine ⟨h.addressed.enterServer hq, h.counted.enterServer hq,
    fun k => (bufOnOpen_sublist _ _ k).length_le.trans (h.once k), h.made, fun d g' hd => ?_,
    fun d => ?_⟩
  · cases hd
    exact ⟨h.made _ g hf, fun _ => hf⟩
  · rcases eq_or_ne d c with rfl | hdc
    · rw [enterServer_pc, if_pos rfl]
      obtain ⟨ho, ⟨hp, -⟩ | ⟨g', hp, hf'⟩⟩ := h.waits (Or.inr hq)
      · rw [hp]
        refine .awaited g hf ho ?_
        rw [enterServer_server, decide_eq_false]
        rintro ⟨e, hpid, hfd⟩
        obtain rfl := hlive e (Pc.live_of_fd hfd) hpid
        rw [hp] at hfd
        cases hfd
      · obtain rfl : g' = g := Option.some.inj (hf'.symm.trans hf)
        rw [hp, show (Pc.opening g' false).meet g' = .opening g' true by simp [Pc.meet]]
        refine .met g' hf ho (Or.inl ?_)
        rw [enterServer_server, decide_eq_true ⟨d, rfl, by rw [hp]; rfl⟩]
    · rw [hpc d hdc]
      refine (h.ok d).frame (fun _ => rfl) id id (fun hd => ?_) (fun g' hfd hb => ?_)
        (fun g' hq' => ?_) id
      · rw [hq] at hd
        exact absurd (Option.some.inj hd).symm hdc
      · have hpid : (req d).pid ≠ (req c).pid := fun hpid => hdc (hlive d (Pc.live_of_fd hfd) hpid)
        change s.bufOnOpen req (req c).pid g _ ≠ []
        rwa [bufOnOpen_of_ne hpid]
      · cases hq'

lemma reply_buf_ne {c : Fin n} {g : ℕ} {k : ℕ × ℕ} (h : s.buf k ≠ []) :
    (s.reply req c g).buf k ≠ [] := by
  rw [reply_buf]
  split
  · rcases eq_or_ne k ((req c).pid, g) with rfl | hk
    · rw [Function.update_self]
      simp
    · rwa [Function.update_of_ne hk]
  · exact h

lemma reply (h : Settled req s) {c : Fin n} {g : ℕ} (hq : s.server = .write c g)
    (hpos : ∀ d, 0 < (req d).seqLen) : Settled req (s.reply req c g) := by
  have hfd : s.server.fd = some (c, g) := by rw [hq]; rfl
  have hpending : s.server.pending = some c := by rw [hq]; rfl
  have hbuf : s.buf ((req c).pid, g) = [] := h.buf_eq_nil (Or.inr hpending) (Or.inr hfd)
  have hreader : s.HasReader req (req c).pid g := by
    obtain ⟨-, -, ⟨hq', -⟩ | ⟨-, hp⟩⟩ := h.opens_together hfd hpending
    · simp [hq] at hq'
    · exact ⟨c, rfl, by rcases hp with hp | hp <;> rw [hp] <;> rfl⟩
  have hone : (s.reply req c g).buf ((req c).pid, g) = [⟨s.seqNum, c⟩] := by
    rw [reply_buf, if_pos hreader, Function.update_self, hbuf, List.nil_append]
  refine ⟨h.addressed.reply hq, h.counted.reply hq hpos, fun k => ?_, h.made, fun d g' hd => ?_,
    fun d => ?_⟩
  · rcases eq_or_ne k ((req c).pid, g) with rfl | hk
    · rw [hone]
      exact le_rfl
    · rw [reply_buf, if_pos hreader, Function.update_of_ne hk]
      exact h.once k
  · cases hd
    exact h.named c g hfd
  · rcases eq_or_ne d c with rfl | hdc
    · refine h.ok_of_connected (Or.inr hq) rfl rfl rfl (Or.inr (Or.inr ?_))
      rw [hone]
      simp
    · refine (h.ok d).frame (fun _ => rfl) id id (fun hd => ?_) (fun _ _ => reply_buf_ne)
        (fun g' hq' => ?_) id
      · rw [hpending] at hd
        exact absurd (Option.some.inj hd).symm hdc
      · cases hq'
        exact absurd rfl hdc

lemma server (h : Settled req s) (hpos : ∀ d, 0 < (req d).seqLen)
    (hsum : ∑ c, (req c).seqLen < 2147483648) (hstep : ServerStep req s s') : Settled req s' := by
  have ha := h.addressed.server hstep
  have hc := h.counted.server hpos hsum hstep
  cases hstep with
  | begin hq ho =>
    exact h.of_server ha hc (by simp [Server.fd]) (by simp) (by simp [hq, Server.pending])
  | fetch c q hq hr => exact h.fetch hq hr ha hc
  | missing c hq hf =>
    obtain ⟨-, ⟨-, hf'⟩ | ⟨g, -, hf'⟩⟩ := h.waits (Or.inr hq)
    · exact absurd hf hf'
    · simp [hf] at hf'
  | enter c g hq hf => exact h.enterServer hq hf
  | connect c g hq =>
    refine h.of_server ha hc (by simp [hq, Server.fd]) (by simp) fun d hd => ?_
    have hdc : c = d := by simpa [hq, Server.pending] using hd
    exact hdc ▸ h.ok_of_connected (Or.inl hq) rfl rfl rfl (Or.inr (Or.inl rfl))
  | reply c g hq => exact h.reply hq hpos
  | close c g hq =>
    exact h.of_server ha hc (by simp [Server.fd]) (by simp) (by simp [hq, Server.pending])

lemma next (h : Settled req s) (hpos : ∀ d, 0 < (req d).seqLen)
    (hsum : ∑ c, (req c).seqLen < 2147483648) {a : Act n} (ha : a.quiet = true)
    (hstep : step req s a = some s') : Settled req s' := by
  have hfresh := h.fresh hstep
  have haddressed := h.addressed.next hfresh hstep
  have hcounted := h.counted.next hpos hsum hstep
  cases step_cases hstep with
  | start c hp hd => exact h.born hp hd haddressed hcounted
  | client c _ hc => exact h.client hc
  | fail c hp => cases ha
  | kill c hp => cases ha
  | server _ hc => exact h.server hpos hsum hc
  | skip hq => cases ha

end Settled

/-! ### Every request is answered -/

/-- How far a client is from the end of its `read`. -/
def Pc.left : Pc → ℕ
  | .openOwn => 3
  | .opening _ _ => 2
  | .read _ => 1
  | _ => 0

/-- How far the server is from its next request. -/
def Server.left : Server n → ℕ
  | .start => 1
  | .read => 0
  | .openClient _ => 5
  | .opening _ _ met => if met then 3 else 4
  | .write _ _ => 2
  | .close _ _ => 1

/-- What the server has to do for all requests, in steps. -/
def St.load (s : St n) : ℕ := 6 * s.queue.length + s.server.left

@[simp] lemma Pc.left_meet (g : ℕ) (p : Pc) : (p.meet g).left = p.left := by
  cases p <;> rfl

/-- The actions of the processes that run. -/
def Act.works : Act n → Bool
  | .client _ => true
  | .server => true
  | _ => false

lemma Act.quiet_of_works {a : Act n} (h : a.works = true) : a.quiet = true := by
  cases a <;> first | rfl | cases h

/-- **The server is not blocked.** While there is a request, the server can take a step, or the
client that it waits for can. -/
lemma Settled.exists_server_step (h : Settled req s) (hstart : s.server = .start → s.opened = true)
    (hread : s.server = .read → s.queue ≠ []) :
    ∃ a s', a.works = true ∧ step req s a = some s' ∧ s'.load < s.load ∧
      ∀ c, (s'.pc c).left ≤ (s.pc c).left := by
  cases hq : s.server with
  | start =>
    refine ⟨.server, { s with server := .read }, rfl, by simp [step, serverStep, hq, hstart hq],
      ?_, fun _ => le_rfl⟩
    simp [St.load, hq, Server.left]
  | read =>
    obtain ⟨c, q, hr⟩ := List.exists_cons_of_ne_nil (hread hq)
    refine ⟨.server, { s with queue := q, server := .openClient c }, rfl,
      by simp [step, serverStep, hq, hr], ?_, fun _ => le_rfl⟩
    simp only [St.load, hq, hr, Server.left, List.length_cons]
    omega
  | openClient c =>
    have hname : ∃ g, s.fifo (req c).pid = some g := by
      obtain ⟨-, ⟨-, hf⟩ | ⟨g, -, hf⟩⟩ := h.waits (Or.inr hq)
      · exact Option.ne_none_iff_exists'.mp hf
      · exact ⟨g, hf⟩
    obtain ⟨g, hf⟩ := hname
    refine ⟨.server, s.enterServer req c g, rfl, by simp [step, serverStep, hq, hf], ?_,
      fun d => ?_⟩
    · simp only [St.load, hq, enterServer_server, Server.left]
      change 6 * s.queue.length + _ < _
      split <;> omega
    · exact (enterServer_of_meet (Pc.left_meet g) c d).le
  | opening c g met =>
    cases met with
    | true =>
      refine ⟨.server, { s with server := .write c g }, rfl, by simp [step, serverStep, hq], ?_,
        fun _ => le_rfl⟩
      simp [St.load, hq, Server.left]
    | false =>
      obtain ⟨-, hf, ⟨-, hp⟩ | ⟨hq' | hq', -⟩⟩ :=
        h.opens_together (show s.server.fd = some (c, g) by rw [hq]; rfl) (by rw [hq]; rfl)
      · refine ⟨.client c, s.enter req c g, rfl, by simp [step, clientStep, hp, hf], ?_,
          fun d => ?_⟩
        · simp [St.load, enter_server, hq, Server.meet, Server.left]
          rfl
        · rcases eq_or_ne d c with rfl | hdc
          · rw [enter_pc, Function.update_self, hp]
            exact Nat.le_succ 2
          · rw [enter_pc, Function.update_of_ne hdc]
      · simp [hq] at hq'
      · simp [hq] at hq'
  | write c g =>
    refine ⟨.server, s.reply req c g, rfl, by simp [step, serverStep, hq], ?_, fun _ => le_rfl⟩
    simp only [St.load, hq, reply_server, Server.left]
    exact Nat.lt_succ_self _
  | close c g =>
    refine ⟨.server, { s with server := .read, seqNum := addInt s.seqNum (req c).seqLen }, rfl,
      by simp [step, serverStep, hq], ?_, fun _ => le_rfl⟩
    simp [St.load, hq, Server.left]

/-- **A client is not blocked.** While a client waits for its response, it can take a step itself,
or the server is busy with the requests before its own. -/
lemma Settled.exists_step (h : Settled req s) {c : Fin n} (hpast : (s.pc c).past = true)
    (hprinted : s.printed c = none) :
    0 < (s.pc c).left ∧ ∃ a s', a.works = true ∧ step req s a = some s' ∧
      s'.load + (s'.pc c).left < s.load + (s.pc c).left := by
  have hserver : s.opened = true → (s.server = .read → s.queue ≠ []) →
      ∃ a s', a.works = true ∧ step req s a = some s' ∧
        s'.load + (s'.pc c).left < s.load + (s.pc c).left := by
    intro ho hread
    obtain ⟨a, s', ha, hstep, hless, hleft⟩ := h.exists_server_step (fun _ => ho) hread
    exact ⟨a, s', ha, hstep, Nat.add_lt_add_of_lt_of_le hless (hleft c)⟩
  have hwait : c ∈ s.queue ∨ s.server = .openClient c → s.server = .read → s.queue ≠ [] := by
    rintro (hc | hc) hq
    · exact List.ne_nil_of_mem hc
    · simp [hq] at hc
  have hok := h.ok c
  generalize hp : s.pc c = p at hok hpast hserver ⊢
  cases hok with
  | unborn => cases hpast
  | mkfifo => cases hpast
  | openServer hf => cases hpast
  | write hf ho => cases hpast
  | openOwn hf ho hq => exact ⟨Nat.succ_pos 2, hserver ho (hwait hq)⟩
  | awaited g hf ho hq => exact ⟨Nat.succ_pos 2, hserver ho (by simp [hq])⟩
  | opening g hf ho hq => exact ⟨Nat.succ_pos 1, hserver ho (hwait hq)⟩
  | met g hf ho hc =>
    refine ⟨Nat.succ_pos 1, .client c, s.setPc c (.read g), rfl, by simp [step, clientStep, hp], ?_⟩
    rw [setPc_pc, Function.update_self]
    exact Nat.lt_succ_self _
  | read g hf ho hc =>
    refine ⟨Nat.one_pos, ?_⟩
    rcases hc with hq | hq | hb
    · exact hserver ho (by simp [hq])
    · exact hserver ho (by simp [hq])
    · obtain ⟨x, xs, hb⟩ := List.exists_cons_of_ne_nil hb
      refine ⟨.client c, s.receive req c g x xs, rfl, by simp [step, clientStep, hp, hb], ?_⟩
      rw [receive_pc, Function.update_self]
      exact Nat.lt_succ_self _
  | exit g hx hb => exact absurd hprinted hx
  | gone hx hb hf => exact absurd hprinted hx

lemma past_next {a : Act n} (hstep : step req s a = some s') {c : Fin n}
    (hc : (s.pc c).past = true) : (s'.pc c).past = true := by
  cases step_cases hstep with
  | start d hp hd => exact past_of_update (by simp [hp, Pc.past]) hc
  | client d _ hd =>
    cases hd with
    | mkfifo hp => exact past_of_update (by simp [hp, Pc.past]) hc
    | openServer hp => exact past_of_update (by simp [hp, Pc.past]) hc
    | write hp => exact past_of_update (by simp [hp, Pc.past]) hc
    | _ => exact past_of_update (fun _ => rfl) hc
  | fail d hp => exact past_of_update (fun _ => rfl) hc
  | kill d hp => exact past_of_update (fun _ => rfl) hc
  | server _ hd =>
    cases hd with
    | enter d g hq hf => rwa [enterServer_of_meet (Pc.past_meet g)]
    | _ => exact hc
  | skip hq => exact hc

/-- **Every request is answered.** The processes that run can go on until the client has its
response. -/
theorem Settled.exists_printed (h : Settled req s) (hpos : ∀ d, 0 < (req d).seqLen)
    (hsum : ∑ c, (req c).seqLen < 2147483648) {c : Fin n} (hc : (s.pc c).past = true) :
    ∃ bs t, (∀ b ∈ bs, b.works = true) ∧ exec (step req) s bs = some t ∧ t.printed c ≠ none := by
  let rank : St n → ℕ := fun u => if u.printed c = none then u.load + (u.pc c).left else 0
  have hlower : ∀ u, Settled req u ∧ (u.pc c).past = true → 0 < rank u →
      ∃ bs v, (∀ b ∈ bs, b.works = true) ∧ exec (step req) u bs = some v ∧ rank v < rank u ∧
        (Settled req v ∧ (v.pc c).past = true) := by
    rintro u ⟨hu, hpast⟩ hrank
    have hprinted : u.printed c = none := by
      by_contra hne
      simp [rank, hne] at hrank
    obtain ⟨-, a, v, ha, hstep, hless⟩ := hu.exists_step hpast hprinted
    refine ⟨[a], v, by simpa using ha, by rw [exec_cons, hstep]; rfl, ?_,
      hu.next hpos hsum (Act.quiet_of_works ha) hstep, past_next hstep hpast⟩
    simp only [rank, if_pos hprinted]
    split <;> omega
  obtain ⟨bs, t, hbs, ht, hzero, hsettled, hpast⟩ := exists_exec_rank_eq_zero hlower ⟨h, hc⟩
  refine ⟨bs, t, hbs, ht, fun hnone => ?_⟩
  have hleft := (hsettled.exists_step hpast hnone).1
  simp only [rank, if_pos hnone] at hzero
  omega

lemma settled_of_quiet (hpos : ∀ d, 0 < (req d).seqLen)
    (hsum : ∑ c, (req c).seqLen < 2147483648) {as : List (Act n)}
    (hrun : exec (step req) start as = some s) (hquiet : ∀ a ∈ as, a.quiet = true) :
    Settled req s :=
  ((guarded_iff_forall hrun).mpr hquiet).invariant hrun Settled.start
    fun _ _ _ hu ha hstep => hu.next hpos hsum ha hstep

/-- **The sequence number service.** In a run in which no process begins under the id of an
outstanding request, and in a run of clients with different ids, every client that prints a number
has got it for its own request, and the ranges are disjoint. A run without kills and failures is of
that kind, and there the processes that run can bring every request to its response: the server
and a client do not block each other for good. -/
theorem seqnum_ranges (req : Fin n → Request) (hpos : ∀ c, 0 < (req c).seqLen)
    (hsum : ∑ c, (req c).seqLen < 2147483648) {as : List (Act n)} {s : St n}
    (hrun : exec (step req) start as = some s) :
    (Guarded (step req) (Fresh req) start as → Safe req s) ∧
      (Function.Injective (fun c => (req c).pid) → Safe req s) ∧
      ((∀ a ∈ as, a.quiet = true) → Safe req s ∧
        ∀ c ∈ s.requests, s.printed c = none → ∃ bs t, (∀ b ∈ bs, b.works = true) ∧
          exec (step req) s bs = some t ∧ t.printed c ≠ none) := by
  refine ⟨safe_of_guarded hpos hsum hrun, fun hpid => ?_, fun hquiet => ?_⟩
  · exact safe_of_guarded hpos hsum hrun (guarded_of_injective hpos hsum hpid hrun)
  · have hsettled := settled_of_quiet hpos hsum hrun hquiet
    exact ⟨safe_of_inv hsettled.addressed hsettled.counted, fun c hc _ =>
      hsettled.exists_printed hpos hsum (hsettled.counted.past c hc)⟩

def pair : Fin 2 → Request
  | 0 => ⟨7, 2⟩
  | 1 => ⟨8, 3⟩

/-- Both send their requests before the server answers the first. -/
def pairActs (c d : Fin n) : List (Act n) :=
  [.start c, .client c, .client c, .start d, .client d, .client c, .client d, .client d,
    .server, .server, .client d, .server, .client c, .server, .server, .server,
    .client c, .client c]

theorem seqnum_ranges_pair : ∃ s, exec (step pair) start (pairActs 0 1) = some s ∧
    (s.printed 0 = some ⟨0, 0⟩ ∧ s.printed 1 = none ∧ 1 ∈ s.requests) ∧ Safe pair s ∧
    ∃ bs t, (∀ b ∈ bs, b.works = true) ∧ exec (step pair) s bs = some t ∧ t.printed 1 ≠ none := by
  obtain ⟨s, hrun, hs⟩ : ∃ s, exec (step pair) start (pairActs 0 1) = some s ∧
      (s.printed 0 = some ⟨0, 0⟩ ∧ s.printed 1 = none ∧ 1 ∈ s.requests) :=
    exists_exec_of_any (by decide)
  obtain ⟨hsafe, hanswer⟩ := (seqnum_ranges pair (by decide) (by decide) hrun).2.2 (by decide)
  exact ⟨s, hrun, hs, hsafe, hanswer 1 hs.2.2 hs.2.1⟩

/-- Two clients that run under the same id one after the other, and a third. -/
def reused : Fin 3 → Request
  | 0 => ⟨7, 1⟩
  | 1 => ⟨7, 5⟩
  | 2 => ⟨8, 1⟩

/-- The first is killed after it has sent its request. -/
def reusedActs (c d e : Fin n) : List (Act n) :=
  [.start c, .client c, .client c, .client c, .kill c,
    .start d, .client d, .client d, .client d, .client d,
    .server, .server, .server, .server, .server, .server, .client d, .client d, .client d,
    .server, .server,
    .start e, .client e, .client e, .client e, .client e,
    .server, .server, .server, .server, .server, .client e, .client e]

/-- The second client prints the response to the first one's request, and the third gets a number
of its range. -/
theorem seqnum_ranges_overlap : (∀ c, 0 < (reused c).seqLen) ∧
    ∑ c, (reused c).seqLen < 2147483648 ∧
    ∃ s, exec (step reused) start (reusedActs 0 1 2) = some s ∧ s.printed 1 = some ⟨0, 0⟩ ∧
      s.printed 2 = some ⟨1, 2⟩ ∧ ¬ Safe reused s ∧
      1 ∈ range reused 1 ⟨0, 0⟩ ∧ 1 ∈ range reused 2 ⟨1, 2⟩ := by
  obtain ⟨s, hrun, h1, h2⟩ : ∃ s, exec (step reused) start (reusedActs 0 1 2) = some s ∧
      (s.printed 1 = some ⟨0, 0⟩ ∧ s.printed 2 = some ⟨1, 2⟩) := exists_exec_of_any (by decide)
  refine ⟨by decide, by decide, s, hrun, h1, h2, fun hsafe => ?_, by decide, by decide⟩
  have := hsafe.owner 1 ⟨0, 0⟩ h1
  cases this

end LinuxSamples.FifoSeqnum
