import LinuxSamples.FifoSeqnum

/-!
The ranges that the sequence number server hands out, and who gets them.

The server numbers its responses one range after the other, whatever happens to its clients. That a
response reaches the client it was made for rests on the process ids: it does as long as no process
begins to run under the id of a request that the server still has to answer.
-/

namespace LinuxSamples.FifoSeqnum

open Run

variable {n : ℕ} {req : Fin n → Request} {s s' : St n}

/-! ### Who reads a response -/

/-- The client whose request the server is busy with. This ends when the response has been read or
the FIFO is closed. -/
def St.serving (req : Fin n → Request) (s : St n) : Option (Fin n) :=
  match s.server with
  | .close c g => if s.buf ((req c).pid, g) = [] then none else some c
  | q => q.pending

/-- A request that the server has not read or is busy with. -/
def St.Outstanding (req : Fin n → Request) (s : St n) (c : Fin n) : Prop :=
  c ∈ s.queue ∨ s.serving req = some c

instance (s : St n) (c : Fin n) : Decidable (s.Outstanding req c) :=
  inferInstanceAs (Decidable (c ∈ s.queue ∨ s.serving req = some c))

/-- **The condition.** No process begins to run under the id of an outstanding request. -/
def Fresh (req : Fin n → Request) (s : St n) : Act n → Prop
  | .start c => ∀ d, s.Outstanding req d → (req d).pid ≠ (req c).pid
  | _ => True

instance (s : St n) (a : Act n) : Decidable (Fresh req s a) := by
  cases a <;> unfold Fresh <;> infer_instance

/-- Process ids tell apart the clients that run and those with an outstanding request, and what is
in a FIFO is for whoever has it open. -/
structure Addressed (req : Fin n → Request) (s : St n) : Prop where
  live : ∀ c d, (s.pc c).live = true → (s.pc d).live = true → (req d).pid = (req c).pid → d = c
  outstanding : ∀ c d, s.Outstanding req c → (s.pc d).live = true →
    (req d).pid = (req c).pid → d = c
  reader : ∀ c g, (s.pc c).fd = some g → ∀ x ∈ s.buf ((req c).pid, g), x.owner = c
  writer : ∀ c g, s.server.fd = some (c, g) → ∀ x ∈ s.buf ((req c).pid, g), x.owner = c
  printed : ∀ c x, s.printed c = some x → x.owner = c

lemma Pc.live_of_fd {p : Pc} {g : ℕ} (h : p.fd = some g) : p.live = true := by
  cases p <;> first | rfl | cases h

lemma Pc.live_of_opens {p : Pc} (h : p.opens = true) : p.live = true := by
  cases p <;> first | rfl | cases h

@[simp] lemma Server.fd_meet (p g : ℕ) (q : Server n) : (q.meet req p g).fd = q.fd := by
  cases q <;> rfl

@[simp] lemma Server.pending_meet (p g : ℕ) (q : Server n) :
    (q.meet req p g).pending = q.pending := by
  cases q <;> rfl

@[simp] lemma Server.meet_eq_close_iff {p g g' : ℕ} {q : Server n} {c : Fin n} :
    q.meet req p g = .close c g' ↔ q = .close c g' := by
  cases q <;> simp [Server.meet]

lemma Server.pending_or_close_of_fd {q : Server n} {c : Fin n} {g : ℕ} (h : q.fd = some (c, g)) :
    q.pending = some c ∨ q = .close c g := by
  cases q <;> simp_all [Server.fd, Server.pending]

lemma outstanding_iff {c : Fin n} : s.Outstanding req c ↔ c ∈ s.queue ∨
    s.server.pending = some c ∨ ∃ g, s.server = .close c g ∧ s.buf ((req c).pid, g) ≠ [] := by
  unfold St.Outstanding St.serving
  cases s.server <;> simp [Server.pending]
  grind

lemma outstanding_of_pending {c : Fin n} (h : s.server.pending = some c) : s.Outstanding req c :=
  outstanding_iff.mpr (Or.inr (Or.inl h))

lemma outstanding_of_fd {c : Fin n} {g : ℕ} {x : Response n} (h : s.server.fd = some (c, g))
    (hx : x ∈ s.buf ((req c).pid, g)) : s.Outstanding req c := by
  rw [outstanding_iff]
  exact Or.inr ((Server.pending_or_close_of_fd h).imp_right
    fun hq => ⟨g, hq, List.ne_nil_of_mem hx⟩)

@[simp] lemma Pc.fd_meet (g : ℕ) (p : Pc) : (p.meet g).fd = p.fd := by
  cases p <;> rfl

@[simp] lemma Pc.live_meet (g : ℕ) (p : Pc) : (p.meet g).live = p.live := by
  cases p <;> rfl

lemma hasWriter_iff {p g : ℕ} :
    s.HasWriter req p g ↔ ∃ c, s.server.fd = some (c, g) ∧ (req c).pid = p := by
  unfold St.HasWriter
  constructor
  · intro h
    obtain ⟨⟨c, g'⟩, hx, heq⟩ := Option.map_eq_some_iff.mp h
    obtain ⟨rfl, rfl⟩ := Prod.mk.inj heq
    exact ⟨c, hx, rfl⟩
  · rintro ⟨c, hx, rfl⟩
    rw [hx]
    rfl

lemma receive_buf (c : Fin n) (g : ℕ) (x : Response n) (xs : List (Response n)) :
    (s.receive req c g x xs).buf = Function.update s.buf ((req c).pid, g) xs := rfl

lemma reply_buf (c : Fin n) (g : ℕ) : (s.reply req c g).buf =
    if s.HasReader req (req c).pid g then
      Function.update s.buf ((req c).pid, g) (s.buf ((req c).pid, g) ++ [⟨s.seqNum, c⟩])
    else s.buf := rfl

lemma enterServer_server (c : Fin n) (g : ℕ) : (s.enterServer req c g).server =
    .opening c g (decide (s.HasReader req (req c).pid g)) := rfl

lemma reply_server (c : Fin n) (g : ℕ) : (s.reply req c g).server = .close c g := rfl

lemma receive_printed (c : Fin n) (g : ℕ) (x : Response n) (xs : List (Response n)) :
    (s.receive req c g x xs).printed = Function.update s.printed c (some x) := rfl

lemma mem_buf_of_mem_receive {c : Fin n} {g : ℕ} {x y : Response n} {xs : List (Response n)}
    {k : ℕ × ℕ} (hb : s.buf ((req c).pid, g) = x :: xs)
    (hy : y ∈ (s.receive req c g x xs).buf k) : y ∈ s.buf k := by
  rcases eq_or_ne k ((req c).pid, g) with rfl | hk
  · rw [receive_buf, Function.update_self] at hy
    rw [hb]
    exact List.mem_cons_of_mem x hy
  · rwa [receive_buf, Function.update_of_ne hk] at hy

lemma mem_reply_buf {c : Fin n} {g : ℕ} {y : Response n} {k : ℕ × ℕ}
    (hy : y ∈ (s.reply req c g).buf k) :
    y ∈ s.buf k ∨ k.1 = (req c).pid ∧ y = ⟨s.seqNum, c⟩ := by
  rw [reply_buf] at hy
  split at hy
  · rcases eq_or_ne k ((req c).pid, g) with rfl | hk
    · rw [Function.update_self] at hy
      rcases List.mem_append.mp hy with hy | hy
      · exact Or.inl hy
      · exact Or.inr ⟨rfl, List.mem_singleton.mp hy⟩
    · rw [Function.update_of_ne hk] at hy
      exact Or.inl hy
  · exact Or.inl hy

lemma mem_buf_of_mem_bufOnOpen {p g : ℕ} {k : ℕ × ℕ} {x : Response n}
    (h : x ∈ s.bufOnOpen req p g k) : x ∈ s.buf k := by
  unfold St.bufOnOpen at h
  split at h
  · exact h
  · rcases eq_or_ne k (p, g) with rfl | hk
    · rw [Function.update_self] at h
      exact absurd h List.not_mem_nil
    · rwa [Function.update_of_ne hk] at h

lemma hasReader_or_hasWriter_of_mem {p g : ℕ} {x : Response n}
    (h : x ∈ s.bufOnOpen req p g (p, g)) : s.HasReader req p g ∨ s.HasWriter req p g := by
  unfold St.bufOnOpen at h
  split at h
  · assumption
  · rw [Function.update_self] at h
    exact absurd h List.not_mem_nil

lemma outstanding_of_buf {d : Fin n} (h : s'.Outstanding req d) (hqueue : s'.queue = s.queue)
    (hpending : s'.server.pending = s.server.pending)
    (hclose : ∀ g, s'.server = .close d g → s.server = .close d g)
    (hbuf : ∀ k, ∀ x ∈ s'.buf k, x ∈ s.buf k) : s.Outstanding req d := by
  rw [outstanding_iff, hqueue, hpending] at h
  rw [outstanding_iff]
  refine h.imp_right (Or.imp_right ?_)
  rintro ⟨g, hq, hne⟩
  obtain ⟨x, hx⟩ := List.exists_mem_of_ne_nil _ hne
  exact ⟨g, hclose g hq, List.ne_nil_of_mem (hbuf _ x hx)⟩

lemma outstanding_of_enter {c d : Fin n} {g : ℕ} (h : (s.enter req c g).Outstanding req d) :
    s.Outstanding req d :=
  outstanding_of_buf h rfl (Server.pending_meet _ _ _) (fun _ => Server.meet_eq_close_iff.mp)
    fun _ _ => mem_buf_of_mem_bufOnOpen

lemma outstanding_of_receive {c d : Fin n} {g : ℕ} {x : Response n} {xs : List (Response n)}
    (hb : s.buf ((req c).pid, g) = x :: xs) (h : (s.receive req c g x xs).Outstanding req d) :
    s.Outstanding req d :=
  outstanding_of_buf h rfl rfl (fun _ hq => hq) fun _ _ => mem_buf_of_mem_receive hb

lemma outstanding_of_enterServer {c d : Fin n} {g : ℕ} (hq : s.server = .openClient c)
    (h : (s.enterServer req c g).Outstanding req d) : s.Outstanding req d := by
  rw [outstanding_iff, enterServer_server] at h
  rw [outstanding_iff, hq]
  exact h.imp_right (Or.imp_right fun hclose => by simp at hclose)

lemma outstanding_of_reply {c d : Fin n} {g : ℕ} (hq : s.server = .write c g)
    (h : (s.reply req c g).Outstanding req d) : s.Outstanding req d := by
  rw [outstanding_iff, reply_server] at h
  rcases h with hqueue | hp | ⟨g', hclose, -⟩
  · exact Or.inl hqueue
  · cases hp
  · obtain ⟨rfl, rfl⟩ : c = d ∧ g = g' := by simpa using hclose
    exact outstanding_of_pending (by rw [hq]; rfl)

namespace Addressed

lemma start : Addressed req (start : St n) where
  live := fun _ _ h => by cases h
  outstanding := fun _ _ _ h => by cases h
  reader := fun _ _ h => by cases h
  writer := fun _ _ h => by cases h
  printed := fun _ _ h => by cases h

lemma of_pc (h : Addressed req s) {c : Fin n} {p : Pc} (hpc : s'.pc = Function.update s.pc c p)
    (hlive : p.live = true → (s.pc c).live = true)
    (hfd : ∀ g, p.fd = some g → (s.pc c).fd = some g) (hqueue : s'.queue = s.queue)
    (hserver : s'.server = s.server) (hbuf : s'.buf = s.buf) (hprinted : s'.printed = s.printed) :
    Addressed req s' := by
  have hlive' : ∀ d, (s'.pc d).live = true → (s.pc d).live = true := by
    intro d hd
    rw [hpc, Function.update_apply] at hd
    split at hd
    · subst d
      exact hlive hd
    · exact hd
  have hfd' : ∀ d g, (s'.pc d).fd = some g → (s.pc d).fd = some g := by
    intro d g hd
    rw [hpc, Function.update_apply] at hd
    split at hd
    · subst d
      exact hfd g hd
    · exact hd
  constructor
  · exact fun d e hd he => h.live d e (hlive' d hd) (hlive' e he)
  · intro d e hd he
    rw [outstanding_iff, hqueue, hserver, hbuf, ← outstanding_iff] at hd
    exact h.outstanding d e hd (hlive' e he)
  · intro d g hd
    rw [hbuf]
    exact h.reader d g (hfd' d g hd)
  · rw [hserver, hbuf]
    exact h.writer
  · rw [hprinted]
    exact h.printed

lemma of_server (h : Addressed req s) (hpc : s'.pc = s.pc) (hbuf : s'.buf = s.buf)
    (hprinted : s'.printed = s.printed) (hout : ∀ d, s'.Outstanding req d → s.Outstanding req d)
    (hfd : ∀ x, s'.server.fd = some x → s.server.fd = some x) : Addressed req s' := by
  constructor
  · rw [hpc]
    exact h.live
  · rw [hpc]
    exact fun d e hd => h.outstanding d e (hout d hd)
  · rw [hpc, hbuf]
    exact h.reader
  · rw [hbuf]
    exact fun d g hd => h.writer d g (hfd _ hd)
  · rw [hprinted]
    exact h.printed

lemma owner_of_open (h : Addressed req s) {c : Fin n} {g : ℕ}
    (hlive : ∀ d, (s.pc d).live = true → (req d).pid = (req c).pid → d = c)
    (hserver : ∀ d, s.Outstanding req d → s.server.fd = some (d, g) →
      (req d).pid = (req c).pid → d = c)
    {x : Response n} (hx : x ∈ s.bufOnOpen req (req c).pid g ((req c).pid, g)) : x.owner = c := by
  have hold := mem_buf_of_mem_bufOnOpen hx
  rcases hasReader_or_hasWriter_of_mem hx with ⟨d, hpid, hd⟩ | hw
  · obtain rfl := hlive d (Pc.live_of_fd hd) hpid
    exact h.reader d g hd x hold
  · obtain ⟨d, hd, hpid⟩ := hasWriter_iff.mp hw
    rw [← hpid] at hold
    obtain rfl := hserver d (outstanding_of_fd hd hold) hd hpid
    exact h.writer d g hd x hold

lemma born (h : Addressed req s) {c : Fin n} (hp : s.pc c = .unborn)
    (hd : ∀ d, (req d).pid = (req c).pid → (s.pc d).live = false)
    (hfresh : ∀ d, s.Outstanding req d → (req d).pid ≠ (req c).pid) :
    Addressed req (s.setPc c .mkfifo) := by
  have hlive : ∀ d, d ≠ c → ((s.setPc c .mkfifo).pc d).live = true →
      (s.pc d).live = true ∧ (req d).pid ≠ (req c).pid := by
    intro d hne hl
    rw [setPc_pc, Function.update_of_ne hne] at hl
    exact ⟨hl, fun hpid => by simp [hd d hpid] at hl⟩
  constructor
  · intro d e hld hle hpid
    rcases eq_or_ne d c with rfl | hdc
    · by_contra hec
      exact (hlive e hec hle).2 hpid
    · rcases eq_or_ne e c with rfl | hec
      · exact absurd hpid.symm (hlive d hdc hld).2
      · exact h.live d e (hlive d hdc hld).1 (hlive e hec hle).1 hpid
  · intro d e hout hle hpid
    rcases eq_or_ne e c with rfl | hec
    · exact absurd hpid.symm (hfresh d hout)
    · exact h.outstanding d e hout (hlive e hec hle).1 hpid
  · intro d g hfd
    rcases eq_or_ne d c with rfl | hdc
    · rw [setPc_pc, Function.update_self] at hfd
      cases hfd
    · rw [setPc_pc, Function.update_of_ne hdc] at hfd
      exact h.reader d g hfd
  · exact h.writer
  · exact h.printed

lemma write (h : Addressed req s) {c : Fin n} (hp : s.pc c = .write) :
    Addressed req { s.setPc c .openOwn with queue := s.queue ++ [c] } := by
  have hlive : (s.pc c).live = true := by rw [hp]; rfl
  have h' : Addressed req (s.setPc c .openOwn) :=
    h.of_pc rfl (fun _ => hlive) (by simp [Pc.fd]) rfl rfl rfl rfl
  refine { h' with outstanding := fun d e hout hle hpid => ?_ }
  rcases outstanding_iff.mp hout with hmem | hserving
  · rcases List.mem_append.mp hmem with hmem | hmem
    · exact h'.outstanding d e (Or.inl hmem) hle hpid
    · obtain rfl := List.mem_singleton.mp hmem
      refine h'.live d e ?_ hle hpid
      rw [setPc_pc, Function.update_self]
      rfl
  · exact h'.outstanding d e (outstanding_iff.mpr (Or.inr hserving)) hle hpid

lemma enter (h : Addressed req s) {c : Fin n} {g : ℕ} (hp : s.pc c = .openOwn) :
    Addressed req (s.enter req c g) := by
  have hc : (s.pc c).live = true := by rw [hp]; rfl
  have hlive : ∀ d, ((s.enter req c g).pc d).live = true → (s.pc d).live = true := by
    intro d hd
    rcases eq_or_ne d c with rfl | hdc
    · exact hc
    · rwa [enter_pc, Function.update_of_ne hdc] at hd
  have hopen : ∀ x ∈ s.bufOnOpen req (req c).pid g ((req c).pid, g), x.owner = c := fun x =>
    h.owner_of_open (fun d hd => h.live c d hc hd)
      fun d hd _ hpid => (h.outstanding d c hd hc hpid.symm).symm
  constructor
  · exact fun d e hd he => h.live d e (hlive d hd) (hlive e he)
  · exact fun d e hd he => h.outstanding d e (outstanding_of_enter hd) (hlive e he)
  · intro d g' hfd x hx
    rcases eq_or_ne d c with rfl | hdc
    · rw [enter_pc, Function.update_self] at hfd
      cases hfd
      exact hopen x hx
    · rw [enter_pc, Function.update_of_ne hdc] at hfd
      exact h.reader d g' hfd x (mem_buf_of_mem_bufOnOpen hx)
  · intro d g' hfd x hx
    rw [enter_server, Server.fd_meet] at hfd
    exact h.writer d g' hfd x (mem_buf_of_mem_bufOnOpen hx)
  · exact h.printed

lemma receive (h : Addressed req s) {c : Fin n} {g : ℕ} {x : Response n} {xs : List (Response n)}
    (hp : s.pc c = .read g) (hb : s.buf ((req c).pid, g) = x :: xs) :
    Addressed req (s.receive req c g x xs) := by
  have hfd : (s.pc c).fd = some g := by rw [hp]; rfl
  have h' : Addressed req (s.setPc c (.exit (some g))) :=
    h.of_pc rfl (fun _ => Pc.live_of_fd hfd) (fun g' hg => hfd.trans hg) rfl rfl rfl rfl
  constructor
  · exact h'.live
  · exact fun d e hd => h'.outstanding d e (outstanding_of_receive hb hd)
  · exact fun d g' hd y hy => h'.reader d g' hd y (mem_buf_of_mem_receive hb hy)
  · exact fun d g' hd y hy => h'.writer d g' hd y (mem_buf_of_mem_receive hb hy)
  · intro d y hy
    rw [receive_printed] at hy
    rcases eq_or_ne d c with rfl | hdc
    · rw [Function.update_self, Option.some.injEq] at hy
      subst hy
      exact h.reader d g hfd x (hb ▸ List.mem_cons_self)
    · rw [Function.update_of_ne hdc] at hy
      exact h.printed d y hy

lemma enterServer (h : Addressed req s) {c : Fin n} {g : ℕ} (hq : s.server = .openClient c) :
    Addressed req (s.enterServer req c g) := by
  have hc : s.Outstanding req c := outstanding_of_pending (by rw [hq]; rfl)
  have hlive : ∀ d, ((s.enterServer req c g).pc d).live = (s.pc d).live :=
    enterServer_of_meet (Pc.live_meet g) c
  have hfd : ∀ d, ((s.enterServer req c g).pc d).fd = (s.pc d).fd :=
    enterServer_of_meet (Pc.fd_meet g) c
  constructor
  · intro d e
    rw [hlive, hlive]
    exact h.live d e
  · intro d e hout
    rw [hlive]
    exact h.outstanding d e (outstanding_of_enterServer hq hout)
  · intro d g' hd x hx
    rw [hfd] at hd
    exact h.reader d g' hd x (mem_buf_of_mem_bufOnOpen hx)
  · intro d g' hd x hx
    cases hd
    refine h.owner_of_open (fun e he => h.outstanding c e hc he) (fun e _ he => ?_) hx
    rw [hq] at he
    cases he
  · exact h.printed

lemma reply (h : Addressed req s) {c : Fin n} {g : ℕ} (hq : s.server = .write c g) :
    Addressed req (s.reply req c g) := by
  have hc : s.Outstanding req c := outstanding_of_pending (by rw [hq]; rfl)
  constructor
  · exact h.live
  · exact fun d e hout => h.outstanding d e (outstanding_of_reply hq hout)
  · intro d g' hd y hy
    rcases mem_reply_buf hy with hy | ⟨hpid, rfl⟩
    · exact h.reader d g' hd y hy
    · exact (h.outstanding c d hc (Pc.live_of_fd hd) hpid).symm
  · intro d g' hd y hy
    cases hd
    rcases mem_reply_buf hy with hy | ⟨-, rfl⟩
    · exact h.writer c g (by rw [hq]; rfl) y hy
    · rfl
  · exact h.printed

lemma client (h : Addressed req s) {c : Fin n} (hstep : ClientStep req s c s') :
    Addressed req s' := by
  cases hstep with
  | mkfifo hp => exact h.of_pc rfl (by simp [hp, Pc.live]) (by simp [Pc.fd]) rfl rfl rfl rfl
  | openServer hp => exact h.of_pc rfl (by simp [hp, Pc.live]) (by simp [Pc.fd]) rfl rfl rfl rfl
  | write hp => exact h.write hp
  | missing hp hf => exact h.of_pc rfl (by simp [hp, Pc.live]) (by simp [Pc.fd]) rfl rfl rfl rfl
  | enter g hp hf => exact h.enter hp
  | opened g hp => exact h.of_pc rfl (by simp [hp, Pc.live]) (by simp [hp, Pc.fd]) rfl rfl rfl rfl
  | read g x xs hp hb => exact h.receive hp hb
  | eof g hp hb hw =>
    exact h.of_pc rfl (by simp [hp, Pc.live]) (by simp [hp, Pc.fd]) rfl rfl rfl rfl
  | exit g hp => exact h.of_pc rfl (by simp [Pc.live]) (by simp [Pc.fd]) rfl rfl rfl rfl

lemma server (h : Addressed req s) (hstep : ServerStep req s s') : Addressed req s' := by
  cases hstep with
  | begin hq ho =>
    exact h.of_server rfl rfl rfl (by simp [outstanding_iff, Server.pending, hq])
      (by simp [Server.fd])
  | fetch c q hq hr =>
    refine h.of_server rfl rfl rfl (fun d hd => ?_) (by simp [Server.fd])
    simp only [outstanding_iff, Server.pending, Option.some.injEq, reduceCtorEq, false_and,
      exists_false, or_false] at hd
    exact Or.inl (by rw [hr, List.mem_cons]; tauto)
  | missing c hq hf =>
    exact h.of_server rfl rfl rfl (by simp [outstanding_iff, Server.pending]; tauto)
      (by simp [Server.fd])
  | enter c g hq hf => exact h.enterServer hq
  | connect c g hq =>
    exact h.of_server rfl rfl rfl (by simp [outstanding_iff, Server.pending, hq])
      (by simp [Server.fd, hq])
  | reply c g hq => exact h.reply hq
  | close c g hq =>
    exact h.of_server rfl rfl rfl (by simp [outstanding_iff, Server.pending]; tauto)
      (by simp [Server.fd])

lemma next {a : Act n} (h : Addressed req s) (ha : Fresh req s a)
    (hstep : step req s a = some s') : Addressed req s' := by
  cases step_cases hstep with
  | start c hp hd => exact h.born hp hd ha
  | client c _ hc => exact h.client hc
  | fail c hp =>
    exact h.of_pc rfl (fun _ => Pc.live_of_opens hp) (by simp [Pc.fd]) rfl rfl rfl rfl
  | kill c hp => exact h.of_pc rfl (by simp [Pc.live]) (by simp [Pc.fd]) rfl rfl rfl rfl
  | server _ hc => exact h.server hc
  | skip hq =>
    exact h.of_server rfl rfl rfl (by simp [outstanding_iff, Server.pending]; tauto)
      (by simp [Server.fd])

end Addressed

/-! ### The numbers handed out -/

/-- Whether a client has sent its request, or will not send any. -/
def Pc.past : Pc → Bool
  | .unborn => false
  | .mkfifo => false
  | .openServer => false
  | .write => false
  | _ => true

/-- All requests: those that have been answered, the one that is read, and those that wait. -/
def St.requests (s : St n) : List (Fin n) :=
  s.served.map Response.owner ++ (s.server.pending.toList ++ s.queue)

/-- What is still to be added to `seqNum` for a response that has been sent. -/
def Server.owed (req : Fin n → Request) : Server n → ℤ
  | .close c _ => (req c).seqLen
  | _ => 0

/-- The first number that has not been handed out. -/
def St.next (req : Fin n → Request) (s : St n) : ℤ := s.seqNum + s.server.owed req

/-- Every response starts where the ranges of the responses before it end. -/
structure Counted (req : Fin n → Request) (s : St n) : Prop where
  nodup : s.requests.Nodup
  past : ∀ c ∈ s.requests, (s.pc c).past = true
  sent : ∀ c g, s.server = .close c g → c ∈ s.served.map Response.owner
  buf : ∀ k, ∀ x ∈ s.buf k, x ∈ s.served
  printed : ∀ c x, s.printed c = some x → x ∈ s.served
  apart : s.served.Pairwise fun x y => x.seqNum + (req x.owner).seqLen ≤ y.seqNum
  range : ∀ x ∈ s.served, 0 ≤ x.seqNum ∧ x.seqNum + (req x.owner).seqLen ≤ s.next req
  total : s.next req = (s.served.map fun x => (req x.owner).seqLen).sum

@[simp] lemma Server.owed_meet (p g : ℕ) (q : Server n) :
    (q.meet req p g).owed req = q.owed req := by
  cases q <;> rfl

@[simp] lemma Pc.past_meet (g : ℕ) (p : Pc) : (p.meet g).past = p.past := by
  cases p <;> rfl

lemma addInt_eq {a b : ℤ} (hle : 0 ≤ a + b) (hlt : a + b < 2147483648) : addInt a b = a + b := by
  unfold addInt
  omega

lemma past_of_update {c d : Fin n} {p : Pc} (hp : (s.pc c).past = true → p.past = true)
    (h : (s.pc d).past = true) : (Function.update s.pc c p d).past = true := by
  rw [Function.update_apply]
  split
  · subst d
    exact hp h
  · exact h

namespace Counted

lemma start : Counted req (start : St n) where
  nodup := List.nodup_nil
  past := fun _ h => absurd h List.not_mem_nil
  sent := fun _ _ h => by cases h
  buf := fun _ _ h => absurd h List.not_mem_nil
  printed := fun _ _ h => by cases h
  apart := List.Pairwise.nil
  range := fun _ h => absurd h List.not_mem_nil
  total := rfl

lemma mem_requests_of_outstanding (h : Counted req s) {c : Fin n} (hc : s.Outstanding req c) :
    c ∈ s.requests := by
  rw [St.requests, List.mem_append, List.mem_append, Option.mem_toList]
  rcases outstanding_iff.mp hc with hqueue | hpending | ⟨g, hclose, -⟩
  · exact Or.inr (Or.inr hqueue)
  · exact Or.inr (Or.inl hpending)
  · exact Or.inl (h.sent c g hclose)

lemma of_frame (h : Counted req s) (hpast : ∀ c, (s.pc c).past = true → (s'.pc c).past = true)
    (hserved : s'.served = s.served)
    (hreq : (s'.server.pending.toList ++ s'.queue).Sublist (s.server.pending.toList ++ s.queue))
    (hclose : ∀ c g, s'.server = .close c g → s.server = .close c g)
    (hnext : s'.next req = s.next req) (hbuf : ∀ k, ∀ x ∈ s'.buf k, x ∈ s.buf k)
    (hprinted : ∀ c x, s'.printed c = some x → x ∈ s.served) : Counted req s' := by
  have hsub : s'.requests.Sublist s.requests := by
    rw [St.requests, St.requests, hserved]
    exact hreq.append_left _
  constructor
  · exact h.nodup.sublist hsub
  · exact fun c hc => hpast c (h.past c (hsub.subset hc))
  · rw [hserved]
    exact fun c g hq => h.sent c g (hclose c g hq)
  · rw [hserved]
    exact fun k x hx => h.buf k x (hbuf k x hx)
  · rw [hserved]
    exact hprinted
  · rw [hserved]
    exact h.apart
  · rw [hserved, hnext]
    exact h.range
  · rw [hserved, hnext]
    exact h.total

lemma of_pc (h : Counted req s) {c : Fin n} {p : Pc} (hpc : s'.pc = Function.update s.pc c p)
    (hp : (s.pc c).past = true → p.past = true) (hserved : s'.served = s.served)
    (hqueue : s'.queue = s.queue) (hserver : s'.server = s.server) (hseq : s'.seqNum = s.seqNum)
    (hbuf : s'.buf = s.buf) (hprinted : s'.printed = s.printed) : Counted req s' := by
  refine h.of_frame (fun d hd => ?_) hserved ?_ ?_ ?_ ?_ ?_
  · rw [hpc]
    exact past_of_update hp hd
  · rw [hserver, hqueue]
  · rw [hserver]
    exact fun _ _ hq => hq
  · rw [St.next, hserver, hseq, St.next]
  · rw [hbuf]
    exact fun _ _ hx => hx
  · rw [hprinted]
    exact h.printed

lemma write (h : Counted req s) {c : Fin n} (hp : s.pc c = .write) :
    Counted req { s.setPc c .openOwn with queue := s.queue ++ [c] } := by
  have hnew : c ∉ s.requests := fun hc => by
    have := h.past c hc
    rw [hp] at this
    cases this
  have happ : ({ s.setPc c .openOwn with queue := s.queue ++ [c] } : St n).requests =
      s.requests ++ [c] := by
    simp [St.requests, St.setPc]
  constructor
  · rw [happ]
    exact List.nodup_append.mpr ⟨h.nodup, List.nodup_singleton c, by
      rintro d hd e he rfl
      exact hnew (List.mem_singleton.mp he ▸ hd)⟩
  · intro d hd
    rcases eq_or_ne d c with rfl | hdc
    · simp [St.setPc, Pc.past]
    · refine past_of_update (fun _ => rfl) (h.past d ?_)
      rw [happ] at hd
      simpa [hdc] using hd
  · exact h.sent
  · exact h.buf
  · exact h.printed
  · exact h.apart
  · exact h.range
  · exact h.total

lemma enter (h : Counted req s) {c : Fin n} {g : ℕ} : Counted req (s.enter req c g) := by
  refine h.of_frame (fun d hd => past_of_update (fun _ => rfl) hd) rfl ?_ ?_ ?_ ?_ h.printed
  · rw [enter_server, Server.pending_meet]
    exact List.Sublist.refl _
  · exact fun _ _ => Server.meet_eq_close_iff.mp
  · rw [St.next, enter_server, Server.owed_meet]
    rfl
  · exact fun k x hx => mem_buf_of_mem_bufOnOpen hx

lemma receive (h : Counted req s) {c : Fin n} {g : ℕ} {x : Response n} {xs : List (Response n)}
    (hb : s.buf ((req c).pid, g) = x :: xs) : Counted req (s.receive req c g x xs) := by
  refine h.of_frame (fun d hd => past_of_update (fun _ => rfl) hd) rfl (List.Sublist.refl _)
    (fun _ _ hq => hq) rfl (fun k y hy => mem_buf_of_mem_receive hb hy) fun d y hy => ?_
  rw [receive_printed] at hy
  rcases eq_or_ne d c with rfl | hdc
  · rw [Function.update_self, Option.some.injEq] at hy
    subst hy
    exact h.buf _ x (hb ▸ List.mem_cons_self)
  · rw [Function.update_of_ne hdc] at hy
    exact h.printed d y hy

lemma enterServer (h : Counted req s) {c : Fin n} {g : ℕ} (hq : s.server = .openClient c) :
    Counted req (s.enterServer req c g) := by
  refine h.of_frame (fun d hd => ?_) rfl ?_ ?_ ?_ ?_ h.printed
  · rwa [enterServer_of_meet (Pc.past_meet g)]
  · rw [hq]
    exact List.Sublist.refl _
  · intro d g' hclose
    cases hclose
  · rw [St.next, St.next, hq]
    rfl
  · exact fun k x hx => mem_buf_of_mem_bufOnOpen hx

lemma reply (h : Counted req s) {c : Fin n} {g : ℕ} (hq : s.server = .write c g)
    (hpos : ∀ d, 0 < (req d).seqLen) : Counted req (s.reply req c g) := by
  have hnext : s.next req = s.seqNum := by simp [St.next, hq, Server.owed]
  have hnext' : (s.reply req c g).next req = s.seqNum + (req c).seqLen := rfl
  have hserved : (s.reply req c g).served = s.served ++ [⟨s.seqNum, c⟩] := rfl
  have hreq : (s.reply req c g).requests = s.requests := by
    simp [St.requests, St.reply, hq, Server.pending]
  have hnonneg : 0 ≤ s.seqNum := by
    rw [← hnext, h.total]
    refine List.sum_nonneg fun v hv => ?_
    obtain ⟨x, -, rfl⟩ := List.mem_map.mp hv
    exact (hpos x.owner).le
  have hle : ∀ x ∈ s.served, x.seqNum + (req x.owner).seqLen ≤ s.seqNum := fun x hx =>
    hnext ▸ (h.range x hx).2
  constructor
  · rw [hreq]
    exact h.nodup
  · rw [hreq]
    exact h.past
  · intro d g' hclose
    cases hclose
    rw [hserved, List.map_append]
    exact List.mem_append_right _ (List.mem_singleton_self c)
  · intro k y hy
    rw [hserved]
    rcases mem_reply_buf hy with hy | ⟨-, rfl⟩
    · exact List.mem_append_left _ (h.buf k y hy)
    · exact List.mem_append_right _ (List.mem_singleton_self _)
  · intro d y hy
    exact List.mem_append_left _ (h.printed d y hy)
  · rw [hserved, List.pairwise_append]
    refine ⟨h.apart, List.pairwise_singleton _ _, fun x hx y hy => ?_⟩
    rw [List.mem_singleton.mp hy]
    exact hle x hx
  · intro x hx
    rw [hserved] at hx
    rw [hnext']
    rcases List.mem_append.mp hx with hx | hx
    · have := hle x hx
      have := hpos c
      exact ⟨(h.range x hx).1, by omega⟩
    · rw [List.mem_singleton.mp hx]
      exact ⟨hnonneg, le_rfl⟩
  · rw [hnext', hserved, List.map_append, List.sum_append, ← h.total, hnext]
    simp

lemma next_le (h : Counted req s) (hpos : ∀ d, 0 < (req d).seqLen) :
    0 ≤ s.next req ∧ s.next req ≤ ∑ c, (req c).seqLen := by
  have hnodup : (s.served.map Response.owner).Nodup :=
    h.nodup.sublist (List.sublist_append_left _ _)
  have heq : s.next req = ∑ c ∈ (s.served.map Response.owner).toFinset, (req c).seqLen := by
    rw [h.total, List.sum_toFinset _ hnodup, List.map_map]
    rfl
  rw [heq]
  exact ⟨Finset.sum_nonneg fun c _ => (hpos c).le,
    Finset.sum_le_univ_sum_of_nonneg fun c => (hpos c).le⟩

lemma client (h : Counted req s) {c : Fin n} (hstep : ClientStep req s c s') :
    Counted req s' := by
  cases hstep with
  | mkfifo hp => exact h.of_pc rfl (by simp [hp, Pc.past]) rfl rfl rfl rfl rfl rfl
  | openServer hp => exact h.of_pc rfl (by simp [hp, Pc.past]) rfl rfl rfl rfl rfl rfl
  | write hp => exact h.write hp
  | missing hp hf => exact h.of_pc rfl (fun _ => rfl) rfl rfl rfl rfl rfl rfl
  | enter g hp hf => exact h.enter
  | opened g hp => exact h.of_pc rfl (fun _ => rfl) rfl rfl rfl rfl rfl rfl
  | read g x xs hp hb => exact h.receive hb
  | eof g hp hb hw => exact h.of_pc rfl (fun _ => rfl) rfl rfl rfl rfl rfl rfl
  | exit g hp => exact h.of_pc rfl (fun _ => rfl) rfl rfl rfl rfl rfl rfl

lemma of_server (h : Counted req s) {q : Server n} {queue : List (Fin n)} {seqNum : ℤ}
    (hreq : (q.pending.toList ++ queue).Sublist (s.server.pending.toList ++ s.queue))
    (hclose : ∀ c g, q ≠ .close c g) (hnext : seqNum + q.owed req = s.next req) :
    Counted req { s with server := q, queue := queue, seqNum := seqNum } :=
  h.of_frame (fun _ hd => hd) rfl hreq (fun c g hq => absurd hq (hclose c g)) hnext
    (fun _ _ hx => hx) h.printed

lemma server (h : Counted req s) (hpos : ∀ d, 0 < (req d).seqLen)
    (hsum : ∑ c, (req c).seqLen < 2147483648) (hstep : ServerStep req s s') : Counted req s' := by
  cases hstep with
  | begin hq ho =>
    exact h.of_server (by simp [hq, Server.pending]) (by simp) (by simp [St.next, hq, Server.owed])
  | fetch c q hq hr =>
    exact h.of_server (by simp [hq, hr, Server.pending]) (by simp)
      (by simp [St.next, hq, Server.owed])
  | missing c hq hf =>
    exact h.of_server (by simp [hq, Server.pending]) (by simp) (by simp [St.next, hq, Server.owed])
  | enter c g hq hf => exact h.enterServer hq
  | connect c g hq =>
    exact h.of_server (by simp [hq, Server.pending]) (by simp) (by simp [St.next, hq, Server.owed])
  | reply c g hq => exact h.reply hq hpos
  | close c g hq =>
    obtain ⟨hle, hlt⟩ := h.next_le hpos
    have hnext : s.next req = s.seqNum + (req c).seqLen := by simp [St.next, hq, Server.owed]
    refine h.of_server (by simp [hq, Server.pending]) (by simp) ?_
    rw [hnext, addInt_eq (by omega) (by omega)]
    simp [Server.owed]

lemma next {a : Act n} (h : Counted req s) (hpos : ∀ d, 0 < (req d).seqLen)
    (hsum : ∑ c, (req c).seqLen < 2147483648) (hstep : step req s a = some s') :
    Counted req s' := by
  cases step_cases hstep with
  | start c hp hd => exact h.of_pc rfl (by simp [hp, Pc.past]) rfl rfl rfl rfl rfl rfl
  | client c _ hc => exact h.client hc
  | fail c hp => exact h.of_pc rfl (fun _ => rfl) rfl rfl rfl rfl rfl rfl
  | kill c hp => exact h.of_pc rfl (fun _ => rfl) rfl rfl rfl rfl rfl rfl
  | server _ hc => exact h.server hpos hsum hc
  | skip hq =>
    have howed : s.server.owed req = 0 := by
      cases hs : s.server <;> simp_all [Server.opens, Server.owed]
    refine h.of_server (List.sublist_append_right _ _) (by simp) ?_
    rw [St.next, howed]
    rfl

end Counted

/-! ### Safety -/

/-- The numbers that a response hands out to a client. -/
def range (req : Fin n → Request) (c : Fin n) (x : Response n) : Set ℤ :=
  { v | x.seqNum ≤ v ∧ v < x.seqNum + (req c).seqLen }

instance (c : Fin n) (x : Response n) (v : ℤ) : Decidable (v ∈ range req c x) :=
  inferInstanceAs (Decidable (x.seqNum ≤ v ∧ v < x.seqNum + (req c).seqLen))

/-- A client prints the response to its own request; its range is among the numbers that have been
handed out and has none in common with the ranges of the other clients. -/
structure Safe (req : Fin n → Request) (s : St n) : Prop where
  owner : ∀ c x, s.printed c = some x → x.owner = c
  handed : ∀ c x, s.printed c = some x →
    0 ≤ x.seqNum ∧ x.seqNum + (req c).seqLen ≤ s.next req
  apart : ∀ c d x y, s.printed c = some x → s.printed d = some y → c ≠ d →
    ∀ v ∈ range req c x, v ∉ range req d y

lemma safe_of_inv (ha : Addressed req s) (hc : Counted req s) : Safe req s := by
  refine ⟨ha.printed, fun c x hx => ?_, fun c d x y hx hy hne => ?_⟩
  · obtain rfl := ha.printed c x hx
    exact hc.range x (hc.printed _ x hx)
  · obtain rfl := ha.printed c x hx
    obtain rfl := ha.printed d y hy
    have hxy : x ≠ y := fun h => hne (congrArg Response.owner h)
    have hsplit : s.served.Pairwise fun x y => x.seqNum + (req x.owner).seqLen ≤ y.seqNum ∨
        y.seqNum + (req y.owner).seqLen ≤ x.seqNum := hc.apart.imp Or.inl
    have hsymm : Std.Symm fun x y : Response n => x.seqNum + (req x.owner).seqLen ≤ y.seqNum ∨
        y.seqNum + (req y.owner).seqLen ≤ x.seqNum := ⟨fun _ _ => Or.symm⟩
    rintro v ⟨hxv, hvx⟩ ⟨hyv, hvy⟩
    rcases hsplit.forall (hc.printed _ x hx) (hc.printed _ y hy) hxy with h | h <;> omega

/-- **Runs that meet the condition.** -/
theorem safe_of_guarded (hpos : ∀ c, 0 < (req c).seqLen)
    (hsum : ∑ c, (req c).seqLen < 2147483648) {as : List (Act n)}
    (hrun : exec (step req) start as = some s) (hfresh : Guarded (step req) (Fresh req) start as) :
    Safe req s := by
  have haddressed : Addressed req s :=
    hfresh.invariant hrun Addressed.start fun _ _ _ hu ha hstep => hu.next ha hstep
  have hcounted : Counted req s :=
    hfresh.invariant hrun Counted.start fun _ _ _ hu _ hstep => hu.next hpos hsum hstep
  exact safe_of_inv haddressed hcounted

/-- **Clients with different process ids** meet the condition: a process that begins to run has
sent no request. -/
theorem guarded_of_injective (hpos : ∀ c, 0 < (req c).seqLen)
    (hsum : ∑ c, (req c).seqLen < 2147483648) (hpid : Function.Injective fun c => (req c).pid)
    {as : List (Act n)} (hrun : exec (step req) start as = some s) :
    Guarded (step req) (Fresh req) start as := by
  have hall : Guarded (step req) (fun _ _ => True) start as :=
    Guarded.of_forall (fun _ _ _ => trivial) start
  refine hall.of_exec hrun Counted.start fun u a v hu _ hstep => ⟨?_, hu.next hpos hsum hstep⟩
  cases step_cases hstep with
  | start c hp hd =>
    intro d hout hpid'
    obtain rfl := hpid hpid'
    have hpast := hu.past d (hu.mem_requests_of_outstanding hout)
    rw [hp] at hpast
    cases hpast
  | client c _ hc => trivial
  | fail c hp => trivial
  | kill c hp => trivial
  | server _ hc => trivial
  | skip hq => trivial

end LinuxSamples.FifoSeqnum
