import LinuxSamples.InotifyDtreeCache

/-!
How the directory-tree monitor works off its events.

The reads cut the queue into pieces of any size. A "moved from" event at the end of a piece is
looked at again after a further read, so the monitor ends up where it would if every event were
handled with the whole rest of the queue in view. That is `Drains`, and what one operation
queues is then followed event by event.
-/

namespace LinuxSamples.InotifyDtree

open Run Pathname

variable {nftw : Nftw} {T : List Entry} {g g' g'' : Monitor} {e e' : Entry}

/-! ### One event of an entry -/

section Next

variable {k : ℕ} {n m : Name} {nextEv : Option Event} {firstTry : Bool}

lemma findWatch_of_entry (h : Cached T g.wlCache) (he : e ∈ T) :
    ∃ j, findWatch g.wlCache e.wd = some j ∧ g.wlCache[j]? = some e.slot ∧
      pathAt g.wlCache j = str e.dir.path := by
  obtain ⟨j, hj, hslot⟩ := h.findWatch_eq he
  exact ⟨j, hj, hslot, by rw [pathAt, hslot]; rfl⟩

lemma next_new (h : Cached T g.wlCache) (he : e ∈ T) {mask : Mask}
    (hmask : mask = .create ∨ mask = .movedTo) :
    processNextInotifyEvent nftw g ⟨e.wd, mask, true, k, n⟩ nextEv firstTry =
      .consumed (if pathnameInCache g.wlCache (str (e.dir.path ++ [n])) then g
        else watchSubtree nftw g (str (e.dir.path ++ [n]))) 1 [] := by
  obtain ⟨j, hj, -, hpath⟩ := findWatch_of_entry h he
  have hstep : processNextInotifyEvent nftw g ⟨e.wd, mask, true, k, n⟩ nextEv firstTry =
      if pathnameInCache g.wlCache (str (e.dir.path ++ [n])) = false then
        .consumed (watchSubtree nftw g (str (e.dir.path ++ [n]))) 1 []
      else .consumed g 1 [] := by
    rcases hmask with rfl | rfl <;>
      simp [processNextInotifyEvent, hj, hpath, str_concat]
  rw [hstep]
  cases pathnameInCache g.wlCache (str (e.dir.path ++ [n])) <;> rfl

lemma next_deleteSelf (h : Cached T g.wlCache) (he : e ∈ T)
    (hroot : isRootDirPath g (str e.dir.path) = false) :
    ∃ j, g.wlCache[j]? = some e.slot ∧
      processNextInotifyEvent nftw g ⟨e.wd, .deleteSelf, true, k, []⟩ nextEv firstTry =
        .consumed { g with wlCache := markCacheSlotEmpty g.wlCache j } 1 [] := by
  obtain ⟨j, hj, hslot, hpath⟩ := findWatch_of_entry h he
  exact ⟨j, hslot, by simp [processNextInotifyEvent, hj, hpath, hroot]⟩

lemma next_renamed (h : Cached T g.wlCache) (he : e ∈ T) (he' : e' ∈ T) :
    processNextInotifyEvent nftw g ⟨e.wd, .movedFrom, true, k, n⟩
        (some ⟨e'.wd, .movedTo, true, k, m⟩) firstTry =
      .consumed { g with
        wlCache := rewriteCachedPaths g.wlCache (str e.dir.path) n (str e'.dir.path) m } 2 [] := by
  obtain ⟨j, hj, -, hpath⟩ := findWatch_of_entry h he
  obtain ⟨j', hj', -, hpath'⟩ := findWatch_of_entry h he'
  simp [processNextInotifyEvent, hj, hpath, hj', hpath']

lemma next_movedOut (h : Cached T g.wlCache) (he : e ∈ T) :
    processNextInotifyEvent nftw g ⟨e.wd, .movedFrom, true, k, n⟩ none false =
      zapOrReinit nftw g (str (e.dir.path ++ [n])) := by
  obtain ⟨j, hj, -, hpath⟩ := findWatch_of_entry h he
  simp [processNextInotifyEvent, hj, hpath, str_concat]

lemma next_ignored {ev : Event} (hev : ev.mask = .ignored) :
    processNextInotifyEvent nftw g ev nextEv firstTry = .consumed g 1 [] := by
  simp [processNextInotifyEvent, hev]

end Next

/-! ### All events -/

/-- The monitor `g` gets to `g'` by handling the events, each with all that follow it in view. -/
inductive Drains (nftw : Nftw) : Monitor → List Event → Monitor → Prop
  | nil (g : Monitor) : Drains nftw g [] g
  | consumed {g g' g'' : Monitor} {ev : Event} {rest queued : List Event} {count : ℕ}
      (h : processNextInotifyEvent nftw g ev rest.head? false = .consumed g' count queued)
      (hrest : Drains nftw g' ((ev :: rest).drop count ++ queued) g'') :
      Drains nftw g (ev :: rest) g''
  | reinitialized {g g' : Monitor} {ev : Event} {rest : List Event}
      (h : processNextInotifyEvent nftw g ev rest.head? false = .reinitialized g') :
      Drains nftw g (ev :: rest) g'

namespace Drains

lemma of_nil (h : Drains nftw g [] g') : g' = g := by
  cases h
  rfl

lemma of_consumed {ev : Event} {rest queued : List Event} {count : ℕ}
    (h : Drains nftw g (ev :: rest) g'')
    (hnext : processNextInotifyEvent nftw g ev rest.head? false = .consumed g' count queued) :
    Drains nftw g' ((ev :: rest).drop count ++ queued) g'' := by
  cases h with
  | consumed h hrest =>
    rw [hnext, Outcome.consumed.injEq] at h
    obtain ⟨rfl, rfl, rfl⟩ := h
    exact hrest
  | reinitialized h =>
    rw [hnext] at h
    cases h

lemma of_ignored {evs : List Event} (hevs : ∀ ev ∈ evs, ev.mask = .ignored)
    (h : Drains nftw g evs g') : g' = g := by
  induction evs with
  | nil => exact h.of_nil
  | cons ev evs ih =>
    have hrest := h.of_consumed (next_ignored (hevs ev List.mem_cons_self))
    rw [List.append_nil] at hrest
    exact ih (fun ev' hev' => hevs ev' (List.mem_cons_of_mem ev hev')) hrest

end Drains

/-- An event handled with what the buffer shows is handled as with all events in view, unless
it hangs. The last event of the buffer is handled for good only if no event is queued. -/
lemma next_append {ev : Event} {rest queue : List Event} {firstTry : Bool}
    (hview : firstTry = false → rest = [] → queue = [])
    (hne : processNextInotifyEvent nftw g ev rest.head? firstTry ≠ .hanging) :
    processNextInotifyEvent nftw g ev (rest ++ queue).head? false =
      processNextInotifyEvent nftw g ev rest.head? firstTry := by
  cases rest with
  | cons next rest => cases firstTry <;> rfl
  | nil =>
    cases firstTry with
    | false => rw [hview rfl rfl]; rfl
    | true =>
      -- of all events only a "moved from" event looks ahead, and that one hangs
      obtain ⟨wd, mask, isDir, cookie, name⟩ := ev
      cases mask <;> try rfl
      cases isDir
      · rfl
      · simp only [processNextInotifyEvent, List.head?_nil, Bool.true_eq_false, if_false,
          if_true] at hne ⊢
        split at hne <;> rename_i hslot
        · rw [if_pos hslot, if_pos hslot]
        · exact absurd rfl hne

lemma zapOrReinit_count {path : List Char} {count : ℕ} {queued : List Event}
    (h : zapOrReinit nftw g path = .consumed g' count queued) : count = 1 := by
  simp only [zapOrReinit] at h
  split at h
  · cases h
  · rw [Outcome.consumed.injEq] at h
    exact h.2.1.symm

lemma count_le {ev : Event} {rest queued : List Event} {firstTry : Bool} {count : ℕ}
    (h : processNextInotifyEvent nftw g ev rest.head? firstTry = .consumed g' count queued) :
    count ≤ (ev :: rest).length := by
  have hone : count = 1 → count ≤ (ev :: rest).length := by
    rintro rfl
    simp
  simp only [processNextInotifyEvent] at h
  split at h
  · cases h
  cases hmask : ev.mask <;> simp only [hmask] at h
  case create | movedTo =>
    split at h <;> cases h <;> exact hone rfl
  case deleteSelf =>
    split at h
    · split at h <;> cases h
      exact hone rfl
    · cases h
      exact hone rfl
  case movedFrom =>
    split at h
    · cases h
      exact hone rfl
    cases rest with
    | nil =>
      simp only [List.head?_nil] at h
      split at h
      · cases h
      · exact hone (zapOrReinit_count h)
    | cons next rest =>
      simp only [List.head?_cons] at h
      split at h
      · split at h <;> cases h
        simp
      · exact hone (zapOrReinit_count h)
  case moveSelf =>
    split at h
    · split at h
      · cases h
      · exact hone (zapOrReinit_count h)
    · cases h
      exact hone rfl
  case qOverflow => cases h
  case unmount | ignored =>
    cases h
    exact hone rfl

/-- The last event of the buffer is looked at for the second time only if no event is queued. -/
def Reader.Viewed (m : Reader) : Prop := m.firstTry = false → m.buf.length ≤ 1 → m.queue = []

lemma Reader.viewed_of_firstTry {m : Reader} (h : m.firstTry = true) : m.Viewed := by
  intro hfalse
  rw [h] at hfalse
  cases hfalse

/-- A turn reads, and leaves the events as they are, or it handles the next one as with all
events in view. -/
lemma drains_of_turn {m m' : Reader} {n : ℕ} (h : turn nftw m n = some m') (hview : m.Viewed) :
    m'.Viewed ∧ (Drains nftw m'.monitor (m'.buf ++ m'.queue) g →
      Drains nftw m.monitor (m.buf ++ m.queue) g) := by
  obtain ⟨g₀, buf, queue, firstTry⟩ := m
  cases buf with
  | nil =>
    simp only [turn] at h
    split at h
    · cases h
      refine ⟨Reader.viewed_of_firstTry rfl, fun hd => ?_⟩
      rwa [List.take_append_drop] at hd
    · cases h
  | cons ev rest =>
    simp only [turn] at h
    have hnext_view : firstTry = false → rest = [] → queue = [] :=
      fun hfirst hnil => hview hfirst (by simp [hnil])
    cases hnext : processNextInotifyEvent nftw g₀ ev rest.head? firstTry with
    | consumed g₁ count queued =>
      rw [hnext] at h
      cases h
      have hall := next_append hnext_view (by rw [hnext]; simp)
      refine ⟨Reader.viewed_of_firstTry rfl, fun hd => .consumed (hall.trans hnext) ?_⟩
      rwa [← List.append_assoc, ← List.drop_append_of_le_length (count_le hnext)] at hd
    | reinitialized g₁ =>
      rw [hnext] at h
      cases h
      have hall := next_append hnext_view (by rw [hnext]; simp)
      refine ⟨Reader.viewed_of_firstTry rfl, fun hd => ?_⟩
      rw [Drains.of_nil hd]
      exact .reinitialized (hall.trans hnext)
    | exited =>
      rw [hnext] at h
      cases h
    | hanging =>
      rw [hnext] at h
      simp only at h
      split at h
      case isTrue hempty =>
        cases h
        exact ⟨fun _ _ => hempty, id⟩
      case isFalse hempty =>
        split at h
        · rename_i hn
          cases h
          refine ⟨fun _ hlen => ?_, fun hd => ?_⟩
          · -- the secondary read got at least one more event
            rw [List.length_append, List.length_cons, List.length_take] at hlen
            omega
          · rwa [List.append_assoc, List.take_append_drop] at hd
        · cases h

/-- **However the reads cut the queue**, working it off is `Drains`. -/
theorem drains_of_exec {m m' : Reader} {reads : List ℕ}
    (h : exec (turn nftw) m reads = some m') (hbuf : m'.buf = []) (hqueue : m'.queue = [])
    (hview : m.Viewed) : Drains nftw m.monitor (m.buf ++ m.queue) m'.monitor := by
  induction reads generalizing m with
  | nil =>
    rw [exec_nil, Option.some.injEq] at h
    subst h
    rw [hbuf, hqueue]
    exact .nil _
  | cons n reads ih =>
    rw [exec_cons] at h
    obtain ⟨t, ht, hrest⟩ := Option.bind_eq_some_iff.mp h
    obtain ⟨hview', hdrains⟩ := drains_of_turn ht hview
    exact hdrains (ih hrest hview')

lemma drains_of_processInotifyEvents {queue : List Event} {reads : List ℕ}
    (h : processInotifyEvents nftw g queue reads = some g') : Drains nftw g queue g' := by
  obtain ⟨m, hm, hend⟩ := Option.bind_eq_some_iff.mp h
  split at hend
  · rename_i hquiet
    cases hend
    exact drains_of_exec hm hquiet.1 hquiet.2 (Reader.viewed_of_firstTry rfl)
  · cases hend

/-! ### The events of an operation -/

namespace Drains

variable {k : ℕ} {n m : Name} {rest : List Event}

lemma of_new {fs : List Dir} {p : Path} (hfs : (fs.map Dir.ino).Nodup)
    (hvisits : (nftw (pathname p)).Perm
      ((fs.filter fun d => p.isPrefixOf d.path).map fun d => (pathname d.path, d)))
    (h : Tracks T g) (hT : ∀ e ∈ T, e.dir ∈ fs) (he : e ∈ T) (hp : p = e.dir.path ++ [n])
    (hnew : ∀ e' ∈ T, e'.dir.path ≠ p) {mask : Mask} (hmask : mask = .create ∨ mask = .movedTo)
    (hd : Drains nftw g [⟨e.wd, mask, true, k, n⟩] g') :
    ∃ T', Tracks T' g' ∧ g'.rootDirPaths = g.rootDirPaths ∧
      ∀ d, d ∈ T'.map Entry.dir ↔ d ∈ T.map Entry.dir ∨ d ∈ fs ∧ p <+: d.path := by
  have hne : p ≠ [] := by simp [hp]
  have hcache : ¬ pathnameInCache g.wlCache (str p) = true := by
    rw [h.cached.pathnameInCache_iff]
    rintro ⟨e', he', heq⟩
    exact hnew e' he' heq
  have hend := (hd.of_consumed (next_new h.cached he hmask)).of_nil
  rw [← hp, if_neg hcache, ← pathname_of_ne_nil hne] at hend
  rw [hend]
  exact h.watchSubtree hfs hne hvisits hT

lemma of_onto (hd : Drains nftw g (⟨e.wd, .movedTo, true, k, n⟩ :: rest) g')
    (h : Cached T g.wlCache) (he : e ∈ T) (he' : e' ∈ T)
    (honto : e'.dir.path = e.dir.path ++ [n]) : Drains nftw g rest g' := by
  have hcache : pathnameInCache g.wlCache (str (e.dir.path ++ [n])) = true :=
    h.pathnameInCache_iff.mpr ⟨e', he', honto⟩
  have hrest := hd.of_consumed (next_new h he (.inr rfl))
  rwa [if_pos hcache, List.append_nil] at hrest

lemma of_removed (h : Tracks T g) (he : e ∈ T) (hroot : isRootDirPath g (str e.dir.path) = false)
    (hd : Drains nftw { g with watches := g.watches.filter fun w => some w.wd ≠ some e.wd }
      [⟨e.wd, .deleteSelf, true, k, []⟩, Event.ofIgnored e.wd] g') :
    Tracks (T.filter (·.wd ≠ e.wd)) g' ∧ g'.rootDirPaths = g.rootDirPaths := by
  obtain ⟨j, hj, hnext⟩ := next_deleteSelf
    (g := { g with watches := g.watches.filter fun w => some w.wd ≠ some e.wd }) h.cached he hroot
  have hend := (hd.of_consumed hnext).of_ignored (by simp [Event.ofIgnored])
  rw [hend]
  exact ⟨h.remove he hj, rfl⟩

lemma of_renamed
    (hd : Drains nftw g
      (⟨e.wd, .movedFrom, true, k, n⟩ :: ⟨e'.wd, .movedTo, true, k, m⟩ :: rest) g')
    (h : Cached T g.wlCache) (he : e ∈ T) (he' : e' ∈ T) :
    Drains nftw { g with
      wlCache := rewriteCachedPaths g.wlCache (str e.dir.path) n (str e'.dir.path) m } rest g' := by
  have hrest := hd.of_consumed (next_renamed h he he')
  rwa [List.append_nil] at hrest

lemma of_movedOut (h : Tracks T g) (he : e ∈ T)
    (hd : Drains nftw g [⟨e.wd, .movedFrom, true, k, n⟩] g') :
    Tracks (T.filter fun e' => !(e.dir.path ++ [n]).isPrefixOf e'.dir.path) g' ∧
      g'.rootDirPaths = g.rootDirPaths := by
  obtain ⟨z, queued, hz, hqueued, hroots, htracks⟩ := h.zap nftw (e.dir.path ++ [n])
  have hend := (hd.of_consumed ((next_movedOut h.cached he).trans hz)).of_ignored
    (by simpa using hqueued)
  rw [hend]
  exact ⟨htracks, hroots⟩

end Drains

end LinuxSamples.InotifyDtree
