import LinuxSamples.InotifyDtree

/-!
What the array of the directory-tree monitor and the watches of its inotify instance hold.

An entry is a directory together with a watch descriptor. The array holds a list of entries
when its used slots are theirs, in some order; an instance has the watches of a list of entries
in the same sense. Each function of the program on the array, and each system call on the
watches, does one thing to such a list: it adds an entry, drops one, drops those below a path,
or renames them.
-/

namespace LinuxSamples.InotifyDtree

open Run Pathname

lemma Dir.move_below {src dst r : Path} {d : Dir} (h : src ++ r = d.path) :
    d.move src dst = { d with path := dst ++ r } := by
  rw [Dir.move, if_pos ( List.isPrefixOf_iff_prefix.mpr ⟨r, h⟩), ← h, List.drop_left]

lemma Dir.move_other {src dst : Path} {d : Dir} (h : ¬ src <+: d.path) :
    d.move src dst = d :=
  if_neg fun hpre => h ( List.isPrefixOf_iff_prefix.mp hpre)

@[simp] lemma Dir.ino_move (src dst : Path) (d : Dir) : (d.move src dst).ino = d.ino := by
  rw [Dir.move]
  split <;> rfl

/-- A directory and the descriptor of its watch. -/
structure Entry where
  dir : Dir
  wd : ℤ

namespace Entry

def slot (e : Entry) : Slot := ⟨e.wd, str e.dir.path⟩

def watch (e : Entry) : Watch := ⟨e.dir.ino, e.wd⟩

def move (src dst : Path) (e : Entry) : Entry := { e with dir := e.dir.move src dst }

end Entry

variable {T : List Entry} {cs : List Slot} {e : Entry} {src dst p q : Path}

/-! ### The array -/

lemma used_append (cs d : List Slot) : used (cs ++ d) = used cs ++ used d := List.filter_append ..

lemma used_cons_of_nonneg {s : Slot} (h : 0 ≤ s.wd) (cs : List Slot) :
    used (s :: cs) = s :: used cs := by
  simp [used, h]

lemma used_cons_of_neg {s : Slot} (h : s.wd < 0) (cs : List Slot) : used (s :: cs) = used cs := by
  simp [used, h]

@[simp] lemma used_replicate_unused (n : ℕ) : used (List.replicate n Slot.unused) = [] := by
  simp [used, Slot.unused]

/-- What `rewriteCachedPaths` does to a slot. -/
def rewriteSlot (src dst : Path) (s : Slot) : Slot :=
  if under (str src) s.path then
    { s with path := str dst ++ s.path.drop (str src).length }
  else s

lemma rewriteCachedPaths_eq (cs : List Slot) (p q : Path) (n m : Name) :
    rewriteCachedPaths cs (str p) n (str q) m =
      cs.map (rewriteSlot (p ++ [n]) (q ++ [m])) := by
  rw [rewriteCachedPaths, ← str_concat, ← str_concat]
  rfl

@[simp] lemma wd_rewriteSlot (src dst : Path) (s : Slot) : (rewriteSlot src dst s).wd = s.wd := by
  rw [rewriteSlot]
  split <;> rfl

lemma rewriteSlot_slot (src dst : Path) (e : Entry) :
    rewriteSlot src dst e.slot = (e.move src dst).slot := by
  by_cases hpre : src <+: e.dir.path
  · obtain ⟨r, hr⟩ := hpre
    have hunder : under (str src) (str e.dir.path) = true := (under_str_iff _ _).mpr ⟨r, hr⟩
    simp only [rewriteSlot, Entry.slot, Entry.move, hunder, Dir.move_below hr, if_true]
    rw [← hr, str_append_drop]
  · have hunder : under (str src) (str e.dir.path) = false := by
      rw [Bool.eq_false_iff, Ne, under_str_iff]
      exact hpre
    simp [rewriteSlot, Entry.slot, Entry.move, hunder, Dir.move_other hpre]

/-- The array `cs` holds the entries `T`, and its other slots are unused. -/
structure Cached (T : List Entry) (cs : List Slot) : Prop where
  perm : (used cs).Perm (T.map Entry.slot)
  unused : ∀ s ∈ cs, s.wd < 0 → s = Slot.unused
  wds : (T.map Entry.wd).Nodup
  nonneg : ∀ e ∈ T, 0 ≤ e.wd

lemma cached_nil : Cached [] [] := ⟨.nil, by simp, by simp, by simp⟩

namespace Cached

lemma exists_entry (h : Cached T cs) {s : Slot} (hs : s ∈ cs) (hwd : 0 ≤ s.wd) :
    ∃ e ∈ T, e.slot = s := by
  have hmem : s ∈ used cs := List.mem_filter.mpr ⟨hs, by simpa using hwd⟩
  simpa using h.perm.mem_iff.mp hmem

lemma slot_mem (h : Cached T cs) (he : e ∈ T) : e.slot ∈ cs :=
  List.mem_of_mem_filter (h.perm.mem_iff.mpr (List.mem_map_of_mem he))

lemma eq_of_wd (h : Cached T cs) {e' : Entry} (he : e ∈ T) (he' : e' ∈ T) (hwd : e.wd = e'.wd) :
    e = e' :=
  List.inj_on_of_nodup_map h.wds he he' hwd

lemma findWatch_eq (h : Cached T cs) (he : e ∈ T) :
    ∃ j, findWatch cs e.wd = some j ∧ cs[j]? = some e.slot := by
  have hsome : (findWatch cs e.wd).isSome := by
    rw [findWatch, List.findIdx?_isSome, List.any_eq_true]
    exact ⟨e.slot, h.slot_mem he, by simp [Entry.slot]⟩
  obtain ⟨j, hj⟩ := Option.isSome_iff_exists.mp hsome
  obtain ⟨hlt, hwd, -⟩ := List.findIdx?_eq_some_iff_getElem.mp hj
  replace hwd : cs[j].wd = e.wd := by simpa using hwd
  obtain ⟨e', he', hslot⟩ := h.exists_entry (List.getElem_mem hlt) (hwd ▸ h.nonneg e he)
  obtain rfl := h.eq_of_wd he' he ((congrArg Slot.wd hslot).trans hwd)
  exact ⟨j, hj, by rw [List.getElem?_eq_getElem hlt, hslot]⟩

lemma findWatch_eq_none (h : Cached T cs) {wd : ℤ} (hwd : 0 ≤ wd) (hnew : ∀ e ∈ T, e.wd ≠ wd) :
    findWatch cs wd = none := by
  rw [findWatch, List.findIdx?_eq_none_iff]
  intro s hs
  rw [decide_eq_false_iff_not]
  intro heq
  obtain ⟨e, he, rfl⟩ := h.exists_entry hs (heq ▸ hwd)
  exact hnew e he heq

lemma pathnameInCache_iff (h : Cached T cs) :
    pathnameInCache cs (str p) = true ↔ ∃ e ∈ T, e.dir.path = p := by
  rw [pathnameInCache, List.any_eq_true]
  constructor
  · rintro ⟨s, hs, hcond⟩
    obtain ⟨hwd, hpath⟩ : 0 ≤ s.wd ∧ s.path = str p := by simpa using hcond
    obtain ⟨e, he, rfl⟩ := h.exists_entry hs hwd
    exact ⟨e, he, str_injective hpath⟩
  · rintro ⟨e, he, rfl⟩
    exact ⟨e.slot, h.slot_mem he, by simp [Entry.slot, h.nonneg e he]⟩

lemma used_set_unused {s : Slot} (hs : 0 ≤ s.wd) {j : ℕ} (hj : j < cs.length)
    (hfree : cs[j].wd < 0) :
    (used (cs.set j s)).Perm (s :: used cs) := by
  obtain ⟨l, r, hc, -, hset⟩ :
      ∃ l r, cs = l ++ cs[j] :: r ∧ l.length = j ∧ cs.set j s = l ++ s :: r := List.exists_of_set hj
  have hused : used cs = used l ++ used r := by
    conv_lhs => rw [hc]
    rw [used_append, used_cons_of_neg hfree]
  rw [hset, used_append, used_cons_of_nonneg hs, hused]
  exact List.perm_middle

lemma findEmptyCacheSlot_spec (cs : List Slot) :
    ∃ d j, findEmptyCacheSlot cs = (d, j) ∧ used d = used cs ∧
      (∀ s ∈ d, s ∈ cs ∨ s = Slot.unused) ∧ ∃ hj : j < d.length, d[j].wd = -1 := by
  rw [findEmptyCacheSlot]
  cases hfind : findWatch cs (-1) with
  | some j =>
    obtain ⟨hj, hwd, -⟩ := List.findIdx?_eq_some_iff_getElem.mp hfind
    exact ⟨cs, j, rfl, rfl, fun s hs => .inl hs, hj, by simpa using hwd⟩
  | none =>
    refine ⟨_, _, rfl, by rw [used_append, used_replicate_unused, List.append_nil], ?_, ?_, ?_⟩
    · intro s hs
      rcases List.mem_append.mp hs with hs | hs
      · exact .inl hs
      · exact .inr (List.eq_of_mem_replicate hs)
    · rw [List.length_append, List.length_replicate]
      exact Nat.lt_add_of_pos_right (by decide)
    · rw [List.getElem_append_right (le_refl _), List.getElem_replicate]
      rfl

lemma add (h : Cached T cs) (hwd : 0 ≤ e.wd) (hnew : e.wd ∉ T.map Entry.wd) :
    Cached (e :: T) (addWatchToCache cs e.wd (str e.dir.path)) := by
  obtain ⟨d, j, hd, hused, hmem, hj, hfree⟩ := findEmptyCacheSlot_spec cs
  have hset : addWatchToCache cs e.wd (str e.dir.path) = d.set j e.slot := by
    rw [addWatchToCache, hd]
    rfl
  rw [hset]
  constructor
  case perm =>
    refine (used_set_unused hwd hj (by rw [hfree]; decide)).trans ?_
    rw [hused, List.map_cons]
    exact h.perm.cons _
  case unused =>
    intro s hs hneg
    rcases List.mem_or_eq_of_mem_set hs with hs | rfl
    · rcases hmem s hs with hs | rfl
      · exact h.unused s hs hneg
      · rfl
    · exact absurd hneg (not_lt.mpr hwd)
  case wds => exact List.nodup_cons.mpr ⟨hnew, h.wds⟩
  case nonneg => exact List.forall_mem_cons.mpr ⟨hwd, h.nonneg⟩

lemma perm_cons_filter (h : Cached T cs) (he : e ∈ T) :
    T.Perm (e :: T.filter (·.wd ≠ e.wd)) := by
  obtain ⟨l, r, rfl⟩ := List.append_of_mem he
  have hwds := h.wds
  simp only [List.map_append, List.map_cons, List.nodup_append, List.nodup_cons] at hwds
  have hl : l.filter (·.wd ≠ e.wd) = l := by
    rw [List.filter_eq_self]
    intro e' he'
    simpa using hwds.2.2 e'.wd (List.mem_map_of_mem he') e.wd List.mem_cons_self
  have hr : r.filter (·.wd ≠ e.wd) = r := by
    rw [List.filter_eq_self]
    intro e' he'
    have hne : e'.wd ≠ e.wd := fun heq => hwds.2.1.1 (heq ▸ List.mem_map_of_mem he')
    simpa using hne
  rw [List.filter_append, hl, List.filter_cons_of_neg (by simp), hr]
  exact List.perm_middle

lemma filter (h : Cached T cs) (f : Entry → Bool) {d : List Slot}
    (hd : (used d).Perm ((T.filter f).map Entry.slot))
    (hunused : ∀ s ∈ d, s ∈ cs ∨ s = Slot.unused) :
    Cached (T.filter f) d where
  perm := hd
  unused s hs hneg := (hunused s hs).elim (fun hs => h.unused s hs hneg) id
  wds := h.wds.sublist (List.filter_sublist.map _)
  nonneg e he := h.nonneg e (List.mem_of_mem_filter he)

lemma mark (h : Cached T cs) (he : e ∈ T) {j : ℕ} (hj : cs[j]? = some e.slot) :
    Cached (T.filter (·.wd ≠ e.wd)) (markCacheSlotEmpty cs j) := by
  obtain ⟨hlt, hslot⟩ := List.getElem?_eq_some_iff.mp hj
  obtain ⟨l, r, hc, -, hset⟩ :
      ∃ l r, cs = l ++ cs[j] :: r ∧ l.length = j ∧ cs.set j Slot.unused = l ++ Slot.unused :: r :=
    List.exists_of_set hlt
  refine h.filter _ ?_ fun s hs => List.mem_or_eq_of_mem_set hs
  have hall : (e.slot :: (used l ++ used r)).Perm
      (e.slot :: (T.filter (·.wd ≠ e.wd)).map Entry.slot) := by
    refine List.Perm.trans ?_ (h.perm.trans ((h.perm_cons_filter he).map Entry.slot))
    rw [hc, hslot, used_append, used_cons_of_nonneg (h.nonneg e he)]
    exact List.perm_middle.symm
  rw [markCacheSlotEmpty, hset, used_append, used_cons_of_neg (by decide)]
  exact hall.cons_inv

lemma rewrite (h : Cached T cs) {n m : Name} :
    Cached (T.map (Entry.move (p ++ [n]) (q ++ [m])))
      (rewriteCachedPaths cs (str p) n (str q) m) := by
  rw [rewriteCachedPaths_eq]
  have hused : used (cs.map (rewriteSlot (p ++ [n]) (q ++ [m]))) =
      (used cs).map (rewriteSlot (p ++ [n]) (q ++ [m])) := by
    rw [used, List.filter_map, used]
    congr 1
    exact List.filter_congr fun s _ => by simp
  constructor
  case perm =>
    refine hused ▸ (h.perm.map _).trans (List.Perm.of_eq ?_)
    rw [List.map_map, List.map_map]
    exact List.map_congr_left fun e _ => rewriteSlot_slot _ _ e
  case unused =>
    intro s hs hneg
    obtain ⟨t, ht, rfl⟩ := List.mem_map.mp hs
    -- an unused slot has the empty pathname, which nothing is found in
    rw [wd_rewriteSlot] at hneg
    rw [h.unused t ht hneg]
    simp [rewriteSlot, Slot.unused, not_under_nil]
  case wds =>
    rw [List.map_map]
    exact h.wds
  case nonneg =>
    intro e he
    obtain ⟨e', he', rfl⟩ := List.mem_map.mp he
    exact h.nonneg e' he'

end Cached

/-! ### Zapping -/

lemma under_slot (src : Path) (e : Entry) :
    under (str src) e.slot.path = src.isPrefixOf e.dir.path := by
  rw [Bool.eq_iff_iff, Entry.slot, under_str_iff, List.isPrefixOf_iff_prefix]

/-- A slot that `zapSubtree` empties. -/
def zaps (path : List Char) (s : Slot) : Bool := 0 ≤ s.wd && under path s.path

/-- If every slot to be emptied has its watch, no call fails: those slots are emptied, their
watches are gone, and the kernel queues nothing but their last events. -/
lemma zapSubtree_spec (path : List Char) {cs : List Slot} (watches : List Watch)
    (hwds : ((used cs).map Slot.wd).Nodup)
    (hwatch : ∀ s ∈ cs, zaps path s → ∃ w ∈ watches, w.wd = s.wd) :
    (zapSubtree path cs watches).failed = false ∧
    (zapSubtree path cs watches).wlCache =
      cs.map (fun s => if zaps path s then Slot.unused else s) ∧
    (zapSubtree path cs watches).watches =
      watches.filter (fun w => !cs.any fun s => zaps path s && s.wd = w.wd) ∧
    ∀ ev ∈ (zapSubtree path cs watches).queued, ev.mask = .ignored := by
  induction cs generalizing watches with
  | nil => simp [zapSubtree]
  | cons s cs ih =>
    have hrest : ((used cs).map Slot.wd).Nodup :=
      hwds.sublist (((List.sublist_cons_self s cs).filter _).map _)
    by_cases hz : zaps path s
    · obtain ⟨hwd, hunder⟩ : 0 ≤ s.wd ∧ under path s.path := by simpa [zaps] using hz
      have hany : watches.any (·.wd = s.wd) := by
        simpa using hwatch s List.mem_cons_self hz
      have hother : ∀ t ∈ cs, zaps path t → t.wd ≠ s.wd := by
        intro t ht htz heq
        rw [used_cons_of_nonneg hwd, List.map_cons, List.nodup_cons] at hwds
        refine hwds.1 (heq ▸ List.mem_map_of_mem (List.mem_filter.mpr ⟨ht, ?_⟩))
        simpa [heq] using hwd
      obtain ⟨hfail, hcache, hwatches, hqueued⟩ :=
        ih (watches.filter (·.wd ≠ s.wd)) hrest fun t ht htz => by
          obtain ⟨w, hw, hwt⟩ := hwatch t (List.mem_cons_of_mem s ht) htz
          exact ⟨w, List.mem_filter.mpr ⟨hw, by simpa [hwt] using hother t ht htz⟩, hwt⟩
      rw [zapSubtree, if_pos ⟨hwd, hunder⟩, if_pos hany]
      refine ⟨hfail, ?_, ?_, ?_⟩
      · rw [List.map_cons, if_pos hz, ← hcache]
      · rw [hwatches, List.filter_filter]
        refine List.filter_congr fun w _ => ?_
        simp only [List.any_cons, hz, Bool.true_and, Bool.not_or, Bool.and_comm]
        congr 1
        simp [eq_comm]
      · intro ev hev
        rcases List.mem_cons.mp hev with rfl | hev
        · rfl
        · exact hqueued ev hev
    · have hcond : ¬ (0 ≤ s.wd ∧ under path s.path) := by simpa [zaps] using hz
      obtain ⟨hfail, hcache, hwatches, hqueued⟩ := ih watches hrest fun t ht htz =>
        hwatch t (List.mem_cons_of_mem s ht) htz
      rw [zapSubtree, if_neg hcond]
      exact ⟨hfail, by simp [hcache, hz], by simp [hwatches, hz], hqueued⟩

lemma used_map_zaps (path : List Char) (cs : List Slot) :
    used (cs.map fun s => if zaps path s then Slot.unused else s) =
      (used cs).filter fun s => !under path s.path := by
  induction cs with
  | nil => rfl
  | cons s cs ih =>
    rw [List.map_cons]
    by_cases hwd : 0 ≤ s.wd
    · rw [used_cons_of_nonneg hwd]
      by_cases hunder : under path s.path
      · rw [if_pos (by simp [zaps, hwd, hunder]), used_cons_of_neg (by decide),
          List.filter_cons_of_neg (by simp [hunder]), ih]
      · rw [if_neg (by simp [zaps, hunder]), used_cons_of_nonneg hwd,
          List.filter_cons_of_pos (by simp [hunder]), ih]
    · rw [if_neg (by simp [zaps, hwd]), used_cons_of_neg (not_le.mp hwd),
        used_cons_of_neg (not_le.mp hwd), ih]

/-! ### The array and the instance together -/

/-- The monitor knows the entries `T`: its array holds them, and its instance has exactly their
watches. Descriptors are handed out in ascending order. -/
structure Tracks (T : List Entry) (g : Monitor) : Prop where
  cached : Cached T g.wlCache
  watches : g.watches.Perm (T.map Entry.watch)
  inos : (T.map fun e => e.dir.ino).Nodup
  below : ∀ e ∈ T, e.wd < g.nextWd
  next : 0 ≤ g.nextWd

namespace Tracks

variable {g : Monitor}

lemma watch_mem (h : Tracks T g) (he : e ∈ T) : e.watch ∈ g.watches :=
  h.watches.mem_iff.mpr (List.mem_map_of_mem he)

lemma eq_of_ino (h : Tracks T g) {e' : Entry} (he : e ∈ T) (he' : e' ∈ T)
    (hino : e.dir.ino = e'.dir.ino) : e = e' :=
  List.inj_on_of_nodup_map h.inos he he' hino

lemma find_eq (h : Tracks T g) (he : e ∈ T) :
    g.watches.find? (·.ino = e.dir.ino) = some e.watch := by
  cases hfind : g.watches.find? (·.ino = e.dir.ino) with
  | none =>
    have := List.find?_eq_none.mp hfind e.watch (h.watch_mem he)
    simp [Entry.watch] at this
  | some w =>
    have hino : w.ino = e.dir.ino := by simpa using List.find?_some hfind
    obtain ⟨e', he', rfl⟩ :=
      List.mem_map.mp (h.watches.mem_iff.mp (List.mem_of_find?_eq_some hfind))
    rw [h.eq_of_ino he' he hino]

lemma find_eq_none (h : Tracks T g) {ino : ℕ} (hino : ∀ e ∈ T, e.dir.ino ≠ ino) :
    g.watches.find? (·.ino = ino) = none := by
  rw [List.find?_eq_none]
  intro w hw
  obtain ⟨e, he, rfl⟩ := List.mem_map.mp (h.watches.mem_iff.mp hw)
  intro heq
  exact hino e he (of_decide_eq_true heq)

lemma watchOn_eq (h : Tracks T g) (he : e ∈ T) : g.watchOn e.dir.ino = some e.wd := by
  rw [Monitor.watchOn, h.find_eq he]
  rfl

lemma watchOn_eq_none (h : Tracks T g) {ino : ℕ} (hino : ∀ e ∈ T, e.dir.ino ≠ ino) :
    g.watchOn ino = none := by
  rw [Monitor.watchOn, h.find_eq_none hino]
  rfl

lemma watches_remove (h : Tracks T g) (e : Entry) :
    (g.watches.filter fun w => some w.wd ≠ some e.wd).Perm
      ((T.filter (·.wd ≠ e.wd)).map Entry.watch) := by
  have hmap : (T.filter (·.wd ≠ e.wd)).map Entry.watch =
      (T.map Entry.watch).filter fun w => some w.wd ≠ some e.wd := by
    rw [List.filter_map]
    exact congrArg _ (List.filter_congr fun e' _ => by
      rw [Function.comp_apply, decide_eq_decide]
      simp [Entry.watch])
  rw [hmap]
  exact h.watches.filter _

lemma traverseTree_of_mem (h : Tracks T g) (he : e ∈ T) (s : List Char) :
    traverseTree g (s, e.dir) = g := by
  obtain ⟨j, hj, -⟩ := h.cached.findWatch_eq he
  simp only [traverseTree, inotifyAddWatch, h.find_eq he, Entry.watch, hj]

lemma traverseTree_of_new (h : Tracks T g) {d : Dir} (hino : ∀ e ∈ T, e.dir.ino ≠ d.ino) :
    Tracks (⟨d, g.nextWd⟩ :: T) (traverseTree g (str d.path, d)) := by
  have hnew : ∀ e ∈ T, e.wd ≠ g.nextWd := fun e he => (h.below e he).ne
  have hstep : traverseTree g (str d.path, d) =
      { g with
        wlCache := addWatchToCache g.wlCache g.nextWd (str d.path)
        watches := ⟨d.ino, g.nextWd⟩ :: g.watches
        nextWd := g.nextWd + 1 } := by
    simp only [traverseTree, inotifyAddWatch, h.find_eq_none hino,
      h.cached.findWatch_eq_none h.next hnew]
  rw [hstep]
  constructor
  case cached =>
    refine h.cached.add (e := ⟨d, g.nextWd⟩) h.next fun hmem => ?_
    obtain ⟨e, he, heq⟩ := List.mem_map.mp hmem
    exact hnew e he heq
  case watches => exact h.watches.cons _
  case inos =>
    refine List.nodup_cons.mpr ⟨fun hmem => ?_, h.inos⟩
    obtain ⟨e, he, heq⟩ := List.mem_map.mp hmem
    exact hino e he heq
  case below =>
    refine List.forall_mem_cons.mpr ⟨lt_add_one _, fun e he => ?_⟩
    exact (h.below e he).trans (lt_add_one _)
  case next => exact h.next.trans (lt_add_one _).le

lemma rootDirPaths_traverseTree (g : Monitor) (v : List Char × Dir) :
    (traverseTree g v).rootDirPaths = g.rootDirPaths := by
  simp only [traverseTree, inotifyAddWatch]
  split <;> split <;> rfl

/-- What is visited becomes an entry, if it is not one. All directories are from one file
system, so those with one inode number are one. -/
lemma foldl_traverseTree {fs : List Dir} (hfs : (fs.map Dir.ino).Nodup)
    (visits : List (List Char × Dir)) (hvisits : ∀ v ∈ visits, v.1 = str v.2.path ∧ v.2 ∈ fs)
    (h : Tracks T g) (hT : ∀ e ∈ T, e.dir ∈ fs) :
    ∃ T', Tracks T' (visits.foldl traverseTree g) ∧
      (visits.foldl traverseTree g).rootDirPaths = g.rootDirPaths ∧
      ∀ d, d ∈ T'.map Entry.dir ↔ d ∈ T.map Entry.dir ∨ d ∈ visits.map Prod.snd := by
  induction visits generalizing T g with
  | nil => exact ⟨T, h, rfl, by simp⟩
  | cons v visits ih =>
    obtain ⟨hname, hv⟩ := hvisits v List.mem_cons_self
    have hrest := fun w hw => hvisits w (List.mem_cons_of_mem v hw)
    obtain ⟨s, d⟩ := v
    obtain rfl : s = str d.path := hname
    have hroots := rootDirPaths_traverseTree g (str d.path, d)
    by_cases hmem : ∃ e ∈ T, e.dir.ino = d.ino
    · obtain ⟨e, he, hino⟩ := hmem
      obtain rfl : e.dir = d := List.inj_on_of_nodup_map hfs (hT e he) hv hino
      rw [List.foldl_cons, h.traverseTree_of_mem he]
      obtain ⟨T', htracks, hr, hdirs⟩ := ih hrest h hT
      refine ⟨T', htracks, hr, fun d => ?_⟩
      rw [hdirs, List.map_cons, List.mem_cons]
      have hself : e.dir ∈ T.map Entry.dir := List.mem_map_of_mem he
      constructor
      · rintro (h | h)
        · exact .inl h
        · exact .inr (.inr h)
      · rintro (h | rfl | h)
        · exact .inl h
        · exact .inl hself
        · exact .inr h
    · have hnew : ∀ e ∈ T, e.dir.ino ≠ d.ino := fun e he heq => hmem ⟨e, he, heq⟩
      obtain ⟨T', htracks, hr, hdirs⟩ := ih hrest (h.traverseTree_of_new hnew)
        (List.forall_mem_cons.mpr ⟨hv, hT⟩)
      refine ⟨T', htracks, hr.trans hroots, fun d' => ?_⟩
      rw [hdirs, List.map_cons, List.map_cons, List.mem_cons, List.mem_cons]
      tauto

lemma watchSubtree {nftw : Nftw} {fs : List Dir} (hfs : (fs.map Dir.ino).Nodup) (hp : p ≠ [])
    (hvisits : (nftw (pathname p)).Perm
      ((fs.filter fun d => p.isPrefixOf d.path).map fun d => (pathname d.path, d)))
    (h : Tracks T g) (hT : ∀ e ∈ T, e.dir ∈ fs) :
    ∃ T', Tracks T' (InotifyDtree.watchSubtree nftw g (pathname p)) ∧
      (InotifyDtree.watchSubtree nftw g (pathname p)).rootDirPaths = g.rootDirPaths ∧
      ∀ d, d ∈ T'.map Entry.dir ↔ d ∈ T.map Entry.dir ∨ d ∈ fs ∧ p <+: d.path := by
  have hmem : ∀ v, v ∈ nftw (pathname p) ↔
      ∃ d, (d ∈ fs ∧ p <+: d.path) ∧ (pathname d.path, d) = v := by
    intro v
    rw [hvisits.mem_iff, List.mem_map]
    simp only [List.mem_filter, List.isPrefixOf_iff_prefix]
  obtain ⟨T', htracks, hroots, hdirs⟩ :=
    h.foldl_traverseTree hfs (nftw (pathname p)) (fun v hv => by
      obtain ⟨d, ⟨hd, hpre⟩, rfl⟩ := (hmem v).mp hv
      refine ⟨pathname_of_ne_nil fun hnil => hp ?_, hd⟩
      rwa [hnil, List.prefix_nil] at hpre) hT
  refine ⟨T', htracks, hroots, fun d => (hdirs d).trans (or_congr_right ?_)⟩
  rw [List.mem_map]
  constructor
  · rintro ⟨v, hv, rfl⟩
    obtain ⟨d, hd, rfl⟩ := (hmem v).mp hv
    exact hd
  · exact fun hd => ⟨_, (hmem _).mpr ⟨d, hd, rfl⟩, rfl⟩

lemma rewrite (h : Tracks T g) (n m : Name) :
    Tracks (T.map (Entry.move (p ++ [n]) (q ++ [m])))
      { g with wlCache := rewriteCachedPaths g.wlCache (str p) n (str q) m } where
  cached := h.cached.rewrite
  watches := by
    have hwatch : (Entry.watch ∘ Entry.move (p ++ [n]) (q ++ [m])) = Entry.watch := by
      funext e
      simp only [Function.comp_apply, Entry.watch, Entry.move, Dir.ino_move]
    rw [List.map_map, hwatch]
    exact h.watches
  inos := by
    have hino : ((fun e => e.dir.ino) ∘ Entry.move (p ++ [n]) (q ++ [m])) = fun e => e.dir.ino := by
      funext e
      simp only [Function.comp_apply, Entry.move, Dir.ino_move]
    rw [List.map_map, hino]
    exact h.inos
  below := by
    intro e he
    obtain ⟨e', he', rfl⟩ := List.mem_map.mp he
    exact h.below e' he'
  next := h.next

lemma remove (h : Tracks T g) (he : e ∈ T) {j : ℕ} (hj : g.wlCache[j]? = some e.slot) :
    Tracks (T.filter (·.wd ≠ e.wd))
      { g with
        wlCache := markCacheSlotEmpty g.wlCache j
        watches := g.watches.filter fun w => some w.wd ≠ some e.wd } where
  cached := h.cached.mark he hj
  watches := h.watches_remove e
  inos := h.inos.sublist (List.filter_sublist.map _)
  below e he := h.below e (List.mem_of_mem_filter he)
  next := h.next

lemma any_zaps (h : Cached T cs) (he : e ∈ T) (src : Path) :
    (cs.any fun s => zaps (str src) s && s.wd = e.wd) = src.isPrefixOf e.dir.path := by
  rw [Bool.eq_iff_iff, List.any_eq_true]
  constructor
  · -- the slot with the descriptor of an entry is the slot of that entry
    rintro ⟨s, hs, hcond⟩
    obtain ⟨hz, heq⟩ := Bool.and_eq_true_iff.mp hcond
    obtain ⟨hwd, hpath⟩ : 0 ≤ s.wd ∧ under (str src) s.path = true := by simpa [zaps] using hz
    obtain ⟨e', he', rfl⟩ := h.exists_entry hs hwd
    obtain rfl := h.eq_of_wd he' he (of_decide_eq_true heq)
    exact (under_slot src e').symm.trans hpath
  · intro hpre
    refine ⟨e.slot, h.slot_mem he, ?_⟩
    simp only [zaps, under_slot, hpre, Bool.and_true, Bool.and_eq_true, decide_eq_true_eq]
    exact ⟨h.nonneg e he, rfl⟩

lemma zap (h : Tracks T g) (nftw : Nftw) (src : Path) :
    ∃ g' queued, zapOrReinit nftw g (str src) = .consumed g' 1 queued ∧
      (∀ ev ∈ queued, ev.mask = .ignored) ∧ g'.rootDirPaths = g.rootDirPaths ∧
      Tracks (T.filter fun e => !src.isPrefixOf e.dir.path) g' := by
  have hwds : ((used g.wlCache).map Slot.wd).Nodup := by
    rw [(h.cached.perm.map Slot.wd).nodup_iff, List.map_map]
    exact h.cached.wds
  have hwatch : ∀ s ∈ g.wlCache, zaps (str src) s → ∃ w ∈ g.watches, w.wd = s.wd := by
    intro s hs hz
    simp only [zaps, Bool.and_eq_true, decide_eq_true_eq] at hz
    obtain ⟨e, he, rfl⟩ := h.cached.exists_entry hs hz.1
    exact ⟨e.watch, h.watch_mem he, rfl⟩
  obtain ⟨hfail, hcache, hwatches, hqueued⟩ := zapSubtree_spec (str src) g.watches hwds hwatch
  refine ⟨{ g with
      wlCache := (zapSubtree (str src) g.wlCache g.watches).wlCache
      watches := (zapSubtree (str src) g.wlCache g.watches).watches },
    (zapSubtree (str src) g.wlCache g.watches).queued, ?_, hqueued, rfl, ?_⟩
  · simp only [zapOrReinit, hfail, Bool.false_eq_true, if_false]
  constructor
  case cached =>
    refine h.cached.filter _ ?_ fun s hs => ?_
    · rw [hcache, used_map_zaps]
      refine (h.cached.perm.filter _).trans (List.Perm.of_eq ?_)
      rw [List.filter_map]
      exact congrArg _ (List.filter_congr fun e _ => congrArg not (under_slot src e))
    · rw [hcache] at hs
      obtain ⟨t, ht, rfl⟩ := List.mem_map.mp hs
      split
      · exact .inr rfl
      · exact .inl ht
  case watches =>
    rw [hwatches]
    refine (h.watches.filter _).trans (List.Perm.of_eq ?_)
    rw [List.filter_map]
    exact congrArg _ (List.filter_congr fun e he => congrArg not (any_zaps h.cached he src))
  case inos => exact h.inos.sublist (List.filter_sublist.map _)
  case below => exact fun e he => h.below e (List.mem_of_mem_filter he)
  case next => exact h.next

end Tracks

end LinuxSamples.InotifyDtree
