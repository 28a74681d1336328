import LinuxSamples.InotifyDtreeEvents
import LinuxSamples.InotifyDtreeFiles

/-!
The cache of the directory-tree monitor mirrors the trees.

An operation changes the directories of the trees in one of a few ways, and the events it queues
make the same change to the entries of the monitor. There is one exception. A directory that is
renamed from outside the trees onto an empty directory inside them arrives under a pathname that
is still in the cache, so it is not watched; the removal of the directory it replaced then takes
that pathname out of the cache.
-/

namespace LinuxSamples.InotifyDtree

open Run Pathname

variable {s s' : System} {T : List Entry} {e : Entry} {p q : Path} {n m : Name} {g' : Monitor}

/-- The monitor knows the directories `D` and no others. -/
def Knows (g : Monitor) (D : List Dir) : Prop :=
  ∃ T, Tracks T g ∧ ∀ d, d ∈ T.map Entry.dir ↔ d ∈ D

/-- What holds between two operations, as long as the cache mirrors the trees. -/
structure Inv (s : System) : Prop where
  tree : FileTree s.fs s.nextIno s.roots
  root_ne : [] ∉ s.roots
  rootDirPaths : s.monitor.rootDirPaths = s.roots.map fun r => some (pathname r)
  knows : Knows s.monitor s.treeDirs

lemma mem_treeDirs {d : Dir} : d ∈ s.treeDirs ↔ d ∈ s.fs ∧ inTree s.roots d.path = true := by
  simp [System.treeDirs, List.mem_filter]

lemma hasDir_iff : s.hasDir p = true ↔ ∃ d ∈ s.fs, d.path = p := by
  simp [System.hasDir]

lemma hasDir_eq_false : s.hasDir p = false ↔ ∀ d ∈ s.fs, d.path ≠ p := by
  simp [System.hasDir]

lemma emptyAt_iff : s.emptyAt p = true ↔ ∀ d ∈ s.fs, p <+: d.path → d.path = p := by
  rw [System.emptyAt, List.all_eq_true]
  refine forall₂_congr fun d _ => ?_
  rw [Bool.or_eq_true, Bool.not_eq_true', decide_eq_true_eq, ← List.isPrefixOf_iff_prefix]
  cases p.isPrefixOf d.path <;> simp

lemma mem_fs_of_entry (hdirs : ∀ d, d ∈ T.map Entry.dir ↔ d ∈ s.treeDirs) (he : e ∈ T) :
    e.dir ∈ s.fs :=
  (mem_treeDirs.mp ((hdirs e.dir).mp (List.mem_map_of_mem he))).1

/-! ### The mirror -/

lemma Inv.mirrors (h : Inv s) : s.Mirrors := by
  obtain ⟨T, htracks, hdirs⟩ := h.knows
  have htree : (s.treeDirs.map Dir.path).Nodup :=
    h.tree.paths.sublist (List.filter_sublist.map _)
  have hdir : (T.map Entry.dir).Nodup := by
    refine List.Nodup.of_map Dir.ino ?_
    rw [List.map_map]
    exact htracks.inos
  have hperm : (T.map Entry.dir).Perm s.treeDirs :=
    (List.perm_ext_iff_of_nodup hdir (List.Nodup.of_map _ htree)).mpr hdirs
  have hname : ∀ e ∈ T, pathname e.dir.path = str e.dir.path := by
    intro e he
    obtain ⟨-, hin⟩ := mem_treeDirs.mp ((hdirs e.dir).mp (List.mem_map_of_mem he))
    obtain ⟨r, hr, hre⟩ := inTree_iff.mp hin
    refine pathname_of_ne_nil fun hnil => h.root_ne ?_
    rw [hnil, List.prefix_nil] at hre
    exact hre ▸ hr
  constructor
  · have hslots : ((used s.monitor.wlCache).map fun w => (w.path, some w.wd)).Perm
        (T.map fun e => (str e.dir.path, some e.wd)) := by
      refine (htracks.cached.perm.map _).trans (List.Perm.of_eq ?_)
      rw [List.map_map]
      rfl
    have hfiles : (s.treeDirs.map fun d => (pathname d.path, s.monitor.watchOn d.ino)).Perm
        (T.map fun e => (str e.dir.path, some e.wd)) := by
      refine (hperm.symm.map _).trans (List.Perm.of_eq ?_)
      rw [List.map_map]
      refine List.map_congr_left fun e he => ?_
      rw [Function.comp_apply, hname e he, htracks.watchOn_eq he]
    exact hslots.trans hfiles.symm
  · have hpaths : ((used s.monitor.wlCache).map Slot.path).Perm
        ((s.treeDirs.map Dir.path).map str) := by
      refine (htracks.cached.perm.map Slot.path).trans ?_
      refine List.Perm.trans (List.Perm.of_eq ?_) ((hperm.map Dir.path).map str)
      rw [List.map_map, List.map_map, List.map_map]
      rfl
    rw [hpaths.nodup_iff]
    exact htree.map str_injective

lemma not_mirrors_of_unknown (htracks : Tracks T s.monitor) {d : Dir} (hd : d ∈ s.treeDirs)
    (hne : d.path ≠ []) (hunknown : ∀ e ∈ T, e.dir.path ≠ d.path) : ¬ s.Mirrors := by
  rintro ⟨hperm, -⟩
  have hmem := hperm.mem_iff.mpr (List.mem_map_of_mem hd)
  obtain ⟨w, hw, heq⟩ := List.mem_map.mp hmem
  obtain ⟨e, he, rfl⟩ := List.mem_map.mp (htracks.cached.perm.mem_iff.mp hw)
  rw [Prod.mk.injEq, pathname_of_ne_nil hne] at heq
  exact hunknown e he (str_injective heq.1)

/-! ### Watches -/

lemma watchAt_eq (h : FileTree s.fs s.nextIno s.roots) {d : Dir} (hd : d ∈ s.fs) :
    s.watchAt d.path = s.monitor.watchOn d.ino := by
  rw [System.watchAt]
  cases hfind : s.fs.find? (·.path = d.path) with
  | none =>
    have := List.find?_eq_none.mp hfind d hd
    simp at this
  | some d' =>
    have hpath : d'.path = d.path := by simpa using List.find?_some hfind
    obtain rfl := h.eq_of_path (List.mem_of_find?_eq_some hfind) hd hpath
    rfl

lemma exists_entry (h : FileTree s.fs s.nextIno s.roots) (htracks : Tracks T s.monitor)
    (hdirs : ∀ d, d ∈ T.map Entry.dir ↔ d ∈ s.treeDirs) (hp : ∃ d ∈ s.fs, d.path = p)
    (hin : inTree s.roots p = true) :
    ∃ e ∈ T, e.dir.path = p ∧ s.watchAt p = some e.wd := by
  obtain ⟨d, hd, rfl⟩ := hp
  obtain ⟨e, he, rfl⟩ := List.mem_map.mp ((hdirs d).mpr (mem_treeDirs.mpr ⟨hd, hin⟩))
  exact ⟨e, he, rfl, by rw [watchAt_eq h hd, htracks.watchOn_eq he]⟩

lemma watchAt_eq_none (h : FileTree s.fs s.nextIno s.roots) (htracks : Tracks T s.monitor)
    (hdirs : ∀ d, d ∈ T.map Entry.dir ↔ d ∈ s.treeDirs)
    (hp : (∃ d ∈ s.fs, d.path = p) → inTree s.roots p = false) : s.watchAt p = none := by
  by_cases hex : ∃ d ∈ s.fs, d.path = p
  · have hout := hp hex
    obtain ⟨d, hd, rfl⟩ := hex
    rw [watchAt_eq h hd]
    refine htracks.watchOn_eq_none fun e he hino => ?_
    obtain ⟨hfs, hin⟩ := mem_treeDirs.mp ((hdirs e.dir).mp (List.mem_map_of_mem he))
    rw [h.eq_of_ino hfs hd hino, hout] at hin
    cases hin
  · have hfind : s.fs.find? (·.path = p) = none := by
      rw [List.find?_eq_none]
      intro d hd hpath
      exact hex ⟨d, hd, by simpa using hpath⟩
    rw [System.watchAt, hfind]
    rfl

lemma remove_of_watch {wd : ℤ} (h : s.watchAt p = some wd) :
    s.remove p =
      ({ s with
          fs := s.fs.filter (·.path ≠ p)
          monitor.watches := s.monitor.watches.filter fun w => some w.wd ≠ some wd },
        [⟨wd, .deleteSelf, true, 0, []⟩, Event.ofIgnored wd]) := by
  rw [System.remove, h]
  rfl

lemma remove_of_none (h : s.watchAt p = none) :
    s.remove p = ({ s with fs := s.fs.filter (·.path ≠ p) }, []) := by
  have hall : (s.monitor.watches.filter fun w => some w.wd ≠ none) = s.monitor.watches := by
    simp
  rw [System.remove, h, hall]
  rfl

lemma Inv.isRootDirPath_eq_false (h : Inv s) (hp : p ∉ s.roots) {g : Monitor}
    (hg : g.rootDirPaths = s.monitor.rootDirPaths) : isRootDirPath g (str p) = false := by
  rw [isRootDirPath, hg, h.rootDirPaths, List.contains_eq_mem, decide_eq_false_iff_not]
  intro hmem
  obtain ⟨r, hr, heq⟩ := List.mem_map.mp hmem
  rw [Option.some.injEq, pathname_of_ne_nil fun hnil => h.root_ne (hnil ▸ hr)] at heq
  exact hp (str_injective heq ▸ hr)

lemma mem_drop_entry (h : FileTree s.fs s.nextIno s.roots) (htracks : Tracks T s.monitor)
    (hdirs : ∀ d, d ∈ T.map Entry.dir ↔ d ∈ s.treeDirs) (he : e ∈ T) (d : Dir) :
    d ∈ (T.filter (·.wd ≠ e.wd)).map Entry.dir ↔ d ∈ s.treeDirs ∧ d.path ≠ e.dir.path := by
  have hwd : ∀ e' ∈ T, e'.wd = e.wd ↔ e'.dir.path = e.dir.path := by
    intro e' he'
    constructor
    · intro heq
      rw [htracks.cached.eq_of_wd he' he heq]
    · intro heq
      have hdir := h.eq_of_path (mem_fs_of_entry hdirs he') (mem_fs_of_entry hdirs he) heq
      rw [htracks.eq_of_ino he' he (congrArg Dir.ino hdir)]
  rw [← hdirs d]
  simp only [List.mem_map, List.mem_filter, decide_eq_true_eq]
  constructor
  · rintro ⟨e', ⟨he', hne⟩, rfl⟩
    exact ⟨⟨e', he', rfl⟩, fun heq => hne ((hwd e' he').mpr heq)⟩
  · rintro ⟨⟨e', he', rfl⟩, hne⟩
    exact ⟨e', ⟨he', fun heq => hne ((hwd e' he').mp heq)⟩, rfl⟩

/-! ### Making and removing a directory -/

lemma Inv.mkdir {nftw : List Dir → Nftw} (hnftw : Visits nftw) (h : Inv s)
    (hparent : ∃ d ∈ s.fs, d.path = p) (habsent : ∀ d ∈ s.fs, d.path ≠ p ++ [n])
    (hd : Drains (nftw (s.fs ++ [⟨p ++ [n], s.nextIno⟩])) s.monitor
      (notify (s.watchAt p) .create 0 n) g') :
    Inv { s with
      fs := s.fs ++ [⟨p ++ [n], s.nextIno⟩], nextIno := s.nextIno + 1, monitor := g' } := by
  have htree := h.tree.mkdir hparent habsent
  have hclear := h.tree.clear_of_absent habsent
  obtain ⟨T, htracks, hdirs⟩ := h.knows
  cases hin : inTree s.roots p with
  | true =>
    obtain ⟨e, he, rfl, hwatch⟩ := exists_entry h.tree htracks hdirs hparent hin
    rw [hwatch] at hd
    obtain ⟨T', htracks', hroots, hdirs'⟩ := hd.of_new htree.inos (hnftw _ _ (by simp)) htracks
      (fun e' he' => List.mem_append_left _ (mem_fs_of_entry hdirs he')) he rfl
      (fun e' he' => habsent e'.dir (mem_fs_of_entry hdirs he')) (.inl rfl)
    refine ⟨htree, h.root_ne, hroots.trans h.rootDirPaths, T', htracks', fun d => ?_⟩
    rw [hdirs', hdirs, mem_treeDirs, mem_treeDirs, List.mem_append, List.mem_singleton]
    constructor
    · rintro (⟨hfs, htr⟩ | ⟨hfs, hpre⟩)
      · exact ⟨.inl hfs, htr⟩
      · exact ⟨hfs, inTree_mono hin ((List.prefix_append _ _).trans hpre)⟩
    · rintro ⟨hfs | rfl, htr⟩
      · exact .inl ⟨hfs, htr⟩
      · exact .inr ⟨.inr rfl, List.prefix_refl _⟩
  | false =>
    rw [watchAt_eq_none h.tree htracks hdirs fun _ => hin] at hd
    rw [hd.of_nil]
    refine ⟨htree, h.root_ne, h.rootDirPaths, T, htracks, fun d => ?_⟩
    rw [hdirs, mem_treeDirs, mem_treeDirs, List.mem_append, List.mem_singleton]
    constructor
    · exact fun ⟨hfs, htr⟩ => ⟨.inl hfs, htr⟩
    · rintro ⟨hfs | rfl, htr⟩
      · exact ⟨hfs, htr⟩
      · rw [inTree_concat hclear, hin] at htr
        cases htr

lemma Inv.rmdir {nftw : Nftw} (h : Inv s) (hp : ∃ d ∈ s.fs, d.path = p)
    (hempty : ∀ d ∈ s.fs, p <+: d.path → d.path = p) (hroot : p ∉ s.roots)
    (hd : Drains nftw (s.remove p).1.monitor (s.remove p).2 g') :
    Inv { (s.remove p).1 with monitor := g' } := by
  have htree := h.tree.remove hempty hroot
  obtain ⟨T, htracks, hdirs⟩ := h.knows
  cases hin : inTree s.roots p with
  | true =>
    obtain ⟨e, he, rfl, hwatch⟩ := exists_entry h.tree htracks hdirs hp hin
    rw [remove_of_watch hwatch] at hd ⊢
    obtain ⟨htracks', hroots⟩ := hd.of_removed htracks he (h.isRootDirPath_eq_false hroot rfl)
    refine ⟨htree, h.root_ne, hroots.trans h.rootDirPaths, _, htracks', fun d => ?_⟩
    rw [mem_drop_entry h.tree htracks hdirs he, mem_treeDirs, mem_treeDirs, FileTree.mem_remove]
    tauto
  | false =>
    rw [remove_of_none (watchAt_eq_none h.tree htracks hdirs fun _ => hin)] at hd ⊢
    rw [hd.of_nil]
    refine ⟨htree, h.root_ne, h.rootDirPaths, T, htracks, fun d => ?_⟩
    rw [hdirs, mem_treeDirs, mem_treeDirs, FileTree.mem_remove]
    constructor
    · rintro ⟨hfs, htr⟩
      refine ⟨⟨hfs, fun hpath => ?_⟩, htr⟩
      rw [hpath, hin] at htr
      cases htr
    · exact fun ⟨⟨hfs, _⟩, htr⟩ => ⟨hfs, htr⟩

/-! ### Renaming a directory -/

/-- The rename of `p/n` to `q/m` is carried out. -/
structure Renames (s : System) (p : Path) (n : Name) (q : Path) (m : Name) : Prop where
  src : ∃ d ∈ s.fs, d.path = p ++ [n]
  parent : ∃ d ∈ s.fs, d.path = q
  into : ¬ p ++ [n] <+: q ++ [m]
  empty : ∀ d ∈ s.fs, q ++ [m] <+: d.path → d.path = q ++ [m]
  root : q ++ [m] ∉ s.roots
  clear : Clear s.roots (p ++ [n])

def System.renamed (s : System) (src dst : Path) : List Dir :=
  (s.fs.filter (·.path ≠ dst)).map (Dir.move src dst)

/-- The system after the rename and its events, when the monitor has become `g'`. -/
def System.afterRename (s : System) (src dst : Path) (g' : Monitor) : System :=
  { s with fs := s.renamed src dst, nextCookie := s.nextCookie + 1, monitor := g' }

namespace Renames

variable (hr : Renames s p n q m) (h : Inv s)
include hr h

lemma clearDst : Clear s.roots (q ++ [m]) := h.tree.clear_of_empty hr.empty hr.root

lemma oldParent : ∃ d ∈ s.fs, d.path = p := by
  obtain ⟨d, hd, hpath⟩ := hr.src
  exact h.tree.closed d hd p (hpath ▸ List.prefix_append p [n])

lemma tree : FileTree (s.renamed (p ++ [n]) (q ++ [m])) s.nextIno s.roots := by
  refine (h.tree.remove hr.empty hr.root).rename ?_ ?_ hr.into ?_ hr.clear
  · obtain ⟨d, hd, hpath⟩ := hr.src
    refine ⟨d, FileTree.mem_remove.mpr ⟨hd, fun heq => hr.into ?_⟩, hpath⟩
    rw [← hpath, heq]
  · obtain ⟨d, hd, hpath⟩ := hr.parent
    refine ⟨d, FileTree.mem_remove.mpr ⟨hd, fun heq => ?_⟩, hpath⟩
    rw [hpath] at heq
    simp at heq
  · intro d hd hpre
    obtain ⟨hd, hne⟩ := FileTree.mem_remove.mp hd
    exact hne (hr.empty d hd hpre)

omit h in
lemma inTree_src {d : Dir} (hpre : p ++ [n] <+: d.path) :
    inTree s.roots d.path = inTree s.roots (p ++ [n]) :=
  inTree_below hr.clear hpre

lemma inTree_move {d : Dir} (hpre : p ++ [n] <+: d.path) :
    inTree s.roots (d.move (p ++ [n]) (q ++ [m])).path = inTree s.roots (q ++ [m]) := by
  obtain ⟨r, hr'⟩ := hpre
  rw [Dir.move_below hr']
  exact inTree_below (hr.clearDst h) (List.prefix_append _ r)

omit hr h in
lemma mem_renamed {d' : Dir} {src dst : Path} :
    d' ∈ s.renamed src dst ↔ ∃ d ∈ s.fs, d.path ≠ dst ∧ d.move src dst = d' := by
  rw [System.renamed, List.mem_map]
  simp only [FileTree.mem_remove, and_assoc]

omit hr h in
lemma mem_renamed_of_mem {d : Dir} {src dst : Path} (hd : d ∈ s.fs) (hdst : d.path ≠ dst)
    (hsrc : ¬ src <+: d.path) : d ∈ s.renamed src dst :=
  mem_renamed.mpr ⟨d, hd, hdst, Dir.move_other hsrc⟩

lemma mem_within (hsrc : inTree s.roots (p ++ [n]) = true)
    (hdst : inTree s.roots (q ++ [m]) = true) (d' : Dir) :
    d' ∈ s.renamed (p ++ [n]) (q ++ [m]) ∧ inTree s.roots d'.path = true ↔
      ∃ d, (d ∈ s.treeDirs ∧ d.path ≠ q ++ [m]) ∧ d.move (p ++ [n]) (q ++ [m]) = d' := by
  constructor
  · rintro ⟨hd', htr⟩
    obtain ⟨d, hd, hne, rfl⟩ := mem_renamed.mp hd'
    refine ⟨d, ⟨mem_treeDirs.mpr ⟨hd, ?_⟩, hne⟩, rfl⟩
    by_cases hpre : p ++ [n] <+: d.path
    · rw [hr.inTree_src hpre, hsrc]
    · rwa [Dir.move_other hpre] at htr
  · rintro ⟨d, ⟨hd, hne⟩, rfl⟩
    obtain ⟨hfs, htr⟩ := mem_treeDirs.mp hd
    refine ⟨mem_renamed.mpr ⟨d, hfs, hne, rfl⟩, ?_⟩
    by_cases hpre : p ++ [n] <+: d.path
    · rw [hr.inTree_move h hpre, hdst]
    · rwa [Dir.move_other hpre]

lemma mem_outOf (hdst : inTree s.roots (q ++ [m]) = false) (d' : Dir) :
    d' ∈ s.renamed (p ++ [n]) (q ++ [m]) ∧ inTree s.roots d'.path = true ↔
      d' ∈ s.treeDirs ∧ ¬ p ++ [n] <+: d'.path := by
  constructor
  · rintro ⟨hd', htr⟩
    obtain ⟨d, hd, -, rfl⟩ := mem_renamed.mp hd'
    by_cases hpre : p ++ [n] <+: d.path
    · rw [hr.inTree_move h hpre, hdst] at htr
      cases htr
    · rw [Dir.move_other hpre] at htr ⊢
      exact ⟨mem_treeDirs.mpr ⟨hd, htr⟩, hpre⟩
  · rintro ⟨hd, hpre⟩
    obtain ⟨hfs, htr⟩ := mem_treeDirs.mp hd
    refine ⟨mem_renamed_of_mem hfs (fun hpath => ?_) hpre, htr⟩
    rw [hpath, hdst] at htr
    cases htr

omit h in
lemma mem_into (hsrc : inTree s.roots (p ++ [n]) = false)
    (hdst : inTree s.roots (q ++ [m]) = true) (habsent : ∀ d ∈ s.fs, d.path ≠ q ++ [m])
    (d' : Dir) :
    d' ∈ s.renamed (p ++ [n]) (q ++ [m]) ∧ inTree s.roots d'.path = true ↔
      d' ∈ s.treeDirs ∨ d' ∈ s.renamed (p ++ [n]) (q ++ [m]) ∧ q ++ [m] <+: d'.path := by
  constructor
  · rintro ⟨hd', htr⟩
    obtain ⟨d, hd, -, heq⟩ := mem_renamed.mp hd'
    by_cases hpre : p ++ [n] <+: d.path
    · obtain ⟨r, hr'⟩ := hpre
      refine .inr ⟨hd', ?_⟩
      rw [← heq, Dir.move_below hr']
      exact List.prefix_append _ r
    · rw [Dir.move_other hpre] at heq
      exact .inl (mem_treeDirs.mpr ⟨heq ▸ hd, htr⟩)
  · rintro (hd' | ⟨hd', hpre⟩)
    · obtain ⟨hfs, htr⟩ := mem_treeDirs.mp hd'
      refine ⟨mem_renamed_of_mem hfs (habsent d' hfs) fun hpre => ?_, htr⟩
      rw [hr.inTree_src hpre, hsrc] at htr
      cases htr
    · exact ⟨hd', inTree_mono hdst hpre⟩

end Renames

lemma inv_renamed (hr : Renames s p n q m) (h : Inv s)
    (hroots : g'.rootDirPaths = s.monitor.rootDirPaths) (htracks : Tracks T g')
    (hdirs : ∀ d, d ∈ T.map Entry.dir ↔
      d ∈ s.renamed (p ++ [n]) (q ++ [m]) ∧ inTree s.roots d.path = true) :
    Inv (s.afterRename (p ++ [n]) (q ++ [m]) g') where
  tree := hr.tree h
  root_ne := h.root_ne
  rootDirPaths := hroots.trans h.rootDirPaths
  knows := ⟨T, htracks, fun d => by rw [hdirs, mem_treeDirs]; rfl⟩

/-- What a rename queues: the events of the two ends, and those of a replaced directory. -/
def System.renameEvents (s : System) (p : Path) (n : Name) (q : Path) (m : Name) : List Event :=
  notify (s.watchAt p) .movedFrom s.nextCookie n ++ notify (s.watchAt q) .movedTo s.nextCookie m ++
    (s.remove (q ++ [m])).2

section Rename

variable {nftw : List Dir → Nftw} (hr : Renames s p n q m) (h : Inv s)
  (hd : Drains (nftw (s.renamed (p ++ [n]) (q ++ [m]))) (s.remove (q ++ [m])).1.monitor
    (s.renameEvents p n q m) g')
include hr h hd

lemma Inv.rename_within (hsrc : inTree s.roots (p ++ [n]) = true)
    (hdst : inTree s.roots (q ++ [m]) = true) :
    Inv (s.afterRename (p ++ [n]) (q ++ [m]) g') := by
  obtain ⟨T, htracks, hdirs⟩ := h.knows
  have hdst' := (inTree_concat (hr.clearDst h)).symm.trans hdst
  obtain ⟨e, he, rfl, hwatch⟩ := exists_entry h.tree htracks hdirs (hr.oldParent h)
    ((inTree_concat hr.clear).symm.trans hsrc)
  obtain ⟨e', he', rfl, hwatch'⟩ := exists_entry h.tree htracks hdirs hr.parent hdst'
  rw [System.renameEvents, hwatch, hwatch'] at hd
  have hmoved := htracks.rewrite (p := e.dir.path) (q := e'.dir.path) n m
  by_cases hex : ∃ d ∈ s.fs, d.path = e'.dir.path ++ [m]
  · obtain ⟨o, ho, hpath, hwatcho⟩ := exists_entry h.tree htracks hdirs hex hdst
    rw [remove_of_watch hwatcho] at hd
    have hrest := Drains.of_renamed hd htracks.cached he he'
    -- the replaced directory is not below the old path, so its entry was not moved
    have hstay : (o.move (e.dir.path ++ [n]) (e'.dir.path ++ [m])).dir = o.dir := by
      rw [Entry.move, Dir.move_other]
      rw [hpath]
      exact hr.into
    obtain ⟨htracks', hroots⟩ := hrest.of_removed hmoved (List.mem_map_of_mem ho) (by
      rw [hstay, hpath]
      exact h.isRootDirPath_eq_false hr.root rfl)
    refine inv_renamed hr h hroots htracks' fun d => ?_
    have hfilter : (T.map (Entry.move (e.dir.path ++ [n]) (e'.dir.path ++ [m]))).filter
          (·.wd ≠ (o.move (e.dir.path ++ [n]) (e'.dir.path ++ [m])).wd) =
        (T.filter (·.wd ≠ o.wd)).map (Entry.move (e.dir.path ++ [n]) (e'.dir.path ++ [m])) := by
      rw [List.filter_map]
      rfl
    have hmem := mem_drop_entry h.tree htracks hdirs ho
    rw [hr.mem_within h hsrc hdst, hfilter, List.map_map, ← hpath]
    simp only [← hmem, List.mem_map, Function.comp_apply]
    constructor
    · rintro ⟨a, ha, rfl⟩
      exact ⟨a.dir, ⟨a, ha, rfl⟩, rfl⟩
    · rintro ⟨d, ⟨a, ha, rfl⟩, rfl⟩
      exact ⟨a, ha, rfl⟩
  · rw [remove_of_none (watchAt_eq_none h.tree htracks hdirs fun hp => absurd hp hex)] at hd
    rw [(Drains.of_renamed hd htracks.cached he he').of_nil]
    refine inv_renamed hr h rfl hmoved fun d => ?_
    rw [hr.mem_within h hsrc hdst, List.map_map]
    constructor
    · intro hmem
      obtain ⟨a, ha, rfl⟩ := List.mem_map.mp hmem
      have htree := (hdirs a.dir).mp (List.mem_map_of_mem ha)
      exact ⟨a.dir, ⟨htree, fun hpath => hex ⟨a.dir, (mem_treeDirs.mp htree).1, hpath⟩⟩, rfl⟩
    · rintro ⟨d, ⟨htree, -⟩, rfl⟩
      obtain ⟨a, ha, rfl⟩ := List.mem_map.mp ((hdirs d).mpr htree)
      exact List.mem_map_of_mem ha

lemma Inv.rename_outOf (hsrc : inTree s.roots (p ++ [n]) = true)
    (hdst : inTree s.roots (q ++ [m]) = false) :
    Inv (s.afterRename (p ++ [n]) (q ++ [m]) g') := by
  obtain ⟨T, htracks, hdirs⟩ := h.knows
  have hdst' := (inTree_concat (hr.clearDst h)).symm.trans hdst
  obtain ⟨e, he, rfl, hwatch⟩ := exists_entry h.tree htracks hdirs (hr.oldParent h)
    ((inTree_concat hr.clear).symm.trans hsrc)
  rw [System.renameEvents, hwatch, watchAt_eq_none h.tree htracks hdirs fun _ => hdst',
    remove_of_none (watchAt_eq_none h.tree htracks hdirs fun _ => hdst)] at hd
  obtain ⟨htracks', hroots⟩ := Drains.of_movedOut htracks he hd
  refine inv_renamed hr h hroots htracks' fun d => ?_
  rw [hr.mem_outOf h hdst, ← hdirs]
  simp only [List.mem_map, List.mem_filter, Bool.not_eq_true', ← Bool.not_eq_true,
    List.isPrefixOf_iff_prefix]
  constructor
  · rintro ⟨a, ⟨ha, hpre⟩, rfl⟩
    exact ⟨⟨a, ha, rfl⟩, hpre⟩
  · rintro ⟨⟨a, ha, rfl⟩, hpre⟩
    exact ⟨a, ⟨ha, hpre⟩, rfl⟩

lemma Inv.rename_into (hnftw : Visits nftw) (hsrc : inTree s.roots (p ++ [n]) = false)
    (hdst : inTree s.roots (q ++ [m]) = true) (habsent : ∀ d ∈ s.fs, d.path ≠ q ++ [m]) :
    Inv (s.afterRename (p ++ [n]) (q ++ [m]) g') := by
  obtain ⟨T, htracks, hdirs⟩ := h.knows
  have hsrc' := (inTree_concat hr.clear).symm.trans hsrc
  obtain ⟨e, he, rfl, hwatch⟩ := exists_entry h.tree htracks hdirs hr.parent
    ((inTree_concat (hr.clearDst h)).symm.trans hdst)
  have hremove : s.watchAt (e.dir.path ++ [m]) = none :=
    watchAt_eq_none h.tree htracks hdirs fun ⟨d, hfs, hpath⟩ => absurd hpath (habsent d hfs)
  rw [System.renameEvents, hwatch, watchAt_eq_none h.tree htracks hdirs fun _ => hsrc',
    remove_of_none hremove] at hd
  have hinto := hr.mem_into hsrc hdst habsent
  obtain ⟨T', htracks', hroots, hdirs'⟩ := Drains.of_new (hr.tree h).inos (hnftw _ _ (by simp))
    htracks (fun a ha => ((hinto a.dir).mpr (.inl ((hdirs a.dir).mp (List.mem_map_of_mem ha)))).1)
    he rfl (fun a ha => habsent a.dir (mem_fs_of_entry hdirs ha)) (.inr rfl) hd
  refine inv_renamed hr h hroots htracks' fun d => ?_
  rw [hinto, hdirs', hdirs]

lemma Inv.rename_outside (hsrc : inTree s.roots (p ++ [n]) = false)
    (hdst : inTree s.roots (q ++ [m]) = false) :
    Inv (s.afterRename (p ++ [n]) (q ++ [m]) g') := by
  obtain ⟨T, htracks, hdirs⟩ := h.knows
  have hsrc' := (inTree_concat hr.clear).symm.trans hsrc
  have hdst' := (inTree_concat (hr.clearDst h)).symm.trans hdst
  rw [System.renameEvents, watchAt_eq_none h.tree htracks hdirs fun _ => hsrc',
    watchAt_eq_none h.tree htracks hdirs fun _ => hdst',
    remove_of_none (watchAt_eq_none h.tree htracks hdirs fun _ => hdst)] at hd
  rw [hd.of_nil]
  refine inv_renamed hr h rfl htracks fun d => ?_
  rw [hr.mem_outOf h hdst, hdirs]
  refine ⟨fun htree => ⟨htree, fun hpre => ?_⟩, And.left⟩
  have htr := (mem_treeDirs.mp htree).2
  rw [hr.inTree_src hpre, hsrc] at htr
  cases htr

/-- **A rename from outside onto a directory of the trees** leaves the directory out. -/
lemma not_mirrors_rename_onto (hsrc : inTree s.roots (p ++ [n]) = false)
    (hdst : inTree s.roots (q ++ [m]) = true) (hex : ∃ d ∈ s.fs, d.path = q ++ [m]) :
    ¬ (s.afterRename (p ++ [n]) (q ++ [m]) g').Mirrors := by
  obtain ⟨T, htracks, hdirs⟩ := h.knows
  have hsrc' := (inTree_concat hr.clear).symm.trans hsrc
  obtain ⟨e, he, rfl, hwatch⟩ := exists_entry h.tree htracks hdirs hr.parent
    ((inTree_concat (hr.clearDst h)).symm.trans hdst)
  obtain ⟨o, ho, hpath, hwatcho⟩ := exists_entry h.tree htracks hdirs hex hdst
  rw [System.renameEvents, hwatch, watchAt_eq_none h.tree htracks hdirs fun _ => hsrc',
    remove_of_watch hwatcho] at hd
  -- the pathname is still in the cache when the "moved to" event is handled
  have hrest := Drains.of_onto hd htracks.cached he ho hpath
  obtain ⟨htracks', -⟩ := hrest.of_removed htracks ho (by
    rw [hpath]
    exact h.isRootDirPath_eq_false hr.root rfl)
  obtain ⟨d, hfs, hd⟩ := hr.src
  have hmove : (d.move (p ++ [n]) (e.dir.path ++ [m])).path = e.dir.path ++ [m] := by
    rw [Dir.move_below (r := []) (by rw [List.append_nil, hd]), List.append_nil]
  refine not_mirrors_of_unknown htracks' (d := d.move (p ++ [n]) (e.dir.path ++ [m])) ?_ ?_ ?_
  · refine mem_treeDirs.mpr ⟨Renames.mem_renamed.mpr ⟨d, hfs, fun heq => hr.into ?_, rfl⟩, ?_⟩
    · rw [← hd, heq]
    · rw [hmove]
      exact hdst
  · simp [hmove]
  · intro a ha
    rw [hmove, ← hpath]
    exact ((mem_drop_entry h.tree htracks hdirs ho a.dir).mp (List.mem_map_of_mem ha)).2

end Rename

/-! ### Whole runs -/

/-- A directory that is renamed onto one of the trees comes from the trees itself. -/
def FromInside (s : System) (a : Op × List ℕ) : Prop :=
  match a.1 with
  | .rename oldParent oldName newParent newName =>
    s.hasDir (newParent ++ [newName]) = true → inTree s.roots (newParent ++ [newName]) = true →
      inTree s.roots (oldParent ++ [oldName]) = true
  | .mkdir _ _ | .rmdir _ => True

instance (s : System) (a : Op × List ℕ) : Decidable (FromInside s a) := by
  obtain ⟨op, reads⟩ := a
  cases op <;> unfold FromInside <;> infer_instance

lemma perform_rename {t : System} {evs : List Event}
    (h : s.perform (.rename p n q m) = some (t, evs)) :
    (p ++ [n] = q ++ [m] ∧ t = s ∧ evs = []) ∨
    (Renames s p n q m ∧ evs = s.renameEvents p n q m ∧
      t = { (s.remove (q ++ [m])).1 with
        fs := s.renamed (p ++ [n]) (q ++ [m]), nextCookie := s.nextCookie + 1 }) := by
  simp only [System.perform] at h
  split at h
  · rename_i hsame
    cases h
    exact .inl ⟨hsame.1, rfl, rfl⟩
  split at h
  · rename_i hcond
    obtain ⟨hsrc, hparent, hinto, hempty, hroot, hclear⟩ := hcond
    cases h
    exact .inr ⟨⟨hasDir_iff.mp hsrc, hasDir_iff.mp hparent, hinto, emptyAt_iff.mp hempty, hroot,
      hclear⟩, rfl, rfl⟩
  · cases h

section Step

variable {nftw : List Dir → Nftw} {a : Op × List ℕ}

lemma step_spec (h : s.step nftw a = some s') :
    ∃ t evs g', s.perform a.1 = some (t, evs) ∧ Drains (nftw t.fs) t.monitor evs g' ∧
      s' = { t with monitor := g' } := by
  obtain ⟨⟨t, evs⟩, hperform, hrest⟩ := Option.bind_eq_some_iff.mp h
  obtain ⟨g', hg', rfl⟩ := Option.map_eq_some_iff.mp hrest
  exact ⟨t, evs, g', hperform, drains_of_processInotifyEvents hg', rfl⟩

lemma Inv.step (hnftw : Visits nftw) (h : Inv s) (hfrom : FromInside s a)
    (hstep : s.step nftw a = some s') : Inv s' := by
  obtain ⟨t, evs, g', hperform, hd, rfl⟩ := step_spec hstep
  obtain ⟨op, reads⟩ := a
  cases op with
  | mkdir p n =>
    simp only [System.perform] at hperform
    split at hperform
    · rename_i hcond
      cases hperform
      exact h.mkdir hnftw (hasDir_iff.mp hcond.1) (hasDir_eq_false.mp hcond.2) hd
    · cases hperform
  | rmdir p =>
    simp only [System.perform] at hperform
    split at hperform
    · rename_i hcond
      cases hperform
      exact h.rmdir (hasDir_iff.mp hcond.1) (emptyAt_iff.mp hcond.2.1) hcond.2.2.1 hd
    · cases hperform
  | rename p n q m =>
    rcases perform_rename hperform with ⟨-, rfl, rfl⟩ | ⟨hr, rfl, rfl⟩
    · rw [hd.of_nil]
      exact h
    cases hsrc : inTree s.roots (p ++ [n]) <;> cases hdst : inTree s.roots (q ++ [m])
    · exact h.rename_outside hr hd hsrc hdst
    · refine h.rename_into hr hd hnftw hsrc hdst fun d hfs hpath => ?_
      have := hfrom (hasDir_iff.mpr ⟨d, hfs, hpath⟩) hdst
      rw [hsrc] at this
      cases this
    · exact h.rename_outOf hr hd hsrc hdst
    · exact h.rename_within hr hd hsrc hdst

lemma not_mirrors_step (h : Inv s) (hfrom : ¬ FromInside s a) (hstep : s.step nftw a = some s') :
    ¬ s'.Mirrors := by
  obtain ⟨t, evs, g', hperform, hd, rfl⟩ := step_spec hstep
  obtain ⟨op, reads⟩ := a
  cases op with
  | mkdir p n => exact absurd trivial hfrom
  | rmdir p => exact absurd trivial hfrom
  | rename p n q m =>
    simp only [FromInside, Classical.not_imp, Bool.not_eq_true] at hfrom
    obtain ⟨hex, hdst, hsrc⟩ := hfrom
    rcases perform_rename hperform with ⟨heq, -, -⟩ | ⟨hr, rfl, rfl⟩
    · rw [heq, hdst] at hsrc
      cases hsrc
    · exact not_mirrors_rename_onto hr h hd hsrc hdst (hasDir_iff.mp hex)

lemma tracks_roots (hnftw : Visits nftw) {fs : List Dir} (hfs : (fs.map Dir.ino).Nodup)
    {roots : List Path} (hne : [] ∉ roots) {g : Monitor} (htracks : Tracks T g)
    (hT : ∀ e ∈ T, e.dir ∈ fs) :
    ∃ T', Tracks T' ((roots.map pathname).foldl (watchSubtree (nftw fs)) g) ∧
      ((roots.map pathname).foldl (watchSubtree (nftw fs)) g).rootDirPaths = g.rootDirPaths ∧
      ∀ d, d ∈ T'.map Entry.dir ↔
        d ∈ T.map Entry.dir ∨ d ∈ fs ∧ inTree roots d.path = true := by
  induction roots generalizing T g with
  | nil => exact ⟨T, htracks, rfl, by simp [inTree]⟩
  | cons r roots ih =>
    rw [List.mem_cons, not_or] at hne
    obtain ⟨T₁, htracks₁, hroots₁, hdirs₁⟩ :=
      htracks.watchSubtree hfs (Ne.symm hne.1) (hnftw fs r (Ne.symm hne.1)) hT
    have hT₁ : ∀ e ∈ T₁, e.dir ∈ fs := by
      intro e he
      rcases (hdirs₁ e.dir).mp (List.mem_map_of_mem he) with hmem | hmem
      · obtain ⟨e', he', heq⟩ := List.mem_map.mp hmem
        exact heq ▸ hT e' he'
      · exact hmem.1
    obtain ⟨T₂, htracks₂, hroots₂, hdirs₂⟩ := ih hne.2 htracks₁ hT₁
    refine ⟨T₂, htracks₂, hroots₂.trans hroots₁, fun d => ?_⟩
    rw [hdirs₂, hdirs₁, inTree, inTree, List.any_cons, Bool.or_eq_true, List.isPrefixOf_iff_prefix]
    tauto

lemma inv_init (hnftw : Visits nftw) {fs : List Dir} {nextIno nextCookie : ℕ} {roots : List Path}
    (htree : FileTree fs nextIno roots) (hne : [] ∉ roots) :
    Inv (System.init nftw fs nextIno nextCookie roots) := by
  have hstart : Monitor.start (nftw fs) roots =
      (roots.map pathname).foldl (watchSubtree (nftw fs))
        ⟨roots.map fun r => some (pathname r), [], [], 1⟩ := by
    simp [Monitor.start, reinit, List.filterMap_map]
  have hempty : Tracks [] ⟨roots.map fun r => some (pathname r), [], [], 1⟩ :=
    ⟨cached_nil, .nil, by simp, by simp, by simp⟩
  obtain ⟨T, htracks, hroots, hdirs⟩ := tracks_roots hnftw htree.inos hne hempty (by simp)
  rw [← hstart] at htracks hroots
  refine ⟨htree, hne, hroots, T, htracks, fun d => (hdirs d).trans ?_⟩
  rw [mem_treeDirs]
  simp [System.init]

/-- **The cache mirrors the trees** after every operation of a run, whatever the trees, the order
in which `nftw` visits them and the way the reads cut the events up, exactly if no directory is
renamed from outside the trees onto a directory inside them. The root directory of the file
system must not be one of the monitored roots. -/
theorem dtree_mirrors_iff (hnftw : Visits nftw) {fs : List Dir} {nextIno nextCookie : ℕ}
    {roots : List Path} (htree : FileTree fs nextIno roots) (hne : [] ∉ roots)
    {as : List (Op × List ℕ)}
    (has : exec (System.step nftw) (System.init nftw fs nextIno nextCookie roots) as = some s) :
    Always (System.step nftw) System.Mirrors (System.init nftw fs nextIno nextCookie roots) as ↔
      Guarded (System.step nftw) FromInside (System.init nftw fs nextIno nextCookie roots) as :=
  always_iff_guarded (I := Inv) (fun _ hu => hu.mirrors)
    (fun _ _ _ hu hfrom hstep => hu.step hnftw hfrom hstep)
    (fun _ _ _ hu hfrom hstep => not_mirrors_step hu hfrom hstep) has
    (inv_init hnftw htree hne)

end Step

/-! ### Runs on a small file system -/

/-- A `nftw` that visits the directories in the order the file system lists them. -/
def visitInOrder (fs : List Dir) : Nftw := fun path =>
  (fs.filter fun d => path = ['/'] ∨ under path (pathname d.path)).map fun d => (pathname d.path, d)

lemma visits_visitInOrder : Visits visitInOrder := by
  intro fs p hp
  refine List.Perm.of_eq (congrArg _ (List.filter_congr fun d _ => ?_))
  obtain ⟨n, p, rfl⟩ := List.exists_cons_of_ne_nil hp
  obtain ⟨c, cs, hname⟩ := List.exists_cons_of_ne_nil n.property.1
  have hroot : pathname (n :: p) ≠ ['/'] := by simp [pathname, hname]
  rw [Bool.eq_iff_iff, decide_eq_true_eq, or_iff_right hroot, List.isPrefixOf_iff_prefix,
    pathname_of_ne_nil (List.cons_ne_nil n p)]
  cases hd : d.path with
  | nil => simp [under, pathname, hname]
  | cons m q => rw [pathname_of_ne_nil (List.cons_ne_nil m q), under_str_iff]

def letter (c : Char) (h : '/' ≠ c) : Name := ⟨[c], by simp, by simpa using h⟩

def nameA : Name := letter 'a' (by decide)
def nameB : Name := letter 'b' (by decide)
def nameX : Name := letter 'x' (by decide)
def nameY : Name := letter 'y' (by decide)
def nameZ : Name := letter 'z' (by decide)

/-- The directories `/`, `/a`, `/a/x`, `/b` and `/b/y`. -/
def smallTree : List Dir :=
  [⟨[], 1⟩, ⟨[nameA], 2⟩, ⟨[nameA, nameX], 3⟩, ⟨[nameB], 4⟩, ⟨[nameB, nameY], 5⟩]

lemma fileTree_smallTree : FileTree smallTree 6 [[nameA]] where
  paths := by decide
  inos := by decide
  fresh := by decide
  closed := by
    have hinits : ∀ d ∈ smallTree, ∀ p ∈ d.path.inits, ∃ d' ∈ smallTree, d'.path = p := by decide
    exact fun d hd p hp => hinits d hd p ((List.mem_inits p d.path).mpr hp)
  roots := by decide

instance (s : System) : Decidable s.Mirrors := by
  unfold System.Mirrors
  infer_instance

/-- A directory is made, one is moved in, one is moved onto an empty one with its two events read
apart, one is moved out, and one is removed. -/
def allOperations : List (Op × List ℕ) :=
  [(.mkdir [nameA] nameZ, [1, 0]),
    (.rename [nameB] nameY [nameA] nameY, [1, 0]),
    (.rename [nameA] nameX [nameA] nameZ, [1, 3, 0, 0, 0]),
    (.rename [nameA] nameY [nameB] nameX, [1, 0, 0, 1, 0]),
    (.rmdir [nameA, nameZ], [2, 0, 0])]

theorem dtree_mirrors_iff_all_operations :
    (exec (System.step visitInOrder) (System.init visitInOrder smallTree 6 1 [[nameA]])
      allOperations).isSome = true ∧
    Always (System.step visitInOrder) System.Mirrors
      (System.init visitInOrder smallTree 6 1 [[nameA]]) allOperations := by
  have hsome : (exec (System.step visitInOrder)
      (System.init visitInOrder smallTree 6 1 [[nameA]]) allOperations).isSome = true := by
    decide +kernel
  obtain ⟨s, hs⟩ := Option.isSome_iff_exists.mp hsome
  exact ⟨hsome, (dtree_mirrors_iff visits_visitInOrder fileTree_smallTree (by decide) hs).mpr
    (by decide +kernel)⟩

/-- **The directory that goes missing.** With `/a` monitored, `/b/y` is renamed onto the empty
directory `/a/x`. The cache then holds `/a` alone. -/
theorem dtree_misses_replacement :
    FileTree smallTree 6 [[nameA]] ∧
    ∃ s, exec (System.step visitInOrder) (System.init visitInOrder smallTree 6 1 [[nameA]])
        [(.rename [nameB] nameY [nameA] nameX, [3, 0, 0, 0])] = some s ∧
      (used s.monitor.wlCache).map Slot.path = [pathname [nameA]] ∧
      s.treeDirs.map (fun d => pathname d.path) = [pathname [nameA], pathname [nameA, nameX]] ∧
      ¬ s.Mirrors := by
  refine ⟨fileTree_smallTree, exists_exec_of_any ?_⟩
  decide +kernel

/-- With `/` itself monitored, the pathname that is looked for has two slashes, and a renamed
directory keeps its old pathname in the cache. -/
example :
    (exec (System.step visitInOrder) (System.init visitInOrder [⟨[], 1⟩, ⟨[nameA], 2⟩] 3 1 [[]])
      [(.rename [] nameA [] nameB, [2, 0])]).map (fun s =>
        ((used s.monitor.wlCache).map Slot.path, s.treeDirs.map fun d => pathname d.path)) =
      some ([['/'], ['/', 'a']], [['/'], ['/', 'b']]) := by
  decide +kernel

end LinuxSamples.InotifyDtree
