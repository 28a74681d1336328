import LinuxSamples.InotifyDtreeCache

/-!
The file system under the directory-tree monitor.

Making, removing and renaming a directory keep a file system one. A path that holds no root is
either wholly inside the trees with all that is below it, or wholly outside, and it is inside
just if its parent is. So an operation concerns the trees through the parents of its paths,
which are the directories whose watches tell of it.
-/

namespace LinuxSamples.InotifyDtree

open Run Pathname

/-! ### Trees and paths -/

section Paths

variable {roots : List Path} {p q : Path} {n : Name}

lemma inTree_iff : inTree roots p = true ↔ ∃ r ∈ roots, r <+: p := by
  simp [inTree]

lemma inTree_mono (h : inTree roots p = true) (hpq : p <+: q) : inTree roots q = true := by
  obtain ⟨r, hr, hrp⟩ := inTree_iff.mp h
  exact inTree_iff.mpr ⟨r, hr, hrp.trans hpq⟩

/-- No root is at or below `p`. -/
def Clear (roots : List Path) (p : Path) : Prop := ∀ r ∈ roots, ¬ p <+: r

lemma inTree_below (hp : Clear roots p) (hpq : p <+: q) : inTree roots q = inTree roots p := by
  rw [Bool.eq_iff_iff]
  refine ⟨fun h => ?_, fun h => inTree_mono h hpq⟩
  obtain ⟨r, hr, hrq⟩ := inTree_iff.mp h
  rcases List.prefix_or_prefix_of_prefix hrq hpq with hrp | hpr
  · exact inTree_iff.mpr ⟨r, hr, hrp⟩
  · exact absurd hpr (hp r hr)

lemma inTree_concat (hp : Clear roots (p ++ [n])) : inTree roots (p ++ [n]) = inTree roots p := by
  rw [Bool.eq_iff_iff]
  refine ⟨fun h => ?_, fun h => inTree_mono h (List.prefix_append p [n])⟩
  obtain ⟨r, hr, hrp⟩ := inTree_iff.mp h
  rcases List.prefix_concat_iff.mp hrp with rfl | hrp
  · exact absurd (List.prefix_refl _) (hp _ hr)
  · exact inTree_iff.mpr ⟨r, hr, hrp⟩

end Paths

/-! ### File systems -/

namespace FileTree

variable {fs : List Dir} {nextIno : ℕ} {roots : List Path} {src dst p q : Path} {n m : Name}

lemma eq_of_path (h : FileTree fs nextIno roots) {d d' : Dir} (hd : d ∈ fs) (hd' : d' ∈ fs)
    (hpath : d.path = d'.path) : d = d' :=
  List.inj_on_of_nodup_map h.paths hd hd' hpath

lemma eq_of_ino (h : FileTree fs nextIno roots) {d d' : Dir} (hd : d ∈ fs) (hd' : d' ∈ fs)
    (hino : d.ino = d'.ino) : d = d' :=
  List.inj_on_of_nodup_map h.inos hd hd' hino

lemma clear_of_empty (h : FileTree fs nextIno roots) (hempty : ∀ d ∈ fs, p <+: d.path → d.path = p)
    (hroot : p ∉ roots) : Clear roots p := by
  intro r hr hpr
  obtain ⟨d, hd, rfl⟩ := h.roots r hr
  exact hroot (hempty d hd hpr ▸ hr)

lemma not_prefix_of_absent (h : FileTree fs nextIno roots) (habsent : ∀ d ∈ fs, d.path ≠ p) :
    ∀ d ∈ fs, ¬ p <+: d.path := by
  intro d hd hpre
  obtain ⟨d', hd', hpath⟩ := h.closed d hd p hpre
  exact habsent d' hd' hpath

lemma clear_of_absent (h : FileTree fs nextIno roots) (habsent : ∀ d ∈ fs, d.path ≠ p) :
    Clear roots p := by
  intro r hr
  obtain ⟨d, hd, rfl⟩ := h.roots r hr
  exact h.not_prefix_of_absent habsent d hd

lemma mkdir (h : FileTree fs nextIno roots) (hparent : ∃ d ∈ fs, d.path = p)
    (habsent : ∀ d ∈ fs, d.path ≠ p ++ [n]) :
    FileTree (fs ++ [⟨p ++ [n], nextIno⟩]) (nextIno + 1) roots where
  paths := by
    rw [List.map_append, List.nodup_append]
    refine ⟨h.paths, List.nodup_singleton _, fun q hq q' hq' => ?_⟩
    obtain ⟨d, hd, rfl⟩ := List.mem_map.mp hq
    rw [List.mem_singleton.mp hq']
    exact habsent d hd
  inos := by
    rw [List.map_append, List.nodup_append]
    refine ⟨h.inos, List.nodup_singleton _, fun i hi i' hi' => ?_⟩
    obtain ⟨d, hd, rfl⟩ := List.mem_map.mp hi
    rw [List.mem_singleton.mp hi']
    exact (h.fresh d hd).ne
  fresh := by
    intro d hd
    rcases List.mem_append.mp hd with hd | hd
    · exact (h.fresh d hd).trans (Nat.lt_succ_self _)
    · rw [List.mem_singleton.mp hd]
      exact Nat.lt_succ_self _
  closed := by
    intro d hd q hq
    have hold : ∀ d ∈ fs, q <+: d.path → ∃ d' ∈ fs ++ [⟨p ++ [n], nextIno⟩], d'.path = q := by
      intro d hd hq
      obtain ⟨d', hd', hpath⟩ := h.closed d hd q hq
      exact ⟨d', List.mem_append_left _ hd', hpath⟩
    rcases List.mem_append.mp hd with hd | hd
    · exact hold d hd hq
    · rw [List.mem_singleton.mp hd] at hq
      rcases List.prefix_concat_iff.mp hq with rfl | hq
      · exact ⟨_, List.mem_append_right _ (List.mem_singleton_self _), rfl⟩
      · obtain ⟨d', hd', rfl⟩ := hparent
        exact hold d' hd' hq
  roots := by
    intro r hr
    obtain ⟨d, hd, hpath⟩ := h.roots r hr
    exact ⟨d, List.mem_append_left _ hd, hpath⟩

lemma mem_remove {d : Dir} : d ∈ fs.filter (·.path ≠ p) ↔ d ∈ fs ∧ d.path ≠ p := by
  simp [List.mem_filter]

lemma remove (h : FileTree fs nextIno roots) (hempty : ∀ d ∈ fs, p <+: d.path → d.path = p)
    (hroot : p ∉ roots) : FileTree (fs.filter (·.path ≠ p)) nextIno roots where
  paths := h.paths.sublist (List.filter_sublist.map _)
  inos := h.inos.sublist (List.filter_sublist.map _)
  fresh d hd := h.fresh d (List.mem_of_mem_filter hd)
  closed := by
    intro d hd q hq
    obtain ⟨hd, hne⟩ := mem_remove.mp hd
    obtain ⟨d', hd', rfl⟩ := h.closed d hd q hq
    refine ⟨d', mem_remove.mpr ⟨hd', fun hp => hne ?_⟩, rfl⟩
    exact hempty d hd (hp ▸ hq)
  roots := by
    intro r hr
    obtain ⟨d, hd, rfl⟩ := h.roots r hr
    exact ⟨d, mem_remove.mpr ⟨hd, fun hp => hroot (hp ▸ hr)⟩, rfl⟩

lemma eq_of_path_move (h : FileTree fs nextIno roots) (habsent : ∀ d ∈ fs, ¬ dst <+: d.path)
    {d d' : Dir} (hd : d ∈ fs) (hd' : d' ∈ fs)
    (heq : (d.move src dst).path = (d'.move src dst).path) : d = d' := by
  by_cases hpre : src <+: d.path <;> by_cases hpre' : src <+: d'.path
  · obtain ⟨r, hr⟩ := hpre
    obtain ⟨r', hr'⟩ := hpre'
    rw [Dir.move_below hr, Dir.move_below hr'] at heq
    have : r = r' := List.append_cancel_left heq
    exact h.eq_of_path hd hd' (by rw [← hr, ← hr', this])
  · obtain ⟨r, hr⟩ := hpre
    rw [Dir.move_below hr, Dir.move_other hpre'] at heq
    exact absurd ⟨r, heq⟩ (habsent d' hd')
  · obtain ⟨r, hr⟩ := hpre'
    rw [Dir.move_below hr, Dir.move_other hpre] at heq
    exact absurd ⟨r, heq.symm⟩ (habsent d hd)
  · rw [Dir.move_other hpre, Dir.move_other hpre'] at heq
    exact h.eq_of_path hd hd' heq

lemma exists_move_of_other (h : FileTree fs nextIno roots) {d : Dir} (hd : d ∈ fs)
    (hother : ¬ src <+: d.path) (hp : p <+: d.path) :
    ∃ d' ∈ fs.map (Dir.move src dst), d'.path = p := by
  obtain ⟨d', hd', rfl⟩ := h.closed d hd p hp
  exact ⟨d', List.mem_map.mpr ⟨d', hd', Dir.move_other fun hs => hother (hs.trans hp)⟩, rfl⟩

lemma exists_move_of_below {d : Dir} (hd : d ∈ fs) {r : Path} (hr : src ++ r = d.path) :
    ∃ d' ∈ fs.map (Dir.move src dst), d'.path = dst ++ r :=
  ⟨_, List.mem_map_of_mem hd, by rw [Dir.move_below hr]⟩

lemma rename (h : FileTree fs nextIno roots) (hsrc : ∃ d ∈ fs, d.path = src)
    (hparent : ∃ d ∈ fs, d.path = q) (hinto : ¬ src <+: q ++ [m])
    (habsent : ∀ d ∈ fs, ¬ q ++ [m] <+: d.path) (hroots : Clear roots src) :
    FileTree (fs.map (Dir.move src (q ++ [m]))) nextIno roots where
  paths := by
    rw [List.map_map, List.nodup_map_iff_inj_on (List.Nodup.of_map _ h.paths)]
    exact fun d hd d' hd' heq => h.eq_of_path_move habsent hd hd' heq
  inos := by
    have hino : Dir.ino ∘ Dir.move src (q ++ [m]) = Dir.ino := funext (Dir.ino_move _ _)
    rw [List.map_map, hino]
    exact h.inos
  fresh := by
    intro d' hd'
    obtain ⟨d, hd, rfl⟩ := List.mem_map.mp hd'
    rw [Dir.ino_move]
    exact h.fresh d hd
  closed := by
    intro d' hd' p hp
    obtain ⟨d, hd, rfl⟩ := List.mem_map.mp hd'
    by_cases hpre : src <+: d.path
    · obtain ⟨r, hr⟩ := hpre
      rw [Dir.move_below hr] at hp
      -- what is above the new path was there, what is at and below it was moved
      rcases List.prefix_or_prefix_of_prefix hp (List.prefix_append (q ++ [m]) r) with hq | hq
      · rcases List.prefix_concat_iff.mp hq with rfl | hq
        · obtain ⟨a, ha, hpath⟩ := hsrc
          obtain ⟨b, hb, hpath'⟩ :
              ∃ b ∈ fs.map (Dir.move src (q ++ [m])), b.path = q ++ [m] ++ [] :=
            exists_move_of_below ha (by rw [List.append_nil, hpath])
          exact ⟨b, hb, by rw [hpath', List.append_nil]⟩
        · obtain ⟨a, ha, rfl⟩ := hparent
          exact h.exists_move_of_other ha (fun hs => hinto (hs.trans (List.prefix_append _ _))) hq
      · obtain ⟨r', rfl⟩ := hq
        rw [List.prefix_append_right_inj] at hp
        obtain ⟨a, ha, hpath⟩ := h.closed d hd (src ++ r')
          (hr ▸ (List.prefix_append_right_inj src).mpr hp)
        exact exists_move_of_below ha hpath.symm
    · rw [Dir.move_other hpre] at hp
      exact h.exists_move_of_other hd hpre hp
  roots := by
    intro r hr
    obtain ⟨d, hd, rfl⟩ := h.roots r hr
    exact ⟨d, List.mem_map.mpr ⟨d, hd, Dir.move_other (hroots _ hr)⟩, rfl⟩

end FileTree

end LinuxSamples.InotifyDtree
