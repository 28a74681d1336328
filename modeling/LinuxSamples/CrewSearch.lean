import LinuxSamples.CString

/-!
The search of a regular file by a worker of `crew.c`.

The file is read with `fgets` into a buffer of 256 bytes, and each piece is searched on its own. A
line that does not fit is read in pieces of 255 bytes, so an occurrence of the string is missed
where it goes from one piece into the next.
-/

namespace LinuxSamples.CrewSearch

open LinuxSamples.CString

/-- `char buffer[256]`. -/
abbrev Buffer := {xs : List UInt8 // xs.length = 256}

/-- `work_t`, besides the link. -/
structure Work where
  path : List UInt8
  string : List UInt8
  zero : 0 ∉ string

inductive Msg
  | unableToOpen (path : List UInt8)
  /-- `Thread %d found "%s" in %s` -/
  | found (index : ℕ) (string path : List UInt8)
  deriving DecidableEq

/-- The loop, with what is left of the file. Where nothing can be read, the end is reached. -/
def searchLoop (index : ℕ) (work : Work) (buffer : Buffer) (file : List UInt8) :
    Option (List Msg) :=
  match h : fgets buffer.1 file with
  | none => some []
  | some (xs, rest) =>
    have hspec := fgets_spec (by rw [buffer.2]; decide) h
    match strstr work.string xs with
    | none => none
    | some (some _) => some [.found index work.string work.path]
    | some none => searchLoop index work ⟨xs, hspec.1.trans buffer.2⟩ rest
termination_by file.length
decreasing_by exact hspec.2

/-- The branch of `worker_routine` for a regular file; without contents it cannot be opened. -/
def searchFile (index : ℕ) (work : Work) (buffer : Buffer) : Option (List UInt8) →
    Option (List Msg)
  | none => some [.unableToOpen work.path]
  | some file => searchLoop index work buffer file

/-! ### Occurrences -/

def lines (file : List UInt8) : List (List UInt8) := file.splitOn newline

/-- The word occurs in the line, at a column from which it stays in one piece. -/
def Inside (w line : List UInt8) : Prop :=
  ∃ k < line.length, w <+: line.drop k ∧ k / 255 = (k + w.length - 1) / 255

instance (w line : List UInt8) : Decidable (Inside w line) :=
  inferInstanceAs (Decidable (∃ k < line.length, _))

lemma infix_iff_drop {w l : List UInt8} : w <:+: l ↔ ∃ k, w <+: l.drop k := by
  constructor
  · rintro ⟨s, t, rfl⟩
    exact ⟨s.length, t, by simp⟩
  · rintro ⟨k, hk⟩
    exact hk.isInfix.trans (l.drop_suffix k).isInfix

lemma isSome_find {w s : List UInt8} : (find w s).isSome ↔ w <:+: s := by
  rw [find, List.findIdx?_isSome, List.any_eq_true, List.infix_iff_prefix_suffix]
  simp only [List.mem_tails, List.isPrefixOf_iff_prefix]
  constructor
  · rintro ⟨t, ht, hw⟩
    exact ⟨t, hw, ht⟩
  · rintro ⟨t, hw, ht⟩
    exact ⟨t, ht, hw⟩

section

variable {w : List UInt8}

lemma infix_newline (hw : w ≠ []) (hnl : newline ∉ w) {l : List UInt8} :
    w <:+: l ++ [newline] ↔ w <:+: l := by
  rw [List.infix_concat_iff, List.suffix_concat_iff]
  refine ⟨?_, Or.inr⟩
  rintro ((h | ⟨t, rfl, -⟩) | h)
  · exact absurd h hw
  · exact absurd (by simp) hnl
  · exact h

lemma length_le_of_drop {l : List UInt8} {k : ℕ} (hw : w ≠ []) (h : w <+: l.drop k) :
    k + w.length ≤ l.length ∧ 0 < w.length := by
  have hlen := h.length_le
  have hpos := List.length_pos_iff.mpr hw
  rw [List.length_drop] at hlen
  omega

lemma inside_of_short (hw : w ≠ []) {l : List UInt8} (hl : l.length ≤ 255) :
    Inside w l ↔ w <:+: l := by
  rw [infix_iff_drop]
  constructor
  · rintro ⟨k, -, hk, -⟩
    exact ⟨k, hk⟩
  · rintro ⟨k, hk⟩
    have hlen := length_le_of_drop hw hk
    exact ⟨k, by omega, hk, by omega⟩

lemma inside_append (hw : w ≠ []) {p l : List UInt8} (hp : p.length = 255) :
    Inside w (p ++ l) ↔ w <:+: p ∨ Inside w l := by
  rw [infix_iff_drop]
  constructor
  · rintro ⟨k, hk, hocc, hpiece⟩
    have hpos := (length_le_of_drop hw hocc).2
    rcases Nat.lt_or_ge k 255 with hlt | hge
    · left
      refine ⟨k, ?_⟩
      rw [List.drop_append_of_le_length (by omega)] at hocc
      refine List.prefix_of_prefix_length_le hocc (List.prefix_append _ _) ?_
      rw [List.length_drop]
      omega
    · right
      obtain ⟨j, rfl⟩ := Nat.exists_eq_add_of_le hge
      rw [List.length_append] at hk
      rw [← hp, List.drop_length_add_append] at hocc
      exact ⟨j, by omega, hocc, by omega⟩
  · rintro (⟨k, hk⟩ | ⟨j, hj, hocc, hpiece⟩)
    · have hlen := length_le_of_drop hw hk
      refine ⟨k, by rw [List.length_append]; omega, ?_, by omega⟩
      rw [List.drop_append_of_le_length (by omega)]
      exact hk.trans (List.prefix_append _ _)
    · have hpos := (length_le_of_drop hw hocc).2
      refine ⟨255 + j, by rw [List.length_append]; omega, ?_, by omega⟩
      rwa [← hp, List.drop_length_add_append]

end

lemma lines_of_newline {l : List UInt8} (hl : newline ∉ l) (rest : List UInt8) :
    lines (l ++ newline :: rest) = l :: lines rest := by
  refine List.splitOnP_append_cons_of_forall_mem (fun x hx => ?_) newline (by simp) rest
  simpa using fun h : x = newline => hl (h ▸ hx)

lemma lines_append {p : List UInt8} (hp : newline ∉ p) (rest : List UInt8) :
    ∃ l ls, lines rest = l :: ls ∧ lines (p ++ rest) = (p ++ l) :: ls := by
  obtain ⟨l, ls, hlines⟩ := List.exists_cons_of_ne_nil (List.splitOnP_ne_nil (· == newline) rest)
  refine ⟨l, ls, hlines, ?_⟩
  induction p with
  | nil => exact hlines
  | cons c p ih =>
    obtain ⟨hc, hp⟩ := not_mem_cons.mp hp
    have hstep := List.splitOnP_cons_eq_if_modifyHead (p := (· == newline)) c (p ++ rest)
    rw [if_neg (by simpa using hc.symm)] at hstep
    have hrest : List.splitOnP (· == newline) (p ++ rest) = (p ++ l) :: ls := ih hp
    rw [hrest] at hstep
    exact hstep

lemma not_inside_nil {w : List UInt8} : ¬ ∃ line ∈ lines [], Inside w line := by
  simp [lines, Inside]

lemma inside_piece {w : List UInt8} (hw : w ≠ []) (hnl : newline ∉ w) (file : List UInt8) :
    (∃ line ∈ lines file, Inside w line) ↔
      w <:+: piece 255 file ∨
        ∃ line ∈ lines (file.drop (piece 255 file).length), Inside w line := by
  rcases piece_cases 255 file with ⟨l, rest, rfl, hl, hlen, hp⟩ | ⟨htake, hp⟩
  · have hdrop : (l ++ newline :: rest).drop (l ++ [newline]).length = rest := by simp
    rw [hp, hdrop, lines_of_newline hl, List.exists_mem_cons_iff, inside_of_short hw (by omega),
      infix_newline hw hnl]
  · rw [hp]
    rcases Nat.lt_or_ge file.length 255 with hshort | hlong
    · have hall : file.take 255 = file := List.take_of_length_le hshort.le
      rw [hall] at htake ⊢
      obtain ⟨l, ls, hnone, hlines⟩ := lines_append htake []
      obtain ⟨rfl, rfl⟩ := List.cons.inj hnone
      have hline : lines file = [file] := by simpa using hlines
      rw [hline, List.drop_length, or_iff_left not_inside_nil]
      simp only [List.mem_singleton, exists_eq_left]
      exact inside_of_short hw hshort.le
    · have hlen : (file.take 255).length = 255 := by simp [hlong]
      obtain ⟨l, ls, hrest, hall⟩ := lines_append htake (file.drop 255)
      rw [List.take_append_drop] at hall
      rw [hlen, hall, hrest, List.exists_mem_cons_iff, List.exists_mem_cons_iff,
        inside_append hw hlen, or_assoc]

lemma searchLoop_spec (index : ℕ) (work : Work) (hw : work.string ≠ [])
    (hnl : newline ∉ work.string) (buffer : Buffer) {file : List UInt8} (hfile : 0 ∉ file) :
    (searchLoop index work buffer file = some [.found index work.string work.path] ∧
        ∃ line ∈ lines file, Inside work.string line) ∨
      (searchLoop index work buffer file = some [] ∧
        ¬ ∃ line ∈ lines file, Inside work.string line) := by
  induction hn : file.length using Nat.strong_induction_on generalizing file buffer with
  | _ n ih =>
    rw [searchLoop]
    split
    · next hend =>
      have hempty : file = [] := by
        by_contra hne
        rw [fgets_eq hne] at hend
        cases hend
      subst hempty
      exact Or.inr ⟨rfl, not_inside_nil⟩
    · next xs rest hread =>
      have hspec := fgets_spec (by rw [buffer.2]; decide) hread
      have hne : file ≠ [] := by
        rintro rfl
        cases hread
      rw [fgets_eq hne, buffer.2] at hread
      obtain ⟨hxs, hrest⟩ := Prod.mk.inj (Option.some.inj hread)
      have hholds : Holds xs (piece 255 file) :=
        ⟨fun h => hfile ((prefix_piece 255 file).subset h), _, hxs.symm⟩
      rw [inside_piece hw hnl file]
      have hdrop : file.drop (piece 255 file).length = rest := hrest
      rw [hdrop]
      have hfind := hholds.strstr work.zero
      cases hfound : find work.string (piece 255 file) with
      | some j =>
        rw [hfound] at hfind
        rw [hfind]
        have hsome : (find work.string (piece 255 file)).isSome := by rw [hfound]; rfl
        exact Or.inl ⟨rfl, Or.inl (isSome_find.mp hsome)⟩
      | none =>
        rw [hfound] at hfind
        rw [hfind]
        have hnone : ¬ work.string <:+: piece 255 file := by
          rw [← isSome_find, hfound]
          exact Bool.false_ne_true
        have hzeros : 0 ∉ rest := fun h => hfile (List.mem_of_mem_drop (hdrop ▸ h))
        rw [or_iff_right hnone]
        exact ih rest.length (hn ▸ hspec.2) ⟨xs, hspec.1.trans buffer.2⟩ hzeros rfl

/-- **The search of a file is exact if every match that is missed is made up for.** It always ends,
with at most one report. It reports the string where some line has it inside a piece, and so is
exact just when a line that has the string anywhere implies a line that has it inside a piece. -/
theorem crew_search_exact_iff (index : ℕ) (work : Work) (hw : work.string ≠ [])
    (hnl : newline ∉ work.string) (buffer : Buffer) {file : List UInt8} (hfile : 0 ∉ file) :
    ∃ out, searchFile index work buffer (some file) = some out ∧
      (out = [] ∨ out = [.found index work.string work.path]) ∧
      (out ≠ [] ↔ ∃ line ∈ lines file, Inside work.string line) ∧
      ((out ≠ [] ↔ ∃ line ∈ lines file, work.string <:+: line) ↔
        ((∃ line ∈ lines file, work.string <:+: line) →
          ∃ line ∈ lines file, Inside work.string line)) := by
  have hinfix : (∃ line ∈ lines file, Inside work.string line) →
      ∃ line ∈ lines file, work.string <:+: line := by
    rintro ⟨line, hline, k, -, hk, -⟩
    exact ⟨line, hline, infix_iff_drop.mpr ⟨k, hk⟩⟩
  rcases searchLoop_spec index work hw hnl buffer hfile with ⟨heq, hin⟩ | ⟨heq, hout⟩
  · exact ⟨_, heq, Or.inr rfl, by simp [hin], by simp [hin, hinfix hin]⟩
  · exact ⟨_, heq, Or.inl rfl, by simp [hout], by simp [hout]⟩

def bc : Work := ⟨[102], [98, 99], by decide⟩

def stale : Buffer := ⟨List.replicate 256 97, List.length_replicate⟩

theorem crew_search_exact_iff_second_line :
    ∃ out, searchFile 1 bc stale (some [97, 10, 97, 98, 99]) = some out ∧
      (out ≠ [] ↔ ∃ line ∈ lines [97, 10, 97, 98, 99], bc.string <:+: line) := by
  obtain ⟨out, heq, -, -, hexact⟩ :=
    crew_search_exact_iff 1 bc (by decide) (by decide) stale
      (show 0 ∉ [97, 10, 97, 98, 99] by decide)
  exact ⟨out, heq, hexact.mpr fun _ => by decide⟩

def longLine : List UInt8 := List.replicate 254 97 ++ [98, 99]

lemma not_inside_longLine : ¬ Inside bc.string longLine := by
  rintro ⟨k, hk, hocc, hpiece⟩
  have hlen : longLine.length = 256 := by
    rw [longLine, List.length_append, List.length_replicate]
    rfl
  have hle := (length_le_of_drop (by decide) hocc).1
  have hword : bc.string.length = 2 := rfl
  rcases Nat.lt_or_ge k 254 with hlt | hge
  · -- the string does not begin among the first 254 bytes
    obtain ⟨j, hj⟩ : ∃ j, 254 - k = j + 1 := ⟨253 - k, by omega⟩
    rw [longLine, List.drop_append_of_le_length (by rw [List.length_replicate]; omega),
      List.drop_replicate, hj] at hocc
    have hhead : (98 : UInt8) = 97 := (List.cons_prefix_cons.mp hocc).1
    exact absurd hhead (by decide)
  · omega

/-- The first piece ends between the two bytes of the string. -/
theorem crew_search_misses :
    searchFile 1 bc stale (some longLine) = some [] ∧
      ∃ line ∈ lines longLine, bc.string <:+: line := by
  have hlines : lines longLine = [longLine] := by decide +kernel
  rw [hlines]
  rcases searchLoop_spec 1 bc (by decide) (by decide) stale (show 0 ∉ longLine by decide +kernel)
    with ⟨-, line, hline, hin⟩ | ⟨heq, -⟩
  · rw [hlines, List.mem_singleton] at hline
    exact absurd (hline ▸ hin) not_inside_longLine
  · exact ⟨heq, longLine, List.mem_singleton_self _, List.replicate 254 97, [], List.append_nil _⟩

end LinuxSamples.CrewSearch
