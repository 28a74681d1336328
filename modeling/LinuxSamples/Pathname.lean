import Mathlib.Data.List.TakeWhile
import Mathlib.Tactic

/-!
Pathnames as lists of components and as the strings programs handle.

A path from the root directory is a list of names; its string puts a slash before each of
them. A program that keeps strings asks whether a directory is at or below another one with
`strncmp` and a look at the character that follows. On the strings of paths that test says
exactly that the one list of components begins with the other.
-/

namespace LinuxSamples.Pathname

/-- A component of a pathname: not empty, and without a slash. -/
abbrev Name := {n : List Char // n ≠ [] ∧ '/' ∉ n}

abbrev Path := List Name

/-- The string of a path below the root directory. -/
def str (p : Path) : List Char := p.flatMap fun n => '/' :: n.val

/-- The absolute pathname of a directory; that of the root directory is `/`. -/
def pathname (p : Path) : List Char := if p = [] then ['/'] else str p

/-- `strncmp(full, s, len) == 0 && (s[len] == '/' || s[len] == '\0')`, where `len` is
`strlen(full)`. -/
def under (full s : List Char) : Bool :=
  full.isPrefixOf s && (s.drop full.length).head?.all (· = '/')

@[simp] lemma str_nil : str [] = [] := rfl

@[simp] lemma str_cons (n : Name) (p : Path) : str (n :: p) = '/' :: (n.val ++ str p) := by
  simp [str]

lemma str_append (p q : Path) : str (p ++ q) = str p ++ str q := by
  simp [str]

lemma str_concat (p : Path) (n : Name) : str (p ++ [n]) = str p ++ '/' :: n.val := by
  simp [str_append]

lemma pathname_of_ne_nil {p : Path} (hp : p ≠ []) : pathname p = str p := if_neg hp

lemma str_eq_nil {p : Path} (h : str p = []) : p = [] := by
  cases p with
  | nil => rfl
  | cons n p => simp at h

/-- What follows a component is nothing, or begins with a slash. -/
def Follows (t : List Char) : Prop := t.head?.all (· = '/') = true

lemma follows_str (p : Path) : Follows (str p) := by
  cases p <;> simp [Follows]

lemma follows_str_append (p : Path) {t : List Char} (ht : Follows t) : Follows (str p ++ t) := by
  cases p with
  | nil => exact ht
  | cons n p => simp [Follows]

lemma takeWhile_component (n : Name) {t : List Char} (ht : Follows t) :
    (n.val ++ t).takeWhile (· ≠ '/') = n.val := by
  have hname : ∀ c ∈ n.val, decide (c ≠ '/') = true := by
    intro c hc
    have : c ≠ '/' := fun h => n.property.2 (h ▸ hc)
    simpa using this
  rw [List.takeWhile_append_of_pos hname]
  cases t with
  | nil => simp
  | cons c t =>
    have hc : c = '/' := by simpa [Follows] using ht
    simp [hc]

/-- Only the paths that begin with `p` have a string that begins with that of `p` and goes on
with a slash or not at all. -/
lemma exists_append_of_str_append {p q : Path} {t : List Char} (h : str p ++ t = str q)
    (ht : Follows t) : ∃ r, q = p ++ r ∧ t = str r := by
  induction p generalizing q with
  | nil => exact ⟨q, rfl, by simpa using h⟩
  | cons n p ih =>
    cases q with
    | nil => simp at h
    | cons m q =>
      have htail : n.val ++ (str p ++ t) = m.val ++ str q := by simpa using h
      have hname : n = m := by
        apply Subtype.ext
        rw [← takeWhile_component n (follows_str_append p ht), htail,
          takeWhile_component m (follows_str q)]
      subst hname
      obtain ⟨r, rfl, hr⟩ := ih (List.append_cancel_left htail)
      exact ⟨r, rfl, hr⟩

lemma str_injective : Function.Injective str := by
  intro p q h
  obtain ⟨r, rfl, hr⟩ := exists_append_of_str_append (t := []) (by simpa using h) rfl
  rw [str_eq_nil hr.symm, List.append_nil]

/-- **The string test is the test on components.** -/
theorem under_str_iff (p q : Path) : under (str p) (str q) = true ↔ p <+: q := by
  rw [under, Bool.and_eq_true, List.isPrefixOf_iff_prefix]
  constructor
  · rintro ⟨⟨t, ht⟩, hnext⟩
    rw [← ht, List.drop_left] at hnext
    obtain ⟨r, rfl, -⟩ := exists_append_of_str_append ht hnext
    exact ⟨r, rfl⟩
  · rintro ⟨r, rfl⟩
    rw [str_append]
    exact ⟨⟨str r, rfl⟩, by rw [List.drop_left]; exact follows_str r⟩

lemma not_under_nil {p : Path} (hp : p ≠ []) : under (str p) [] = false := by
  cases p with
  | nil => exact absurd rfl hp
  | cons n p => simp [under]

lemma str_append_drop (p q r : Path) :
    str q ++ (str (p ++ r)).drop (str p).length = str (q ++ r) := by
  rw [str_append, List.drop_left, str_append]

end LinuxSamples.Pathname
