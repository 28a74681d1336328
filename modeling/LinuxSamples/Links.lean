import Mathlib.Tactic

/-!
Linked lists in a heap.

A heap gives the cell at an address, if there is one. A cell holds an item and a pointer, which
may not have been set yet. Reading or writing through a null pointer, or through a pointer to a
cell that is not there, has no result. `Path` says which cells lie between two pointers, and
`Open` keeps the last cell of a list apart, whose pointer is the next to be set.
-/

namespace LinuxSamples.Links

/-- The pointer is `none` before it is set; a pointer is an address or null. -/
structure Cell (α : Type*) where
  item : α
  next : Option (Option ℕ)

abbrev Heap (α : Type*) := ℕ → Option (Cell α)

variable {α : Type*} {h h' : Heap α} {p q : Option ℕ} {l : List (ℕ × α)} {a b : ℕ}

/-- A new cell at an address that is not in use. -/
def alloc (h : Heap α) (a : ℕ) (c : Cell α) : Heap α := Function.update h a (some c)

def free (h : Heap α) (a : ℕ) : Heap α := Function.update h a none

def load (h : Heap α) (p : Option ℕ) : Option (Cell α) := p.bind h

/-- An assignment to the cell a pointer points to. -/
def setCell (h : Heap α) (p : Option ℕ) (f : Cell α → Cell α) : Option (Heap α) :=
  p.bind fun a => (h a).map fun c => Function.update h a (some (f c))

lemma setCell_of_some {c : Cell α} (ha : h a = some c) (f : Cell α → Cell α) :
    setCell h (some a) f = some (Function.update h a (some (f c))) := by
  simp [setCell, ha]

lemma setCell_keeps {f : Cell α → Cell α} (hs : setCell h p f = some h') {b : ℕ} (hb : h b = none) :
    h' b = none := by
  obtain ⟨a, rfl, ha⟩ := Option.bind_eq_some_iff.mp hs
  obtain ⟨c, hc, rfl⟩ := Option.map_eq_some_iff.mp ha
  have hba : b ≠ a := by
    rintro rfl
    exact Option.some_ne_none c (hc.symm.trans hb)
  rw [Function.update_of_ne hba, hb]

/-! ### Paths -/

/-- The cells from `p` to `q`, with their addresses. -/
def Path (h : Heap α) : Option ℕ → List (ℕ × α) → Option ℕ → Prop
  | p, [], q => p = q
  | p, c :: l, q => p = some c.1 ∧ ∃ n, h c.1 = some ⟨c.2, some n⟩ ∧ Path h n l q

@[simp] lemma path_nil : Path h p [] q ↔ p = q := Iff.rfl

lemma path_cons {c : ℕ × α} :
    Path h p (c :: l) q ↔ p = some c.1 ∧ ∃ n, h c.1 = some ⟨c.2, some n⟩ ∧ Path h n l q := Iff.rfl

lemma path_append {m : List (ℕ × α)} :
    Path h p (l ++ m) q ↔ ∃ r, Path h p l r ∧ Path h r m q := by
  induction l generalizing p with
  | nil => simp
  | cons c l ih =>
    simp only [List.cons_append, path_cons, ih]
    constructor
    · rintro ⟨hp, n, hc, r, hl, hm⟩
      exact ⟨r, ⟨hp, n, hc, hl⟩, hm⟩
    · rintro ⟨r, ⟨hp, n, hc, hl⟩, hm⟩
      exact ⟨hp, n, hc, r, hl, hm⟩

lemma Path.congr (hpath : Path h p l q) (hh : ∀ c ∈ l, h' c.1 = h c.1) : Path h' p l q := by
  induction l generalizing p with
  | nil => exact hpath
  | cons c l ih =>
    obtain ⟨hp, n, hc, hl⟩ := hpath
    refine ⟨hp, n, ?_, ih hl fun d hd => hh d (List.mem_cons_of_mem c hd)⟩
    rw [hh c List.mem_cons_self, hc]

lemma Path.mem (hpath : Path h p l q) {c : ℕ × α} (hc : c ∈ l) : h c.1 ≠ none := by
  induction l generalizing p with
  | nil => cases hc
  | cons d l ih =>
    obtain ⟨-, n, hd, hl⟩ := hpath
    rcases List.mem_cons.mp hc with rfl | hc
    · simp [hd]
    · exact ih hl hc

lemma Path.update (hpath : Path h p l q) (ha : a ∉ l.map Prod.fst) (o : Option (Cell α)) :
    Path (Function.update h a o) p l q := by
  refine hpath.congr fun c hc => Function.update_of_ne ?_ _ _
  rintro rfl
  exact ha (List.mem_map_of_mem hc)

lemma Path.not_mem (hpath : Path h p l q) (hb : h b = none) : b ∉ l.map Prod.fst := by
  intro hmem
  obtain ⟨c, hc, rfl⟩ := List.mem_map.mp hmem
  exact hpath.mem hc hb

lemma Path.tail {c : ℕ × α} (hpath : Path h p (c :: l) q)
    (hnodup : ((c :: l).map Prod.fst).Nodup) :
    ∃ n, p = some c.1 ∧ h c.1 = some ⟨c.2, some n⟩ ∧ Path (free h c.1) n l q := by
  obtain ⟨hp, n, hc, hl⟩ := hpath
  rw [List.map_cons, List.nodup_cons] at hnodup
  exact ⟨n, hp, hc, hl.update hnodup.1 none⟩

/-! ### Lists with a last cell -/

/-- The list from `head` on: the cells of `l`, and the last cell `c` at the address `a`. -/
structure Open (h : Heap α) (head : Option ℕ) (l : List (ℕ × α)) (a : ℕ) (c : Cell α) : Prop where
  path : Path h head l (some a)
  last : h a = some c
  nodup : (l.map Prod.fst ++ [a]).Nodup

section Open

variable {head : Option ℕ} {c d : Cell α}

lemma open_alloc (h : Heap α) (b : ℕ) (d : Cell α) : Open (alloc h b d) (some b) [] b d where
  path := rfl
  last := Function.update_self ..
  nodup := List.nodup_singleton b

lemma Open.not_mem (ho : Open h head l a c) : a ∉ l.map Prod.fst := by
  have hnodup := ho.nodup
  rw [List.nodup_append] at hnodup
  exact fun ha => hnodup.2.2 a ha a (List.mem_singleton_self a) rfl

lemma Open.head_ne_none (ho : Open h head l a c) : head ≠ none := by
  have hpath := ho.path
  cases l with
  | nil =>
    rw [path_nil.mp hpath]
    exact Option.some_ne_none a
  | cons d l =>
    rw [hpath.1]
    exact Option.some_ne_none d.1

lemma Open.extend (ho : Open h head l a c) (hb : h b = none) :
    ∃ h', setCell (alloc h b d) (some a) (fun c => { c with next := some (some b) }) = some h' ∧
      Open h' head (l ++ [(a, c.item)]) b d := by
  have hab : a ≠ b := by
    rintro rfl
    exact Option.some_ne_none c (ho.last.symm.trans hb)
  have hlast : alloc h b d a = some c := (Function.update_of_ne hab _ _).trans ho.last
  refine ⟨_, setCell_of_some hlast _, path_append.mpr ⟨some a, ?_, rfl, some b, ?_, rfl⟩, ?_, ?_⟩
  · exact (ho.path.update (ho.path.not_mem hb) (some d)).update ho.not_mem _
  · exact Function.update_self ..
  · rw [Function.update_of_ne (Ne.symm hab)]
    exact Function.update_self ..
  · rw [List.map_append, List.map_singleton, List.nodup_append]
    refine ⟨ho.nodup, List.nodup_singleton b, fun x hx y hy => ?_⟩
    rw [List.mem_singleton.mp hy]
    rintro rfl
    rcases List.mem_append.mp hx with hx | hx
    · exact ho.path.not_mem hb hx
    · exact hab (List.mem_singleton.mp hx).symm

lemma Open.assign (ho : Open h head l a c) (f : Cell α → Cell α) :
    ∃ h', setCell h (some a) f = some h' ∧ Open h' head l a (f c) :=
  ⟨_, setCell_of_some ho.last f, ho.path.update ho.not_mem _, Function.update_self .., ho.nodup⟩

lemma Open.close (ho : Open h head l a c) (hq : c.next = some q) :
    Path h head (l ++ [(a, c.item)]) q := by
  obtain ⟨item, next⟩ := c
  obtain rfl : next = some q := hq
  exact path_append.mpr ⟨some a, ho.path, rfl, q, ho.last, rfl⟩

lemma Path.open {x : α} (hpath : Path h head (l ++ [(a, x)]) q)
    (hnodup : ((l ++ [(a, x)]).map Prod.fst).Nodup) : Open h head l a ⟨x, some q⟩ := by
  obtain ⟨r, hl, rfl, n, hlast, rfl⟩ := path_append.mp hpath
  rw [List.map_append, List.map_singleton] at hnodup
  exact ⟨hl, hlast, hnodup⟩

end Open

end LinuxSamples.Links
