import Mathlib.Tactic

/-!
A memory as a function from addresses, and the copying of runs of cells.

`load` reads a run of cells, `store` overwrites one, and a move is a load followed by a
store, so that overlapping ranges cause no trouble. The lemmas say what a load sees after
a store, and how loads of adjacent runs join.
-/

namespace LinuxSamples.Bytes

variable {α : Type*}

/-- The `n` cells from `off` on. -/
def load (m : ℕ → α) (off n : ℕ) : List α := (List.range n).map fun i => m (off + i)

/-- The memory with `bs` written from `off` on. -/
def store (m : ℕ → α) (off : ℕ) (bs : List α) : ℕ → α :=
  fun i => if off ≤ i then (bs[i - off]?).getD (m i) else m i

/-- `n` cells are copied from `src` to `dst`. -/
def move (m : ℕ → α) (dst src n : ℕ) : ℕ → α := store m dst (load m src n)

@[simp] lemma length_load (m : ℕ → α) (off n : ℕ) : (load m off n).length = n := by
  simp [load]

lemma getElem?_load (m : ℕ → α) (off : ℕ) {n i : ℕ} (h : i < n) :
    (load m off n)[i]? = some (m (off + i)) := by
  simp [load, h]

@[simp] lemma load_const (v : α) (off n : ℕ) : load (fun _ => v) off n = List.replicate n v := by
  simp [load]

lemma load_shift (m : ℕ → α) (off n : ℕ) : load (fun i => m (off + i)) 0 n = load m off n := by
  simp [load]

lemma load_add (m : ℕ → α) (off a b : ℕ) :
    load m off (a + b) = load m off a ++ load m (off + a) b := by
  simp only [load, List.range_add, List.map_append, List.map_map]
  congr 1
  refine List.map_congr_left fun i _ => ?_
  simp [Nat.add_assoc]

lemma load_congr {m m' : ℕ → α} {off n : ℕ} (h : ∀ i, off ≤ i → i < off + n → m i = m' i) :
    load m off n = load m' off n := by
  refine List.map_congr_left fun i hi => ?_
  have := List.mem_range.mp hi
  exact h _ (by omega) (by omega)

lemma store_of_lt {m : ℕ → α} {off i : ℕ} {bs : List α} (h : i < off) : store m off bs i = m i :=
  if_neg (by omega)

lemma store_of_ge {m : ℕ → α} {off i : ℕ} {bs : List α} (h : off + bs.length ≤ i) :
    store m off bs i = m i := by
  unfold store
  rw [if_pos (by omega), List.getElem?_eq_none (by omega)]
  rfl

lemma store_of_mem {m : ℕ → α} {off i : ℕ} {bs : List α} (h : i < bs.length) :
    store m off bs (off + i) = bs[i] := by
  simp [store, h]

lemma store_replicate (m : ℕ → α) (off n i : ℕ) (v : α) :
    store m off (List.replicate n v) i = if off ≤ i ∧ i < off + n then v else m i := by
  unfold store
  by_cases h : off ≤ i
  · by_cases h' : i < off + n
    · rw [if_pos h, if_pos ⟨h, h'⟩, List.getElem?_replicate_of_lt (by omega)]
      rfl
    · rw [if_pos h, if_neg (by omega), List.getElem?_eq_none (by simp; omega)]
      rfl
  · rw [if_neg h, if_neg (by omega)]

@[simp] lemma load_store (m : ℕ → α) (off : ℕ) (bs : List α) :
    load (store m off bs) off bs.length = bs := by
  refine List.ext_getElem (by simp) fun i h1 h2 => ?_
  have := getElem?_load (store m off bs) off h2
  rw [store_of_mem h2, List.getElem?_eq_getElem h1, Option.some.injEq] at this
  exact this

lemma load_store_below (m : ℕ → α) {off off' n : ℕ} (bs : List α) (h : off + n ≤ off') :
    load (store m off' bs) off n = load m off n :=
  load_congr fun _ _ hi => store_of_lt (by omega)

lemma load_store_append (m : ℕ → α) (off n : ℕ) (bs : List α) :
    load (store m (off + n) bs) off (n + bs.length) = load m off n ++ bs := by
  rw [load_add, load_store_below m bs le_rfl, load_store]

lemma store_store_append (m : ℕ → α) (off : ℕ) (as bs : List α) :
    store (store m off as) (off + as.length) bs = store m off (as ++ bs) := by
  funext i
  rcases Nat.lt_or_ge i off with h | h
  · rw [store_of_lt (by omega), store_of_lt h, store_of_lt h]
  · unfold store
    rw [if_pos h, if_pos h]
    rcases Nat.lt_or_ge (i - off) as.length with h' | h'
    · rw [if_neg (by omega), List.getElem?_append_left h']
    · rw [if_pos (by omega), List.getElem?_append_right h', List.getElem?_eq_none h',
        Nat.sub_add_eq]
      rfl

lemma store_load_self (m : ℕ → α) (off n : ℕ) : store m off (load m off n) = m := by
  funext i
  rcases Nat.lt_or_ge i off with h | h
  · exact store_of_lt h
  rcases Nat.lt_or_ge i (off + n) with h' | h'
  · unfold store
    rw [if_pos h, getElem?_load m off (by omega), Nat.add_sub_cancel' h]
    rfl
  · exact store_of_ge (by rwa [length_load])

lemma load_move (m : ℕ → α) (dst src n : ℕ) : load (move m dst src n) dst n = load m src n := by
  have := load_store m dst (load m src n)
  rwa [length_load] at this

end LinuxSamples.Bytes
