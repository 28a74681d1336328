import LinuxSamples.StringClass

/-!
When the class `String` keeps its invariant.

Each operation is followed with the text that every live object holds. An operation that meets its
condition keeps the objects, their buffers and the log of allocations in step, and one that does
not leaves an object with a wrong length, a count that is not the number of objects, or a buffer
that is gone.
-/

namespace LinuxSamples.StringClass

open CString Ledger Run Slots

/-! ### Copying a text -/

lemma toInt_of_lt {n : ℕ} (h : n < intMax) : toInt n = n := by
  unfold intMax at h
  unfold toInt
  split <;> omega

lemma toInt_le (n : ℕ) : toInt n ≤ n := by
  unfold toInt
  split <;> omega

section Copy

variable {src t : List UInt8} {mem : Option ℕ}

lemma initCopy_of_short (hsrc : Holds src t) (hshort : t.length < intMax) (a : ℕ) :
    initCopy t.length (some src) (some a) = .done a (t ++ [0]) := by
  have hcopy := hsrc.strcpy (show t.length < (List.replicate (t.length + 1) 0).length by simp)
  rw [List.drop_eq_nil_of_le (by simp)] at hcopy
  have hnew : newChars t.length (some a) = .done a (List.replicate (t.length + 1) 0) := by
    rw [newChars, if_neg (by omega), if_neg (by omega)]
    rfl
  simp only [initCopy, hnew, Option.bind_some, hcopy]

lemma initCopy_none {n : ℕ} (hshort : n < intMax) (src : Option (List UInt8)) :
    initCopy n src none = .throws := by
  have hnew : newChars n none = .throws := by
    rw [newChars, if_neg (by omega), if_neg (by omega)]
  simp only [initCopy, hnew]

lemma short_of_initCopy (hsrc : Holds src t) {a : ℕ} {buf : List UInt8}
    (h : initCopy (toInt t.length) (some src) mem = .done a buf) :
    t.length < intMax ∧ mem = some a := by
  have hle := toInt_le t.length
  unfold initCopy newChars at h
  split_ifs at h with hmax hneg
  cases mem with
  | none => cases h
  | some b =>
    simp only [Option.bind_some] at h
    rcases Nat.lt_or_ge t.length (toInt t.length + 1).toNat with hlen | hlen
    · rw [hsrc.strcpy (by simpa using hlen)] at h
      cases h
      exact ⟨by omega, rfl⟩
    · rw [hsrc.strcpy_eq_none (by simpa using hlen)] at h
      cases h

lemma initCopy_eq_throws_iff {n : ℕ} :
    initCopy (toInt n) (some src) mem = .throws ↔ Refused n mem := by
  unfold initCopy newChars Refused
  split_ifs with hmax hneg
  · have hpos : 0 < intMax := by decide
    simp only [false_iff]
    omega
  · simp [hneg]
  · cases mem with
    | none => simp; omega
    | some a =>
      simp only [Option.bind_some, reduceCtorEq, and_false, or_false, hneg]
      cases strcpy (List.replicate (toInt n + 1).toNat 0) src <;> simp

end Copy

/-! ### The objects and their buffers -/

section Objects

variable {heap : ℕ → Option (List UInt8)} {objs : List (Option Obj)} {log : List (Ev ℕ)} {i : ℕ}
  {o : Obj}

lemma obj_lt (h : obj objs i = some o) : i < objs.length := by
  by_contra hn
  rw [obj, List.getElem?_eq_none (Nat.le_of_not_lt hn)] at h
  cases h

lemma obj_eq_getElem (hi : i < objs.length) : obj objs i = objs[i] := by
  rw [obj, List.getElem?_eq_getElem hi]
  rfl

lemma set_obj (hi : i < objs.length) : objs.set i (obj objs i) = objs := by
  rw [obj_eq_getElem hi, List.set_getElem_self]

lemma obj_set (hi : i < objs.length) (x : Option Obj) :
    obj (objs.set i x) = Function.update (obj objs) i x := by
  funext k
  by_cases hk : k = i
  · subst hk
    simp [obj, hi]
  · rw [Function.update_of_ne hk, obj, List.getElem?_set_ne (Ne.symm hk), obj]

lemma obj_append_none (objs : List (Option Obj)) : obj (objs ++ [none]) = obj objs := by
  funext k
  rcases Nat.lt_trichotomy k objs.length with hk | rfl | hk
  · rw [obj, List.getElem?_append_left hk, obj]
  · simp [obj]
  · rw [obj, List.getElem?_eq_none (by simp; omega), obj, List.getElem?_eq_none (by omega)]

lemma append_eq_set (objs : List (Option Obj)) (x : Option Obj) :
    objs ++ [x] = (objs ++ [none]).set objs.length x := by
  simp

lemma buffers_set (hi : i < objs.length) (x : Option Obj) :
    (buffers (objs.set i x)).Perm ((x.map Obj.str).toList ++ buffers (objs.set i none)) := by
  induction objs generalizing i with
  | nil => cases hi
  | cons y objs ih =>
    cases i with
    | zero => cases x <;> rfl
    | succ i =>
      have hperm := ih (Nat.lt_of_succ_lt_succ hi)
      cases y with
      | none => exact hperm
      | some o =>
        refine (hperm.cons o.str).trans ?_
        exact List.perm_middle.symm

lemma buffers_perm (h : obj objs i = some o) :
    (buffers objs).Perm (o.str :: buffers (objs.set i none)) := by
  have hperm := buffers_set (obj_lt h) (some o)
  rwa [← h, set_obj (obj_lt h), h] at hperm

lemma countP_set (h : obj objs i = some o) (x : Option Obj) :
    ((objs.set i x).countP Option.isSome : ℤ) =
      objs.countP Option.isSome - 1 + if x.isSome then 1 else 0 := by
  have hlt := obj_lt h
  have hget : objs[i] = some o := (obj_eq_getElem hlt).symm.trans h
  have hpos : 0 < objs.countP Option.isSome :=
    List.countP_pos_iff.mpr ⟨some o, hget ▸ List.getElem_mem hlt, rfl⟩
  rw [List.countP_set hlt, hget]
  simp only [Option.isSome_some, if_true]
  split <;> omega

lemma Text.update {t : List UInt8} (h : Text heap o t) {a : ℕ} (ha : o.str ≠ a)
    (x : Option (List UInt8)) : Text (Function.update heap a x) o t := by
  obtain ⟨buf, hbuf, hrest⟩ := h
  exact ⟨buf, by rwa [Function.update_of_ne ha], hrest⟩

lemma text_new (heap : ℕ → Option (List UInt8)) (a : ℕ) {t : List UInt8} (ht : 0 ∉ t) :
    Text (Function.update heap a (some (t ++ [0]))) ⟨a, t.length⟩ t :=
  ⟨t ++ [0], Function.update_self .., ⟨ht, [], rfl⟩, rfl, by simp⟩

/-- Every object has a buffer of its own, and a text that is not too long. -/
structure Rep (heap : ℕ → Option (List UInt8)) (objs : List (Option Obj)) (log : List (Ev ℕ)) :
    Prop where
  text : ∀ i o, obj objs i = some o → ∃ t, Text heap o t ∧ t.length < intMax
  owned : Owned (fun a => heap a ≠ none) fun i => (obj objs i).map Obj.str
  freed : Paired [] (log ++ (buffers objs).map .free)

lemma Rep.str_ne {j : ℕ} {o' : Obj} (h : Rep heap objs log) (hi : obj objs i = some o)
    (hj : obj objs j = some o') (hne : i ≠ j) : o.str ≠ o'.str := by
  intro heq
  refine hne (h.owned.alone i j o.str ?_ ?_)
  · rw [hi]
    rfl
  · rw [hj, heq]
    rfl

lemma Rep.str_ne_of_unused (h : Rep heap objs log) (hi : obj objs i = some o) {a : ℕ}
    (ha : heap a = none) : o.str ≠ a := by
  rintro rfl
  exact h.owned.held i o.str (by rw [hi]; rfl) ha

lemma slot_set (hi : i < objs.length) (x : Option Obj) :
    (fun k => (obj (objs.set i x) k).map Obj.str) =
      Function.update (fun k => (obj objs k).map Obj.str) i (x.map Obj.str) := by
  funext k
  rw [obj_set hi]
  by_cases hk : k = i
  · subst hk
    rw [Function.update_self, Function.update_self]
  · rw [Function.update_of_ne hk, Function.update_of_ne hk]

lemma Rep.release (h : Rep heap objs log) (hi : obj objs i = some o) :
    Rep (Function.update heap o.str none) (objs.set i none) (log ++ [.free o.str]) where
  text := by
    intro k o' hk
    rw [obj_set (obj_lt hi)] at hk
    by_cases hki : k = i
    · rw [hki, Function.update_self] at hk
      cases hk
    · rw [Function.update_of_ne hki] at hk
      obtain ⟨t, ht, hshort⟩ := h.text k o' hk
      exact ⟨t, ht.update (h.str_ne hk hi hki) none, hshort⟩
  owned := by
    have hused : (fun a => Function.update heap o.str none a ≠ none) =
        fun a => a ≠ o.str ∧ heap a ≠ none := by
      funext a
      by_cases ha : a = o.str
      · simp [ha]
      · simp [ha]
    rw [hused, slot_set (obj_lt hi)]
    exact h.owned.release (by rw [hi]; rfl)
  freed := h.freed.snoc_free (buffers_perm hi)

lemma Rep.put (h : Rep heap objs log) (hi : i < objs.length) (hnone : obj objs i = none) {a : ℕ}
    (ha : heap a = none) {t : List UInt8} (ht : 0 ∉ t) (hshort : t.length < intMax) :
    Rep (Function.update heap a (some (t ++ [0]))) (objs.set i (some ⟨a, t.length⟩))
      (log ++ [.alloc a]) where
  text := by
    intro k o hk
    rw [obj_set hi] at hk
    by_cases hki : k = i
    · rw [hki, Function.update_self] at hk
      cases hk
      exact ⟨t, text_new heap a ht, hshort⟩
    · rw [Function.update_of_ne hki] at hk
      obtain ⟨t', ht', hshort'⟩ := h.text k o hk
      exact ⟨t', ht'.update (h.str_ne_of_unused hk ha) _, hshort'⟩
  owned := by
    have hused : (fun b => Function.update heap a (some (t ++ [0])) b ≠ none) =
        fun b => b = a ∨ heap b ≠ none := by
      funext b
      by_cases hb : b = a
      · simp [hb]
      · simp [hb]
    rw [hused, slot_set hi]
    exact h.owned.take (by rw [hnone]; rfl) (by simp [ha])
  freed := by
    have hperm := buffers_set hi (some ⟨a, t.length⟩)
    rw [← hnone, set_obj hi] at hperm
    exact h.freed.snoc_alloc hperm

lemma Rep.grow (h : Rep heap objs log) : Rep heap (objs ++ [none]) log where
  text := by
    rw [obj_append_none]
    exact h.text
  owned := by
    rw [obj_append_none]
    exact h.owned
  freed := by
    have hbuf : buffers (objs ++ [none]) = buffers objs := by simp [buffers]
    rw [hbuf]
    exact h.freed

end Objects

/-! ### The sides of a copy -/

section Sides

variable {w : World}

/-- The side has the text `t`. -/
structure World.Shows (w : World) (side : Side) (t : List UInt8) : Prop where
  cells : ∃ buf, w.cells side = some buf ∧ Holds buf t
  length : w.length side = some (t.length : ℤ)

lemma World.shows_obj {i : ℕ} {o : Obj} {t : List UInt8} (hi : obj w.objs i = some o)
    (ht : Text w.heap o t) : w.Shows (.inl i) t := by
  obtain ⟨buf, hbuf, hholds, hlen, -⟩ := ht
  refine ⟨⟨buf, ?_, hholds⟩, ?_⟩
  · rw [World.cells, hi]
    exact hbuf
  · rw [World.length, hi, Option.map_some, hlen]

lemma World.shows_text (s : CStr) : w.Shows (.inr s) s.text := ⟨⟨s.cells, rfl, s.holds⟩, rfl⟩

lemma World.Shows.eq {x y : Side} {t : List UInt8} (hx : w.Shows x t) (hy : w.Shows y t) :
    w.eqOp x y = some true ∧ w.length x = w.length y := by
  obtain ⟨⟨bx, hbx, hholds⟩, hlen⟩ := hx
  obtain ⟨⟨bY, hbY, hholds'⟩, hlen'⟩ := hy
  refine ⟨?_, hlen.trans hlen'.symm⟩
  simp [World.eqOp, hbx, hbY, hholds.strEq hholds']

end Sides

/-! ### The operations keep the invariant -/

/-- The invariant: `Sound`, with texts that are not too long. -/
structure World.Good (w : World) : Prop where
  defined : w.defined = true
  rep : Rep w.heap w.objs w.log
  count : w.numStrings = w.objs.countP Option.isSome
  le : w.numStrings ≤ intMax
  equal : ∀ i side, w.made = some (i, side) →
    w.eqOp (.inl i) side = some true ∧ w.length (.inl i) = w.length side

namespace World

variable {w v : World}

lemma Good.sound (h : w.Good) : w.Sound where
  defined := h.defined
  text i o hi := by
    obtain ⟨t, ht, -⟩ := h.rep.text i o hi
    exact ⟨t, ht⟩
  owned := h.rep.owned
  freed := h.rep.freed
  count := h.count
  equal := h.equal

lemma Good.setStream (h : w.Good) (is : Istream) : { w with is }.Good := { h with }

lemma not_sound_of_undef (h : w.defined = false) : ¬ w.Sound := by
  intro hs
  rw [hs.defined] at h
  cases h

lemma not_sound_of_length {i n : ℕ} {m : ℤ} (hlen : w.length (.inl i) = some m)
    (htext : (w.cells (.inl i)).bind strlen = some n) (hne : m ≠ n) : ¬ w.Sound := by
  intro hs
  obtain ⟨o, hi, rfl⟩ := Option.map_eq_some_iff.mp hlen
  obtain ⟨t, buf, hbuf, hholds, heq, -⟩ := hs.text i o hi
  simp only [cells, hi, Option.bind_some, hbuf, hholds.strlen, Option.some.injEq] at htext
  exact hne (heq.trans (congrArg _ htext))

lemma Good.leave (h : w.Good) : w.leave.Good :=
  { h with equal := fun _ _ hmade => by cases hmade }

/-- **A new buffer in a world**: its object shows the text, and every other one what it showed. -/
lemma shows_of_put {heap : ℕ → Option (List UInt8)} {objs : List (Option Obj)} {log : List (Ev ℕ)}
    (h : Rep heap objs log) {i a : ℕ} (hi : i < objs.length) (ha : heap a = none) {t : List UInt8}
    (ht : 0 ∉ t) (hheap : v.heap = Function.update heap a (some (t ++ [0])))
    (hobjs : v.objs = objs.set i (some ⟨a, t.length⟩)) :
    v.Shows (.inl i) t ∧
      ∀ k o t', k ≠ i → obj objs k = some o → Text heap o t' → v.Shows (.inl k) t' := by
  refine ⟨shows_obj (o := ⟨a, t.length⟩) ?_ ?_, fun k o t' hki hk ht' => shows_obj (o := o) ?_ ?_⟩
  · rw [hobjs, obj_set hi, Function.update_self]
  · rw [hheap]
    exact text_new heap a ht
  · rw [hobjs, obj_set hi, Function.update_of_ne hki, hk]
  · rw [hheap]
    exact ht'.update (h.str_ne_of_unused hk ha) _

/-- What a new object with the text `t` leaves. -/
structure Added (w v : World) (t : List UInt8) (side : Option Side) : Prop where
  defined : v.defined = w.defined
  numStrings : v.numStrings = w.numStrings
  rep : Rep v.heap v.objs v.log
  count : v.objs.countP Option.isSome = w.objs.countP Option.isSome + 1
  made : v.made = side.map (w.objs.length, ·)
  shows : v.Shows (.inl w.objs.length) t
  frame : ∀ k o t', obj w.objs k = some o → Text w.heap o t' → v.Shows (.inl k) t'

lemma add_spec (h : Rep w.heap w.objs w.log) {a : ℕ} {t : List UInt8} (ht : 0 ∉ t)
    (hshort : t.length < intMax) {side : Option Side}
    (hv : w.add a (t ++ [0]) t.length side = some v) : Added w v t side := by
  unfold add at hv
  split at hv
  · cases hv
  · rename_i ha
    have ha : w.heap a = none := by simpa using ha
    obtain rfl := Option.some.inj hv
    have hlt : w.objs.length < (w.objs ++ [none]).length := by simp
    have hobjs := append_eq_set w.objs (some ⟨a, t.length⟩)
    obtain ⟨hshows, hframe⟩ := shows_of_put (v := { w with
      heap := Function.update w.heap a (some (t ++ [0])), objs := w.objs ++ [some ⟨a, t.length⟩],
      log := w.log ++ [.alloc a], made := side.map (w.objs.length, ·), threw := false })
      h.grow hlt ha ht rfl hobjs
    rw [obj_append_none] at hframe
    refine ⟨rfl, rfl, ?_, by simp, rfl, hshows, fun k o t' hk => hframe k o t' ?_ hk⟩
    · have hnone : obj (w.objs ++ [none]) w.objs.length = none := by simp [obj]
      have hput := h.grow.put hlt hnone ha ht hshort
      rwa [← hobjs] at hput
    · exact (obj_lt hk).ne

@[simp] lemma incr_heap (w : World) : w.incr.heap = w.heap := by
  unfold incr
  split <;> rfl

@[simp] lemma incr_objs (w : World) : w.incr.objs = w.objs := by
  unfold incr
  split <;> rfl

@[simp] lemma incr_log (w : World) : w.incr.log = w.log := by
  unfold incr
  split <;> rfl

lemma incr_undef (h : w.numStrings = intMax) : w.incr.defined = false := by
  rw [incr, if_pos h]
  rfl

lemma incr_of_lt (h : w.numStrings < intMax) :
    w.incr = { w with numStrings := w.numStrings + 1 } := if_neg h.ne

lemma ofText_good (h : w.Good) {s : CStr} {mem : Option ℕ} (hmeets : Meets w (.ofText s mem))
    (hv : w.ofText s mem = some v) : v.Good := by
  by_cases hrefused : Refused s.text.length mem
  · simp only [ofText, initCopy_eq_throws_iff.mpr hrefused, Option.some.injEq] at hv
    exact hv ▸ h.leave
  · obtain ⟨hshort, hcount⟩ := hmeets.resolve_left hrefused
    obtain ⟨a, rfl⟩ : ∃ a, mem = some a := by
      refine Option.ne_none_iff_exists'.mp fun hnone => hrefused (Or.inr ⟨?_, hnone⟩)
      exact (toInt_of_lt hshort).trans_lt hshort
    simp only [ofText, toInt_of_lt hshort, initCopy_of_short s.holds hshort] at hv
    obtain ⟨u, hu, rfl⟩ := Option.map_eq_some_iff.mp hv
    have hadd := add_spec h.rep s.holds.zero hshort hu
    rw [incr_of_lt (by rwa [hadd.numStrings])]
    refine ⟨hadd.defined.trans h.defined, hadd.rep, ?_, ?_, fun i side hmade => ?_⟩
    · show u.numStrings + 1 = u.objs.countP Option.isSome
      rw [hadd.numStrings, hadd.count, h.count]
      rfl
    · show u.numStrings + 1 ≤ intMax
      rw [hadd.numStrings]
      omega
    · obtain ⟨rfl, rfl⟩ : w.objs.length = i ∧ Sum.inr s = side := by
        simpa using hadd.made.symm.trans hmade
      exact Shows.eq ⟨hadd.shows.cells, hadd.shows.length⟩ (shows_text s)

lemma ofText_bad (h : w.Good) {s : CStr} {mem : Option ℕ} (hmeets : ¬ Meets w (.ofText s mem))
    (hv : w.ofText s mem = some v) : ¬ v.Sound := by
  obtain ⟨hrefused, hcond⟩ := not_or.mp hmeets
  have hle := h.le
  simp only [ofText] at hv
  cases hcopy : initCopy (toInt s.text.length) (some s.cells) mem with
  | undefined =>
    simp only [hcopy, Option.some.injEq] at hv
    exact not_sound_of_undef (hv ▸ rfl)
  | throws => exact absurd (initCopy_eq_throws_iff.mp hcopy) hrefused
  | done a buf =>
    simp only [hcopy] at hv
    obtain ⟨u, hu, rfl⟩ := Option.map_eq_some_iff.mp hv
    obtain ⟨hshort, rfl⟩ := short_of_initCopy s.holds hcopy
    rw [toInt_of_lt hshort, initCopy_of_short s.holds hshort] at hcopy
    cases hcopy
    rw [toInt_of_lt hshort] at hu
    have hadd := add_spec h.rep s.holds.zero hshort hu
    have hmax : ¬ w.numStrings < intMax := fun hlt => hcond ⟨hshort, hlt⟩
    exact not_sound_of_undef (incr_undef (by rw [hadd.numStrings]; omega))

lemma default_good (h : w.Good) {mem : Option ℕ} (hmeets : Meets w (.default mem))
    (hv : w.default mem = some v) : v.Good := by
  obtain rfl : mem = none := hmeets
  obtain rfl := Option.some.inj hv
  exact h.leave

lemma default_bad {mem : Option ℕ} (hmeets : ¬ Meets w (.default mem))
    (hv : w.default mem = some v) : ¬ v.Sound := by
  obtain ⟨a, rfl⟩ := Option.ne_none_iff_exists'.mp hmeets
  have hnew : newChars 0 (some a) = .done a [0] := rfl
  simp only [default, hnew] at hv
  obtain ⟨u, hu, rfl⟩ := Option.map_eq_some_iff.mp hv
  unfold add at hu
  split at hu
  · cases hu
  · obtain rfl := Option.some.inj hu
    refine not_sound_of_length (i := w.objs.length) (n := 0) (m := 4) ?_ ?_ (by decide)
    · simp [length, obj]
    · simp [cells, obj, strlen, str]

lemma copy_good (h : w.Good) {j : ℕ} {mem : Option ℕ} (hmeets : Meets w (.copy j mem))
    (hv : w.copy j mem = some v) : v.Good := by
  obtain ⟨hmem, hcount⟩ := hmeets
  obtain ⟨a, rfl⟩ := Option.ne_none_iff_exists'.mp hmem
  obtain ⟨st, hst, hv⟩ := Option.bind_eq_some_iff.mp hv
  obtain ⟨t, ⟨buf, hbuf, hholds, hlen, hsize⟩, hshort⟩ := h.rep.text j st hst
  simp only [incr_heap, hbuf, hlen, initCopy_of_short hholds hshort] at hv
  have hadd := add_spec (by simpa using h.rep) hholds.zero hshort hv
  rw [incr_of_lt hcount] at hadd
  refine ⟨hadd.defined.trans h.defined, hadd.rep, ?_, ?_, fun i side hmade => ?_⟩
  · rw [hadd.numStrings, hadd.count, h.count]
    rfl
  · rw [hadd.numStrings]
    exact hcount
  · obtain ⟨rfl, rfl⟩ : w.objs.length = i ∧ Sum.inl j = side := by
      simpa using hadd.made.symm.trans hmade
    exact hadd.shows.eq (hadd.frame j st t hst ⟨buf, hbuf, hholds, hlen, hsize⟩)

lemma add_defined {a : ℕ} {buf : List UInt8} {len : ℤ} {side : Option Side}
    (hv : w.add a buf len side = some v) : v.defined = w.defined := by
  unfold add at hv
  split at hv
  · cases hv
  · rw [← Option.some.inj hv]

lemma copy_bad (h : w.Good) {j : ℕ} {mem : Option ℕ} (hmeets : ¬ Meets w (.copy j mem))
    (hv : w.copy j mem = some v) : ¬ v.Sound := by
  obtain ⟨st, hst, hv⟩ := Option.bind_eq_some_iff.mp hv
  obtain ⟨t, ⟨buf, hbuf, hholds, hlen, hsize⟩, hshort⟩ := h.rep.text j st hst
  have hle := h.le
  by_cases hcount : w.numStrings < intMax
  · -- the object has been counted before there was no memory for it
    obtain rfl : mem = none := by
      by_contra hmem
      exact hmeets ⟨hmem, hcount⟩
    simp only [hlen, initCopy_none hshort, incr_of_lt hcount, Option.some.injEq] at hv
    intro hs
    have hbad := hs.count
    rw [← hv] at hbad
    have hbad : w.numStrings + 1 = w.objs.countP Option.isSome := hbad
    have := h.count
    omega
  · have hundef := incr_undef (w := w) (by omega)
    refine not_sound_of_undef ?_
    cases hcopy : initCopy st.len (w.incr.heap st.str) mem with
    | undefined =>
      simp only [hcopy, Option.some.injEq] at hv
      exact hv ▸ rfl
    | throws =>
      simp only [hcopy, Option.some.injEq] at hv
      exact hv ▸ hundef
    | done a buf =>
      simp only [hcopy] at hv
      exact (add_defined hv).trans hundef

/-! ### Assignments -/

lemma delete_of_obj (h : w.Good) {i : ℕ} {o : Obj} (hi : obj w.objs i = some o) :
    w.delete o.str =
      { w with heap := Function.update w.heap o.str none, log := w.log ++ [.free o.str] } := by
  obtain ⟨t, ⟨buf, hbuf, -⟩, -⟩ := h.rep.text i o hi
  rw [delete, hbuf]
  rfl

lemma reinit_good (h : w.Good) {i : ℕ} {o : Obj} (hi : obj w.objs i = some o)
    {src t : List UInt8} (hsrc : Holds src t) (hshort : t.length < intMax) {a : ℕ} {side : Side}
    (hside : ∀ u : World, (∀ k o' t', k ≠ i → obj w.objs k = some o' → Text w.heap o' t' →
      u.Shows (.inl k) t') → u.Shows side t)
    (hv : (w.delete o.str).reinit i o t.length (some src) (some a) side = some v) : v.Good := by
  rw [delete_of_obj h hi] at hv
  simp only [reinit, initCopy_of_short hsrc hshort] at hv
  split at hv
  · cases hv
  · rename_i ha
    have ha : Function.update w.heap o.str none a = none := by simpa using ha
    have hrel := h.rep.release hi
    have hlt : i < (w.objs.set i none).length := by
      rw [List.length_set]
      exact obj_lt hi
    have hnone : obj (w.objs.set i none) i = none := by
      rw [obj_set (obj_lt hi), Function.update_self]
    have hput := hrel.put hlt hnone ha hsrc.zero hshort
    have hset : w.objs.set i (some ⟨a, t.length⟩) =
        (w.objs.set i none).set i (some ⟨a, t.length⟩) := (List.set_set ..).symm
    obtain ⟨hshows, hframe⟩ := shows_of_put (v := v) hrel hlt ha hsrc.zero
      (by rw [← Option.some.inj hv]) (by rw [← Option.some.inj hv, ← hset])
    rw [← hset] at hput
    have hothers : ∀ k o' t', k ≠ i → obj w.objs k = some o' → Text w.heap o' t' →
        v.Shows (.inl k) t' := by
      intro k o' t' hki hk ht'
      refine hframe k o' t' hki ?_ (ht'.update (h.rep.str_ne hk hi hki) none)
      rw [obj_set (obj_lt hi), Function.update_of_ne hki, hk]
    obtain rfl := Option.some.inj hv
    refine ⟨h.defined, hput, ?_, h.le, fun k side' hmade => ?_⟩
    · show w.numStrings = _
      rw [h.count, countP_set hi]
      simp
    · obtain ⟨rfl, rfl⟩ : i = k ∧ side = side' := by simpa using hmade
      exact hshows.eq (hside _ hothers)

lemma reinit_bad (h : w.Good) {i : ℕ} {o : Obj} (hi : obj w.objs i = some o) {len : ℤ}
    {src : Option (List UInt8)} {mem : Option ℕ} {side : Side}
    (hdone : ∀ a buf, initCopy len src mem ≠ .done a buf)
    (hv : (w.delete o.str).reinit i o len src mem side = some v) : ¬ v.Sound := by
  rw [delete_of_obj h hi] at hv
  simp only [reinit] at hv
  cases hcopy : initCopy len src mem with
  | undefined =>
    simp only [hcopy, Option.some.injEq] at hv
    exact not_sound_of_undef (hv ▸ rfl)
  | throws =>
    simp only [hcopy, Option.some.injEq] at hv
    intro hs
    obtain ⟨t, buf, hbuf, -⟩ := hs.text i ⟨o.str, len⟩ (by
      rw [← hv]
      show obj (w.objs.set i _) i = _
      rw [obj_set (obj_lt hi), Function.update_self])
    rw [← hv] at hbuf
    simp [leave] at hbuf
  | done a buf => exact absurd hcopy (hdone a buf)

lemma assign_good (h : w.Good) {i j : ℕ} {mem : Option ℕ} (hmeets : Meets w (.assign i j mem))
    (hv : w.assign i j mem = some v) : v.Good := by
  obtain ⟨o, hi, hv⟩ := Option.bind_eq_some_iff.mp hv
  obtain ⟨st, hj, hv⟩ := Option.bind_eq_some_iff.mp hv
  obtain ⟨t, ht, hshort⟩ := h.rep.text j st hj
  by_cases hij : i = j
  · subst hij
    rw [if_pos rfl, Option.some.injEq] at hv
    subst hv
    refine { h with equal := fun k side hmade => ?_ }
    obtain ⟨rfl, rfl⟩ : i = k ∧ Sum.inl i = side := by simpa using hmade
    exact Shows.eq (shows_obj hj ht) (shows_obj hj ht)
  · rw [if_neg hij] at hv
    obtain ⟨a, rfl⟩ := Option.ne_none_iff_exists'.mp (hmeets.resolve_left hij)
    obtain ⟨buf, hbuf, hholds, hlen, hsize⟩ := ht
    have hsrc : (w.delete o.str).heap st.str = some buf := by
      rw [delete_of_obj h hi]
      exact (Function.update_of_ne (h.rep.str_ne hj hi (Ne.symm hij)) _ _).trans hbuf
    simp only [hsrc, hlen] at hv
    exact reinit_good h hi hholds hshort (fun u hu => hu j st t (Ne.symm hij) hj
      ⟨buf, hbuf, hholds, hlen, hsize⟩) hv

lemma assign_bad (h : w.Good) {i j : ℕ} {mem : Option ℕ} (hmeets : ¬ Meets w (.assign i j mem))
    (hv : w.assign i j mem = some v) : ¬ v.Sound := by
  obtain ⟨hij, hmem⟩ := not_or.mp hmeets
  obtain rfl : mem = none := not_not.mp hmem
  obtain ⟨o, hi, hv⟩ := Option.bind_eq_some_iff.mp hv
  obtain ⟨st, hj, hv⟩ := Option.bind_eq_some_iff.mp hv
  obtain ⟨t, ⟨buf, hbuf, hholds, hlen, hsize⟩, hshort⟩ := h.rep.text j st hj
  rw [if_neg hij] at hv
  refine reinit_bad h hi (fun a b => ?_) hv
  rw [hlen, initCopy_none hshort]
  exact New.noConfusion

lemma assignText_good (h : w.Good) {i : ℕ} {s : CStr} {mem : Option ℕ}
    (hmeets : Meets w (.assignText i s mem)) (hv : w.assignText i s mem = some v) : v.Good := by
  obtain ⟨hmem, hshort⟩ := hmeets
  obtain ⟨a, rfl⟩ := Option.ne_none_iff_exists'.mp hmem
  obtain ⟨o, hi, hv⟩ := Option.bind_eq_some_iff.mp hv
  rw [toInt_of_lt hshort] at hv
  exact reinit_good h hi s.holds hshort (fun u _ => shows_text s) hv

lemma assignText_bad (h : w.Good) {i : ℕ} {s : CStr} {mem : Option ℕ}
    (hmeets : ¬ Meets w (.assignText i s mem)) (hv : w.assignText i s mem = some v) :
    ¬ v.Sound := by
  obtain ⟨o, hi, hv⟩ := Option.bind_eq_some_iff.mp hv
  refine reinit_bad h hi (fun a buf hdone => ?_) hv
  obtain ⟨hshort, rfl⟩ := short_of_initCopy s.holds hdone
  exact hmeets ⟨Option.some_ne_none a, hshort⟩

/-! ### Destruction and input -/

lemma destroy_good (h : w.Good) {i : ℕ} (hv : w.destroy i = some v) : v.Good := by
  obtain ⟨o, hi, hv⟩ := Option.bind_eq_some_iff.mp hv
  have hdel : { w with numStrings := w.numStrings - 1 }.delete o.str =
      { w with
        numStrings := w.numStrings - 1, heap := Function.update w.heap o.str none,
        log := w.log ++ [.free o.str] } := by
    obtain ⟨t, ⟨buf, hbuf, -⟩, -⟩ := h.rep.text i o hi
    simp [delete, hbuf]
  rw [hdel] at hv
  obtain rfl := Option.some.inj hv
  refine ⟨h.defined, h.rep.release hi, ?_, ?_, fun k side hmade => by cases hmade⟩
  · show w.numStrings - 1 = _
    rw [countP_set hi, h.count]
    simp
  · have := h.le
    show w.numStrings - 1 ≤ intMax
    omega

lemma getText_short (is : Istream) : (temp (is.getText cinlim).2).text.length < intMax := by
  have htake : (temp (is.getText cinlim).2).text.length ≤ (is.getText cinlim).2.length + 1 := by
    refine (List.takeWhile_sublist _).length_le.trans ?_
    simp [temp]
  have hget : (is.getText cinlim).2.length ≤ 79 := by
    unfold Istream.getText
    split
    · exact (List.length_take_le ..)
    · exact Nat.zero_le 79
  unfold intMax
  omega

lemma input_cases {i : ℕ} {mem : Option ℕ} (hv : w.input i mem = some v) :
    let is := (w.is.getText cinlim).1
    (is.fail = true ∧ v = { w with is := is.skipLine, made := none, threw := false }) ∨
    (is.fail = false ∧ ∃ u, { w with is }.assignText i (temp (w.is.getText cinlim).2) mem = some u ∧
      v = { u with is := v.is }) := by
  obtain ⟨o, hi, hv⟩ := Option.bind_eq_some_iff.mp hv
  cases hfail : (w.is.getText cinlim).1.fail with
  | true =>
    simp only [hfail, if_true] at hv
    exact Or.inl ⟨hfail, (Option.some.inj hv).symm⟩
  | false =>
    simp only [hfail] at hv
    obtain ⟨u, hu, hv⟩ := Option.bind_eq_some_iff.mp hv
    refine Or.inr ⟨hfail, u, hu, ?_⟩
    rw [← Option.some.inj hv]
    split <;> rfl

lemma input_good (h : w.Good) {i : ℕ} {mem : Option ℕ} (hmeets : Meets w (.input i mem))
    (hv : w.input i mem = some v) : v.Good := by
  rcases input_cases hv with ⟨-, rfl⟩ | ⟨hfail, u, hu, hveq⟩
  · exact { h with equal := fun _ _ hmade => by cases hmade }
  · have hmem : mem ≠ none := hmeets.resolve_left (by rw [hfail]; exact Bool.false_ne_true)
    have hgood := assignText_good (h.setStream _) ⟨hmem, getText_short w.is⟩ hu
    rw [hveq]
    exact hgood.setStream v.is

lemma input_bad (h : w.Good) {i : ℕ} {mem : Option ℕ} (hmeets : ¬ Meets w (.input i mem))
    (hv : w.input i mem = some v) : ¬ v.Sound := by
  obtain ⟨hfail, hmem⟩ := not_or.mp hmeets
  rcases input_cases hv with ⟨htrue, -⟩ | ⟨-, u, hu, hveq⟩
  · exact absurd htrue hfail
  · have hbad := assignText_bad (h.setStream _) (fun hm => hmem hm.1) hu
    rw [hveq]
    exact fun hs => hbad { hs with }

end World

/-! ### Programs -/

lemma step_good {w v : World} {op : Op} (h : w.Good) (hmeets : Meets w op)
    (hv : step w op = some v) : v.Good := by
  unfold step at hv
  rw [if_pos h.defined] at hv
  cases op with
  | ofText s mem => exact World.ofText_good h hmeets hv
  | default mem => exact World.default_good h hmeets hv
  | copy j mem => exact World.copy_good h hmeets hv
  | assign i j mem => exact World.assign_good h hmeets hv
  | assignText i s mem => exact World.assignText_good h hmeets hv
  | destroy i => exact World.destroy_good h hv
  | input i mem => exact World.input_good h hmeets hv

lemma step_bad {w v : World} {op : Op} (h : w.Good) (hmeets : ¬ Meets w op)
    (hv : step w op = some v) : ¬ v.Sound := by
  unfold step at hv
  rw [if_pos h.defined] at hv
  cases op with
  | ofText s mem => exact World.ofText_bad h hmeets hv
  | default mem => exact World.default_bad hmeets hv
  | copy j mem => exact World.copy_bad h hmeets hv
  | assign i j mem => exact World.assign_bad h hmeets hv
  | assignText i s mem => exact World.assignText_bad h hmeets hv
  | destroy i => exact absurd trivial hmeets
  | input i mem => exact World.input_bad h hmeets hv

lemma start_good (is : Istream) : (start is).Good where
  defined := rfl
  rep := {
    text := fun _ _ h => by cases h
    owned := ⟨fun _ _ h => (by cases h), fun _ h => absurd rfl h, fun _ _ _ h => (by cases h)⟩
    freed := rfl }
  count := rfl
  le := show (0 : ℤ) ≤ intMax by decide
  equal := fun _ _ h => by cases h

/-- **When the class keeps its invariant.** All along a program, whatever its operations and the
texts are, every live object has its length and a buffer of its own, every buffer is freed once,
the objects are counted and the sides of a copy are equal, exactly if every operation meets its
condition: no object is made by the default constructor, no text is too long for an `int`, there
are not too many objects, and no copy or assignment is left without memory. -/
theorem string_sound_iff {is : Istream} {ops : List Op} {w : World}
    (hrun : exec step (start is) ops = some w) :
    Always step World.Sound (start is) ops ↔ Guarded step Meets (start is) ops :=
  always_iff_guarded (fun _ => World.Good.sound) (fun _ _ _ => step_good) (fun _ _ _ => step_bad)
    hrun (start_good is)

/-- Two objects are made, assigned to and read into, and one of them is destroyed. The default
constructor finds no memory. -/
def tidyOps : List Op :=
  [.ofText (temp [97, 98]) (some 0), .copy 0 (some 1), .assignText 1 (temp [99]) (some 2),
    .assign 1 1 none, .assign 0 1 (some 3), .default none, .input 0 (some 0), .destroy 1]

theorem string_sound_iff_tidy :
    Always step World.Sound (start ⟨[120, 121, 10], false, false⟩) tidyOps :=
  (string_sound_iff (w := _) rfl).mpr (by decide)

/-- The default constructor makes an object whose length is four and whose text is empty, and a
copy takes the length over. -/
theorem default_length :
    ∃ w, exec step (start ⟨[], false, false⟩) [.default (some 0), .copy 0 (some 1)] = some w ∧
      w.length (.inl 0) = some 4 ∧ w.length (.inl 1) = some 4 ∧
      (w.cells (.inl 0)).bind strlen = some 0 ∧ (w.cells (.inl 1)).bind strlen = some 0 ∧
      ¬ w.Sound :=
  ⟨_, rfl, rfl, rfl, rfl, rfl, World.not_sound_of_length (i := 0) (n := 0) rfl rfl (by decide)⟩

end LinuxSamples.StringClass
