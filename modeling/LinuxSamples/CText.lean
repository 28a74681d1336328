import LinuxSamples.CString
import Mathlib.Data.List.TakeWhile

/-!
Texts of words and numbers in arrays.

`strtok` cuts an array into words at blanks, `atoi` reads a number at the beginning of a word,
and `sprintf` and `strcat` put a text together. As in the module of strings, an operation has no
result if it would touch a cell behind the end.
-/

namespace LinuxSamples.CString

def blank : UInt8 := 32

/-! ### Words -/

/-- The characters up to a blank or the zero, and the array from where the next word is looked
for. The blank is skipped and the zero is not. -/
def token : List UInt8 → Option (List UInt8 × List UInt8)
  | [] => none
  | c :: cs =>
    if c = 0 then some ([], c :: cs)
    else if c = blank then some ([], cs)
    else (token cs).map fun r => (c :: r.1, r.2)

/-- `strtok` with a blank as the only delimiter. The array is what stands behind the last word. -/
def strtok : List UInt8 → Option (Option (List UInt8) × List UInt8)
  | [] => none
  | c :: cs =>
    if c = blank then strtok cs
    else if c = 0 then some (none, c :: cs)
    else (token (c :: cs)).map fun r => (some r.1, r.2)

def Word (w : List UInt8) : Prop := blank ∉ w ∧ 0 ∉ w

instance (w : List UInt8) : Decidable (Word w) := inferInstanceAs (Decidable (_ ∧ _))

lemma word_cons {c : UInt8} {w : List UInt8} :
    Word (c :: w) ↔ c ≠ blank ∧ c ≠ 0 ∧ Word w := by
  unfold Word
  rw [not_mem_cons, not_mem_cons, ne_comm, ne_comm (a := (0 : UInt8))]
  tauto

lemma word_append {v w : List UInt8} : Word (v ++ w) ↔ Word v ∧ Word w := by
  unfold Word
  rw [List.mem_append, List.mem_append, not_or, not_or]
  tauto

lemma token_append_blank {w : List UInt8} (hw : Word w) (rest : List UInt8) :
    token (w ++ blank :: rest) = some (w, rest) := by
  induction w with
  | nil => rfl
  | cons c w ih =>
    obtain ⟨hblank, hzero, hw⟩ := word_cons.mp hw
    rw [List.cons_append, token, if_neg hzero, if_neg hblank, ih hw]
    rfl

lemma token_eq_none {w : List UInt8} (hw : Word w) : token w = none := by
  induction w with
  | nil => rfl
  | cons c w ih =>
    obtain ⟨hblank, hzero, hw⟩ := word_cons.mp hw
    rw [token, if_neg hzero, if_neg hblank, ih hw]
    rfl

lemma word_of_token {xs w rest : List UInt8} (h : token xs = some (w, rest)) : Word w := by
  induction xs generalizing w with
  | nil => cases h
  | cons c cs ih =>
    rw [token] at h
    split_ifs at h with hzero hblank
    · cases h
      exact ⟨List.not_mem_nil, List.not_mem_nil⟩
    · cases h
      exact ⟨List.not_mem_nil, List.not_mem_nil⟩
    · obtain ⟨⟨w', rest'⟩, hr, he⟩ := Option.map_eq_some_iff.mp h
      cases he
      exact word_cons.mpr ⟨hblank, hzero, ih hr⟩

lemma word_of_strtok {xs w rest : List UInt8} (h : strtok xs = some (some w, rest)) : Word w := by
  induction xs with
  | nil => cases h
  | cons c cs ih =>
    rw [strtok] at h
    split_ifs at h with hblank hzero
    · exact ih h
    · cases h
    · obtain ⟨⟨w', rest'⟩, hr, he⟩ := Option.map_eq_some_iff.mp h
      cases he
      exact word_of_token hr

lemma strtok_append_blank {w : List UInt8} (hw : Word w) (hne : w ≠ []) (rest : List UInt8) :
    strtok (w ++ blank :: rest) = some (some w, rest) := by
  obtain ⟨c, w, rfl⟩ := List.exists_cons_of_ne_nil hne
  obtain ⟨hblank, hzero, -⟩ := word_cons.mp hw
  have htoken := token_append_blank hw rest
  rw [List.cons_append] at htoken ⊢
  rw [strtok, if_neg hblank, if_neg hzero, htoken]
  rfl

lemma strtok_eq_none {w : List UInt8} (hw : Word w) : strtok w = none := by
  cases w with
  | nil => rfl
  | cons c w =>
    obtain ⟨hblank, hzero, -⟩ := word_cons.mp hw
    rw [strtok, if_neg hblank, if_neg hzero, token_eq_none hw]
    rfl

/-- What `k` calls of `strtok` return. -/
def strtoks : ℕ → List UInt8 → Option (List (Option (List UInt8)))
  | 0, _ => some []
  | k + 1, xs => (strtok xs).bind fun r => (strtoks k r.2).map (r.1 :: ·)

/-- The words with a blank behind each. -/
def spaced (ws : List (List UInt8)) : List UInt8 := ws.flatMap (· ++ [blank])

lemma spaced_cons (w : List UInt8) (ws : List (List UInt8)) (rest : List UInt8) :
    spaced (w :: ws) ++ rest = w ++ blank :: (spaced ws ++ rest) := by
  simp [spaced]

lemma strtoks_spaced {ws : List (List UInt8)} (hws : ∀ w ∈ ws, Word w ∧ w ≠ [])
    (rest : List UInt8) : strtoks ws.length (spaced ws ++ rest) = some (ws.map some) := by
  induction ws with
  | nil => rfl
  | cons w ws ih =>
    obtain ⟨hw, hne⟩ := hws w List.mem_cons_self
    rw [List.length_cons, strtoks, spaced_cons, strtok_append_blank hw hne, Option.bind_some,
      ih fun v hv => hws v (List.mem_cons_of_mem w hv)]
    rfl

lemma strtoks_take_eq_none {ws : List (List UInt8)} (hws : ∀ w ∈ ws, Word w ∧ w ≠ []) {n : ℕ}
    (hn : n < (spaced ws).length) : strtoks ws.length ((spaced ws).take n) = none := by
  induction ws generalizing n with
  | nil => exact absurd hn (Nat.not_lt_zero n)
  | cons w ws ih =>
    obtain ⟨hw, hne⟩ := hws w List.mem_cons_self
    have hcons : spaced (w :: ws) = w ++ blank :: spaced ws := by
      simpa using spaced_cons w ws []
    rw [hcons] at hn ⊢
    rw [List.length_cons, strtoks]
    rcases Nat.lt_or_ge w.length n with hlt | hge
    · -- the first word is there
      obtain ⟨k, rfl⟩ := Nat.exists_eq_add_of_lt hlt
      have htake : (w ++ blank :: spaced ws).take (w.length + k + 1) =
          w ++ blank :: (spaced ws).take k := by
        rw [List.take_append, List.take_of_length_le (by omega),
          show w.length + k + 1 - w.length = k + 1 by omega, List.take_succ_cons]
      rw [htake, strtok_append_blank hw hne, Option.bind_some, ih fun v hv =>
        hws v (List.mem_cons_of_mem w hv)]
      · rfl
      · simp only [List.length_append, List.length_cons] at hn
        omega
    · have hcut : Word (w.take n) :=
        ⟨fun h => hw.1 (List.mem_of_mem_take h), fun h => hw.2 (List.mem_of_mem_take h)⟩
      rw [List.take_append_of_le_length hge, strtok_eq_none hcut]
      rfl

lemma word_of_mem_strtoks {k : ℕ} {xs : List UInt8} {l : List (Option (List UInt8))}
    (h : strtoks k xs = some l) {w : List UInt8} (hw : some w ∈ l) : Word w := by
  induction k generalizing xs l with
  | zero =>
    cases h
    cases hw
  | succ k ih =>
    rw [strtoks] at h
    obtain ⟨⟨o, rest⟩, ho, hrest⟩ := Option.bind_eq_some_iff.mp h
    obtain ⟨l', hl', rfl⟩ := Option.map_eq_some_iff.mp hrest
    rcases List.mem_cons.mp hw with rfl | hw
    · exact word_of_strtok ho
    · exact ih hl' hw

/-! ### Numbers -/

def isdigit (c : UInt8) : Bool := 48 ≤ c ∧ c ≤ 57

def isspace (c : UInt8) : Bool := c = blank ∨ 9 ≤ c ∧ c ≤ 13

def number (t : List UInt8) : ℕ :=
  (t.takeWhile isdigit).foldl (fun n c => 10 * n + (c.toNat - 48)) 0

/-- `strtol`, without a limit. -/
def strtol (t : List UInt8) : ℤ :=
  match t.dropWhile isspace with
  | [] => 0
  | c :: cs => if c = 45 then -number cs else if c = 43 then number cs else number (c :: cs)

/-- `atoi`: the number as a `long`, cut to an `int`. -/
def atoi (t : List UInt8) : ℤ :=
  (max (-2 ^ 63) (min (2 ^ 63 - 1) (strtol t))).bmod (2 ^ 32)

lemma isdigit_of_mem {n : ℕ} {b : UInt8} (h : b ∈ bytes (Nat.toDigits 10 n)) :
    isdigit b = true := by
  obtain ⟨c, hc, rfl⟩ := List.mem_map.mp h
  obtain ⟨hlow, hhigh⟩ := toNat_of_mem_toDigits hc
  have hmod : c.toNat.toUInt8.toNat = c.toNat := Nat.mod_eq_of_lt (by omega)
  simp only [isdigit, UInt8.le_iff_toNat_le, hmod, decide_eq_true_eq]
  exact ⟨hlow, hhigh⟩

lemma word_toDigits (n : ℕ) : Word (bytes (Nat.toDigits 10 n)) :=
  ⟨fun h => absurd (isdigit_of_mem h) (by decide), fun h => absurd (isdigit_of_mem h) (by decide)⟩

lemma number_toDigits (n : ℕ) {rest : List UInt8} (hrest : rest.takeWhile isdigit = []) :
    number (bytes (Nat.toDigits 10 n) ++ rest) = n := by
  have hvalue (ds : List Char) (hds : ∀ c ∈ ds, c.toNat ≤ 57) (k : ℕ) :
      (bytes ds).foldl (fun n c => 10 * n + (c.toNat - 48)) k = Nat.ofDigitChars 10 ds k := by
    induction ds generalizing k with
    | nil => rfl
    | cons c ds ih =>
      have hc : c.toNat.toUInt8.toNat = c.toNat :=
        Nat.mod_eq_of_lt (by have := hds c List.mem_cons_self; omega)
      have hcons := ih (fun d hd => hds d (List.mem_cons_of_mem c hd)) (10 * k + (c.toNat - 48))
      rw [bytes, List.map_cons, List.foldl_cons, hc]
      exact hcons
  rw [number, List.takeWhile_append_of_pos fun b hb => isdigit_of_mem hb, hrest, List.append_nil,
    hvalue _ (fun c hc => (toNat_of_mem_toDigits hc).2),
    Nat.ofDigitChars_toDigits (by decide) le_rfl]

lemma sprintfD_natCast (n : ℕ) : sprintfD n = Nat.toDigits 10 n := if_neg (by omega)

lemma word_sprintfD (n : ℤ) : Word (bytes (sprintfD n)) := by
  unfold sprintfD
  split
  · exact word_cons.mpr ⟨by decide, by decide, word_toDigits _⟩
  · exact word_toDigits _

lemma sprintfD_ne_nil (n : ℤ) : bytes (sprintfD n) ≠ [] := by
  unfold sprintfD
  split
  · exact List.cons_ne_nil _ _
  · simp [bytes, Nat.toDigits_ne_nil]

lemma atoi_toDigits (n : ℕ) {rest : List UInt8} (hrest : rest.takeWhile isdigit = []) :
    atoi (bytes (Nat.toDigits 10 n) ++ rest) = (min (2 ^ 63 - 1) (n : ℤ)).bmod (2 ^ 32) := by
  have hstrtol : strtol (bytes (Nat.toDigits 10 n) ++ rest) = n := by
    have hnumber := number_toDigits n hrest
    obtain ⟨c, cs, hcs⟩ := List.exists_cons_of_ne_nil
      (show bytes (Nat.toDigits 10 n) ≠ [] by simp [bytes, Nat.toDigits_ne_nil])
    have hc : isdigit c = true := isdigit_of_mem (n := n) (hcs ▸ List.mem_cons_self)
    have hspace : ¬ isspace c = true := by
      rw [isspace, decide_eq_true_eq]
      rintro (rfl | ⟨-, hle⟩)
      · revert hc
        decide
      · simp only [isdigit, decide_eq_true_eq] at hc
        exact absurd (UInt8.le_trans hc.1 hle) (by decide)
    have hminus : c ≠ 45 := by
      rintro rfl
      revert hc
      decide
    have hplus : c ≠ 43 := by
      rintro rfl
      revert hc
      decide
    rw [hcs, List.cons_append] at hnumber ⊢
    rw [strtol, List.dropWhile_cons_of_neg hspace]
    simp only [hminus, hplus, if_false, hnumber]
  rw [atoi, hstrtol, max_eq_right (by omega)]

lemma atoi_of_lt {n : ℕ} (h : n < 2 ^ 31) {rest : List UInt8}
    (hrest : rest.takeWhile isdigit = []) : atoi (bytes (Nat.toDigits 10 n) ++ rest) = n := by
  rw [atoi_toDigits n hrest, min_eq_right (by omega)]
  exact Int.bmod_eq_of_le (by omega) (by omega)

/-! ### Putting a text together -/

/-- `strcat`: the second string is copied to the end of the first. -/
def strcat (dst src : List UInt8) : Option (List UInt8) :=
  (str dst).bind fun s => (str src).bind fun t => store dst (s ++ t)

/-- `sprintf` with the format `%2d`. -/
def sprintf2D (n : ℤ) : List Char := (sprintfD n).leftpad 2 ' '

lemma Holds.strcat {xs s ys t : List UInt8} {n : ℕ} (h : Holds xs s) (h' : Holds ys t)
    (hxs : xs.length = n) (hlen : s.length + t.length < n) :
    ∃ zs, strcat xs ys = some zs ∧ zs.length = n ∧ Holds zs (s ++ t) := by
  rw [CString.strcat, h.str, h'.str]
  refine holds_store hxs ?_ (by rwa [List.length_append])
  rw [List.mem_append, not_or]
  exact ⟨h.zero, h'.zero⟩

lemma holds_of_store {xs bs ys : List UInt8} (h : store xs bs = some ys) (hz : 0 ∉ bs) :
    Holds ys bs := by
  unfold store at h
  split_ifs at h
  cases h
  exact ⟨hz, _, rfl⟩

lemma Holds.of_strcat {xs s ys t zs : List UInt8} (h : Holds xs s) (h' : Holds ys t)
    (hcat : CString.strcat xs ys = some zs) : Holds zs (s ++ t) := by
  rw [CString.strcat, h.str, h'.str] at hcat
  refine holds_of_store hcat ?_
  rw [List.mem_append, not_or]
  exact ⟨h.zero, h'.zero⟩

lemma zero_not_mem_sprintf2D (n : ℤ) : 0 ∉ bytes (sprintf2D n) := by
  rw [sprintf2D, List.leftpad, bytes, List.map_append, List.mem_append, not_or, List.map_replicate]
  exact ⟨fun h => absurd (List.eq_of_mem_replicate h) (by decide), zero_not_mem_sprintfD n⟩

lemma minus_mem_sprintfD {n : ℤ} : 45 ∈ bytes (sprintfD n) ↔ n < 0 := by
  unfold sprintfD
  split
  · next h => exact iff_of_true List.mem_cons_self h
  · next h =>
    refine iff_of_false (fun hm => ?_) h
    exact absurd (isdigit_of_mem hm) (by decide)

lemma minus_mem_sprintf2D {n : ℤ} : 45 ∈ bytes (sprintf2D n) ↔ n < 0 := by
  rw [sprintf2D, List.leftpad, bytes, List.map_append, List.mem_append, List.map_replicate,
    ← minus_mem_sprintfD]
  exact or_iff_right fun h => absurd (List.eq_of_mem_replicate h) (by decide)

lemma length_bytes (t : List Char) : (bytes t).length = t.length := List.length_map ..

lemma length_sprintf2D (n : ℤ) : (sprintf2D n).length = max 2 (sprintfD n).length :=
  List.length_leftpad ..

lemma length_sprintfD_le_of_lt {n : ℤ} {k : ℕ} (hk : 0 < k) (h0 : 0 ≤ n) (h : n < 10 ^ k) :
    (sprintfD n).length ≤ k := by
  rw [sprintfD, if_neg (by omega), Nat.length_toDigits_le_iff (by decide) hk]
  have : ((10 ^ k : ℕ) : ℤ) = 10 ^ k := by push_cast; rfl
  omega

end LinuxSamples.CString
