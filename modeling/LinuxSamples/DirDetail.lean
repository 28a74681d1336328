import LinuxSamples.CString
import LinuxSamples.Links

/-!
The directory listing of `p4.10.c`.

`get_dir_detail` copies the names of a directory into a linked list, with a pointer to the last
cell whose link is set when the next cell comes, or behind the loop. Without any name there is
no last cell, and the link behind the loop is set through a null pointer. So the list is the
directory exactly if there is something in it.
-/

namespace LinuxSamples.DirDetail

open CString Links

def dot : List UInt8 := [46, 0]

def dotdot : List UInt8 := [46, 46, 0]

/-- An entry that `readdir` returns, with the array `d_name` and the name in it; and the cell that
`malloc` returns for it, with what stands in its array. -/
structure Dirent where
  dName : List UInt8
  name : List UInt8
  holds : Holds dName name
  name_lt : name.length < 256
  addr : ℕ
  junk : List UInt8
  length_junk : junk.length = 256

/-- `dir_head` and `cur_item`, in the heap of `dirlnk` cells. -/
structure Dir where
  heap : Heap (List UInt8)
  dirHead : Option ℕ
  curItem : Option ℕ

def hidden (e : Dirent) : Option Bool := do
  return (← strEq e.dName dot) || (← strEq e.dName dotdot)

/-- The new cell is linked behind `cur_item`, if there is one. -/
def linkItem (s : Dir) (e : Dirent) : Option (Heap (List UInt8)) :=
  let heap := alloc s.heap e.addr ⟨e.junk, none⟩
  if s.curItem = none then some heap
  else setCell heap s.curItem fun c => { c with next := some (some e.addr) }

def copyName (heap : Heap (List UInt8)) (e : Dirent) : Option (Heap (List UInt8)) := do
  let cell ← load heap (some e.addr)
  let copy ← strcpy cell.item e.dName
  setCell heap (some e.addr) fun c => { c with item := copy }

/-- One round of the loop over the entries. -/
def addEntry (s : Dir) (e : Dirent) : Option Dir := do
  if ← hidden e then return s
  let heap ← linkItem s e
  let curItem := some e.addr
  let dirHead := if s.dirHead = none then curItem else s.dirHead
  let heap ← copyName heap e
  return ⟨heap, dirHead, curItem⟩

def readLoop (s : Dir) : List Dirent → Option Dir
  | [] => some s
  | e :: es => (addEntry s e).bind fun s => readLoop s es

/-- The list that `get_dir_detail` returns, and whether the directory has been closed. -/
structure Detail where
  heap : Heap (List UInt8)
  dirHead : Option ℕ
  closed : Bool

/-- `get_dir_detail`. The directory is `none` if it cannot be opened. -/
def getDirDetail (heap : Heap (List UInt8)) (dir : Option (List Dirent)) : Option Detail :=
  match dir with
  | none => some ⟨heap, none, false⟩
  | some es => do
    let s ← readLoop ⟨heap, none, none⟩ es
    let heap ← setCell s.heap s.curItem fun c => { c with next := some none }
    return ⟨heap, s.dirHead, true⟩

/-! ### Printing -/

structure Stat where
  stMode : ℕ
  stIno : ℕ
  stUid : ℤ
  stGid : ℤ
  stSize : ℤ
  stAtime : ℤ

def perm : List (List Char) :=
  ["---", "--x", "-w-", "-wx", "r--", "r-x", "rw-", "rwx"].map String.toList

/-- The loop that decodes the permissions, with `i` rounds left. -/
def permLoop (mode : ℕ) : (i mask : ℕ) → Option (List Char)
  | 0, _ => some []
  | i + 1, mask => do
    let bits ← perm[(mode &&& mask) >>> (i * 3)]?
    return bits ++ (← permLoop mode i (mask >>> 3))

/-- `info`, as it is printed. The first character of the permissions is not set for what is
neither a file nor a directory. -/
structure FileInfo where
  inode : ℕ
  kind : Option Char
  permission : List Char
  owner : ℤ
  group : ℤ
  size : ℤ
  modTime : ℤ
  name : List UInt8

def kind (mode : ℕ) : Option Char :=
  if mode &&& 0o170000 = 0o040000 then some 'd'
  else if mode &&& 0o170000 = 0o100000 then some '-'
  else none

/-- One round of `print_file_info`, for a cell. Nothing is printed if `stat` fails. -/
def printCell (stat : List UInt8 → Option Stat) (dName : List UInt8) :
    Option (Option FileInfo) := do
  match stat (← str dName) with
  | none => return none
  | some st =>
    let permission ← permLoop st.stMode 3 0o700
    let name ← strcpy (List.replicate 256 0) dName
    return some ⟨st.stIno, kind st.stMode, permission, st.stUid, st.stGid, st.stSize, st.stAtime,
      name⟩

/-- `print_file_info`: the cells it visits, with what is printed for each. -/
def printFileInfo (stat : List UInt8 → Option Stat) (h : Heap (List UInt8)) :
    (fuel : ℕ) → (curDir : Option ℕ) → Option (List (ℕ × Option FileInfo))
  | 0, _ => none
  | _ + 1, none => some []
  | fuel + 1, some a => do
    let cell ← load h (some a)
    let out ← printCell stat cell.item
    let rest ← printFileInfo stat h fuel (← cell.next)
    return (a, out) :: rest

/-! ### The list -/

def Dirent.listed (e : Dirent) : Bool := e.name ≠ [46] ∧ e.name ≠ [46, 46]

def names (es : List Dirent) : List (List UInt8) := (es.filter Dirent.listed).map Dirent.name

/-- The list built so far: nothing, or a list whose last link is not set. -/
inductive Built (s : Dir) : List (List UInt8) → Prop
  | empty (head : s.dirHead = none) (cur : s.curItem = none) : Built s []
  | linked {l : List (ℕ × List UInt8)} {a : ℕ} {c : Cell (List UInt8)} {ns : List (List UInt8)}
      (cur : s.curItem = some a) (cells : Open s.heap s.dirHead l a c)
      (items : List.Forall₂ Holds (l.map Prod.snd ++ [c.item]) ns) : Built s ns

lemma Built.cur_eq_none {s : Dir} (h : Built s []) : s.curItem = none := by
  generalize hns : ([] : List (List UInt8)) = ns at h
  cases h with
  | empty head cur => exact cur
  | linked cur cells items =>
    subst hns
    have hlen := items.length_eq
    rw [List.length_append, List.length_singleton, List.length_nil] at hlen
    omega

lemma Built.exists_open {s : Dir} {ns : List (List UInt8)} (h : Built s ns) (hns : ns ≠ []) :
    ∃ l a c, s.curItem = some a ∧ Open s.heap s.dirHead l a c ∧
      List.Forall₂ Holds (l.map Prod.snd ++ [c.item]) ns := by
  cases h with
  | empty head cur => exact absurd rfl hns
  | linked cur cells items => exact ⟨_, _, _, cur, cells, items⟩

lemma hidden_eq (e : Dirent) : hidden e = some !e.listed := by
  have hdot : Holds dot [46] := ⟨by decide, [], rfl⟩
  have hdotdot : Holds dotdot [46, 46] := ⟨by decide, [], rfl⟩
  simp [hidden, e.holds.strEq hdot, e.holds.strEq hdotdot, Dirent.listed, Bool.not_and]

lemma addEntry_hidden {e : Dirent} (h : e.listed = false) (s : Dir) : addEntry s e = some s := by
  simp [addEntry, hidden_eq, h]

lemma linkItem_spec {s : Dir} {ns : List (List UInt8)} (hs : Built s ns) {e : Dirent}
    (hfresh : s.heap e.addr = none) :
    ∃ heap l, linkItem s e = some heap ∧
      Open heap (if s.dirHead = none then some e.addr else s.dirHead) l e.addr ⟨e.junk, none⟩ ∧
      List.Forall₂ Holds (l.map Prod.snd) ns ∧
      ∀ b, b ≠ e.addr → s.heap b = none → heap b = none := by
  cases hs with
  | empty head cur =>
    refine ⟨_, [], if_pos cur, ?_, .nil, fun b hb hnone => ?_⟩
    · rw [if_pos head]
      exact open_alloc s.heap e.addr ⟨e.junk, none⟩
    · exact (Function.update_of_ne hb _ _).trans hnone
  | @linked l a c _ cur cells items =>
    obtain ⟨heap, hstore, hopen⟩ := cells.extend (d := ⟨e.junk, none⟩) hfresh
    refine ⟨heap, l ++ [(a, c.item)], ?_, ?_, ?_, fun b hb hnone => ?_⟩
    · rw [linkItem, cur, if_neg (Option.some_ne_none a)]
      exact hstore
    · rwa [if_neg cells.head_ne_none]
    · rwa [List.map_append, List.map_singleton]
    · exact setCell_keeps hstore ((Function.update_of_ne hb _ _).trans hnone)

lemma addEntry_listed {s : Dir} {ns : List (List UInt8)} (hs : Built s ns) {e : Dirent}
    (h : e.listed = true) (hfresh : s.heap e.addr = none) :
    ∃ s', addEntry s e = some s' ∧ Built s' (ns ++ [e.name]) ∧
      ∀ b, b ≠ e.addr → s.heap b = none → s'.heap b = none := by
  obtain ⟨heap, l, hlink, hopen, hitems, hframe⟩ := linkItem_spec hs hfresh
  have hcopy := e.holds.strcpy (show e.name.length < e.junk.length by
    rw [e.length_junk]; exact e.name_lt)
  have hholds := e.holds.copied (e.junk.drop (e.name.length + 1))
  obtain ⟨heap', hstore, hopen'⟩ := hopen.assign fun c =>
    { c with item := e.name ++ 0 :: e.junk.drop (e.name.length + 1) }
  have hname : copyName heap e = some heap' := by
    simp only [copyName, load, Option.bind_some, hopen.last, hcopy, Option.bind_eq_bind]
    exact hstore
  refine ⟨⟨heap', _, some e.addr⟩, ?_, .linked rfl hopen' ?_, fun b hb hnone => ?_⟩
  · simp only [addEntry, hidden_eq, h, hlink, hname, Option.bind_eq_bind, Option.bind_some,
      Bool.not_true]
    rfl
  · exact List.rel_append hitems (.cons hholds .nil)
  · exact setCell_keeps hstore (hframe b hb hnone)

/-- `malloc` returns cells that are not in use. -/
structure Fresh (heap : Heap (List UInt8)) (es : List Dirent) : Prop where
  nodup : (es.map Dirent.addr).Nodup
  unused : ∀ e ∈ es, heap e.addr = none

lemma Fresh.tail {heap heap' : Heap (List UInt8)} {e : Dirent} {es : List Dirent}
    (h : Fresh heap (e :: es)) (hframe : ∀ b, b ≠ e.addr → heap b = none → heap' b = none) :
    Fresh heap' es := by
  have hnodup := h.nodup
  rw [List.map_cons, List.nodup_cons] at hnodup
  refine ⟨hnodup.2, fun e' he' => hframe _ ?_ (h.unused e' (List.mem_cons_of_mem e he'))⟩
  intro heq
  exact hnodup.1 (heq ▸ List.mem_map_of_mem he')

lemma names_cons (e : Dirent) (es : List Dirent) :
    names (e :: es) = if e.listed then e.name :: names es else names es := by
  unfold names
  rw [List.filter_cons]
  split <;> rfl

lemma readLoop_spec {s : Dir} {ns : List (List UInt8)} (hs : Built s ns) {es : List Dirent}
    (hfresh : Fresh s.heap es) : ∃ s', readLoop s es = some s' ∧ Built s' (ns ++ names es) := by
  induction es generalizing s ns with
  | nil => exact ⟨s, rfl, by rwa [names, List.filter_nil, List.map_nil, List.append_nil]⟩
  | cons e es ih =>
    rw [readLoop, names_cons]
    cases hlisted : e.listed with
    | false =>
      rw [addEntry_hidden hlisted]
      exact ih hs (hfresh.tail fun _ _ h => h)
    | true =>
      obtain ⟨s', hs', hbuilt, hframe⟩ :=
        addEntry_listed hs hlisted (hfresh.unused e List.mem_cons_self)
      rw [hs', if_pos rfl, List.append_cons]
      exact ih hbuilt (hfresh.tail hframe)

/-! ### Going through the list -/

lemma exists_perm (mode mask i : ℕ) (h : mask >>> (i * 3) ≤ 7) :
    ∃ bits, perm[(mode &&& mask) >>> (i * 3)]? = some bits := by
  have hle : (mode &&& mask) >>> (i * 3) ≤ mask >>> (i * 3) := by
    rw [Nat.shiftRight_eq_div_pow, Nat.shiftRight_eq_div_pow]
    exact Nat.div_le_div_right Nat.and_le_right
  exact ⟨_, List.getElem?_eq_getElem (show _ < 8 by omega)⟩

lemma exists_permLoop (mode : ℕ) : ∃ permission, permLoop mode 3 0o700 = some permission := by
  obtain ⟨u, hu⟩ := exists_perm mode 0o700 2 (by decide)
  obtain ⟨g, hg⟩ := exists_perm mode 0o70 1 (by decide)
  obtain ⟨o, ho⟩ := exists_perm mode 0o7 0 (by decide)
  refine ⟨u ++ (g ++ (o ++ [])), ?_⟩
  simp only [permLoop, hu, show 0o700 >>> 3 = 0o70 from rfl, hg, show 0o70 >>> 3 = 0o7 from rfl, ho,
    Option.bind_eq_bind, Option.bind_some]
  rfl

lemma exists_printCell (stat : List UInt8 → Option Stat) {dName name : List UInt8}
    (h : Holds dName name) (hlt : name.length < 256) : ∃ out, printCell stat dName = some out := by
  obtain ⟨copy, hcopy⟩ : ∃ copy, strcpy (List.replicate 256 0) dName = some copy :=
    ⟨_, h.strcpy (by rwa [List.length_replicate])⟩
  simp only [printCell, h.str, Option.bind_eq_bind, Option.bind_some]
  cases stat name with
  | none => exact ⟨none, rfl⟩
  | some st =>
    obtain ⟨permission, hperm⟩ := exists_permLoop st.stMode
    simp only [hperm, hcopy, Option.bind_some]
    exact ⟨_, rfl⟩

lemma printFileInfo_spec (stat : List UInt8 → Option Stat) {heap : Heap (List UInt8)}
    {p : Option ℕ} {l : List (ℕ × List UInt8)} (hpath : Path heap p l none)
    (hnames : ∀ c ∈ l, ∃ name, Holds c.2 name ∧ name.length < 256) :
    ∃ out, (∀ fuel, l.length < fuel → printFileInfo stat heap fuel p = some out) ∧
      out.map Prod.fst = l.map Prod.fst := by
  induction l generalizing p with
  | nil =>
    obtain rfl := path_nil.mp hpath
    refine ⟨[], fun fuel hfuel => ?_, rfl⟩
    obtain ⟨fuel, rfl⟩ := Nat.exists_eq_succ_of_ne_zero hfuel.ne'
    rfl
  | cons c l ih =>
    obtain ⟨rfl, n, hc, hl⟩ := hpath
    obtain ⟨name, hholds, hlt⟩ := hnames c List.mem_cons_self
    obtain ⟨out, hout⟩ := exists_printCell stat hholds hlt
    obtain ⟨rest, hrest, hfst⟩ := ih hl fun d hd => hnames d (List.mem_cons_of_mem c hd)
    refine ⟨(c.1, out) :: rest, fun fuel hfuel => ?_, congrArg _ hfst⟩
    obtain ⟨fuel, rfl⟩ := Nat.exists_eq_succ_of_ne_zero (Nat.ne_zero_of_lt hfuel)
    have hrun := hrest fuel (by rw [List.length_cons] at hfuel; omega)
    simp only [printFileInfo, load, Option.bind_some, hc, hout, hrun, Option.bind_eq_bind]
    rfl

/-! ### The directory -/

/-- The list holds the names, in order, and ends. -/
structure Detail.Lists (d : Detail) (ns : List (List UInt8)) (l : List (ℕ × List UInt8)) :
    Prop where
  path : Path d.heap d.dirHead l none
  nodup : (l.map Prod.fst).Nodup
  items : List.Forall₂ Holds (l.map Prod.snd) ns

lemma names_eq_nil_iff {es : List Dirent} : names es = [] ↔ ∀ e ∈ es, e.listed = false := by
  simp [names, List.filter_eq_nil_iff]

lemma exists_of_forall₂ {α β : Type*} {R : α → β → Prop} {l : List α} {m : List β}
    (h : List.Forall₂ R l m) {a : α} (ha : a ∈ l) : ∃ b ∈ m, R a b := by
  induction h with
  | nil => cases ha
  | @cons x y l m hxy _ ih =>
    rcases List.mem_cons.mp ha with rfl | ha
    · exact ⟨y, List.mem_cons_self, hxy⟩
    · obtain ⟨b, hb, hab⟩ := ih ha
      exact ⟨b, List.mem_cons_of_mem y hb, hab⟩

lemma length_lt_of_mem_names {es : List Dirent} {name : List UInt8} (h : name ∈ names es) :
    name.length < 256 := by
  obtain ⟨e, -, rfl⟩ := List.mem_map.mp h
  exact e.name_lt

lemma getDirDetail_spec {heap : Heap (List UInt8)} {es : List Dirent} (hfresh : Fresh heap es)
    (hne : names es ≠ []) :
    ∃ d l, getDirDetail heap (some es) = some d ∧ d.closed = true ∧ d.Lists (names es) l := by
  obtain ⟨s, hs, hbuilt⟩ := readLoop_spec (s := ⟨heap, none, none⟩) (.empty rfl rfl) hfresh
  obtain ⟨l, a, c, hcur, hopen, hitems⟩ := hbuilt.exists_open hne
  -- the link of the last cell is set behind the loop
  obtain ⟨heap', hstore, hopen'⟩ := hopen.assign fun c => { c with next := some none }
  refine ⟨⟨heap', s.dirHead, true⟩, l ++ [(a, c.item)], ?_, rfl, hopen'.close rfl, ?_, ?_⟩
  · simp only [getDirDetail, hs, hcur, hstore, Option.bind_eq_bind, Option.bind_some]
    rfl
  · rw [List.map_append, List.map_singleton]
    exact hopen.nodup
  · rw [List.map_append, List.map_singleton]
    exact hitems

lemma getDirDetail_eq_none {heap : Heap (List UInt8)} {es : List Dirent} (hfresh : Fresh heap es)
    (hnil : names es = []) : getDirDetail heap (some es) = none := by
  obtain ⟨s, hs, hbuilt⟩ := readLoop_spec (s := ⟨heap, none, none⟩) (.empty rfl rfl) hfresh
  rw [hnil, List.append_nil] at hbuilt
  simp only [getDirDetail, hs, hbuilt.cur_eq_none, setCell, Option.bind_none, Option.bind_eq_bind,
    Option.bind_some]

/-- **When the list is the directory.** For every directory, `get_dir_detail` returns the list of
its names and closes it, and `print_file_info` visits each cell of the list once, exactly if the
directory has an entry besides `.` and `..`. -/
theorem dir_detail_iff {heap : Heap (List UInt8)} {es : List Dirent} (hfresh : Fresh heap es)
    (stat : List UInt8 → Option Stat) :
    (∃ d l, getDirDetail heap (some es) = some d ∧ d.closed = true ∧ d.Lists (names es) l ∧
      ∃ out, (∀ fuel, l.length < fuel → printFileInfo stat d.heap fuel d.dirHead = some out) ∧
        out.map Prod.fst = l.map Prod.fst) ↔
      ∃ e ∈ es, e.listed = true := by
  have hnames : names es ≠ [] ↔ ∃ e ∈ es, e.listed = true := by
    rw [ne_eq, names_eq_nil_iff]
    push Not
    simp
  rw [← hnames]
  constructor
  · rintro ⟨d, l, hd, -⟩ hnil
    rw [getDirDetail_eq_none hfresh hnil] at hd
    cases hd
  · intro hne
    obtain ⟨d, l, hd, hclosed, hlists⟩ := getDirDetail_spec hfresh hne
    refine ⟨d, l, hd, hclosed, hlists, printFileInfo_spec stat hlists.path fun c hc => ?_⟩
    obtain ⟨name, hname, hholds⟩ :=
      exists_of_forall₂ hlists.items (List.mem_map_of_mem hc)
    exact ⟨name, hholds, length_lt_of_mem_names hname⟩

/-- An entry, and a new cell that holds other characters. -/
def entry (addr : ℕ) (name : List UInt8) (hz : 0 ∉ name) (hlt : name.length < 256) : Dirent where
  dName := name ++ [0]
  name := name
  holds := ⟨hz, [], rfl⟩
  name_lt := hlt
  addr := addr
  junk := List.replicate 256 120
  length_junk := List.length_replicate ..

def emptyDir : List Dirent :=
  [entry 0 [46] (by decide) (by decide), entry 1 [46, 46] (by decide) (by decide)]

/-- In an empty directory the link is set through a null pointer. -/
theorem dir_detail_empty :
    Fresh (fun _ => none) emptyDir ∧ getDirDetail (fun _ => none) (some emptyDir) = none :=
  have hfresh : Fresh (fun _ => none) emptyDir := ⟨by decide, fun _ _ => rfl⟩
  ⟨hfresh, getDirDetail_eq_none hfresh rfl⟩

/-- Files `a`, `b` and `c` beside them. -/
def smallDir : List Dirent :=
  emptyDir ++ [entry 2 [97] (by decide) (by decide), entry 3 [98] (by decide) (by decide),
    entry 4 [99] (by decide) (by decide)]

theorem dir_detail_iff_small :
    ∃ d l, getDirDetail (fun _ => none) (some smallDir) = some d ∧ d.closed = true ∧
      d.Lists [[97], [98], [99]] l ∧
      ∃ out, (∀ fuel, l.length < fuel →
          printFileInfo (fun _ => none) d.heap fuel d.dirHead = some out) ∧
        out.map Prod.fst = l.map Prod.fst :=
  (dir_detail_iff (show Fresh (fun _ => none) smallDir from ⟨by decide, fun _ _ => rfl⟩)
    (fun _ => none)).mpr ⟨entry 2 [97] (by decide) (by decide), by simp [smallDir], rfl⟩

end LinuxSamples.DirDetail
