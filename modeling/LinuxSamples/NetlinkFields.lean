import LinuxSamples.Netlink

/-!
The fields `parse_usbcam` cuts out of a message.

A message about a camera is an action, an at sign and the path of the device, whose components
name a bus, two levels below it the node of the camera, and at the end the number of the video
device. The parser looks for words in the whole message, the action included, and takes a
single character for the number. So it prints the number exactly if the character behind the
first `video4linux` stands for it, which for the only such word means one digit, and the node
exactly if the action does not name a bus or the third component of the path is the same.
-/

namespace LinuxSamples.Netlink

open LinuxSamples.CString

def slash : UInt8 := 47

def atSign : UInt8 := 64

/-! ### Paths -/

def path (cs : List (List UInt8)) : List UInt8 := List.intercalate [slash] cs

/-- Where the text continues behind the components and their slashes. -/
def skip (cs : List (List UInt8)) : ℕ := (cs.map fun c => c.length + 1).sum

@[simp] lemma skip_nil : skip [] = 0 := rfl

@[simp] lemma skip_cons (c : List UInt8) (cs : List (List UInt8)) :
    skip (c :: cs) = c.length + 1 + skip cs := rfl

lemma path_cons (c d : List UInt8) (ds : List (List UInt8)) :
    path (c :: d :: ds) = c ++ slash :: path (d :: ds) := by
  rw [path, List.intercalate_cons_cons, List.append_assoc]
  rfl

lemma path_singleton (c : List UInt8) : path [c] = c := List.intercalate_singleton

lemma path_append (cs : List (List UInt8)) (d : List UInt8) (ds : List (List UInt8)) :
    ∃ l, l.length = skip cs ∧ path (cs ++ d :: ds) = l ++ path (d :: ds) := by
  induction cs with
  | nil => exact ⟨[], rfl, rfl⟩
  | cons c cs ih =>
    obtain ⟨l, hl, hpath⟩ := ih
    refine ⟨c ++ slash :: l, ?_, ?_⟩
    · rw [List.length_append, List.length_cons, hl, skip_cons]
      omega
    · obtain ⟨e, es, hes⟩ : ∃ e es, cs ++ d :: ds = e :: es :=
        List.exists_cons_of_ne_nil (by simp)
      rw [List.cons_append, hes, path_cons, ← hes, hpath]
      simp

lemma zero_not_mem_path {cs : List (List UInt8)} (h : ∀ c ∈ cs, 0 ∉ c) : 0 ∉ path cs := by
  induction cs with
  | nil => exact List.not_mem_nil
  | cons c cs ih =>
    obtain ⟨hc, hcs⟩ := List.forall_mem_cons.mp h
    cases cs with
    | nil => rwa [path_singleton]
    | cons d ds =>
      rw [path_cons, List.mem_append, not_or, not_mem_cons]
      exact ⟨hc, by decide, ih hcs⟩

lemma find_path {w : List UInt8} (hw : slash ∉ w) {cs : List (List UInt8)}
    (hcs : ∀ c ∈ cs, find w c = none) (d : List UInt8) (ds : List (List UInt8)) :
    find w (path (cs ++ d :: ds)) = (find w (path (d :: ds))).map (skip cs + ·) := by
  induction cs with
  | nil => simp
  | cons c cs ih =>
    obtain ⟨hc, hcs⟩ := List.forall_mem_cons.mp hcs
    obtain ⟨e, es, hes⟩ : ∃ e es, cs ++ d :: ds = e :: es :=
      List.exists_cons_of_ne_nil (by simp)
    rw [List.cons_append, hes, path_cons, find_append_cons hw, hc, Option.none_or, ← hes, ih hcs,
      Option.map_map]
    congr 1
    funext i
    simp only [Function.comp_apply, skip_cons]
    omega

/-! ### Messages about cameras -/

/-- A message about a camera, with the number of the video device. -/
structure Plug where
  action : List UInt8
  before : List (List UInt8)
  bus : List UInt8
  hub : List UInt8
  node : List UInt8
  between : List (List UInt8)
  number : ℕ
  action_clean : 0 ∉ action ∧ atSign ∉ action ∧ slash ∉ action
  clean : ∀ c ∈ before ++ bus :: hub :: node :: between, 0 ∉ c ∧ slash ∉ c
  bus_usb : ascii "usb" <+: bus
  first_usb : ∀ c ∈ before, find (ascii "usb") c = none

namespace Plug

/-- The components in front of the class. -/
def front (e : Plug) : List (List UInt8) := e.before ++ e.bus :: e.hub :: e.node :: e.between

def digits (e : Plug) : List UInt8 := bytes (sprintfD e.number)

def components (e : Plug) : List (List UInt8) :=
  e.front ++ [ascii "video4linux", ascii "video" ++ e.digits]

def text (e : Plug) : List UInt8 := e.action ++ atSign :: path e.components

lemma holds_text (e : Plug) : Holds (e.text ++ [0]) e.text := by
  refine ⟨?_, [], rfl⟩
  have hdigits : 0 ∉ ascii "video" ++ e.digits := by
    rw [List.mem_append, not_or]
    exact ⟨by decide, zero_not_mem_sprintfD _⟩
  rw [text, List.mem_append, not_or, not_mem_cons]
  refine ⟨e.action_clean.1, by decide, zero_not_mem_path fun c hc => ?_⟩
  rcases List.mem_append.mp hc with hc | hc
  · exact (e.clean c hc).1
  · rcases List.mem_pair.mp hc with rfl | rfl
    · decide
    · exact hdigits

end Plug

def printed (number node action name : List UInt8) : List UInt8 :=
  ascii "<usbcam>\n<number>" ++ number ++ ascii "</number>\n" ++
    (ascii "<usb_node>" ++ node ++ ascii "</usb_node>\n") ++
    (ascii "<action>" ++ action ++ ascii "</action>\n") ++ name ++ ascii "</usbcam>\n"

/-- The function returns zero and prints the fields of the message. -/
def Extracts (f : Frame) (files : Files) (devstr : List UInt8) (e : Plug) : Prop :=
  ∃ name, parseUsbcam f files devstr = some (0, printed e.digits e.node e.action name)

/-! ### The node -/

lemma parse_of_split {s act rest l x y z r : List UInt8} (hs : s = act ++ atSign :: rest)
    (hact : atSign ∉ act) (hbus : find (ascii "usb") s = some l.length)
    (hsplit : s = l ++ (x ++ slash :: (y ++ slash :: (z ++ slash :: r)))) (hx : slash ∉ x)
    (hy : slash ∉ y) (hz : slash ∉ z) (hlen : act.length < l.length + x.length) :
    parse s = some ⟨z, act⟩ := by
  -- the message in front of the hub, and in front of the node
  obtain ⟨l₁, hl₁, hs₁⟩ : ∃ l₁ : List UInt8, l₁.length = l.length + x.length + 1 ∧
      s = l₁ ++ (y ++ slash :: (z ++ slash :: r)) :=
    ⟨l ++ (x ++ [slash]), by simp [add_assoc], by simp [hsplit]⟩
  obtain ⟨l₂, hl₂, hs₂⟩ : ∃ l₂ : List UInt8, l₂.length = l.length + x.length + 1 + y.length + 1 ∧
      s = l₂ ++ (z ++ slash :: r) :=
    ⟨l₁ ++ (y ++ [slash]), by simp [hl₁, add_assoc], by simp [hs₁]⟩
  have hspan : nodeSpan s = some (l₂.length, l₂.length + z.length) := by
    have hhub : findFrom (ascii "/") s l.length = some (l.length + x.length) :=
      findFrom_singleton hsplit rfl hx
    have hnode : findFrom (ascii "/") s (l.length + x.length + 1) =
        some (l.length + x.length + 1 + y.length) := findFrom_singleton hs₁ hl₁ hy
    have hstop : findFrom (ascii "/") s (l.length + x.length + 1 + y.length + 1) =
        some (l₂.length + z.length) := hl₂ ▸ findFrom_singleton hs₂ rfl hz
    simp only [nodeSpan, hbus, hhub, hnode, hstop, Option.bind_eq_bind, Option.bind_some, hl₂]
    rfl
  have hcut : s.take (l₂.length + z.length) = l₂ ++ z := by
    rw [hs₂, ← List.append_assoc]
    exact List.take_left' List.length_append
  have hfirst : ∃ t, s.take (l₂.length + z.length) = act ++ atSign :: t := by
    refine ⟨rest.take (l₂.length + z.length - act.length - 1), ?_⟩
    obtain ⟨k, hk⟩ : ∃ k, l₂.length + z.length = act.length + (k + 1) :=
      ⟨l₂.length + z.length - act.length - 1, by omega⟩
    rw [hs, hk, List.take_length_add_append, List.take_succ_cons]
    congr 3
    omega
  obtain ⟨t, ht⟩ := hfirst
  have hat : find (ascii "@") (s.take (l₂.length + z.length)) = some act.length := by
    rw [ht]
    exact find_singleton hact t
  simp only [parse, hspan, hat, Option.bind_eq_bind, Option.bind_some]
  rw [ht, List.take_left, ← ht, hcut, List.drop_left]
  rfl

namespace Plug

lemma components_eq (e : Plug) : e.components = e.before ++ e.bus :: e.hub :: e.node ::
    (e.between ++ [ascii "video4linux", ascii "video" ++ e.digits]) := by
  simp [components, front]

lemma parse_of_none (e : Plug) (h : find (ascii "usb") e.action = none) :
    parse e.text = some ⟨e.node, e.action⟩ := by
  obtain ⟨d, ds, hds⟩ : ∃ d ds, e.between ++ [ascii "video4linux", ascii "video" ++ e.digits] =
      d :: ds := List.exists_cons_of_ne_nil (by simp)
  obtain ⟨l, hl, hpath⟩ := path_append e.before e.bus (e.hub :: e.node :: d :: ds)
  have htail : path (e.bus :: e.hub :: e.node :: d :: ds) =
      e.bus ++ slash :: (e.hub ++ slash :: (e.node ++ slash :: path (d :: ds))) := by
    rw [path_cons, path_cons, path_cons]
  have hcomponents : path e.components = l ++ path (e.bus :: e.hub :: e.node :: d :: ds) := by
    rw [components_eq, hds, hpath]
  have hbus : find (ascii "usb") e.text = some (e.action ++ atSign :: l).length := by
    have hfirst : find (ascii "usb") (path (e.bus :: e.hub :: e.node :: d :: ds)) = some 0 :=
      find_of_prefix (htail ▸ e.bus_usb.trans (List.prefix_append _ _))
    rw [text, find_append_cons (by decide), h, Option.none_or, components_eq, hds,
      find_path (by decide) e.first_usb, hfirst, List.length_append, List.length_cons, hl]
    simp [add_assoc, add_comm]
  refine parse_of_split rfl e.action_clean.2.1 hbus (x := e.bus) (y := e.hub) (z := e.node)
    (r := path (d :: ds)) ?_ ?_ ?_ ?_ ?_
  · rw [text, hcomponents, htail]
    simp
  · exact (e.clean e.bus (by simp)).2
  · exact (e.clean e.hub (by simp)).2
  · exact (e.clean e.node (by simp)).2
  · simp only [List.length_append, List.length_cons]
    omega

lemma parse_of_some (e : Plug) {i : ℕ} (h : find (ascii "usb") e.action = some i) :
    ∃ c ∈ e.components[2]?, slash ∉ c ∧ parse e.text = some ⟨c, e.action⟩ := by
  have hlen : 3 ≤ e.front.length := by
    simp only [front, List.length_append, List.length_cons]
    omega
  rcases hfront : e.front with _ | ⟨c₀, _ | ⟨c₁, _ | ⟨c₂, cs⟩⟩⟩
  · simp [hfront] at hlen
  · simp [hfront] at hlen
  · simp [hfront] at hlen
  obtain ⟨d, ds, hds⟩ : ∃ d ds, cs ++ [ascii "video4linux", ascii "video" ++ e.digits] =
      d :: ds := List.exists_cons_of_ne_nil (by simp)
  have hcomponents : e.components = c₀ :: c₁ :: c₂ :: d :: ds := by
    rw [components, hfront, ← hds]
    rfl
  have hclean (c : List UInt8) (hc : c ∈ e.front) : slash ∉ c := (e.clean c hc).2
  have hi : i < e.action.length := find_lt h (by decide)
  have hbus : find (ascii "usb") e.text = some (e.action.take i).length := by
    rw [text, find_append_cons (by decide), h, List.length_take, min_eq_left hi.le]
    rfl
  refine ⟨c₂, by rw [hcomponents]; rfl, hclean c₂ (by simp [hfront]), ?_⟩
  refine parse_of_split rfl e.action_clean.2.1 hbus (x := e.action.drop i ++ atSign :: c₀)
    (y := c₁) (z := c₂) (r := path (d :: ds)) ?_ ?_ ?_ ?_ ?_
  · rw [text, hcomponents, path_cons, path_cons, path_cons, List.append_assoc,
      ← List.append_assoc (e.action.take i), List.take_append_drop]
    rfl
  · simp only [List.mem_append, not_or, not_mem_cons]
    exact ⟨fun hm => e.action_clean.2.2 (List.mem_of_mem_drop hm), by decide,
      hclean c₀ (by simp [hfront])⟩
  · exact hclean c₁ (by simp [hfront])
  · exact hclean c₂ (by simp [hfront])
  · simp only [List.length_append, List.length_cons, List.length_take, List.length_drop]
    omega

/-- The component that is taken for the node is the node. -/
def Located (e : Plug) : Prop :=
  find (ascii "usb") e.action = none ∨ e.components[2]? = some e.node

lemma exists_node (e : Plug) : ∃ c, slash ∉ c ∧ parse e.text = some ⟨c, e.action⟩ ∧
    (c = e.node ↔ e.Located) := by
  cases h : find (ascii "usb") e.action with
  | none =>
    exact ⟨e.node, (e.clean e.node (by simp)).2, e.parse_of_none h,
      iff_of_true rfl (Or.inl h)⟩
  | some i =>
    obtain ⟨c, hc, hslash, hparse⟩ := e.parse_of_some h
    refine ⟨c, hslash, hparse, ?_⟩
    rw [Located, h, Option.mem_def.mp hc]
    simp

/-! ### The number -/

lemma digits_ne_nil (e : Plug) : e.digits ≠ [] := by
  have hdigits : sprintfD e.number = Nat.toDigits 10 e.number := if_neg (by omega)
  simp [digits, hdigits, bytes, Nat.toDigits_ne_nil]

lemma ascii_class : ascii "video4linux/video" = ascii "video4linux" ++ slash :: ascii "video" := by
  decide

lemma length_class : (ascii "video4linux/video").length = 17 := by decide

lemma text_eq (e : Plug) : ∃ l, l.length = e.action.length + 1 + skip e.front ∧
    e.text = l ++ (ascii "video4linux/video" ++ e.digits) := by
  obtain ⟨l, hl, hpath⟩ := path_append e.front (ascii "video4linux")
    [ascii "video" ++ e.digits]
  refine ⟨e.action ++ atSign :: l, ?_, ?_⟩
  · rw [List.length_append, List.length_cons, hl]
    omega
  · rw [text, components, hpath, path_cons, path_singleton, ascii_class]
    simp only [List.append_assoc, List.cons_append]

lemma exists_character (e : Plug) : ∃ m c, find (ascii "video4linux") e.text = some m ∧
    e.text[m + 17]? = some c := by
  obtain ⟨l, -, htext⟩ := e.text_eq
  have hprefix : ascii "video4linux" <+: e.text.drop l.length := by
    rw [htext, List.drop_left, ascii_class, List.append_assoc]
    exact List.prefix_append _ _
  obtain ⟨m, hm, hfind⟩ := exists_find_le hprefix
  have hlen : e.text.length = l.length + (17 + e.digits.length) := by
    rw [htext, List.length_append, List.length_append, length_class]
  have hpos := List.length_pos_iff.mpr e.digits_ne_nil
  exact ⟨m, _, hfind, List.getElem?_eq_getElem (by omega)⟩

/-- The character that is taken for the number stands for it. -/
def Numbered (e : Plug) : Prop :=
  ∃ m ∈ find (ascii "video4linux") e.text, ∃ c ∈ e.text[m + 17]?, (v4lId c).toInt = e.number

end Plug

lemma v4lId_toInt {c : UInt8} (h : c.toNat < 128) : (v4lId c).toInt = c.toNat - 48 := by
  have hext : (c.toBitVec.signExtend 32).toInt = c.toNat := by
    rw [BitVec.toInt_signExtend_of_le (by decide), BitVec.toInt_eq_toNat_cond,
      UInt8.toNat_toBitVec, if_pos (by omega)]
  rw [v4lId, BitVec.toInt_sub, hext]
  exact Int.bmod_eq_of_le (by simp; omega) (by simp; omega)

namespace Plug

lemma numbered_iff_lt (e : Plug)
    (h : ∀ t ∈ e.action :: e.front, find (ascii "video4linux") t = none) :
    e.Numbered ↔ e.number < 10 := by
  obtain ⟨haction, hfront⟩ := List.forall_mem_cons.mp h
  obtain ⟨l, hl, htext⟩ := e.text_eq
  have hfind : find (ascii "video4linux") e.text = some l.length := by
    have hclass : find (ascii "video4linux")
        (path [ascii "video4linux", ascii "video" ++ e.digits]) = some 0 :=
      find_of_prefix (path_cons _ _ _ ▸ List.prefix_append _ _)
    rw [text, find_append_cons (by decide), haction, Option.none_or, components,
      find_path (by decide) hfront, hclass, hl]
    rfl
  have hchar : e.text[l.length + 17]? = e.digits[0]? := by
    rw [htext, List.getElem?_append_right (by omega), Nat.add_sub_cancel_left,
      List.getElem?_append_right length_class.le, length_class]
  have hdigits : e.digits = bytes (Nat.toDigits 10 e.number) :=
    congrArg bytes (if_neg (by omega))
  simp only [Numbered, hfind, hchar, Option.mem_def, Option.some.injEq, exists_eq_left']
  constructor
  · rintro ⟨c, hc, hid⟩
    obtain ⟨d, hd, rfl⟩ := List.mem_map.mp (hdigits ▸ List.mem_of_getElem? hc)
    have hrange := toNat_of_mem_toDigits hd
    have hmod : d.toNat.toUInt8.toNat = d.toNat % 256 := rfl
    rw [v4lId_toInt (by omega)] at hid
    omega
  · intro hlt
    rw [hdigits, Nat.toDigits_of_lt_base hlt]
    refine ⟨_, rfl, ?_⟩
    generalize e.number = n at hlt
    revert n
    decide

end Plug

/-! ### What is printed -/

lemma field_inj {x y r t : List UInt8} (hx : slash ∉ x) (hy : slash ∉ y)
    (h : x ++ 60 :: slash :: r = y ++ 60 :: slash :: t) : x = y ∧ r = t := by
  have hfree {z : List UInt8} (hz : slash ∉ z) (u : List UInt8) :
      find [slash] (z ++ 60 :: slash :: u) = some (z.length + 1) := by
    have hz' : slash ∉ z ++ [60] := by
      simp only [List.mem_append, not_or]
      exact ⟨hz, by decide⟩
    simpa using find_singleton hz' u
  have hlen : x.length = y.length := by
    have := (hfree hx r).symm.trans (h ▸ hfree hy t)
    simpa using this
  obtain ⟨rfl, hrest⟩ := List.append_inj h hlen
  exact ⟨rfl, (List.cons.inj (List.cons.inj hrest).2).2⟩

lemma printed_inj {number number' node node' action action' name name' : List UInt8}
    (hnumber : slash ∉ number) (hnumber' : slash ∉ number') (hnode : slash ∉ node)
    (hnode' : slash ∉ node')
    (h : printed number node action name = printed number' node' action' name') :
    number = number' ∧ node = node' := by
  simp only [printed, List.append_assoc] at h
  obtain ⟨rfl, hrest⟩ := field_inj hnumber hnumber' (List.append_cancel_left h)
  have htags : ascii "number>\n<usb_node>" ++ (node ++ _) =
      ascii "number>\n<usb_node>" ++ (node' ++ _) := hrest
  exact ⟨rfl, (field_inj hnode hnode' (List.append_cancel_left htags)).1⟩

lemma report_eq (files : Files) (id : BitVec 32) (u : Camera) :
    report files id u = (if u.action = ascii "add" then addedName files id else some []).map
      fun name => (0, printed (bytes (sprintfD id.toInt)) u.usbNode u.action name) := by
  rw [report]
  by_cases hadd : u.action = ascii "add"
  · rw [if_pos hadd, if_pos hadd]
    cases addedName files id <;> rfl
  · rw [if_neg hadd, if_neg hadd]
    rfl

/-- The file with the name of the camera can be printed. -/
def Plug.Readable (e : Plug) (files : Files) : Prop :=
  e.action = ascii "add" → ∀ text ∈ files (namePath (BitVec.ofNat 32 e.number)), Named text

lemma isSome_name_iff (files : Files) {e : Plug} {id : BitVec 32} (h : id.toInt = e.number) :
    (if e.action = ascii "add" then addedName files id else some []).isSome ↔
      e.Readable files := by
  have hid : id = BitVec.ofNat 32 e.number := by
    rw [← BitVec.ofInt_toInt (x := id), h, BitVec.ofInt_natCast]
  rw [Plug.Readable, ← hid, ← addedName_isSome_iff]
  by_cases hadd : e.action = ascii "add" <;> simp [hadd]

lemma extracts_iff (f : Frame) (files : Files) {devstr : List UInt8} {e : Plug}
    (hdev : Holds devstr e.text) (hlen : e.text.length < 256) :
    Extracts f files devstr e ↔ e.Numbered ∧ e.Located ∧ e.Readable files := by
  obtain ⟨m, c, hm, hc⟩ := e.exists_character
  obtain ⟨node, hslash, hparse, hlocated⟩ := e.exists_node
  have hcopied : (f.copied e.text)[m + 17]? = some c := by
    rw [← hc, Frame.copied, List.getElem?_append_left]
    exact (List.getElem?_eq_some_iff.mp hc).1
  have hnumbered : e.Numbered ↔ (v4lId c).toInt = e.number := by
    simp [Plug.Numbered, hm, hc]
  have hnumber (n : ℤ) : slash ∉ bytes (sprintfD n) := fun h =>
    absurd (toNat_of_mem_bytes_sprintfD h) (by decide)
  have hrun : parseUsbcam f files devstr =
      (if e.action = ascii "add" then addedName files (v4lId c) else some []).map
        fun name => (0, printed (bytes (sprintfD (v4lId c).toInt)) node e.action name) := by
    rw [parseUsbcam_eq f files hdev hlen, hm]
    simp only [hcopied, hparse, Option.bind_some, report_eq]
  rw [Extracts, hrun, hnumbered, ← hlocated]
  constructor
  · rintro ⟨name, h⟩
    obtain ⟨name', hname, hprinted⟩ := Option.map_eq_some_iff.mp h
    obtain ⟨hdigits, hnode⟩ := printed_inj (hnumber _) (hnumber _) hslash
      (e.clean e.node (by simp)).2 (Prod.mk.inj hprinted).2
    have hid := bytes_sprintfD_inj hdigits
    exact ⟨hid, hnode, (isSome_name_iff files hid).mp (Option.isSome_of_mem hname)⟩
  · rintro ⟨hid, hnode, hread⟩
    obtain ⟨name, hname⟩ := Option.isSome_iff_exists.mp ((isSome_name_iff files hid).mpr hread)
    exact ⟨name, by rw [hname, hid, hnode]; rfl⟩

lemma parseUsbcam_none_iff (f : Frame) (files : Files) {s devstr : List UInt8}
    (h : Holds devstr s) (hs : find (ascii "video4linux") s = none) :
    (parseUsbcam f files devstr).map Prod.fst = some (-1) ↔ s.length < 256 := by
  by_cases hlen : s.length < 256
  · rw [parseUsbcam_eq f files h hlen, hs]
    exact iff_of_true rfl hlen
  · have hcopy : strcpy f.info devstr = none :=
      h.strcpy_eq_none (f.info_length ▸ Nat.le_of_not_lt hlen)
    have hnone : parseUsbcam f files devstr = none := by
      rw [parseUsbcam, hcopy]
      rfl
    rw [hnone]
    exact iff_of_false (Option.some_ne_none _).symm hlen

/-- **The fields of a message.** The parser prints the fields of a message about a camera exactly
if the character it takes for the number is the number, the component it takes for the node is
the node, and the name of an added camera can be read; where the class of the device is named
only once, the number has to be a digit. On any other message it returns `-1` if the message
fits. -/
theorem usbcam_fields_iff (f : Frame) (files : Files) :
    (∀ (e : Plug) (devstr : List UInt8), Holds devstr e.text → e.text.length < 256 →
      (Extracts f files devstr e ↔ e.Numbered ∧ e.Located ∧ e.Readable files) ∧
      ((∀ t ∈ e.action :: e.front, find (ascii "video4linux") t = none) →
        (e.Numbered ↔ e.number < 10))) ∧
    ∀ s devstr : List UInt8, Holds devstr s → find (ascii "video4linux") s = none →
      ((parseUsbcam f files devstr).map Prod.fst = some (-1) ↔ s.length < 256) :=
  ⟨fun e _ hdev hlen => ⟨extracts_iff f files hdev hlen, e.numbered_iff_lt⟩,
    fun _ _ hdev hs => parseUsbcam_none_iff f files hdev hs⟩

def unplug (number : ℕ) : Plug where
  action := ascii "remove"
  before := [[], ascii "devices"]
  bus := ascii "usb1"
  hub := ascii "1-4"
  node := ascii "1-4:1.0"
  between := []
  number := number
  action_clean := by decide
  clean := by decide
  bus_usb := by decide
  first_usb := by decide

/-- The same with a driver in the name of the action. -/
def usbUnplug : Plug := { unplug 0 with action := ascii "usb-remove", action_clean := by decide }

/-- The tenth camera is printed as the first, and the bus as the node. -/
theorem usbcam_fields_wrong :
    parseUsbcam blank (fun _ => none) ((unplug 10).text ++ [0]) =
        some (0, printed (ascii "1") (ascii "1-4:1.0") (ascii "remove") []) ∧
      parseUsbcam blank (fun _ => none) (usbUnplug.text ++ [0]) =
        some (0, printed (ascii "0") (ascii "usb1") (ascii "usb-remove") []) :=
  ⟨by decide +kernel, by decide +kernel⟩

theorem usbcam_fields_iff_unplug :
    Extracts blank (fun _ => none) ((unplug 9).text ++ [0]) (unplug 9) := by
  obtain ⟨hfields, -⟩ := usbcam_fields_iff blank fun _ => none
  obtain ⟨hiff, hnumber⟩ := hfields (unplug 9) ((unplug 9).text ++ [0])
    (unplug 9).holds_text (by decide +kernel)
  refine hiff.mpr ⟨(hnumber ?_).mpr (by decide), Or.inl ?_, ?_⟩
  · decide +kernel
  · decide +kernel
  · intro _ text htext
    cases htext

end LinuxSamples.Netlink
