import Mathlib.Data.List.TakeWhile
import LinuxSamples.CString
import LinuxSamples.Word

/-!
The monitor that prints the cameras plugged in, out of the uevents of the kernel.

A message is received into an array of zeros, printed, and taken apart in arrays of 256
cells. No length is tested on the way, so that each array depends on the message, or on the
file with the name of the camera, being short enough. The accesses stay inside the arrays
exactly when the message ends, fits, leaves room for the number behind the class, and the
file it leads to has a name.
-/

namespace LinuxSamples.Netlink

open LinuxSamples.CString LinuxSamples.Word

def UEVENT_BUFFER_SIZE : ℕ := 1024

/-- The local arrays of `parse_usbcam` as the call finds them. -/
structure Frame where
  info : List UInt8
  usbNode : List UInt8
  action : List UInt8
  path : List UInt8
  info_length : info.length = 256
  usbNode_length : usbNode.length = 256
  action_length : action.length = 256
  path_length : path.length = 256

/-- What can be opened, with its contents. -/
abbrev Files : Type := List UInt8 → Option (List UInt8)

/-- The digit that a character, signed as it is, stands for. -/
def v4lId (c : UInt8) : BitVec 32 := c.toBitVec.signExtend 32 - 48

def namePath (id : BitVec 32) : List UInt8 :=
  ascii "/sys/class/video4linux/video" ++ bytes (sprintfD id.toInt) ++ ascii "/name"

/-- The name of the camera, from the text in its file. -/
def modelName (text : List UInt8) : Option (List UInt8) := do
  let devName := fill 256 (text.take 256)
  let c ← devName[subU 64 (← strlen devName) 1]?
  let devName ←
    if c = 10 then do
      put devName (subU 64 (← strlen devName) 1) 0
    else some devName
  str devName

def nameElement (f : Frame) (files : Files) (id : BitVec 32) : Option (List UInt8) := do
  let path ← strcpy f.path (namePath id ++ [0])
  match files (← str path) with
  | none => return []
  | some text => return ascii "<name>" ++ (← modelName text) ++ ascii "</name>\n"

/-- Where the node of the camera begins and ends: two slashes behind the bus are skipped. -/
def findUsbNode (info : List UInt8) : Option (Option (ℕ × ℕ)) := do
  let some p2 ← strstr (ascii "usb") info | return none
  let some p ← strstrAt (ascii "/") info p2 | return none
  let p := p + 1
  let some p2 ← strstrAt (ascii "/") info p | return none
  let p2 := p2 + 1
  let some p ← strstrAt (ascii "/") info p2 | return none
  return some (p2, p)

/-- `parse_usbcam` behind the search for the node, which lies between `p2` and `p`. -/
def printUsbcam (f : Frame) (files : Files) (info : List UInt8) (id : BitVec 32) (p2 p : ℕ) :
    Option (ℤ × List UInt8) := do
  let info ← put info p 0
  let usbNode ← strcpy f.usbNode (info.drop p2)
  let some p2 ← strstr (ascii "@") info | return (-1, [])
  let info ← put info p2 0
  let action ← strcpy f.action info
  let usb := ascii "<usb_node>" ++ (← str usbNode) ++ ascii "</usb_node>\n"
  let act := ascii "<action>" ++ (← str action) ++ ascii "</action>\n"
  let name ← if ← strEq action (ascii "add" ++ [0]) then nameElement f files id else some []
  return (0, ascii "<usbcam>\n<number>" ++ bytes (sprintfD id.toInt) ++ ascii "</number>\n" ++
    usb ++ act ++ name ++ ascii "</usbcam>\n")

/-- `parse_usbcam`: its result and what it prints. -/
def parseUsbcam (f : Frame) (files : Files) (devstr : List UInt8) :
    Option (ℤ × List UInt8) := do
  let info ← strcpy f.info devstr
  let some p2 ← strstr (ascii "video4linux") info | return (-1, [])
  let p2 := p2 + (ascii "video4linux").length + 1
  let p2 := p2 + (ascii "video").length
  let id := v4lId (← info[p2]?)
  let some (p2, p) ← findUsbNode info | return (-1, [])
  printUsbcam f files info id p2 p

/-- One turn of the loop of `main`. -/
structure Uevent where
  frame : Frame
  files : Files
  datagram : List UInt8
  datagram_length : datagram.length ≤ UEVENT_BUFFER_SIZE * 2

def handle (e : Uevent) : Option (List UInt8) := do
  let bufCache := fill (UEVENT_BUFFER_SIZE * 2) e.datagram
  let shown ← str bufCache
  let (_, out) ← parseUsbcam e.frame e.files bufCache
  return ascii "======buf_cache: " ++ shown ++ ascii "\n" ++ out

/-- The loop of `main`, for the messages that arrive. -/
def main : List Uevent → Option (List UInt8)
  | [] => some []
  | e :: es => do
    let out ← handle e
    let rest ← main es
    return out ++ rest

/-! ### Messages -/

/-- What a message says about a camera. -/
structure Camera where
  usbNode : List UInt8
  action : List UInt8
  deriving DecidableEq

/-- The array `info` after the message `s` has been copied to it. -/
def Frame.copied (f : Frame) (s : List UInt8) : List UInt8 :=
  s ++ 0 :: f.info.drop (s.length + 1)

/-- Where the node begins and ends: it is the second component below the bus. -/
def nodeSpan (s : List UInt8) : Option (ℕ × ℕ) := do
  let bus ← find (ascii "usb") s
  let hub ← findFrom (ascii "/") s bus
  let node ← findFrom (ascii "/") s (hub + 1)
  let stop ← findFrom (ascii "/") s (node + 1)
  return (node + 1, stop)

/-- The node, and the action in front of the path down to it. -/
def parse (s : List UInt8) : Option Camera := do
  let (start, stop) ← nodeSpan s
  let act ← find (ascii "@") (s.take stop)
  return ⟨(s.take stop).drop start, (s.take stop).take act⟩

/-- What is printed about a camera that has been added, beside its message. -/
def addedName (files : Files) (id : BitVec 32) : Option (List UInt8) :=
  match files (namePath id) with
  | none => some []
  | some text => (modelName text).map fun n => ascii "<name>" ++ n ++ ascii "</name>\n"

def report (files : Files) (id : BitVec 32) (u : Camera) : Option (ℤ × List UInt8) := do
  let name ← if u.action = ascii "add" then addedName files id else some []
  return (0, ascii "<usbcam>\n<number>" ++ bytes (sprintfD id.toInt) ++ ascii "</number>\n" ++
    (ascii "<usb_node>" ++ u.usbNode ++ ascii "</usb_node>\n") ++
    (ascii "<action>" ++ u.action ++ ascii "</action>\n") ++ name ++ ascii "</usbcam>\n")

lemma namePath_holds (id : BitVec 32) : Holds (namePath id ++ [0]) (namePath id) := by
  refine ⟨?_, [], rfl⟩
  have hdigits := zero_not_mem_sprintfD id.toInt
  simp only [namePath, List.mem_append, not_or]
  exact ⟨⟨by decide, hdigits⟩, by decide⟩

lemma length_namePath_lt (id : BitVec 32) : (namePath id).length < 256 := by
  have hdigits := length_sprintfD_le id
  have hfirst : (ascii "/sys/class/video4linux/video").length = 28 := by decide
  have hlast : (ascii "/name").length = 5 := by decide
  simp only [namePath, List.length_append, hfirst, hlast, bytes, List.length_map]
  omega

lemma nameElement_eq (f : Frame) (files : Files) (id : BitVec 32) :
    nameElement f files id = addedName files id := by
  have hhold := namePath_holds id
  have hlen : (namePath id).length < f.path.length := f.path_length ▸ length_namePath_lt id
  rw [nameElement, hhold.strcpy hlen, Option.bind_eq_bind, Option.bind_some,
    (hhold.copied _).str, Option.bind_some, addedName]
  cases files (namePath id) with
  | none => rfl
  | some text =>
    simp only
    cases modelName text <;> rfl

lemma nodeSpan_bounds {s : List UInt8} {start stop : ℕ} (h : nodeSpan s = some (start, stop)) :
    start ≤ stop ∧ stop < s.length := by
  simp only [nodeSpan, Option.bind_eq_bind, Option.bind_eq_some_iff] at h
  obtain ⟨bus, -, hub, -, node, -, last, hlast, h⟩ := h
  obtain ⟨rfl, rfl⟩ := Prod.mk.inj (Option.some.inj h)
  exact findFrom_bounds hlast (by decide)

lemma printUsbcam_eq {s info : List UInt8} {start stop : ℕ} (f : Frame) (files : Files)
    (id : BitVec 32) (h : Holds info s) (hlen : s.length < 256) (hle : start ≤ stop)
    (hlt : stop < s.length) :
    printUsbcam f files info id start stop =
      match find (ascii "@") (s.take stop) with
      | none => some (-1, [])
      | some act => report files id ⟨(s.take stop).drop start, (s.take stop).take act⟩ := by
  obtain ⟨info', hput, hcut⟩ := h.put hlt
  have htake : (s.take stop).length = stop := by rw [List.length_take]; omega
  have hnode : Holds (info'.drop start) ((s.take stop).drop start) := hcut.drop (by omega)
  have hnodelt : ((s.take stop).drop start).length < f.usbNode.length := by
    rw [f.usbNode_length, List.length_drop]
    omega
  simp only [printUsbcam, Option.bind_eq_bind]
  rw [hput, Option.bind_some, hnode.strcpy hnodelt, Option.bind_some, hcut.strstr (by decide),
    Option.bind_some]
  cases hact : find (ascii "@") (s.take stop) with
  | none => rfl
  | some act =>
    have hactlt : act < (s.take stop).length := find_lt hact (by decide)
    obtain ⟨info₂, hput₂, hcut₂⟩ := hcut.put hactlt
    have hactionlt : ((s.take stop).take act).length < f.action.length := by
      rw [f.action_length, List.length_take]
      omega
    have hadd : Holds (ascii "add" ++ [0]) (ascii "add") := ⟨by decide, [], rfl⟩
    simp only
    rw [hput₂, Option.bind_some, hcut₂.strcpy hactionlt, Option.bind_some, (hnode.copied _).str,
      Option.bind_some, (hcut₂.copied _).str, Option.bind_some, (hcut₂.copied _).strEq hadd,
      Option.bind_some, nameElement_eq, report]
    by_cases hadded : (s.take stop).take act = ascii "add"
    · simp only [hadded]
      rfl
    · simp only [hadded]
      rfl

lemma search_eq {α : Type} {o : Option ℕ} {k : ℕ → Option (Option α)} {k' : ℕ → Option α}
    (h : ∀ p ∈ o, k p = some (k' p)) :
    ((some o).bind fun x =>
      match x with
      | some p => k p
      | _ => pure none) = some (o.bind k') := by
  cases o with
  | none => rfl
  | some p => exact h p rfl

lemma findUsbNode_eq {s info : List UInt8} (h : Holds info s) :
    findUsbNode info = some (nodeSpan s) := by
  simp only [findUsbNode, nodeSpan, Option.bind_eq_bind]
  rw [h.strstr (by decide)]
  refine search_eq fun bus hbus => ?_
  rw [h.strstrAt (by decide) (find_lt hbus (by decide)).le]
  refine search_eq fun hub hhub => ?_
  rw [h.strstrAt (by decide) (findFrom_bounds hhub (by decide)).2]
  refine search_eq fun node hnode => ?_
  rw [h.strstrAt (by decide) (findFrom_bounds hnode (by decide)).2]
  exact search_eq fun stop _ => rfl

lemma parseUsbcam_eq {s devstr : List UInt8} (f : Frame) (files : Files) (h : Holds devstr s)
    (hlen : s.length < 256) :
    parseUsbcam f files devstr =
      match find (ascii "video4linux") s with
      | none => some (-1, [])
      | some m =>
        ((f.copied s)[m + 17]?).bind fun c =>
          match parse s with
          | none => some (-1, [])
          | some u => report files (v4lId c) u := by
  have hinfo : strcpy f.info devstr = some (f.copied s) := h.strcpy (f.info_length ▸ hlen)
  have hi : Holds (f.copied s) s := h.copied _
  rw [parseUsbcam, hinfo, Option.bind_eq_bind, Option.bind_some]
  generalize f.copied s = info at hi ⊢
  simp only [Option.bind_eq_bind]
  rw [hi.strstr (by decide), Option.bind_some]
  cases hv : find (ascii "video4linux") s with
  | none => rfl
  | some m =>
    simp only [show m + (ascii "video4linux").length + 1 + (ascii "video").length = m + 17 from rfl]
    cases info[m + 17]? with
    | none => rfl
    | some c =>
      rw [Option.bind_some, Option.bind_some, findUsbNode_eq hi, Option.bind_some, parse]
      cases hspan : nodeSpan s with
      | none => rfl
      | some span =>
        obtain ⟨hle, hlt⟩ := nodeSpan_bounds hspan
        simp only [Option.bind_eq_bind, Option.bind_some]
        rw [printUsbcam_eq f files _ hi hlen hle hlt]
        cases find (ascii "@") (s.take span.2) <;> rfl

/-! ### The name of a camera -/

/-- The file holds a name: it does not begin with its end, and it ends. -/
def Named (text : List UInt8) : Prop :=
  (∃ c ∈ text.head?, c ≠ 0) ∧ (text.length < 256 ∨ 0 ∈ text.take 256)

/-- A name is printed without the line end behind it. -/
def chomp (s : List UInt8) : List UInt8 := if s.getLast? = some 10 then s.dropLast else s

lemma holds_devName {text : List UInt8} (h : text.length < 256 ∨ 0 ∈ text.take 256) :
    Holds (fill 256 (text.take 256)) ((text.take 256).takeWhile (· ≠ 0)) := by
  refine holds_fill (h.imp_left fun hlt => ?_)
  rwa [List.take_of_length_le hlt.le]

lemma takeWhile_eq_nil_iff {text : List UInt8} :
    (text.take 256).takeWhile (· ≠ 0) = [] ↔ ¬ ∃ c ∈ text.head?, c ≠ 0 := by
  cases text with
  | nil => simp
  | cons c cs => by_cases hc : c = 0 <;> simp [hc]

lemma modelName_of_named {text : List UInt8} (h : Named text) :
    modelName text = some (chomp ((text.take 256).takeWhile (· ≠ 0))) := by
  obtain ⟨hhead, hends⟩ := h
  have hhold := holds_devName hends
  have hne : (text.take 256).takeWhile (· ≠ 0) ≠ [] := fun h => takeWhile_eq_nil_iff.mp h hhead
  have hlen : ((text.take 256).takeWhile (· ≠ 0)).length ≤ 256 :=
    ( List.takeWhile_prefix _).length_le.trans (List.length_take_le _ _)
  rw [modelName, hhold.strlen]
  generalize (text.take 256).takeWhile (· ≠ 0) = s at hhold hne hlen
  generalize fill 256 (text.take 256) = devName at hhold ⊢
  have hpos := List.length_pos_iff.mpr hne
  have hsub : subU 64 s.length 1 = s.length - 1 := subU_of_le hpos (by omega)
  have hlast : devName[s.length - 1]? = s.getLast? := by
    obtain ⟨rest, rfl⟩ := hhold.eq
    rw [List.getElem?_append_left (by omega), List.getLast?_eq_getElem?]
  obtain ⟨c, hc⟩ : ∃ c, s.getLast? = some c := ⟨_, List.getLast?_eq_some_getLast hne⟩
  simp only [Option.bind_eq_bind, Option.bind_some, hsub, hlast, hc, chomp]
  by_cases hnl : c = 10
  · obtain ⟨devName', hput, hcut⟩ := hhold.put (i := s.length - 1) (by omega)
    rw [if_pos hnl, if_pos (by rw [hnl]), hput, Option.bind_some, hcut.str,
      List.dropLast_eq_take]
  · rw [if_neg hnl, if_neg (fun h => hnl (Option.some.inj h)), hhold.str]

lemma modelName_eq_none {text : List UInt8} (h : ¬ Named text) : modelName text = none := by
  by_cases hends : text.length < 256 ∨ 0 ∈ text.take 256
  · have hhold := holds_devName hends
    have hnil := takeWhile_eq_nil_iff.mpr fun hhead => h ⟨hhead, hends⟩
    have hlen : (fill 256 (text.take 256)).length = 256 := by
      simp only [fill, List.length_append, List.length_replicate, List.length_take]
      omega
    rw [hnil] at hhold
    have hcell : (fill 256 (text.take 256))[subU 64 0 1]? = none := by
      rw [List.getElem?_eq_none]
      rw [hlen]
      decide
    rw [modelName, hhold.strlen]
    simp only [Option.bind_eq_bind, Option.bind_some, List.length_nil, hcell, Option.bind_none]
  · have hstr : str (fill 256 (text.take 256)) = none := by
      refine str_eq_none fun hm => hends ?_
      refine (zero_mem_fill.mp hm).imp_left fun hlt => ?_
      rw [List.length_take] at hlt
      omega
    rw [modelName, strlen, hstr]
    rfl

lemma modelName_isSome_iff {text : List UInt8} : (modelName text).isSome ↔ Named text := by
  refine ⟨fun h => ?_, fun h => ?_⟩
  · by_contra hn
    rw [modelName_eq_none hn] at h
    cases h
  · rw [modelName_of_named h]
    rfl

/-! ### Safety -/

/-- The text of the message, up to the first zero. -/
def Uevent.text (e : Uevent) : List UInt8 := e.datagram.takeWhile (· ≠ 0)

/-- The contents of the file that the message makes the monitor read. -/
def Uevent.nameFile (e : Uevent) : Option (List UInt8) := do
  let m ← find (ascii "video4linux") e.text
  let c ← (e.frame.copied e.text)[m + 17]?
  let u ← parse e.text
  if u.action = ascii "add" then e.files (namePath (v4lId c)) else none

structure Uevent.Safe (e : Uevent) : Prop where
  ends : e.datagram.length < UEVENT_BUFFER_SIZE * 2 ∨ 0 ∈ e.datagram
  fits : e.text.length < 256
  number : ∀ m ∈ find (ascii "video4linux") e.text, m + 17 < 256
  name : ∀ text ∈ e.nameFile, Named text

lemma addedName_isSome_iff {files : Files} {id : BitVec 32} :
    (addedName files id).isSome ↔ ∀ text ∈ files (namePath id), Named text := by
  rw [addedName]
  cases files (namePath id) with
  | none => simp
  | some text => simp [modelName_isSome_iff]

lemma report_isSome_iff {files : Files} {id : BitVec 32} {u : Camera} :
    (report files id u).isSome ↔
      (u.action = ascii "add" → ∀ text ∈ files (namePath id), Named text) := by
  rw [← addedName_isSome_iff, report]
  by_cases hadd : u.action = ascii "add"
  · cases addedName files id <;> simp [hadd]
  · simp [hadd]

lemma parse_isSome_iff (e : Uevent) {devstr : List UInt8} (h : Holds devstr e.text)
    (hlen : e.text.length < 256) :
    (parseUsbcam e.frame e.files devstr).isSome ↔
      (∀ m ∈ find (ascii "video4linux") e.text, m + 17 < 256) ∧
        ∀ text ∈ e.nameFile, Named text := by
  have hinfo : (e.frame.copied e.text).length = 256 := by
    rw [Frame.copied, List.length_append, List.length_cons, List.length_drop,
      e.frame.info_length]
    omega
  rw [parseUsbcam_eq e.frame e.files h hlen, Uevent.nameFile]
  cases hm : find (ascii "video4linux") e.text with
  | none => simp
  | some m =>
    by_cases hlt : m + 17 < 256
    · obtain ⟨c, hc⟩ : ∃ c, (e.frame.copied e.text)[m + 17]? = some c :=
        ⟨_, List.getElem?_eq_getElem (by omega)⟩
      cases parse e.text with
      | none => simp [hlt, hc]
      | some u =>
        simpa [hlt, hc, report_isSome_iff] using
          ⟨fun h text hadd => h hadd text, fun h hadd text => h text hadd⟩
    · have hc : (e.frame.copied e.text)[m + 17]? = none := List.getElem?_eq_none (by omega)
      simp [hlt, hc]

lemma handle_isSome_iff (e : Uevent) : (handle e).isSome ↔ e.Safe := by
  by_cases hends : e.datagram.length < UEVENT_BUFFER_SIZE * 2 ∨ 0 ∈ e.datagram
  · have hhold : Holds (fill (UEVENT_BUFFER_SIZE * 2) e.datagram) e.text := holds_fill hends
    simp only [handle, hhold.str, Option.bind_eq_bind, Option.bind_some]
    by_cases hfits : e.text.length < 256
    · have hparse := parse_isSome_iff e hhold hfits
      have hsafe : e.Safe ↔ (∀ m ∈ find (ascii "video4linux") e.text, m + 17 < 256) ∧
          ∀ text ∈ e.nameFile, Named text :=
        ⟨fun h => ⟨h.number, h.name⟩, fun h => ⟨hends, hfits, h.1, h.2⟩⟩
      rw [hsafe, ← hparse]
      cases parseUsbcam e.frame e.files (fill (UEVENT_BUFFER_SIZE * 2) e.datagram) <;> simp
    · have hcopy : strcpy e.frame.info (fill (UEVENT_BUFFER_SIZE * 2) e.datagram) = none :=
        hhold.strcpy_eq_none (e.frame.info_length ▸ Nat.le_of_not_lt hfits)
      rw [parseUsbcam, hcopy]
      simpa using fun h => hfits (Uevent.Safe.fits h)
  · have hstr : str (fill (UEVENT_BUFFER_SIZE * 2) e.datagram) = none :=
      str_eq_none (mt zero_mem_fill.mp hends)
    rw [handle, hstr]
    simpa using fun h => hends (Uevent.Safe.ends h)

/-- **The accesses stay inside the arrays** exactly when all messages are safe. -/
theorem usbcam_inside_iff (es : List Uevent) : (main es).isSome ↔ ∀ e ∈ es, e.Safe := by
  induction es with
  | nil => simp [main]
  | cons e es ih =>
    rw [List.forall_mem_cons, ← ih, ← handle_isSome_iff, main]
    cases handle e with
    | none => simp
    | some out => cases main es <;> simp

def blank : Frame where
  info := List.replicate 256 0
  usbNode := List.replicate 256 0
  action := List.replicate 256 0
  path := List.replicate 256 0
  info_length := List.length_replicate
  usbNode_length := List.length_replicate
  action_length := List.length_replicate
  path_length := List.length_replicate

def hotplug (text : List UInt8) : Uevent where
  frame := blank
  files := fun _ => some text
  datagram := ascii "add@/devices/pci0000:00/0000:00:1d.7/usb1/1-4/1-4:1.0/video4linux/video0"
  datagram_length := by decide

lemma nameFile_hotplug (text : List UInt8) : (hotplug text).nameFile = some text := by
  rfl

theorem usbcam_inside_iff_hotplug : (main [hotplug (ascii "Camera\n")]).isSome := by
  have hsafe : (hotplug (ascii "Camera\n")).Safe := by
    refine ⟨by decide, by decide, by decide, fun text h => ?_⟩
    rw [nameFile_hotplug] at h
    obtain rfl := Option.some.inj h
    exact ⟨⟨_, rfl, by decide⟩, by decide⟩
  exact (usbcam_inside_iff _).mpr (List.forall_mem_singleton.mpr hsafe)

lemma main_eq_none {e : Uevent} (h : ¬ e.Safe) : main [e] = none := by
  have hnone : handle e = none := Option.not_isSome_iff_eq_none.mp (mt (handle_isSome_iff e).mp h)
  rw [main, hnone]
  rfl

def longMessage (f : Frame) (files : Files) (n : ℕ) (w : List UInt8)
    (h : n + w.length ≤ UEVENT_BUFFER_SIZE * 2) : Uevent where
  frame := f
  files := files
  datagram := List.replicate n 97 ++ w
  datagram_length := by rwa [List.length_append, List.length_replicate]

lemma text_longMessage {f : Frame} {files : Files} {n : ℕ} {w : List UInt8}
    (h : n + w.length ≤ UEVENT_BUFFER_SIZE * 2) (hw : 0 ∉ w) :
    (longMessage f files n w h).text = List.replicate n 97 ++ w := by
  refine List.takeWhile_eq_self_iff.mpr fun c hc => decide_eq_true ?_
  rintro rfl
  rcases List.mem_append.mp hc with hc | hc
  · exact absurd (List.eq_of_mem_replicate hc) (by decide)
  · exact hw hc

/-- A message that is as long as its copy may be, one that fills the receive buffer, one that
ends with the class of the device, and an empty file. -/
theorem usbcam_accesses_outside :
    (∀ (f : Frame) (files : Files),
      main [longMessage f files 256 [] (by decide)] = none ∧
      main [longMessage f files 2048 [] (by decide)] = none ∧
      main [longMessage f files 239 (ascii "video4linux") (by decide)] = none) ∧
    main [hotplug []] = none := by
  refine ⟨fun f files => ⟨main_eq_none fun h => ?_, main_eq_none fun h => ?_,
    main_eq_none fun h => ?_⟩, main_eq_none fun h => ?_⟩
  · have hfits := h.fits
    rw [text_longMessage _ (by decide), List.append_nil, List.length_replicate] at hfits
    exact lt_irrefl _ hfits
  · rcases h.ends with hlt | hz
    · exact absurd hlt (by simp only [longMessage, List.append_nil, List.length_replicate]; decide)
    · have hz' : 0 ∈ List.replicate 2048 (97 : UInt8) := by
        simpa only [longMessage, List.append_nil] using hz
      exact absurd (List.eq_of_mem_replicate hz') (by decide)
  · have hfind : find (ascii "video4linux") (List.replicate 239 97 ++ ascii "video4linux") =
        some 239 := by decide +kernel
    rw [← text_longMessage (by decide) (by decide)] at hfind
    exact absurd (h.number 239 hfind) (by decide)
  · obtain ⟨⟨c, hc, -⟩, -⟩ := h.name [] (nameFile_hotplug [])
    cases hc

end LinuxSamples.Netlink
