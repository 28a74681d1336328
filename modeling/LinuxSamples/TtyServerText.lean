import LinuxSamples.CString
import LinuxSamples.TtyServer

/-!
The text arrays of `server.c`.

A line goes from `fgets` into the text of a read request, from there into the client's `string`,
with a heading into `formatted`, and into the text of a write request. All four arrays have 128
bytes, and what an array holds before it is written to is arbitrary. There is no result where a byte
outside an array would be read or written. The heading has six characters, for which `formatted` has
no room behind the 127 that a read can bring.
-/

namespace LinuxSamples.TtyServerText

open LinuxSamples.CString
open LinuxSamples.TtyServer (Op)

def CLIENT_THREADS : ℕ := 4

/-- `char prompt[32]`. -/
abbrev Prompt := {xs : List UInt8 // xs.length = 32}

/-- `char text[128]`, and the client's `string` and `formatted`. -/
abbrev Text := {xs : List UInt8 // xs.length = 128}

/-- The arrays of a `request_t`, as `malloc` returns them. -/
structure Request where
  prompt : Prompt
  text : Text

/-- `printf` with a string and nothing behind it. A conversion would have no argument. -/
def printf (format : List UInt8) : Option (List UInt8) :=
  (str format).bind fun s => if 37 ∈ s then none else some s

def puts (xs : List UInt8) : Option (List UInt8) := (str xs).map (· ++ [newline])

/-- `fgets`, and an empty text if there is nothing to read. -/
def readLine (text stdin : List UInt8) : Option (List UInt8) :=
  match fgets text stdin with
  | none => put text 0 0
  | some (text, _) => some text

/-- The newline at the end of the text is overwritten. -/
def chop (text : List UInt8) : Option (List UInt8) := do
  let len ← strlen text
  if 0 < len ∧ text[len - 1]? = some newline then put text (len - 1) 0 else some text

/-- What `tty_server_routine` does with a request: what it prints, and the text it leaves. -/
def process (operation : Op) (prompt text stdin : List UInt8) :
    Option (List UInt8 × List UInt8) :=
  match operation with
  | .quit | .other => some ([], text)
  | .read => do
    let len ← strlen prompt
    let out ← if 0 < len then printf prompt else some []
    let text ← readLine text stdin
    let text ← chop text
    some (out, text)
  | .write => do
    let out ← puts text
    some (out, text)

def reply (string text : List UInt8) : Option (List UInt8) := do
  let len ← strlen text
  if 0 < len then strcpy string text else put string 0 0

/-- `tty_server_request` and the service of the request: what is printed, and `string`. Nobody else
has the request, so it does not matter when it is served. -/
def ttyServerRequest (operation : Op) (sync : Bool) (prompt : Option (List UInt8))
    (string : List UInt8) (request : Request) (stdin : List UInt8) :
    Option (List UInt8 × List UInt8) := do
  let reqPrompt ← match prompt with
    | some prompt => strncpy 32 request.prompt.1 prompt
    | none => put request.prompt.1 0 0
  let text ← if operation = .write then strncpy 128 request.text.1 string
    else put request.text.1 0 0
  let served ← process operation reqPrompt text stdin
  let string ← if sync ∧ operation = .read then reply string served.2 else some string
  some (served.1, string)

/-- `Client %d> ` -/
def promptText (my : ℕ) : List UInt8 := ascii "Client " ++ bytes (sprintfD my) ++ ascii "> "

/-- `(%d#%d) ` -/
def heading (my loops : ℕ) : List UInt8 :=
  ascii "(" ++ bytes (sprintfD my) ++ ascii "#" ++ bytes (sprintfD loops) ++ ascii ") "

/-- What a pass of the client's loop meets: the input at the time of its read, and the memory of its
requests. -/
structure Round where
  stdin : List UInt8
  read : Request
  write : ℕ → Request

/-- The inner loop, over what is left of its values. -/
def writeLoop (my : ℕ) (string : List UInt8) (write : ℕ → Request) :
    List ℕ → (formatted : List UInt8) → Option (List (List UInt8) × List UInt8)
  | [], formatted => some ([], formatted)
  | loops :: more, formatted => do
    let s ← str string
    let formatted ← store formatted (heading my loops ++ s)
    let served ← ttyServerRequest .write false none formatted (write loops) []
    let rest ← writeLoop my string write more formatted
    some (served.1 :: rest.1, rest.2)

/-- The outer loop, for as many rounds as are given: what is printed. -/
def clientLoop (my : ℕ) (prompt : List UInt8) :
    List Round → (string formatted : List UInt8) → Option (List (List UInt8))
  | [], _, _ => some []
  | r :: rs, string, formatted => do
    let served ← ttyServerRequest .read true (some prompt) string r.read r.stdin
    let len ← strlen served.2
    if len = 0 then some [served.1]
    else do
      let lines ← writeLoop my served.2 r.write [0, 1, 2, 3] formatted
      let rest ← clientLoop my prompt rs served.2 lines.2
      some (served.1 :: lines.1 ++ rest)

/-- `client_routine`, up to the end of its loop. -/
def clientRoutine (my : ℕ) (prompt : Prompt) (string formatted : Text) (rounds : List Round) :
    Option (List (List UInt8)) := do
  let prompt ← store prompt.1 (promptText my)
  clientLoop my prompt rounds string.1 formatted.1

/-! ### What is to be printed -/

def chopped (s : List UInt8) : List UInt8 :=
  if s.getLast? = some newline then s.dropLast else s

/-- The text that a read takes from the input. -/
def textRead (stdin : List UInt8) : List UInt8 :=
  chopped ((piece 127 stdin).takeWhile (· ≠ 0))

def linesOf (my : ℕ) (loops : List ℕ) (text : List UInt8) : List (List UInt8) :=
  loops.map fun l => heading my l ++ text ++ [newline]

/-- The client prompts, and prints each text it reads four times, up to the first empty one. -/
def expected (my : ℕ) : List Round → List (List UInt8)
  | [] => []
  | r :: rs =>
    if textRead r.stdin = [] then [promptText my]
    else promptText my :: linesOf my [0, 1, 2, 3] (textRead r.stdin) ++ expected my rs

/-- The rounds in which there is something to print. -/
def served (rounds : List Round) : List Round := rounds.takeWhile fun r => textRead r.stdin ≠ []

/-! ### The arrays -/

section

variable {xs s stdin : List UInt8} {my : ℕ}

lemma holds_put_zero {n : ℕ} (hxs : xs.length = n) (hn : 0 < n) :
    ∃ ys, put xs 0 0 = some ys ∧ ys.length = n ∧ Holds ys [] := by
  obtain ⟨c, cs, rfl⟩ := List.exists_cons_of_length_pos (hxs ▸ hn)
  exact ⟨0 :: cs, rfl, hxs, List.not_mem_nil, cs, rfl⟩

lemma getElem?_last (h : Holds xs s) (hs : 0 < s.length) :
    xs[s.length - 1]? = s.getLast? := by
  obtain ⟨-, rest, rfl⟩ := h
  rw [List.getElem?_append_left (by omega), List.getLast?_eq_getElem?]

lemma holds_chop (h : Holds xs s) :
    ∃ ys, chop xs = some ys ∧ ys.length = xs.length ∧ Holds ys (chopped s) := by
  simp only [TtyServerText.chop, h.strlen, Option.bind_eq_bind, Option.bind_some]
  rcases Nat.eq_zero_or_pos s.length with hzero | hpos
  · obtain rfl := List.length_eq_zero_iff.mp hzero
    exact ⟨xs, if_neg (by simp), rfl, h⟩
  · rw [getElem?_last h hpos, chopped]
    by_cases hlast : s.getLast? = some newline
    · obtain ⟨ys, hys, hholds⟩ := h.put (i := s.length - 1) (by omega)
      rw [if_pos ⟨hpos, hlast⟩, if_pos hlast, List.dropLast_eq_take]
      refine ⟨ys, hys, ?_, hholds⟩
      have hlt := h.length_lt
      rw [CString.put, if_pos (by omega)] at hys
      rw [← Option.some.inj hys, List.length_set]
    · rw [if_neg fun h => hlast h.2, if_neg hlast]
      exact ⟨xs, rfl, rfl, h⟩

lemma length_textRead_lt (stdin : List UInt8) : (textRead stdin).length < 128 := by
  have hpiece := length_piece_le 127 stdin
  have htake := ( List.takeWhile_prefix (l := piece 127 stdin) (p := (· ≠ 0))).length_le
  have hchop : (textRead stdin).length ≤ ((piece 127 stdin).takeWhile (· ≠ 0)).length := by
    unfold textRead chopped
    split
    · exact (List.dropLast_prefix _).length_le
    · exact le_rfl
  omega

lemma holds_read (hlen : xs.length = 128) (stdin : List UInt8) :
    ∃ ys, (readLine xs stdin).bind chop = some ys ∧ ys.length = 128 ∧
      Holds ys (textRead stdin) := by
  by_cases hend : stdin = []
  · subst hend
    obtain ⟨ys, hys, hylen, hholds⟩ := holds_put_zero hlen (by decide)
    obtain ⟨zs, hzs, hzlen, hchop⟩ := holds_chop hholds
    refine ⟨zs, ?_, by omega, hchop⟩
    have hread : readLine xs [] = put xs 0 0 := rfl
    rw [hread, hys, Option.bind_some, hzs]
  · rw [readLine, fgets_eq hend, hlen, Option.bind_some]
    obtain ⟨ys, hys, hylen, hholds⟩ :=
      holds_chop (holds_append_zero (piece 127 stdin) (xs.drop ((piece 127 stdin).length + 1)))
    have hpiece := length_piece_le 127 stdin
    refine ⟨ys, hys, ?_, hholds⟩
    rw [hylen, List.length_append, List.length_cons, List.length_drop]
    omega

lemma holds_reply {text : List UInt8} (hlen : xs.length = 128) (h : Holds text s)
    (hs : s.length < 128) :
    ∃ ys, reply xs text = some ys ∧ ys.length = 128 ∧ Holds ys s := by
  simp only [reply, h.strlen, Option.bind_eq_bind, Option.bind_some]
  by_cases hpos : 0 < s.length
  · rw [if_pos hpos, h.strcpy (by omega)]
    refine ⟨_, rfl, ?_, h.copied _⟩
    rw [List.length_append, List.length_cons, List.length_drop]
    omega
  · obtain rfl := List.length_eq_zero_iff.mp (Nat.eq_zero_of_not_pos hpos)
    obtain ⟨ys, hys, hylen, hholds⟩ := holds_put_zero hlen (by decide)
    exact ⟨ys, (if_neg hpos).trans hys, by omega, hholds⟩

lemma process_read {prompt text : List UInt8} (hp : Holds prompt s) (hs : s ≠ []) (hplain : 37 ∉ s)
    (hlen : text.length = 128) (stdin : List UInt8) :
    ∃ ys, process .read prompt text stdin = some (s, ys) ∧ ys.length = 128 ∧
      Holds ys (textRead stdin) := by
  obtain ⟨ys, hys, hylen, hholds⟩ := holds_read hlen stdin
  have hprint : printf prompt = some s := by
    rw [printf, hp.str, Option.bind_some, if_neg hplain]
  refine ⟨ys, ?_, hylen, hholds⟩
  simp only [process, hp.strlen, Option.bind_eq_bind, Option.bind_some,
    if_pos (List.length_pos_iff.mpr hs), hprint]
  rw [← Option.bind_assoc, hys, Option.bind_some]

lemma request_read {prompt string : List UInt8} (hp : Holds prompt s) (hs : s ≠ [])
    (hshort : s.length < 32) (hplain : 37 ∉ s) (hlen : string.length = 128) (request : Request)
    (stdin : List UInt8) :
    ∃ ys, ttyServerRequest .read true (some prompt) string request stdin = some (s, ys) ∧
      ys.length = 128 ∧ Holds ys (textRead stdin) := by
  obtain ⟨ps, hps, -, hpholds⟩ := hp.strncpy hshort request.prompt.2.ge
  obtain ⟨ts, hts, htlen, -⟩ := holds_put_zero request.text.2 (by decide)
  obtain ⟨us, hus, -, huholds⟩ := process_read hpholds hs hplain htlen stdin
  obtain ⟨ys, hys, hylen, hyholds⟩ := holds_reply hlen huholds (length_textRead_lt stdin)
  refine ⟨ys, ?_, hylen, hyholds⟩
  simp [ttyServerRequest, hps, hts, hus, hys]

/-- **A write request** prints the string, if it has room in the text of the request. -/
lemma request_write (h : Holds xs s) (hs : s.length < 128) (request : Request)
    (stdin : List UInt8) :
    ttyServerRequest .write false none xs request stdin = some (s ++ [newline], xs) := by
  obtain ⟨ps, hps, -, -⟩ := holds_put_zero request.prompt.2 (by decide)
  obtain ⟨ts, hts, -, hholds⟩ := h.strncpy hs request.text.2.ge
  simp [ttyServerRequest, process, puts, hps, hts, hholds.str]

/-! ### The loops -/

lemma heading_spec (hmy : my < CLIENT_THREADS) {l : ℕ} (hl : l < 4) :
    (heading my l).length = 6 ∧ 0 ∉ heading my l := by
  revert my l
  decide

lemma promptText_spec (hmy : my < CLIENT_THREADS) :
    (promptText my).length = 10 ∧ 0 ∉ promptText my ∧ 37 ∉ promptText my := by
  revert my
  decide

lemma writeLoop_of_short (hmy : my < CLIENT_THREADS) {string : List UInt8} (h : Holds string s)
    (hs : s.length ≤ 121) (write : ℕ → Request) (loops : List ℕ) (hloops : ∀ l ∈ loops, l < 4)
    {formatted : List UInt8} (hlen : formatted.length = 128) :
    ∃ ys, writeLoop my string write loops formatted = some (linesOf my loops s, ys) ∧
      ys.length = 128 := by
  induction loops generalizing formatted with
  | nil => exact ⟨formatted, rfl, hlen⟩
  | cons l loops ih =>
    obtain ⟨hl, hloops⟩ := List.forall_mem_cons.mp hloops
    obtain ⟨hhead, hzero⟩ := heading_spec hmy hl
    have htext : (heading my l ++ s).length < 128 := by
      rw [List.length_append]
      omega
    have hclean : 0 ∉ heading my l ++ s := by
      rw [List.mem_append, not_or]
      exact ⟨hzero, h.zero⟩
    obtain ⟨fs, hfs, hflen, hfholds⟩ := holds_store hlen hclean htext
    obtain ⟨ys, hys, hylen⟩ := ih hloops hflen
    refine ⟨ys, ?_, hylen⟩
    simp [writeLoop, linesOf, h.str, hfs, request_write hfholds htext, hys]

lemma writeLoop_of_long (hmy : my < CLIENT_THREADS) {string : List UInt8} (h : Holds string s)
    (hs : 121 < s.length) (write : ℕ → Request) (loops : List ℕ) {l : ℕ} (hl : l < 4)
    {formatted : List UInt8} (hlen : formatted.length = 128) :
    writeLoop my string write (l :: loops) formatted = none := by
  have hfull : store formatted (heading my l ++ s) = none := by
    refine if_neg ?_
    rw [List.length_append, (heading_spec hmy hl).1]
    omega
  simp [writeLoop, h.str, hfull]

lemma clientLoop_eq (hmy : my < CLIENT_THREADS) {prompt : List UInt8}
    (hp : Holds prompt (promptText my)) (rounds : List Round) {string formatted : List UInt8}
    (hstring : string.length = 128) (hformatted : formatted.length = 128) :
    clientLoop my prompt rounds string formatted =
      if ∀ r ∈ served rounds, (textRead r.stdin).length ≤ 121 then some (expected my rounds)
      else none := by
  induction rounds generalizing string formatted with
  | nil => rw [if_pos (by simp [served])]; rfl
  | cons r rs ih =>
    obtain ⟨hplen, -, hplain⟩ := promptText_spec hmy
    have hpne : promptText my ≠ [] := List.ne_nil_of_length_pos (by omega)
    obtain ⟨ys, hys, hylen, hholds⟩ :=
      request_read hp hpne (by omega) hplain hstring r.read r.stdin
    by_cases hempty : textRead r.stdin = []
    · rw [hempty] at hholds
      simp [clientLoop, hys, hholds.strlen, served, expected, hempty]
    · have hlen : (textRead r.stdin).length ≠ 0 := fun h => hempty (List.length_eq_zero_iff.mp h)
      have hserved : served (r :: rs) = r :: served rs :=
        List.takeWhile_cons_of_pos (decide_eq_true hempty)
      simp only [hserved, List.forall_mem_cons]
      by_cases hshort : (textRead r.stdin).length ≤ 121
      · obtain ⟨fs, hfs, hflen⟩ := writeLoop_of_short hmy hholds hshort r.write
          [0, 1, 2, 3] (by decide) hformatted
        simp only [clientLoop, hys, hholds.strlen, hfs, ih hylen hflen, Option.bind_eq_bind,
          Option.bind_some, if_neg hlen, expected, if_neg hempty, hshort, true_and]
        split <;> rfl
      · rw [if_neg fun h => hshort h.1]
        have hfull := writeLoop_of_long hmy hholds (Nat.lt_of_not_le hshort) r.write
          [1, 2, 3] (l := 0) (by decide) hformatted
        simp [clientLoop, hys, hholds.strlen, hlen, hfull]

end

/-- **A client prints what it should if no text it reads is longer than 121 bytes**, and otherwise
writes behind the end of `formatted`. -/
theorem tty_text_eq {my : ℕ} (hmy : my < CLIENT_THREADS) (prompt : Prompt)
    (string formatted : Text) (rounds : List Round) :
    clientRoutine my prompt string formatted rounds =
      if ∀ r ∈ served rounds, (textRead r.stdin).length ≤ 121 then some (expected my rounds)
      else none := by
  obtain ⟨hplen, hzero, -⟩ := promptText_spec hmy
  obtain ⟨ps, hps, -, hholds⟩ := holds_store prompt.2 hzero (by omega)
  rw [clientRoutine, hps]
  exact clientLoop_eq hmy hholds rounds string.2 formatted.2

def zeroRequest : Request := ⟨⟨List.replicate 32 0, rfl⟩, ⟨List.replicate 128 0, rfl⟩⟩

def typed (n : ℕ) : Round := ⟨List.replicate n 97 ++ [newline], zeroRequest, fun _ => zeroRequest⟩

theorem tty_text_eq_two_lines :
    clientRoutine 2 zeroRequest.prompt zeroRequest.text zeroRequest.text [typed 3, typed 0] =
      some (expected 2 [typed 3, typed 0]) := by
  rw [tty_text_eq (by decide), if_pos (by decide)]

/-- The 122 letters, the heading and the zero take 129 bytes. -/
theorem tty_text_overruns :
    clientRoutine 0 zeroRequest.prompt zeroRequest.text zeroRequest.text [typed 122] = none ∧
      (textRead (typed 122).stdin).length = 122 := by
  decide +kernel

end LinuxSamples.TtyServerText
