/-
# Sending a file

`http_send_data` sends what TCP takes of a file, and goes on where it stopped
when it is called again. A file with tags is scanned on the way: the scanner
runs ahead of what is sent (`parsed`, `file`), and behind each tag the text is
sent that `get_tag_insert` put into `tag_insert`.

TCP, the heap and the application's handlers are an `Env`: functions on a state
of theirs. Of `tcp_write` nothing is assumed but that it takes all of the bytes
it is given if it answers `ERR_OK`, and none if not.
-/
import Serial2Ethernet.Hardware.Board
import Serial2Ethernet.Http.Httpd
import Serial2Ethernet.Http.Ssi

namespace Serial2Ethernet
namespace Httpd

open Fs Ssi

/-- `err_t`, as far as the code tells them apart. -/
inductive Err
  | ok
  | mem
  | other
  deriving DecidableEq, Repr

/-- The handler of a URI: it answers with the file to send, or faults. -/
structure Cgi (P : Type) where
  pcCGIName : List UInt8
  pfnCGIHandler : P → List Param → Except Fault (List UInt8 × P)

/-- What is called: TCP on a connection, the heap, the application's handlers. -/
structure Env (P : Type) where
  tcpSndbuf : P → ℕ
  tcpMss : P → ℕ
  /-- `pcb->snd_queuelen >= TCP_SND_QUEUELEN` -/
  queueFull : P → Bool
  tcpWrite : P → (ptr : List UInt8) → (copy : Bool) → Err × P
  tcpClose : P → Err × P
  memMalloc : P → (size : ℕ) → Bool × P
  gPpcTags : List (List UInt8)
  gPfnSSIHandler : P → (iIndex : ℕ) → List UInt8
  gPCGIs : List (Cgi P)
  /-- `sizeof(struct http_state)` -/
  httpStateSize : ℕ

inductive TagCheckState
  | none
  | leadIn
  | found
  | leadOut
  | sending
  deriving DecidableEq, Repr

/-- The state of a connection. `file`, `parsed` and `tagEnd` are pointers into `block`; `file`
is the null pointer exactly if `handle` is. The insert is `tagInsert` up to its end, and its
length that of the list. -/
structure HttpState where
  handle : Option (Fin lwipMaxOpenFiles)
  block : List UInt8
  file : ℕ
  /-- The segments of the request that were received so far. -/
  req : List (List UInt8)
  /-- The length of the file read buffer, if there is one. -/
  buf : Option ℕ
  left : ℕ
  retries : UInt8
  parsed : ℕ
  tagEnd : ℕ
  parseLeft : ℕ
  tagIndex : ℕ
  tagCheck : Bool
  tagName : ℕ → UInt8
  tagInsert : List UInt8
  tagState : TagCheckState

/-- What a call has written to TCP so far, and the state of the rest. -/
structure Io (P : Type) where
  world : P
  sent : List UInt8

/-- The variables of `http_send_data`. -/
structure Sender (P : Type) where
  io : Io P
  hs : HttpState
  len : ℕ
  err : Err
  dataToSend : Bool

/-- What becomes of the connection: it goes on, or its state is freed, and it is closed or
will be in the next poll. -/
inductive Conn
  | active (hs : HttpState)
  | closing
  | closed

/-- What a call leaves, and what it returns. -/
structure Done (P : Type) where
  conn : Conn
  fs : FsMemory
  io : Io P
  ret : Bool

/-- `len` bytes at a pointer into `mem`. -/
def slice (mem : List UInt8) (ptr len : ℕ) : Except Fault (List UInt8) :=
  if ptr + len ≤ mem.length then .ok ((mem.drop ptr).take len) else .error (.read (ptr + len))

section Send

variable {P : Type} (E : Env P)

/-- Call `tcp_write` in a loop trying smaller and smaller length; the answer has the
length of the last attempt, or of the next one that was not made. -/
def httpWrite (ptr : List UInt8) (copy : Bool) (len : ℕ) (io : Io P) : Err × ℕ × Io P :=
  match E.tcpWrite io.world (ptr.take len) copy with
  | (.ok, w) => (.ok, len, ⟨w, io.sent ++ ptr.take len⟩)
  | (.other, w) => (.other, len, ⟨w, io.sent⟩)
  | (.mem, w) =>
    let next := if E.tcpSndbuf w = 0 ∨ E.queueFull w then 1 else len / 2
    if _h : 1 < next then httpWrite ptr copy next ⟨w, io.sent⟩ else (.mem, next, ⟨w, io.sent⟩)
termination_by len
decreasing_by
  have hnext : 1 < if E.tcpSndbuf w = 0 ∨ E.queueFull w then 1 else len / 2 := _h
  show (if E.tcpSndbuf w = 0 ∨ E.queueFull w then 1 else len / 2) < len
  split at hnext
  · omega
  · next hc =>
    rw [if_neg hc]
    omega

/-- The C string in an array of `size` characters. -/
def cString (size : ℕ) (a : ℕ → UInt8) : List UInt8 := ((List.range size).map a).takeWhile (· ≠ 0)

def lwipHttpdMaxTagInsertLen : ℕ := 192

/-- `UNKNOWN_TAG1_TEXT`, 18 bytes -/
def unknownTag1Text : List UInt8 := text "<b>***UNKNOWN TAG "

/-- `UNKNOWN_TAG2_TEXT`, 7 bytes -/
def unknownTag2Text : List UInt8 := text "***</b>"

/-- The text to insert for a name. -/
def getTagInsert (w : P) (tagName : List UInt8) : List UInt8 :=
  match E.gPpcTags.findIdx? (· = tagName) with
  | some loop => E.gPfnSSIHandler w loop
  | none =>
    let len := min tagName.length (lwipHttpdMaxTagInsertLen - (18 + 7))
    unknownTag1Text ++ tagName.take len ++ unknownTag2Text

/-- Close the connection: its state is freed, and the file it has open. -/
def httpCloseConn (hs : Option HttpState) (fs : FsMemory) (io : Io P) : Conn × FsMemory × Io P :=
  let fs := match hs.bind HttpState.handle with
    | some file => fsClose fs file
    | none => fs
  match E.tcpClose io.world with
  | (.ok, w) => (.closed, fs, ⟨w, io.sent⟩)
  | (_, w) => (.closing, fs, ⟨w, io.sent⟩)

/-- Close, and return. -/
def closeAndReturn (hs : HttpState) (fs : FsMemory) (io : Io P) (ret : Bool) : Done P :=
  let r := httpCloseConn E (some hs) fs io
  ⟨r.1, r.2.1, r.2.2, ret⟩

/-! ### The pieces of the loop -/

/-- `n` more bytes of the block are sent. -/
def HttpState.sentFile (hs : HttpState) (n : ℕ) : HttpState := { hs with file := hs.file + n, left := hs.left - n }

/-- `n` more bytes of the insert are sent. -/
def HttpState.sentInsert (hs : HttpState) (n : ℕ) : HttpState := { hs with tagIndex := hs.tagIndex + n }

/-- Write `len` bytes at a pointer into `mem`; `advance` is what is done about those that were taken. -/
def send (s : Sender P) (mem : List UInt8) (ptr len : ℕ) (copy : Bool) (advance : ℕ → HttpState) :
    Except Fault (Sender P) :=
  match slice mem ptr len with
  | .error e => .error e
  | .ok bytes =>
    match httpWrite E bytes copy len s.io with
    | (.ok, len, io) => .ok { s with io, len, err := .ok, dataToSend := true, hs := advance len }
    | (err, len, io) => .ok { s with io, len, err }

/-- Send `len` bytes of the block from `file` on. -/
def sendFile (s : Sender P) (len : ℕ) : Except Fault (Sender P) :=
  send E s s.hs.block s.hs.file len s.hs.tagCheck s.hs.sentFile

/-- Send `len` bytes of the insert from `tagIndex` on. -/
def sendInsert (s : Sender P) (len : ℕ) : Except Fault (Sender P) :=
  send E s s.hs.tagInsert s.hs.tagIndex len true s.hs.sentInsert

/-- How much of `n` bytes is sent at a time. -/
def window (w : P) (n : ℕ) : ℕ :=
  let len := if E.tcpSndbuf w < n then E.tcpSndbuf w else n
  if 2 * E.tcpMss w < len then 2 * E.tcpMss w else len

/-- `*hs->parsed` -/
def HttpState.char (hs : HttpState) : Except Fault UInt8 :=
  match hs.block[hs.parsed]? with
  | some b => .ok b
  | none => .error (.read hs.parsed)

/-- Move on to the next character in the buffer. -/
def HttpState.next (hs : HttpState) : HttpState :=
  { hs with parseLeft := hs.parseLeft - 1, parsed := hs.parsed + 1 }

def HttpState.setState (hs : HttpState) (tagState : TagCheckState) : HttpState := { hs with tagState }

def HttpState.setIndex (hs : HttpState) (tagIndex : ℕ) : HttpState := { hs with tagIndex }

/-- `hs->tag_name[i] = c` -/
def HttpState.setName (hs : HttpState) (i : ℕ) (c : UInt8) : HttpState :=
  { hs with tagName := Function.update hs.tagName i c }

/-- `case TAG_NONE` -/
def tagNone (hs : HttpState) (b : UInt8) : HttpState :=
  if gPcTagLeadIn[0]? = some b then ((hs.setState .leadIn).setIndex 1).next else hs.next

/-- `case TAG_LEADIN`, before the end of the lead-in -/
def tagLeadIn (hs : HttpState) (b : UInt8) : HttpState :=
  if gPcTagLeadIn[hs.tagIndex]? = some b then (hs.setIndex (hs.tagIndex + 1)).next
  else (hs.setState .none).next

/-- `case TAG_FOUND` -/
def tagFound (hs : HttpState) (b : UInt8) : HttpState :=
  if hs.tagIndex = 0 ∧ Blank b then hs.next
  else if gPcTagLeadOut[0]? = some b ∨ Blank b then
    if hs.tagIndex = 0 then (hs.setState .none).next
    else
      (((hs.setState .leadOut).setName hs.tagIndex 0).setIndex (if gPcTagLeadOut[0]? = some b then 1 else 0)).next
  else if hs.tagIndex < lwipHttpdMaxTagNameLen then ((hs.setName hs.tagIndex b).setIndex (hs.tagIndex + 1)).next
  else (hs.setState .none).next

/-- A tag has ended: its insert is asked for. -/
def HttpState.insert (hs : HttpState) (tagInsert : List UInt8) : HttpState :=
  { hs with tagInsert, tagIndex := 0, tagState := .sending, tagEnd := hs.parsed }

/-- `case TAG_LEADOUT` -/
def tagLeadOut (s : Sender P) (b : UInt8) : Except Fault (Sender P) :=
  if s.hs.tagIndex = 0 ∧ Blank b then .ok { s with hs := s.hs.next }
  else if gPcTagLeadOut[s.hs.tagIndex]? = some b then
    if s.hs.tagIndex = lenTagLeadOut - 1 then
      let hs := s.hs.next.insert
        (getTagInsert E s.io.world (cString (lwipHttpdMaxTagNameLen + 1) s.hs.tagName))
      if hs.file < hs.tagEnd then
        sendFile E { s with hs } (if hs.tagEnd - hs.file < s.len then hs.tagEnd - hs.file else s.len)
      else .ok { s with hs }
    else .ok { s with hs := (s.hs.setIndex (s.hs.tagIndex + 1)).next }
  else .ok { s with hs := (s.hs.setState .none).next }

/-- `case TAG_SENDING` -/
def tagSending (s : Sender P) : Except Fault (Sender P) :=
  if s.hs.file < s.hs.tagEnd then
    let len := if s.hs.tagEnd - s.hs.file < s.len then s.hs.tagEnd - s.hs.file else s.len
    if len ≠ 0 then sendFile E s len else .ok { s with len, err := .ok, dataToSend := true }
  else if s.hs.tagIndex < s.hs.tagInsert.length then
    sendInsert E s (if s.hs.tagInsert.length - s.hs.tagIndex < s.len then s.hs.tagInsert.length - s.hs.tagIndex
      else s.len)
  else .ok { s with hs := (s.hs.setIndex 0).setState .none }

/-- One round of the loop. -/
def tagStep (s : Sender P) : Except Fault (Sender P) :=
  match s.hs.tagState with
  | .none => s.hs.char.map fun b => { s with hs := tagNone s.hs b }
  | .leadIn =>
    if s.hs.tagIndex = lenTagLeadIn then .ok { s with hs := (s.hs.setIndex 0).setState .found }
    else s.hs.char.map fun b => { s with hs := tagLeadIn s.hs b }
  | .found => s.hs.char.map fun b => { s with hs := tagFound s.hs b }
  | .leadOut => s.hs.char.bind fun b => tagLeadOut E s b
  | .sending => tagSending E s

/-- What a round that reads nothing has to do before the scanner goes on. -/
def HttpState.rank (hs : HttpState) : ℕ :=
  match hs.tagState with
  | .leadIn => 1
  | .sending => 1 + (hs.tagEnd - hs.file) + (hs.tagInsert.length - hs.tagIndex)
  | _ => 0

/-! ### Writing -/

/-- What is called keeps a property of its state. -/
structure Env.Keeps (J : P → Prop) : Prop where
  tcpWrite : ∀ w ptr copy, J w → J (E.tcpWrite w ptr copy).2
  tcpClose : ∀ w, J w → J (E.tcpClose w).2
  memMalloc : ∀ w size, J w → J (E.memMalloc w size).2

theorem Env.Keeps.of_true (E : Env P) : E.Keeps fun _ => True :=
  ⟨fun _ _ _ _ => trivial, fun _ _ => trivial, fun _ _ _ => trivial⟩

variable {E} {J : P → Prop} (hE : E.Keeps J)
include hE

/-- Either some of the bytes were taken, at least one if there is one, or none. -/
theorem httpWrite_cases (ptr : List UInt8) (copy : Bool) (len : ℕ) (io : Io P) (hJ : J io.world) :
    (∃ n w, httpWrite E ptr copy len io = (.ok, n, ⟨w, io.sent ++ ptr.take n⟩) ∧
      n ≤ len ∧ (0 < len → 0 < n) ∧ J w) ∨
    ∃ err n w, httpWrite E ptr copy len io = (err, n, ⟨w, io.sent⟩) ∧ err ≠ .ok ∧ J w := by
  induction len using Nat.strong_induction_on generalizing io with
  | _ len ih =>
    rw [httpWrite]
    have hw' := hE.tcpWrite io.world (ptr.take len) copy hJ
    rcases hw : E.tcpWrite io.world (ptr.take len) copy with ⟨err, w⟩
    rw [hw] at hw'
    cases err with
    | ok => exact .inl ⟨len, w, rfl, le_refl len, id, hw'⟩
    | other => exact .inr ⟨.other, len, w, rfl, nofun, hw'⟩
    | mem =>
      dsimp only
      by_cases hnext : 1 < if E.tcpSndbuf w = 0 ∨ E.queueFull w then 1 else len / 2
      · rw [dif_pos hnext]
        have hhalf : (if E.tcpSndbuf w = 0 ∨ E.queueFull w then 1 else len / 2) = len / 2 := by
          split at hnext
          · omega
          · next hc => exact if_neg hc
        rw [hhalf] at hnext ⊢
        rcases ih (len / 2) (by omega) ⟨w, io.sent⟩ hw' with ⟨n, w₁, h, hle, hpos, h₁⟩ | ⟨err, n, w₁, h, herr, h₁⟩
        · exact .inl ⟨n, w₁, h, by omega, fun _ => hpos (by omega), h₁⟩
        · exact .inr ⟨err, n, w₁, h, herr, h₁⟩
      · rw [dif_neg hnext]
        exact .inr ⟨.mem, _, w, rfl, nofun, hw'⟩

/-- The write did nothing but fail. -/
def Failed (J : P → Prop) (s s' : Sender P) : Prop :=
  ∃ err n w, s' = { s with io := ⟨w, s.io.sent⟩, len := n, err } ∧ err ≠ .ok ∧ J w

/-- A write within `mem`: some of the bytes were taken, or the write failed. -/
theorem send_cases (s : Sender P) {mem : List UInt8} {ptr len : ℕ} (copy : Bool) (advance : ℕ → HttpState)
    (hJ : J s.io.world) (h : ptr + len ≤ mem.length) :
    ∃ s', send E s mem ptr len copy advance = .ok s' ∧
      ((∃ n w, s' = ⟨⟨w, s.io.sent ++ (mem.drop ptr).take n⟩, advance n, n, .ok, true⟩ ∧
        n ≤ len ∧ (0 < len → 0 < n) ∧ J w) ∨ Failed J s s') := by
  unfold send slice
  rw [if_pos h]
  dsimp only
  rcases httpWrite_cases hE ((mem.drop ptr).take len) copy len s.io hJ with
    ⟨n, w, hw, hle, hpos, hw'⟩ | ⟨err, n, w, hw, herr, hw'⟩
  · rw [hw, List.take_take, Nat.min_eq_left hle]
    exact ⟨_, rfl, .inl ⟨n, w, rfl, hle, hpos, hw'⟩⟩
  · rw [hw]
    refine ⟨{ s with io := ⟨w, s.io.sent⟩, len := n, err }, ?_, .inr ⟨err, n, w, rfl, herr, hw'⟩⟩
    cases err with
    | ok => exact absurd rfl herr
    | mem => rfl
    | other => rfl

omit hE in
/-- A write that was made was one within `mem`. -/
theorem send_bound {s s' : Sender P} {mem : List UInt8} {ptr len : ℕ} {copy : Bool} {advance : ℕ → HttpState}
    (h : send E s mem ptr len copy advance = .ok s') : ptr + len ≤ mem.length := by
  unfold send slice at h
  by_contra hc
  rw [if_neg hc] at h
  cases h

omit hE in
/-- What a write that was made did: it failed, or the state has advanced. -/
theorem send_inv {s s' : Sender P} {mem : List UInt8} {ptr len : ℕ} {copy : Bool} {advance : ℕ → HttpState}
    (h : send E s mem ptr len copy advance = .ok s') :
    s'.err ≠ .ok ∨ ∃ n, s'.hs = advance n ∧ (0 < len → 0 < n) := by
  obtain ⟨s₁, h₁, hs₁⟩ := send_cases (.of_true E) s copy advance trivial (send_bound h)
  rw [h] at h₁
  obtain rfl := Except.ok.inj h₁
  rcases hs₁ with ⟨n, w, rfl, -, hpos, -⟩ | ⟨err, n, w, rfl, herr, -⟩
  · exact .inr ⟨n, rfl, hpos⟩
  · exact .inl herr

/-! ### The loop ends -/

/-- A round has failed, read a byte, or come closer to the next byte that is read. -/
def Smaller (s' s : Sender P) : Prop :=
  s'.err ≠ .ok ∨ s'.hs.parseLeft < s.hs.parseLeft ∨
    s'.hs.parseLeft = s.hs.parseLeft ∧ s'.hs.rank < s.hs.rank

section Rounds

omit hE

variable (hs : HttpState) (b : UInt8)

@[simp] theorem parseLeft_next : hs.next.parseLeft = hs.parseLeft - 1 := rfl
@[simp] theorem parseLeft_sentFile (n : ℕ) : (hs.sentFile n).parseLeft = hs.parseLeft := rfl

theorem parseLeft_tagNone : (tagNone hs b).parseLeft = hs.parseLeft - 1 := by
  unfold tagNone
  split <;> rfl

theorem parseLeft_tagLeadIn : (tagLeadIn hs b).parseLeft = hs.parseLeft - 1 := by
  unfold tagLeadIn
  split <;> rfl

theorem parseLeft_tagFound : (tagFound hs b).parseLeft = hs.parseLeft - 1 := by
  unfold tagFound
  repeat' split
  all_goals rfl

theorem char_map {f : UInt8 → HttpState} {s s' : Sender P} (hleft : s.hs.parseLeft ≠ 0)
    (hf : ∀ b, (f b).parseLeft = s.hs.parseLeft - 1) (h : (s.hs.char.map fun b => { s with hs := f b }) = .ok s') :
    Smaller s' s := by
  cases hb : s.hs.char with
  | error e => rw [hb] at h; cases h
  | ok b =>
    rw [hb] at h
    obtain rfl := Except.ok.inj h
    refine .inr (.inl ?_)
    rw [hf]
    omega

theorem tagLeadOut_smaller {s s' : Sender P} (hleft : s.hs.parseLeft ≠ 0) (h : tagLeadOut E s b = .ok s') :
    Smaller s' s := by
  have hnext : ∀ {hs' : HttpState}, hs'.parseLeft = s.hs.parseLeft - 1 → hs'.parseLeft < s.hs.parseLeft := by
    intro hs' he
    omega
  unfold tagLeadOut at h
  split at h
  · obtain rfl := Except.ok.inj h
    exact .inr (.inl (hnext rfl))
  · split at h
    · split at h
      · dsimp only at h
        split at h
        · rcases send_inv h with herr | ⟨n, hn, -⟩
          · exact .inl herr
          · exact .inr (.inl (hnext (by rw [hn]; rfl)))
        · obtain rfl := Except.ok.inj h
          exact .inr (.inl (hnext rfl))
      · obtain rfl := Except.ok.inj h
        exact .inr (.inl (hnext rfl))
    · obtain rfl := Except.ok.inj h
      exact .inr (.inl (hnext rfl))

theorem tagSending_smaller {s s' : Sender P} (hstate : s.hs.tagState = .sending) (hlen : s.len ≠ 0)
    (h : tagSending E s = .ok s') : Smaller s' s := by
  have hrank : s.hs.rank = 1 + (s.hs.tagEnd - s.hs.file) + (s.hs.tagInsert.length - s.hs.tagIndex) := by
    rw [HttpState.rank, hstate]
  unfold tagSending at h
  split at h
  · next hfile =>
    have hpos : 0 < if s.hs.tagEnd - s.hs.file < s.len then s.hs.tagEnd - s.hs.file else s.len := by
      split <;> omega
    dsimp only at h
    rw [if_pos hpos.ne'] at h
    rcases send_inv h with herr | ⟨n, hn, hn0⟩
    · exact .inl herr
    · have hrank' : s'.hs.rank =
          1 + (s.hs.tagEnd - (s.hs.file + n)) + (s.hs.tagInsert.length - s.hs.tagIndex) := by
        rw [hn, HttpState.rank, HttpState.sentFile, hstate]
      refine .inr (.inr ⟨by rw [hn]; rfl, ?_⟩)
      have := hn0 hpos
      omega
  · split at h
    · next hindex =>
      have hpos : 0 < if s.hs.tagInsert.length - s.hs.tagIndex < s.len then s.hs.tagInsert.length - s.hs.tagIndex
          else s.len := by
        split <;> omega
      rcases send_inv h with herr | ⟨n, hn, hn0⟩
      · exact .inl herr
      · have hrank' : s'.hs.rank =
            1 + (s.hs.tagEnd - s.hs.file) + (s.hs.tagInsert.length - (s.hs.tagIndex + n)) := by
          rw [hn, HttpState.rank, HttpState.sentInsert, hstate]
        refine .inr (.inr ⟨by rw [hn]; rfl, ?_⟩)
        have := hn0 hpos
        omega
    · obtain rfl := Except.ok.inj h
      refine .inr (.inr ⟨rfl, ?_⟩)
      have hrank' : ((s.hs.setIndex 0).setState .none).rank = 0 := rfl
      rw [hrank']
      omega

theorem tagStep_smaller {s s' : Sender P} (hleft : s.hs.parseLeft ≠ 0) (hlen : s.len ≠ 0)
    (h : tagStep E s = .ok s') : Smaller s' s := by
  unfold tagStep at h
  split at h
  · exact char_map hleft (parseLeft_tagNone s.hs) h
  · next hstate =>
    split at h
    · obtain rfl := Except.ok.inj h
      refine .inr (.inr ⟨rfl, ?_⟩)
      have hrank : s.hs.rank = 1 := by rw [HttpState.rank, hstate]
      rw [hrank]
      exact Nat.zero_lt_one
    · exact char_map hleft (parseLeft_tagLeadIn s.hs) h
  · exact char_map hleft (parseLeft_tagFound s.hs) h
  · cases hb : s.hs.char with
    | error e => rw [hb] at h; cases h
    | ok b =>
      rw [hb] at h
      exact tagLeadOut_smaller b hleft h
  · next hstate => exact tagSending_smaller hstate hlen h

end Rounds

end Send

/-! ### The function -/

section SendData

variable {P : Type} (E : Env P)

/-- The loop over the rest of the block; `true` says that the function returns from within. -/
def tagLoop (s : Sender P) : Except Fault (Bool × Sender P) :=
  if _hcond : s.hs.parseLeft ≠ 0 ∧ s.err = .ok then
    if _hlen : s.len = 0 then .ok (true, s)
    else
      match _hstep : tagStep E s with
      | .error e => .error e
      | .ok s' => tagLoop s'
  else .ok (false, s)
termination_by (if s.err = .ok then 1 else 0, s.hs.parseLeft, s.hs.rank)
decreasing_by
  rcases tagStep_smaller _hcond.1 _hlen _hstep with herr | hleft | ⟨hleft, hrank⟩
  · rw [if_neg herr, if_pos _hcond.2]
    exact .left _ _ Nat.zero_lt_one
  · by_cases herr : s'.err = .ok
    · rw [if_pos herr, if_pos _hcond.2]
      exact .right _ (.left _ _ hleft)
    · rw [if_neg herr, if_pos _hcond.2]
      exact .left _ _ Nat.zero_lt_one
  · by_cases herr : s'.err = .ok
    · rw [if_pos herr, if_pos _hcond.2, hleft]
      exact .right _ (.right _ hrank)
    · rw [if_neg herr, if_pos _hcond.2]
      exact .left _ _ Nat.zero_lt_one

/-- Try to get a buffer of `count` bytes, or of half as much, and so on. -/
def allocBuf (count : ℕ) (w : P) : Option ℕ × P :=
  match E.memMalloc w count with
  | (true, w) => (some count, w)
  | (false, w) => if 100 < count / 2 then allocBuf (count / 2) w else (none, w)
termination_by count

/-- What there is to do before anything is sent: the function returns, or the block has unsent bytes. -/
inductive Refill (P : Type)
  | ret (d : Done P)
  | go (hs : HttpState) (fs : FsMemory) (w : P)

/-- Have we run out of file data to send? If so, read the next block from the file. -/
def refill (hs : HttpState) (fs : FsMemory) (w : P) : Refill P :=
  if hs.left = 0 then
    match hs.handle with
    | none => .ret (closeAndReturn E hs fs ⟨w, []⟩ false)
    | some handle =>
      if fsBytesLeft (fs handle).file ≤ 0 then .ret (closeAndReturn E hs fs ⟨w, []⟩ false)
      else
        let r := match hs.buf with
          | some bufLen => (some bufLen, w)
          | none => allocBuf E (2 * E.tcpMss w) w
        match r.1 with
        | none => .ret ⟨.active hs, fs, ⟨r.2, []⟩, false⟩
        | some count =>
          match fsRead (fs handle).file count with
          | (none, _) => .ret (closeAndReturn E { hs with buf := some count } fs ⟨r.2, []⟩ true)
          | (some bytes, file) =>
            .go { hs with
                buf := some count, block := bytes, left := bytes.length, file := 0
                parseLeft := bytes.length, parsed := 0 }
              (Function.update fs handle ((fs handle).setFile file)) r.2
  else .go hs fs w

/-- Send without looking for tags. -/
def sendPlain (s : Sender P) : Except Fault (Bool × Sender P) :=
  (sendFile E s (window E s.io.world s.hs.left)).map fun s => (false, s)

/-- What is behind the loop: in any other state than `TAG_SENDING`, what was scanned is sent. -/
def sendScanned (s : Sender P) : Except Fault (Sender P) :=
  if s.hs.tagState ≠ .sending ∧ s.hs.file < s.hs.parsed then
    sendFile E s (window E s.io.world (s.hs.parsed - s.hs.file))
  else .ok s

/-- The loop, and what is behind it. -/
def sendLoop (s : Sender P) : Except Fault (Bool × Sender P) :=
  match tagLoop E s with
  | .error e => .error e
  | .ok (true, s) => .ok (true, s)
  | .ok (false, s) => (sendScanned E s).map fun s => (false, s)

/-- Scan for tags, and send. -/
def sendTags (s : Sender P) : Except Fault (Bool × Sender P) :=
  let s := { s with len := E.tcpSndbuf s.io.world }
  if s.hs.file < s.hs.parsed then
    match sendFile E s (window E s.io.world (s.hs.parsed - s.hs.file)) with
    | .error e => .error e
    | .ok s => if E.tcpSndbuf s.io.world = 0 then .ok (true, s) else sendLoop E s
  else sendLoop E s

/-- Try to send more data on this connection. -/
def httpSendData (hs : HttpState) (fs : FsMemory) (w : P) : Except Fault (Done P) :=
  match refill E hs fs w with
  | .ret d => .ok d
  | .go hs fs w =>
    let s : Sender P := ⟨⟨w, []⟩, hs, 0, .ok, false⟩
    match if hs.tagCheck then sendTags E s else sendPlain E s with
    | .error e => .error e
    | .ok (true, s) => .ok ⟨.active s.hs, fs, s.io, s.dataToSend⟩
    | .ok (false, s) =>
      if s.hs.left = 0 then
        match s.hs.handle with
        | none => .error .null
        | some handle =>
          if fsBytesLeft (fs handle).file ≤ 0 then .ok (closeAndReturn E s.hs fs s.io false)
          else .ok ⟨.active s.hs, fs, s.io, s.dataToSend⟩
      else .ok ⟨.active s.hs, fs, s.io, s.dataToSend⟩

end SendData

end Httpd
end Serial2Ethernet
