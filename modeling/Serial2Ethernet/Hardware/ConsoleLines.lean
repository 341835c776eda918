/-
# The lines of the console

What the bytes of a console mean: content up to a carriage return, of which the
first twenty bytes count; a line feed behind the carriage return emits the
line, any other byte there is dropped with it. `Reference` keeps the emitted
lines in a list without a bound and hands out the first of them. As long as a
slot is free when a line is complete, every `getCommand` answers as the
reference does, with the null pointer when it has none (`commands_match`).
-/
import Serial2Ethernet.Hardware.Console

namespace Serial2Ethernet
namespace Console

open Lib

/-! ### The reference -/

/-- The line so far: its content, or its content and a carriage return. -/
inductive Line
  | content (bytes : List UInt8)
  | ended (bytes : List UInt8)
  deriving DecidableEq, Repr

/-- The line after a byte, and the line the byte emits. -/
def Line.next : Line → UInt8 → Line × Option (List UInt8)
  | .content bytes, b =>
    if b = 0x0d then (.ended bytes, none)
    else if bytes.length < commandMaxSize then (.content (bytes ++ [b]), none)
    else (.content bytes, none)
  | .ended bytes, b => if b = 0x0a then (.content [], some bytes) else (.content [], none)

def linesFrom : Line → List UInt8 → List (List UInt8)
  | _, [] => []
  | line, b :: bs => (line.next b).2.toList ++ linesFrom (line.next b).1 bs

/-- A line as a command: its length and its bytes. -/
def command (line : List UInt8) : UInt16 × List UInt8 := (UInt16.ofNat line.length, line)

/-- The line so far, and the commands emitted and not handed out yet, oldest first. -/
structure Reference where
  line : Line
  queue : List (UInt16 × List UInt8)

/-- The output is the answer to `getCommand`. -/
def Reference.step (r : Reference) : Act → Except Fault (Reference × List (Option (UInt16 × List UInt8)))
  | .byte b => .ok (⟨(r.line.next b).1, r.queue ++ (r.line.next b).2.toList.map command⟩, [])
  | .getCommand => .ok (⟨r.line, r.queue.tail⟩, [r.queue.head?])

/-! ### Bytes and `getCommand`, with what it answers -/

/-- What there is to read in a command. -/
def ConsoleCmd.read (cmd : ConsoleCmd) : UInt16 × List UInt8 := (cmd.len, cmd.cmd.toList.take cmd.len.toNat)

/-- One action; the output is what there is to read in the answer, `none` the null pointer. -/
def takeStep (c : Globals) : Act → Except Fault (Globals × List (Option (UInt16 × List UInt8)))
  | .byte res => (usart3IrqHandler res c).map fun r => (r.1, [])
  | .getCommand => .ok ((getCommand c).2, [(getCommand c).1.map ConsoleCmd.read])

def received (as : List Act) : List UInt8 :=
  as.filterMap fun a => match a with | .byte res => some res | .getCommand => none

/-- A slot is free if the byte completes a line. -/
def Room (c : Globals) : Act → Prop
  | .byte res => Completes c res → c.cmdCnt < cmdMaxCnt
  | .getCommand => True

instance (c : Globals) : (a : Act) → Decidable (Room c a)
  | .byte res => inferInstanceAs (Decidable (Completes c res → _))
  | .getCommand => inferInstanceAs (Decidable True)

def pendingCommands (c : Globals) : List (UInt16 × List UInt8) :=
  (List.range c.cmdCnt).map fun k => (c.cmds[slot c.iCmdRead k]).read

/-! ### The state word and the buffer -/

theorem word_facts {n : ℕ} (h : n ≤ commandMaxSize) :
    UInt16.ofNat n &&& 0x8000 = 0 ∧ UInt16.ofNat n &&& 0x4000 = 0 ∧ (UInt16.ofNat n &&& 0x3fff).toNat = n ∧
      (UInt16.ofNat n ||| 0x4000) &&& 0x8000 = 0 ∧ (UInt16.ofNat n ||| 0x4000) &&& 0x4000 ≠ 0 ∧
      ((UInt16.ofNat n ||| 0x4000) ||| 0x8000) &&& 0x3fff = UInt16.ofNat n := by
  have hall : ∀ n : Fin 21, UInt16.ofNat n &&& 0x8000 = 0 ∧ UInt16.ofNat n &&& 0x4000 = 0 ∧
      (UInt16.ofNat n &&& 0x3fff).toNat = n ∧ (UInt16.ofNat n ||| 0x4000) &&& 0x8000 = 0 ∧
      (UInt16.ofNat n ||| 0x4000) &&& 0x4000 ≠ 0 ∧
      ((UInt16.ofNat n ||| 0x4000) ||| 0x8000) &&& 0x3fff = UInt16.ofNat n := by decide
  exact hall ⟨n, Nat.lt_succ_of_le h⟩

/-- The word and the buffer are those of the line. -/
def Globals.At (c : Globals) : Line → Prop
  | .content bytes => bytes.length ≤ commandMaxSize ∧ c.rxSta = UInt16.ofNat bytes.length ∧ bytes <+: c.rxBuf.toList
  | .ended bytes =>
    bytes.length ≤ commandMaxSize ∧ c.rxSta = UInt16.ofNat bytes.length ||| 0x4000 ∧ bytes <+: c.rxBuf.toList

/-- The slots from the read index on hold the commands, and the save index is behind them. -/
structure Globals.Queues (c : Globals) (queue : List (UInt16 × List UInt8)) : Prop where
  cnt : c.cmdCnt = queue.length
  le : queue.length ≤ cmdMaxCnt
  save : c.iCmdSave = slot c.iCmdRead queue.length
  held : RingHolds (fun i : Fin 8 => (c.cmds[i]).read) c.iCmdRead queue

theorem Globals.Queues.pending_eq {c : Globals} {queue : List (UInt16 × List UInt8)} (h : c.Queues queue) :
    pendingCommands c = queue := by
  unfold pendingCommands
  refine List.ext_getElem (by simp [h.cnt]) fun k hk hk' => ?_
  simp only [List.getElem_map, List.getElem_range]
  exact h.held k hk'

theorem copyLoop_copies (rxBuf : Vector UInt8 20) : ∀ (n i : ℕ) (cmd : Vector UInt8 20), i + n ≤ 20 →
    cmd.toList.take i = rxBuf.toList.take i → ∃ cmd', copyLoop rxBuf n i cmd = .ok cmd' ∧
      cmd'.toList.take (i + n) = rxBuf.toList.take (i + n) := by
  intro n
  induction n with
  | zero => exact fun i cmd _ h => ⟨cmd, rfl, h⟩
  | succ n ih =>
    intro i cmd hi h
    have hlt : i < 20 := by omega
    have hset : (cmd.set i rxBuf[i] hlt).toList.take (i + 1) = rxBuf.toList.take (i + 1) := by
      have hcmd : i < (cmd.toList.set i rxBuf[i]).length := by simpa using hlt
      have hbuf : i < rxBuf.toList.length := by simpa using hlt
      rw [Vector.toList_set, List.take_succ_eq_append_getElem hcmd, List.take_succ_eq_append_getElem hbuf,
        List.take_set_of_le le_rfl, h, List.getElem_set_self]
      simp
    obtain ⟨cmd', hok, htake⟩ := ih (i + 1) _ (by omega) hset
    refine ⟨cmd', ?_, ?_⟩
    · rw [copyLoop, dif_pos hlt]
      exact hok
    · rw [show i + (n + 1) = i + 1 + n by omega]
      exact htake

theorem toNat_length {n : ℕ} (h : n ≤ commandMaxSize) : (UInt16.ofNat n).toNat = n :=
  UInt16.toNat_ofNat_of_lt' (lt_of_le_of_lt h (by decide))

theorem Globals.Queues.snoc {c : Globals} {queue : List (UInt16 × List UInt8)} (h : c.Queues queue)
    (hroom : c.cmdCnt < cmdMaxCnt) (cmd : ConsoleCmd) (rxSta : UInt16) :
    Globals.Queues { c with
      cmds := c.cmds.set c.iCmdSave cmd c.iCmdSave.isLt
      iCmdSave := slot c.iCmdSave 1
      cmdCnt := c.cmdCnt + 1
      rxSta := rxSta } (queue ++ [cmd.read]) := by
  have hlen : queue.length < 8 := by
    rw [← h.cnt]
    exact hroom
  have hset : (fun i : Fin 8 => ((c.cmds.set c.iCmdSave cmd)[i]).read) =
      Function.update (fun i : Fin 8 => (c.cmds[i]).read) c.iCmdSave cmd.read := by
    funext i
    by_cases hi : i = c.iCmdSave
    · subst hi
      rw [Function.update_self]
      exact congrArg ConsoleCmd.read (Vector.getElem_set_self _)
    · rw [Function.update_of_ne hi]
      exact congrArg ConsoleCmd.read (Vector.getElem_set_ne _ _ fun e => hi (Fin.ext e.symm))
  refine ⟨?_, ?_, ?_, ?_⟩
  · dsimp only
    rw [h.cnt, List.length_append]
    rfl
  · rw [List.length_append]
    exact hlen
  · dsimp only
    rw [h.save, slot_slot, List.length_append]
    rfl
  · dsimp only
    rw [hset]
    have hring := h.held.push hlen cmd.read
    rw [← h.save] at hring
    exact hring

/-! ### One action -/

/-- No line is emitted, whatever becomes of the word and the buffer. -/
theorem Globals.Queues.quiet {c : Globals} {queue : List (UInt16 × List UInt8)} (h : c.Queues queue)
    (rxBuf : Vector UInt8 20) (rxSta : UInt16) :
    Globals.Queues { c with rxBuf := rxBuf, rxSta := rxSta }
      (queue ++ (none : Option (List UInt8)).toList.map command) := by
  rw [Option.toList_none, List.map_nil, List.append_nil]
  exact ⟨h.cnt, h.le, h.save, h.held⟩

theorem content_follows {c : Globals} {bytes : List UInt8} {queue : List (UInt16 × List UInt8)}
    (hat : c.At (.content bytes)) (hq : c.Queues queue) (res : UInt8) :
    ∃ c', takeStep c (.byte res) = .ok (c', []) ∧ c'.At (Line.next (.content bytes) res).1 ∧
      c'.Queues (queue ++ (Line.next (.content bytes) res).2.toList.map command) := by
  obtain ⟨hlen, hsta, hbuf⟩ := hat
  obtain ⟨h15, h14, hnat, -, -, -⟩ := word_facts hlen
  rw [← hsta] at h15 h14 hnat
  unfold takeStep usart3IrqHandler Line.next
  dsimp only
  rw [if_pos h15, if_neg (not_not.mpr h14)]
  by_cases hcr : res = 0x0d
  · rw [if_pos hcr, if_pos hcr]
    exact ⟨_, rfl, ⟨hlen, congrArg (· ||| 0x4000) hsta, hbuf⟩, hq.quiet _ _⟩
  rw [if_neg hcr, if_neg hcr, hnat]
  by_cases hlt : bytes.length < commandMaxSize
  · obtain ⟨rxBuf', hstore, hbuf'⟩ := store_next hbuf hlt res
    rw [if_pos hlt, if_pos hlt, hstore]
    refine ⟨_, rfl, ⟨?_, ?_, hbuf'⟩, hq.quiet _ _⟩
    · rw [List.length_append]
      exact hlt
    · dsimp only
      rw [hsta, List.length_append, List.length_singleton, UInt16.ofNat_add]
      rfl
  · -- twenty bytes are kept already
    rw [if_neg hlt, if_neg hlt]
    exact ⟨c, rfl, ⟨hlen, hsta, hbuf⟩, hq.quiet c.rxBuf c.rxSta⟩

theorem ended_follows {c : Globals} {bytes : List UInt8} {queue : List (UInt16 × List UInt8)}
    (hat : c.At (.ended bytes)) (hq : c.Queues queue) {res : UInt8} (hroom : Room c (.byte res)) :
    ∃ c', takeStep c (.byte res) = .ok (c', []) ∧ c'.At (Line.next (.ended bytes) res).1 ∧
      c'.Queues (queue ++ (Line.next (.ended bytes) res).2.toList.map command) := by
  obtain ⟨hlen, hsta, hbuf⟩ := hat
  obtain ⟨-, -, -, h15, h14, hmask⟩ := word_facts hlen
  rw [← hsta] at h15 h14 hmask
  have hempty (c' : Globals) (hsta' : c'.rxSta = 0) : c'.At (.content []) :=
    ⟨Nat.zero_le _, hsta', List.nil_prefix⟩
  unfold takeStep usart3IrqHandler Line.next
  dsimp only
  rw [if_pos h15, if_pos h14]
  by_cases hlf : res = 0x0a
  · have hcnt : c.cmdCnt < cmdMaxCnt := hroom ⟨fun hE => hE h15, h14, hlf⟩
    have hcount := toNat_length hlen
    obtain ⟨cmd', hcopy, htake⟩ := copyLoop_copies c.rxBuf bytes.length 0 c.cmds[c.iCmdSave].cmd
      (by rw [Nat.zero_add]; exact hlen) rfl
    rw [Nat.zero_add, ← List.prefix_iff_eq_take.mp hbuf] at htake
    rw [if_neg (not_not.mpr hlf), if_pos hlf, if_pos hcnt, hmask, hcount, hcopy]
    have hread : ConsoleCmd.read ⟨UInt16.ofNat bytes.length, cmd'⟩ = command bytes := by
      unfold ConsoleCmd.read command
      dsimp only
      rw [hcount, htake]
    refine ⟨_, rfl, hempty _ rfl, ?_⟩
    rw [Option.toList_some, List.map_singleton, ← hread]
    exact hq.snoc hcnt _ 0
  · rw [if_pos hlf, if_neg hlf]
    exact ⟨_, rfl, hempty _ rfl, hq.quiet c.rxBuf 0⟩

/-- The console stands where the reference does. -/
structure Globals.Follows (c : Globals) (r : Reference) : Prop where
  line : c.At r.line
  queue : c.Queues r.queue

theorem byte_follows {c : Globals} {r : Reference} (hf : c.Follows r) {res : UInt8} (hroom : Room c (.byte res)) :
    ∃ c' r', takeStep c (.byte res) = .ok (c', []) ∧ r.step (.byte res) = .ok (r', []) ∧ c'.Follows r' := by
  obtain ⟨line, queue⟩ := r
  have hbyte : ∃ c', takeStep c (.byte res) = .ok (c', []) ∧ c'.At (line.next res).1 ∧
      c'.Queues (queue ++ (line.next res).2.toList.map command) := by
    cases line with
    | content bytes => exact content_follows hf.line hf.queue res
    | ended bytes => exact ended_follows hf.line hf.queue hroom
  obtain ⟨c', hok, hat, hq⟩ := hbyte
  exact ⟨c', _, hok, rfl, hat, hq⟩

/-- `getCommand` answers with the oldest command, and with the null pointer if there is none. -/
theorem getCommand_follows {c : Globals} {r : Reference} (hf : c.Follows r) : ∃ c' r' answer,
    takeStep c .getCommand = .ok (c', [answer]) ∧ r.step .getCommand = .ok (r', [answer]) ∧ c'.Follows r' := by
  obtain ⟨line, queue⟩ := r
  obtain ⟨hat, hq⟩ := hf
  have hcnt := hq.cnt
  unfold takeStep getCommand
  cases queue with
  | nil =>
    rw [if_neg (by rw [hcnt]; exact lt_irrefl 0)]
    exact ⟨c, _, none, rfl, rfl, hat, hq⟩
  | cons first rest =>
    have hfirst : (c.cmds[c.iCmdRead]).read = first := hq.held.head
    rw [if_pos (by rw [hcnt]; exact Nat.succ_pos _)]
    refine ⟨{ c with iCmdRead := slot c.iCmdRead 1, cmdCnt := c.cmdCnt - 1 }, ⟨line, rest⟩, some first, ?_, rfl, ?_,
      ⟨?_, ?_, ?_, hq.held.tail⟩⟩
    · rw [← hfirst]
      rfl
    · cases line with
      | content bytes => exact hat
      | ended bytes => exact hat
    · dsimp only
      rw [hcnt, List.length_cons, Nat.add_sub_cancel]
    · exact (Nat.le_succ _).trans hq.le
    · dsimp only
      rw [hq.save, slot_next, List.length_cons]

theorem step_follows {c : Globals} {r : Reference} (hf : c.Follows r) {a : Act} (hroom : Room c a) :
    ∃ c' r' answers, takeStep c a = .ok (c', answers) ∧ r.step a = .ok (r', answers) ∧ c'.Follows r' := by
  cases a with
  | byte res =>
    obtain ⟨c', r', hok, hr, hf'⟩ := byte_follows hf hroom
    exact ⟨c', r', [], hok, hr, hf'⟩
  | getCommand =>
    obtain ⟨c', r', answer, hok, hr, hf'⟩ := getCommand_follows hf
    exact ⟨c', r', [answer], hok, hr, hf'⟩

/-! ### Any run -/

theorem run_follows : ∀ (as : List Act) {c : Globals} {r : Reference}, c.Follows r → Meets takeStep Room c as →
    ∃ c' r' answers, run takeStep c as = .ok (c', answers) ∧ run Reference.step r as = .ok (r', answers) ∧
      c'.Follows r'
  | [], c, r, hf, _ => ⟨c, r, [], rfl, rfl, hf⟩
  | a :: as, c, r, hf, hmeets => by
    obtain ⟨c₁, r₁, o₁, hc₁, hr₁, hf₁⟩ := step_follows hf hmeets.1
    have hrest : Meets takeStep Room c₁ as := hmeets.2 (c₁, o₁) (by simp [hc₁, Except.toOption])
    obtain ⟨c', r', o, hc, hr, hf'⟩ := run_follows as hf₁ hrest
    exact ⟨c', r', o₁ ++ o, run_cons_ok.mpr ⟨c₁, o₁, o, hc₁, hc, rfl⟩, run_cons_ok.mpr ⟨r₁, o₁, o, hr₁, hr, rfl⟩,
      hf'⟩

/-- What the reference has handed out and what it still has are the lines of the bytes. -/
theorem Reference.run_lines : ∀ (as : List Act) {r r' : Reference} {answers : List (Option (UInt16 × List UInt8))},
    run Reference.step r as = .ok (r', answers) →
      answers.reduceOption ++ r'.queue = r.queue ++ (linesFrom r.line (received as)).map command
  | [], r, r', answers, hrun => by
    obtain ⟨rfl, rfl⟩ := run_nil_ok.mp hrun
    exact (List.append_nil _).symm
  | .byte b :: as, r, r', answers, hrun => by
    obtain ⟨r₁, o₁, o, h₁, h, rfl⟩ := run_cons_ok.mp hrun
    obtain ⟨rfl, rfl⟩ := Prod.mk.inj (Except.ok.inj h₁)
    calc o.reduceOption ++ r'.queue
        = (r.queue ++ (r.line.next b).2.toList.map command) ++
            (linesFrom (r.line.next b).1 (received as)).map command := run_lines as h
      _ = r.queue ++ (linesFrom r.line (received (.byte b :: as))).map command := by
        rw [List.append_assoc, ← List.map_append]
        rfl
  | .getCommand :: as, r, r', answers, hrun => by
    obtain ⟨r₁, o₁, o, h₁, h, rfl⟩ := run_cons_ok.mp hrun
    obtain ⟨rfl, rfl⟩ := Prod.mk.inj (Except.ok.inj h₁)
    have hlines := run_lines as h
    obtain ⟨line, queue⟩ := r
    cases queue with
    | nil => exact hlines
    | cons first rest => exact congrArg (first :: ·) hlines

/-- **The commands are the lines.** If a slot is free whenever a line is
complete, every `getCommand` answers as the reference: with the oldest command
not returned yet, and with the null pointer exactly if there is none. So the
commands returned and those still pending are the lines of the bytes received,
in order, each with its length. -/
theorem commands_match (as : List Act) (h : Meets takeStep Room (initConsole powerOn) as) :
    ∃ c' r answers, run takeStep (initConsole powerOn) as = .ok (c', answers) ∧
      run Reference.step ⟨.content [], []⟩ as = .ok (r, answers) ∧ pendingCommands c' = r.queue ∧
      answers.reduceOption ++ pendingCommands c' = (linesFrom (.content []) (received as)).map command := by
  have hat : (initConsole powerOn).At (.content []) := ⟨Nat.zero_le _, rfl, List.nil_prefix⟩
  have hq : (initConsole powerOn).Queues [] := ⟨rfl, Nat.zero_le _, rfl, RingHolds.nil⟩
  obtain ⟨c', r, answers, hrun, href, hf⟩ := run_follows as (r := ⟨.content [], []⟩) ⟨hat, hq⟩ h
  refine ⟨c', r, answers, hrun, href, hf.queue.pending_eq, ?_⟩
  rw [hf.queue.pending_eq]
  exact Reference.run_lines as href

/-- No command yet, a line of one byte, a carriage return that spoils a second, and an empty line. -/
theorem commands_match_short : ∃ c', run takeStep (initConsole powerOn)
      [.getCommand, .byte 0x41, .byte 0x0d, .byte 0x0a, .byte 0x42, .byte 0x0d, .byte 0x0d, .getCommand,
        .byte 0x0d, .byte 0x0a] = .ok (c', [none, some (1, [0x41])]) ∧
    pendingCommands c' = [(0, [])] := by
  obtain ⟨c', r, answers, hrun, href, hpending, -⟩ := commands_match
    [.getCommand, .byte 0x41, .byte 0x0d, .byte 0x0a, .byte 0x42, .byte 0x0d, .byte 0x0d, .getCommand,
      .byte 0x0d, .byte 0x0a] (by decide +kernel)
  have hanswers : (⟨.content [], [(0, [])]⟩, [none, some (1, [0x41])]) = (r, answers) := Except.ok.inj href
  obtain ⟨rfl, rfl⟩ := Prod.mk.inj hanswers
  exact ⟨c', hrun, hpending⟩

end Console
end Serial2Ethernet
