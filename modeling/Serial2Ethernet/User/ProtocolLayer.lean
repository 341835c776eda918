/-
# The protocol layer

`unpacking` reads the bytes of the datagrams one at a time into `udp_buff`,
with its state in four globals (`Decoder`). The index of a write is not
checked by the code; the model faults where the write would leave the array.
A complete frame whose bytes sum to 0 goes to `handleProtocol`, whose calls
into the other modules are the outputs (`Call`); the layer uses none of their
results. `perform` carries the calls out on the board.
-/
import Serial2Ethernet.Lib.Run
import Serial2Ethernet.Hardware.UartFsmc
import Serial2Ethernet.User.Protocol

namespace Serial2Ethernet
namespace ProtocolLayer

/-- The values of `step`, under the names its comment gives them. -/
inductive Step
  | waitHead1
  | waitHead2
  | len1
  | len2
  | content
  | cs
  deriving DecidableEq, Repr

/-- The globals of the receiver. -/
structure Decoder where
  udpBuff : Vector UInt8 1024
  step : Step
  udpLen : UInt16
  indexBuff : UInt32

/-- A call from this layer into another module. -/
inductive Call
  | sendDataUartFsmc (chl : UInt8) (ptr : List UInt8) (size : UInt8)
  | openLED (index : UInt8)
  | resetUartFsmc
  deriving DecidableEq

/-- Send uart. -/
def sendUart (ptr : List UInt8) : List Call :=
  let msg := comDevUartData ptr
  if msg.num.toNat + 2 + messageHeadSize + 1 ≤ msg.head.len.toNat then
    [.sendDataUartFsmc msg.uartChl msg.data msg.num, .openLED 3]
  else []

/-- Handle protocol. -/
def handleProtocol (ptr : List UInt8) : List Call :=
  let head := messageHead ptr
  if head.code = 0xA1 then sendUart ptr
  else if head.code = 0xA2 then [.resetUartFsmc]
  else []

namespace Decoder

/-- `udp_buff[index_buff] = ch`. -/
def put (d : Decoder) (ch : UInt8) : Except Fault Decoder :=
  if h : d.indexBuff.toNat < 1024 then
    .ok { d with udpBuff := d.udpBuff.set d.indexBuff.toNat ch h }
  else .error (.write d.indexBuff.toNat)

/-- `udp_len-1`, as the comparison with the unsigned `index_buff` sees it. -/
def limit (d : Decoder) : UInt32 := d.udpLen.toUInt32 - 1

/-- The loop that sums the first `udp_len` bytes of `udp_buff`, from index `i` on. -/
def sumLoop (buff : Vector UInt8 1024) : (n i : ℕ) → (cs : UInt8) → Except Fault UInt8
  | 0, _, cs => .ok cs
  | n + 1, i, cs => if h : i < 1024 then sumLoop buff n (i + 1) (cs + buff[i]) else .error (.read i)

end Decoder

/-- One turn of the loop of `unpacking`. -/
def unpackByte (d : Decoder) (ch : UInt8) : Except Fault (Decoder × List Call) :=
  match d.step with
  | .waitHead1 => if ch = 0xaa then .ok ({ d with step := .waitHead2 }, []) else .ok (d, [])
  | .waitHead2 =>
    if ch = 0xaa then .ok ({ d with step := .len1, indexBuff := 0 }, [])
    else .ok ({ d with step := .waitHead1 }, [])
  | .len1 =>
    match ({ d with udpLen := ch.toUInt16 } : Decoder).put ch with
    | .error e => .error e
    | .ok d => .ok ({ d with indexBuff := d.indexBuff + 1, step := .len2 }, [])
  | .len2 =>
    match ({ d with udpLen := d.udpLen + (ch.toUInt16 <<< 8) } : Decoder).put ch with
    | .error e => .error e
    | .ok d =>
      .ok ({ d with
        indexBuff := d.indexBuff + 1
        step := if d.udpLen < 1024 then .content else .waitHead1 }, [])
  | .content =>
    if d.indexBuff < d.limit then
      match d.put ch with
      | .error e => .error e
      | .ok d =>
        .ok ({ d with
          indexBuff := d.indexBuff + 1
          step := if d.indexBuff + 1 = d.limit then .cs else .content }, [])
    else .ok ({ d with step := .waitHead1 }, [])
  | .cs =>
    match d.put ch with
    | .error e => .error e
    | .ok d =>
      match Decoder.sumLoop d.udpBuff d.udpLen.toNat 0 0 with
      | .error e => .error e
      | .ok cs =>
        .ok ({ d with indexBuff := d.udpLen.toUInt32, step := .waitHead1 },
          if cs = 0 then handleProtocol d.udpBuff.toList else [])

/-- The same turn, with the buffers it gives to `handleProtocol` for outputs: the
last step does, the others give none. -/
def receiveByte (d : Decoder) (ch : UInt8) : Except Fault (Decoder × List (List UInt8)) :=
  match d.step with
  | .cs =>
    match d.put ch with
    | .error e => .error e
    | .ok d =>
      match Decoder.sumLoop d.udpBuff d.udpLen.toNat 0 0 with
      | .error e => .error e
      | .ok cs =>
        .ok ({ d with indexBuff := d.udpLen.toUInt32, step := .waitHead1 },
          if cs = 0 then [d.udpBuff.toList] else [])
  | _ => (unpackByte d ch).map fun r => (r.1, [])

/-- The loop, with the buffers it gives to `handleProtocol` for outputs. -/
def receiving : Decoder → List UInt8 → Except Fault (Decoder × List (List UInt8)) := Lib.run receiveByte

/-- Unpacking. -/
def unpacking : Decoder → List UInt8 → Except Fault (Decoder × List Call) := Lib.run unpackByte

/-- Handler of received data. -/
def onRecvData : Decoder → List UInt8 → Except Fault (Decoder × List Call) := unpacking

/-- Successive `onRecvData` calls. -/
def session : Decoder → List (List UInt8) → Except Fault (Decoder × List Call) := Lib.run onRecvData

/-- The globals of the layer: the receiver's, and the report buffer. -/
structure Globals where
  dec : Decoder
  reportBuff : Option (Vector UInt8 (devComUartReportSize + 3))

/-- The globals at power-on. -/
def powerOn : Globals := ⟨⟨Vector.replicate 1024 0, .waitHead1, 0, 0⟩, none⟩

/-- The report buffer after the first initialization: zero but for the two
header bytes, the length `sizeof(DEV_COM_UART_REPORT)+1` and the code 0xB1. -/
def freshReport : Vector UInt8 (devComUartReportSize + 3) :=
  Vector.ofFn fun i =>
    if i.val = 0 ∨ i.val = 1 then 0xaa
    else if i.val = 2 then 0x06
    else if i.val = 3 then 0x01
    else if i.val = 4 then 0xB1
    else 0

/-- Initialize protocol layer; `alloc` says whether `mymalloc` succeeds. -/
def initProtocolLayer (alloc : Bool) (g : Globals) : Globals :=
  { dec := { g.dec with step := .waitHead1, indexBuff := 0 }
    reportBuff := if g.reportBuff.isNone && alloc then some freshReport else g.reportBuff }

/-- A call, carried out on the board. -/
def Call.perform (hw : Device) (tr : Trace) : Call → Trace
  | .sendDataUartFsmc chl ptr size => (UartFsmc.sendDataUartFsmc hw chl ptr size tr).2
  | .openLED index => Serial2Ethernet.openLED index tr
  | .resetUartFsmc => UartFsmc.resetUartFsmc tr

/-- The calls, carried out in order. -/
def perform (hw : Device) (tr : Trace) (calls : List Call) : Trace := calls.foldl (Call.perform hw) tr

/-! ### The decoder's operations -/

namespace Decoder

variable (d : Decoder) (ch : UInt8)

theorem put_ok (h : d.indexBuff.toNat < 1024) :
    d.put ch = .ok { d with udpBuff := d.udpBuff.set d.indexBuff.toNat ch h } := dif_pos h

theorem put_error (h : 1024 ≤ d.indexBuff.toNat) : d.put ch = .error (.write d.indexBuff.toNat) :=
  dif_neg (by omega)

/-- The unsigned comparison makes length 0 the largest limit. -/
theorem limit_cases : d.udpLen.toNat = 0 ∧ d.limit.toNat = 4294967295 ∨
    0 < d.udpLen.toNat ∧ d.limit.toNat = d.udpLen.toNat - 1 := by
  have h := d.udpLen.toNat_lt
  simp only [limit, UInt32.toNat_sub, UInt16.toNat_toUInt32, UInt32.reduceToNat]
  omega

/-- Within the buffer the loop computes the sum. -/
theorem sumLoop_eq (buff : Vector UInt8 1024) : ∀ (n i : ℕ) (cs : UInt8), i + n ≤ 1024 →
    sumLoop buff n i cs = .ok (cs + ((buff.toList.drop i).take n).sum)
  | 0, _, cs, _ => by simp [sumLoop]
  | n + 1, i, cs, h => by
    have hi : i < 1024 := by omega
    have hd : buff.toList.drop i = buff[i] :: buff.toList.drop (i + 1) := by
      rw [List.drop_eq_getElem_cons (by simpa using hi)]
      simp
    rw [sumLoop, dif_pos hi, sumLoop_eq buff n (i + 1) _ (by omega), hd]
    simp [UInt8.add_assoc]

end Decoder

/-- What is called is `handleProtocol`, on the buffers it is given. -/
theorem unpackByte_eq (d : Decoder) (ch : UInt8) :
    unpackByte d ch = (receiveByte d ch).map fun r => (r.1, r.2.flatMap handleProtocol) := by
  have hother : ∀ r : Except Fault (Decoder × List Call), (∀ x, r = .ok x → x.2 = []) →
      r = (r.map fun x => (x.1, ([] : List (List UInt8)))).map fun x => (x.1, x.2.flatMap handleProtocol) := by
    intro r hr
    cases r with
    | error e => rfl
    | ok x => simp [Except.map, ← hr x rfl]
  obtain ⟨b, s, len, idx⟩ := d
  cases s with
  | cs =>
    simp only [unpackByte, receiveByte]
    split
    · rfl
    · split
      · rfl
      · split <;> simp [Except.map]
  | _ =>
    refine hother _ ?_
    intro x hx
    simp only [unpackByte] at hx
    split at hx <;> (try split at hx) <;> cases hx <;> rfl

theorem unpacking_eq (d : Decoder) (bytes : List UInt8) :
    unpacking d bytes = (receiving d bytes).map fun r => (r.1, r.2.flatMap handleProtocol) :=
  Lib.run_map unpackByte_eq bytes d

/-- Cutting the stream into calls changes nothing. -/
theorem session_eq (d : Decoder) (chunks : List (List UInt8)) :
    session d chunks = unpacking d chunks.flatten := Lib.run_run chunks d

end ProtocolLayer
end Serial2Ethernet
