/-
# Frames arrive: the decoder and the dispatch against a frame-level specification

A stream is frames and single bytes of noise other than 0xAA, in any order
(`Item`). At the frame level it means the bus writes of its frames one after
another (`Frame.busWrites`): a data frame with `uart_chl < 16` whose `num`
bytes fit writes them to the channel's transmit register, a reset frame
pulses the reset register, any other frame writes nothing. `delivery` says
that the bytes of the stream, cut into `onRecvData` calls at any places, do
just that, for every device behind the bus.
-/
import Serial2Ethernet.User.Framing

namespace Serial2Ethernet
namespace ProtocolLayer

/-- One piece of a stream. -/
inductive Item
  | noise (b : UInt8) (h : b ≠ 0xaa)
  | frame (f : Frame)

/-- The transmit register of a channel. -/
def txRegister (chl : ℕ) : ℕ := 0x2000 + 0x100 * chl + 4

/-- What a frame means: the writes to the bus, in order. -/
def Frame.busWrites (f : Frame) : List (ℕ × UInt8) :=
  if f.code = 0xA1 then
    if f.Fits ∧ f.uartChl.toNat < 16 then f.data.map fun b => (txRegister f.uartChl.toNat, b) else []
  else if f.code = 0xA2 then [(0, 0), (0, 1)]
  else []

/-- The bytes a frame carries for a channel. -/
def Frame.bytesFor (chl : ℕ) (f : Frame) : List UInt8 :=
  if f.code = 0xA1 ∧ f.uartChl.toNat = chl ∧ f.Fits then f.data else []

namespace Item

def wire : Item → List UInt8
  | .noise b _ => [b]
  | .frame f => f.wire

def busWrites : Item → List (ℕ × UInt8)
  | .noise _ _ => []
  | .frame f => f.busWrites

def bytesFor (chl : ℕ) : Item → List UInt8
  | .noise _ _ => []
  | .frame f => f.bytesFor chl

end Item

/-! ### A frame is read -/

/-- **A frame is read.** From `waitHead1` the bytes of a frame bring the
decoder back to `waitHead1`, with one call of `handleProtocol`, on a buffer
that begins with the frame's body. -/
theorem unpacking_frame (f : Frame) {d : Decoder} (hs : d.step = .waitHead1) :
    ∃ d' ptr, unpacking d f.wire = .ok (d', handleProtocol ptr) ∧ d'.step = .waitHead1 ∧
      ptr.take f.body.length = f.body := by
  obtain ⟨d', ptr, hr, hs', hptr⟩ := f.receiving hs
  exact ⟨d', ptr, by rw [unpacking_eq, hr]; simp [Except.map], hs', hptr⟩

/-! ### A frame is acted on -/

/-- What `handleProtocol` writes for a buffer that begins with a frame. -/
theorem writes_handleProtocol (hw : Device) (f : Frame) {ptr : List UInt8}
    (hptr : ptr.take f.body.length = f.body) (tr : Trace) :
    writes (perform hw tr (handleProtocol ptr)) = writes tr ++ f.busWrites := by
  obtain ⟨bytes, hbytes, hcalls⟩ := handleProtocol_frame f hptr
  rw [hcalls, Frame.busWrites]
  by_cases hA1 : f.code = 0xA1
  · rw [if_pos hA1, if_pos hA1]
    by_cases hF : f.Fits
    · simp only [hF, if_true, true_and, perform, List.foldl_cons, List.foldl_nil, Call.perform,
        writes_openLED, UartFsmc.writes_sendDataUartFsmc, hbytes hF]
      rfl
    · simp [hF, perform]
  · rw [if_neg hA1, if_neg hA1]
    by_cases hA2 : f.code = 0xA2
    · rw [if_pos hA2, if_pos hA2]
      simp [perform, Call.perform, UartFsmc.resetAddr]
    · rw [if_neg hA2, if_neg hA2]
      simp [perform]

/-! ### The stream -/

theorem perform_append (hw : Device) (tr : Trace) (as bs : List Call) :
    perform hw tr (as ++ bs) = perform hw (perform hw tr as) bs := List.foldl_append

/-- One item brings the decoder from `waitHead1` to `waitHead1`. -/
theorem unpacking_item (hw : Device) (item : Item) {d : Decoder} (hs : d.step = .waitHead1) :
    ∃ d' calls, unpacking d item.wire = .ok (d', calls) ∧ d'.step = .waitHead1 ∧
      ∀ tr, writes (perform hw tr calls) = writes tr ++ item.busWrites := by
  cases item with
  | noise b h =>
    refine ⟨_, _, (Lib.run_singleton d b).trans (step_waitHead1 b hs), by simp [h], fun tr => ?_⟩
    simp [perform, Item.busWrites]
  | frame f =>
    obtain ⟨d', ptr, h', hs', ht⟩ := unpacking_frame f hs
    exact ⟨d', _, h', hs', writes_handleProtocol hw f ht⟩

theorem unpacking_items (hw : Device) : ∀ (items : List Item) (d : Decoder), d.step = .waitHead1 →
    ∃ d' calls, unpacking d (items.flatMap Item.wire) = .ok (d', calls) ∧ d'.step = .waitHead1 ∧
      ∀ tr, writes (perform hw tr calls) = writes tr ++ items.flatMap Item.busWrites
  | [], d, hs => ⟨d, [], rfl, hs, fun tr => by simp [perform]⟩
  | item :: items, d, hs => by
    obtain ⟨d₁, o₁, h₁, hs₁, hw₁⟩ := unpacking_item hw item hs
    obtain ⟨d₂, o₂, h₂, hs₂, hw₂⟩ := unpacking_items hw items d₁ hs₁
    refine ⟨d₂, o₁ ++ o₂, Lib.run_append_ok.mpr ⟨d₁, o₁, o₂, h₁, h₂, rfl⟩, hs₂, fun tr => ?_⟩
    rw [perform_append, hw₂, hw₁, List.flatMap_cons, List.append_assoc]

/-- The writes to one transmit register are the bytes for that channel. -/
theorem writtenTo_busWrites {chl : ℕ} (hc : chl < 16) (f : Frame) :
    writtenTo (txRegister chl) f.busWrites = f.bytesFor chl := by
  unfold Frame.busWrites Frame.bytesFor
  by_cases hA1 : f.code = 0xA1
  · by_cases hF : f.Fits
    · by_cases heq : f.uartChl.toNat = chl
      · have h16 : f.uartChl.toNat < 16 := heq ▸ hc
        simp [hA1, hF, heq, hc, writtenTo, List.filter_map, Function.comp_def]
      · have hne : ¬ txRegister f.uartChl.toNat = txRegister chl := by
          unfold txRegister
          omega
        simp [hA1, hF, heq, writtenTo, hne, apply_ite (List.filter _), List.filter_map, Function.comp_def]
    · simp [hA1, hF]
  · have hne : ¬ (0 = txRegister chl) := by
      unfold txRegister
      omega
    by_cases hA2 : f.code = 0xA2 <;> simp [hA1, hA2, writtenTo, hne]

theorem writtenTo_items {chl : ℕ} (hc : chl < 16) : ∀ items : List Item,
    writtenTo (txRegister chl) (items.flatMap Item.busWrites) = items.flatMap (Item.bytesFor chl)
  | [] => rfl
  | item :: items => by
    rw [List.flatMap_cons, List.flatMap_cons, writtenTo_append, writtenTo_items hc items]
    cases item with
    | noise b h => rfl
    | frame f => rw [Item.busWrites, Item.bytesFor, writtenTo_busWrites hc f]

/-- **Delivery.** However a stream of frames and noise is cut into
`onRecvData` calls, the decoder ends in `waitHead1`, the bus sees exactly the
writes of the frames in order, and so each transmit register gets exactly the
bytes the frames carry for its channel. -/
theorem delivery (hw : Device) (d : Decoder) (hs : d.step = .waitHead1) (items : List Item)
    (chunks : List (List UInt8)) (hc : chunks.flatten = items.flatMap Item.wire) (tr : Trace) :
    ∃ d' calls, session d chunks = .ok (d', calls) ∧ d'.step = .waitHead1 ∧
      writes (perform hw tr calls) = writes tr ++ items.flatMap Item.busWrites ∧
      ∀ chl < 16, writtenTo (txRegister chl) (writes (perform hw tr calls)) =
        writtenTo (txRegister chl) (writes tr) ++ items.flatMap (Item.bytesFor chl) := by
  obtain ⟨d', calls, h', hs', hw'⟩ := unpacking_items hw items d hs
  refine ⟨d', calls, ?_, hs', hw' tr, fun chl h16 => ?_⟩
  · rw [session_eq, hc, h']
  · rw [hw' tr, writtenTo_append, writtenTo_items h16]

/-- Two data bytes 0xAA for channel 3. -/
def dataFrame : Frame where
  body := [9, 0, 0xA1, 0, 3, 2, 0xaa, 0xaa, 253]
  accepted := ⟨by decide, by decide, by decide, by decide⟩
  five_le := by decide

/-- A reset. -/
def resetFrame : Frame where
  body := [5, 0, 0xA2, 0, 0x59]
  accepted := ⟨by decide, by decide, by decide, by decide⟩
  five_le := by decide

/-- Noise, data and a reset in three datagrams, cut in the header and the data. -/
theorem delivery_two_frames : ∃ d' calls,
    session (initProtocolLayer true powerOn).dec
        [[0x55, 0xaa], [0xaa, 9, 0, 0xA1, 0, 3, 2, 0xaa], [0xaa, 253, 0xaa, 0xaa, 5, 0, 0xA2, 0, 0x59]] =
      .ok (d', calls) ∧
      d'.step = .waitHead1 ∧
      writes (perform (fun _ _ => 0) [] calls) = [(0x2304, 0xaa), (0x2304, 0xaa), (0, 0), (0, 1)] := by
  obtain ⟨d', calls, h', hs', hw', -⟩ := delivery (fun _ _ => 0) (initProtocolLayer true powerOn).dec
    rfl [.noise 0x55 (by decide), .frame dataFrame, .frame resetFrame] _ rfl []
  exact ⟨d', calls, h', hs', hw'.trans (by decide)⟩

end ProtocolLayer
end Serial2Ethernet
