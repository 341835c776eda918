/-
# Receiving frames

A ring of receive descriptors, the buffers one behind the other in `Rx_Buff`.
`ETH_IRQHandler` takes frames as long as `ETH_GetRxPktSize` of the current
descriptor is not 0; each goes through `ETH_Rx_Packet` and `low_level_input`,
which hands the descriptor back to the DMA, and on to lwIP.

The size is 0 for a descriptor with an error, for one that is not the last of
its frame, and for one of length 0. Such a descriptor is not handed back and
stays the current one, so the handler serves what the DMA has completed
exactly if there is none of them (`served_iff`).
-/
import Serial2Ethernet.Lib.Ring
import Serial2Ethernet.Hardware.Board

namespace Serial2Ethernet
namespace EthRx

open Lib

/-! ### Bits of a descriptor -/

def ethDmaRxDescOwn : UInt32 := 0x80000000

/-- Frame length. -/
def ethDmaRxDescFl : UInt32 := 0x3FFF0000

/-- Error summary. -/
def ethDmaRxDescEs : UInt32 := 0x00008000

/-- First descriptor of the frame. -/
def ethDmaRxDescFs : UInt32 := 0x00000200

/-- Last descriptor of the frame. -/
def ethDmaRxDescLs : UInt32 := 0x00000100

def ethDmaRxDescFrameLengthShift : UInt32 := 16

def ethRxBufSize : ℕ := 1524

/-- The size of `Rx_Buff`. -/
def rxBuffSize (n : ℕ) : ℕ := (n + 1) * ethRxBufSize

def ethError : UInt32 := 0

/-- The ring of `n + 1` descriptors with their status words; the `Buffer1Addr` of
descriptor `i` is the place `i * ethRxBufSize` in `Rx_Buff`. `rbus` says that the
DMA has found no descriptor of its own and waits. -/
structure Ring (n : ℕ) where
  status : Fin (n + 1) → UInt32
  rxBuff : List UInt8
  size : rxBuff.length = rxBuffSize n
  dmaRxDescToGet : Fin (n + 1)
  rbus : Bool

/-- A frame in a buffer; `none` is `NULL`. -/
structure Frame (n : ℕ) where
  length : UInt32
  buffer : Option ℕ
  descriptor : Option (Fin (n + 1))

/-- The lengths of the pbufs of a chain for `len` bytes. -/
abbrev Lens (len : UInt16) := { lens : List UInt16 // (lens.map UInt16.toNat).sum = len.toNat }

/-- lwIP: the chain `pbuf_alloc` returns in its `c`-th call since the interrupt,
if it does, and the result of `netif->input`. -/
structure Lwip where
  pbufAlloc : ℕ → (len : UInt16) → Option (Lens len)
  input : ℕ → List UInt8 → Int8

/-- A frame passed to lwIP with the descriptor it comes from; a chain freed. -/
inductive Event (n : ℕ)
  | input (i : Fin (n + 1)) (bytes : List UInt8)
  | pbufFree (i : Fin (n + 1))
  deriving DecidableEq, Repr

/-! ### The source -/

def errOk : Int8 := 0

section Source

variable {n : ℕ}

/-- Get the frame length of a descriptor. -/
def ethGetDMARxDescFrameLength (status : UInt32) : UInt32 :=
  (status &&& ethDmaRxDescFl) >>> ethDmaRxDescFrameLengthShift

/-- Get the size of the received packet. -/
def ethGetRxPktSize (status : UInt32) : UInt32 :=
  if status &&& ethDmaRxDescOwn = 0 ∧ status &&& ethDmaRxDescEs = 0 ∧ status &&& ethDmaRxDescLs ≠ 0 then
    ethGetDMARxDescFrameLength status
  else 0

/-- Receive a packet: the frame of the current descriptor, and on to the next one. -/
def ethRxPacket (r : Ring n) : Frame n × Ring n :=
  let status := r.status r.dmaRxDescToGet
  if status &&& ethDmaRxDescOwn ≠ 0 then (⟨ethError, none, none⟩, { r with rbus := false })
  else
    let next := { r with dmaRxDescToGet := slot r.dmaRxDescToGet 1 }
    if status &&& ethDmaRxDescEs = 0 ∧ status &&& ethDmaRxDescLs ≠ 0 ∧ status &&& ethDmaRxDescFs ≠ 0 then
      (⟨ethGetDMARxDescFrameLength status - 4, some (r.dmaRxDescToGet * ethRxBufSize), some r.dmaRxDescToGet⟩, next)
    else (⟨ethError, none, some r.dmaRxDescToGet⟩, next)

/-- Copy `len` bytes from `&buffer[l]`. -/
def memcpy (rxBuff : List UInt8) (buffer : Option ℕ) (l len : ℕ) : Except Fault (List UInt8) :=
  if len = 0 then .ok []
  else
    match buffer with
    | none => .error .null
    | some a =>
      if a + l + len ≤ rxBuff.length then .ok ((rxBuff.drop (a + l)).take len) else .error (.read rxBuff.length)

/-- The walk along the chain; the result is its payload. -/
def copyChain (rxBuff : List UInt8) (buffer : Option ℕ) : List UInt16 → (l : ℕ) → Except Fault (List UInt8)
  | [], _ => .ok []
  | len :: lens, l =>
    match memcpy rxBuff buffer l len.toNat with
    | .error e => .error e
    | .ok bytes => (copyChain rxBuff buffer lens (l + len.toNat)).map (bytes ++ ·)

/-- Get a packet into a chain, and hand its descriptor back; `none` is no chain. -/
def lowLevelInput (lw : Lwip) (c : ℕ) (r : Ring n) : Except Fault (Option (List UInt8) × Ring n) :=
  let (frame, r) := ethRxPacket r
  let len := frame.length.toUInt16
  let copied : Except Fault (Option (List UInt8)) :=
    match lw.pbufAlloc c len with
    | none => .ok none
    | some p => (copyChain r.rxBuff frame.buffer p.1 0).map some
  match copied, frame.descriptor with
  | .error e, _ => .error e
  | .ok _, none => .error .null
  | .ok p, some i =>
    .ok (p, { r with status := Function.update r.status i ethDmaRxDescOwn, rbus := false })

/-- Receive a packet and pass it to lwIP, which may not take it. -/
def ethernetifInput (lw : Lwip) (c : ℕ) (r : Ring n) : Except Fault (Ring n × List (Event n)) :=
  (lowLevelInput lw c r).map fun x =>
    match x.1 with
    | none => (x.2, [])
    | some bytes =>
      (x.2, .input r.dmaRxDescToGet bytes ::
        if lw.input c bytes ≠ errOk then [.pbufFree r.dmaRxDescToGet] else [])

/-- The loop of `ETH_IRQHandler`; `none` if the fuel is used up. -/
def irqLoop (lw : Lwip) : (fuel c : ℕ) → Ring n → Except Fault (Option (Ring n × List (Event n)))
  | 0, _, _ => .ok none
  | fuel + 1, c, r =>
    if ethGetRxPktSize (r.status r.dmaRxDescToGet) ≠ 0 then
      match ethernetifInput lw c r with
      | .error e => .error e
      | .ok (r, es) => (irqLoop lw fuel (c + 1) r).map fun x => x.map fun y => (y.1, es ++ y.2)
    else .ok (some (r, []))

/-- The interrupt handler. A round for each descriptor is fuel enough (`ethIrqHandler_returns`). -/
def ethIrqHandler (lw : Lwip) (r : Ring n) : Except Fault (Option (Ring n × List (Event n))) :=
  irqLoop lw (n + 2) 0 r

end Source

/-! ### What the handler is to do -/

variable {n : ℕ}

/-- The DMA has completed `k` descriptors from the current one on and owns the others. -/
structure Completed (r : Ring n) (k : ℕ) : Prop where
  le : k ≤ n + 1
  done : ∀ j < k, r.status (slot r.dmaRxDescToGet j) &&& ethDmaRxDescOwn = 0
  rest : ∀ j, k ≤ j → j < n + 1 → r.status (slot r.dmaRxDescToGet j) &&& ethDmaRxDescOwn ≠ 0

/-- A frame without error in one descriptor, with its checksum. -/
def Intact (status : UInt32) : Prop :=
  status &&& ethDmaRxDescEs = 0 ∧ status &&& ethDmaRxDescFs ≠ 0 ∧ status &&& ethDmaRxDescLs ≠ 0 ∧
    4 ≤ (ethGetDMARxDescFrameLength status).toNat

instance (status : UInt32) : Decidable (Intact status) := inferInstanceAs (Decidable (_ ∧ _))

/-- The frame in the buffer of a descriptor, without its checksum. -/
def Ring.frame (r : Ring n) (i : Fin (n + 1)) : List UInt8 :=
  (r.rxBuff.drop (i * ethRxBufSize)).take ((ethGetDMARxDescFrameLength (r.status i)).toNat - 4)

/-- The frame of a descriptor that is to be passed on, if it is intact and there is a chain for it. -/
def Ring.frameAt (r : Ring n) (lw : Lwip) (c : ℕ) (i : Fin (n + 1)) : Option (Fin (n + 1) × List UInt8) :=
  if Intact (r.status i) ∧ (lw.pbufAlloc c (ethGetDMARxDescFrameLength (r.status i) - 4).toUInt16).isSome then
    some (i, r.frame i)
  else none

/-- The frames of the first `k` descriptors that are to be passed on, in ring order. -/
def intactFrames (lw : Lwip) (r : Ring n) (k : ℕ) : List (Fin (n + 1) × List UInt8) :=
  (List.range k).filterMap fun j => r.frameAt lw j (slot r.dmaRxDescToGet j)

/-- What lwIP is passed from the descriptors of intact frames. -/
def passed (r : Ring n) (es : List (Event n)) : List (Fin (n + 1) × List UInt8) :=
  es.filterMap fun e =>
    match e with
    | .input i bytes => if Intact (r.status i) then some (i, bytes) else none
    | .pbufFree _ => none

/-- The handler returns with all `k` completed descriptors handed back and the
current one the DMA's, and has passed each intact frame once and in order. -/
def Served (lw : Lwip) (r : Ring n) (k : ℕ) : Prop :=
  ∃ r' es, ethIrqHandler lw r = .ok (some (r', es)) ∧
    (∀ j < k, r'.status (slot r.dmaRxDescToGet j) &&& ethDmaRxDescOwn ≠ 0) ∧
    r'.status r'.dmaRxDescToGet &&& ethDmaRxDescOwn ≠ 0 ∧
    passed r es = intactFrames lw r k

/-- The number of bytes to copy for a descriptor. -/
def copyLength (status : UInt32) : UInt16 :=
  (if status &&& ethDmaRxDescFs ≠ 0 then ethGetDMARxDescFrameLength status - 4 else ethError).toUInt16

/-- If the frame of the descriptor begins in it and there is a chain for it, the
bytes to copy lie in `Rx_Buff`. -/
def Ring.InBuffer (r : Ring n) (lw : Lwip) (c : ℕ) (i : Fin (n + 1)) : Prop :=
  r.status i &&& ethDmaRxDescFs ≠ 0 → lw.pbufAlloc c (copyLength (r.status i)) ≠ none →
    i * ethRxBufSize + (copyLength (r.status i)).toNat ≤ rxBuffSize n

/-- A descriptor without error that is the last one of its frame and not of length 0. -/
def Sized (status : UInt32) : Prop :=
  status &&& ethDmaRxDescEs = 0 ∧ status &&& ethDmaRxDescLs ≠ 0 ∧ ethGetDMARxDescFrameLength status ≠ 0

/-- The `j`-th descriptor has a size, and its bytes can be copied. -/
def Taken (lw : Lwip) (r : Ring n) (j : ℕ) : Prop :=
  Sized (r.status (slot r.dmaRxDescToGet j)) ∧ r.InBuffer lw j (slot r.dmaRxDescToGet j)

/-! ### Copying -/

/-- The chain is given the bytes from its place in the buffer on, if they are all in `Rx_Buff`. -/
theorem copyChain_some (rxBuff : List UInt8) (a : ℕ) : ∀ (lens : List UInt16) (l : ℕ), a + l ≤ rxBuff.length →
    copyChain rxBuff (some a) lens l =
      if a + l + (lens.map UInt16.toNat).sum ≤ rxBuff.length then
        .ok ((rxBuff.drop (a + l)).take (lens.map UInt16.toNat).sum)
      else .error (.read rxBuff.length) := by
  intro lens
  induction lens with
  | nil =>
    intro l h
    simp [copyChain, h]
  | cons len lens ih =>
    intro l h
    rw [List.map_cons, List.sum_cons]
    unfold copyChain memcpy
    by_cases h0 : len.toNat = 0
    · rw [if_pos h0, h0, Nat.zero_add]
      dsimp only
      rw [Nat.add_zero, ih l h]
      by_cases hfits : a + l + (lens.map UInt16.toNat).sum ≤ rxBuff.length
      · rw [if_pos hfits]
        rfl
      · rw [if_neg hfits]
        rfl
    · rw [if_neg h0]
      dsimp only
      by_cases hlen : a + l + len.toNat ≤ rxBuff.length
      · rw [if_pos hlen]
        dsimp only
        rw [ih (l + len.toNat) (by omega)]
        by_cases hfits : a + l + (len.toNat + (lens.map UInt16.toNat).sum) ≤ rxBuff.length
        · rw [if_pos hfits, if_pos (by omega), List.take_add, List.drop_drop, Nat.add_assoc a l]
          rfl
        · rw [if_neg hfits, if_neg (by omega)]
          rfl
      · rw [if_neg hlen, if_neg (by omega)]

/-- An empty chain takes nothing. -/
theorem copyChain_empty (rxBuff : List UInt8) (buffer : Option ℕ) : ∀ (lens : List UInt16) (l : ℕ),
    (lens.map UInt16.toNat).sum = 0 → copyChain rxBuff buffer lens l = .ok [] := by
  intro lens
  induction lens with
  | nil => exact fun _ _ => rfl
  | cons len lens ih =>
    intro l h
    rw [List.map_cons, List.sum_cons] at h
    unfold copyChain memcpy
    rw [if_pos (by omega)]
    dsimp only
    rw [ih _ (by omega)]
    rfl

/-! ### One frame -/

theorem toNat_frameLength_lt (status : UInt32) : (ethGetDMARxDescFrameLength status).toNat < 16384 := by
  have hand : (status &&& ethDmaRxDescFl).toNat ≤ 0x3FFF0000 := by
    rw [UInt32.toNat_and]
    exact Nat.and_le_right
  have hshift : ethDmaRxDescFrameLengthShift.toNat % 32 = 16 := rfl
  unfold ethGetDMARxDescFrameLength
  rw [UInt32.toNat_shiftRight, hshift, Nat.shiftRight_eq_div_pow]
  omega

/-- The length of an intact frame is that of the frame without its checksum. -/
theorem toNat_copyLength {status : UInt32} (h : Intact status) :
    (copyLength status).toNat = (ethGetDMARxDescFrameLength status).toNat - 4 := by
  obtain ⟨-, hfs, -, hlen⟩ := h
  have hlt := toNat_frameLength_lt status
  have hsub : (ethGetDMARxDescFrameLength status - 4).toNat = (ethGetDMARxDescFrameLength status).toNat - 4 :=
    UInt32.toNat_sub_of_le _ _ (UInt32.le_iff_toNat_le.mpr hlen)
  unfold copyLength
  rw [if_pos hfs, UInt32.toNat_toUInt16, hsub]
  exact Nat.mod_eq_of_lt (by omega)

/-- The ring when the current descriptor has been handed back. -/
def Ring.handBack (r : Ring n) : Ring n :=
  { r with
    status := Function.update r.status r.dmaRxDescToGet ethDmaRxDescOwn
    dmaRxDescToGet := slot r.dmaRxDescToGet 1
    rbus := false }

theorem index_le (i : Fin (n + 1)) : (i : ℕ) * ethRxBufSize ≤ rxBuffSize n :=
  Nat.mul_le_mul_right _ i.isLt.le

theorem copyChain_frame (r : Ring n) (i : Fin (n + 1)) (lens : List UInt16) :
    copyChain r.rxBuff (some (i * ethRxBufSize)) lens 0 =
      if i * ethRxBufSize + (lens.map UInt16.toNat).sum ≤ rxBuffSize n then
        .ok ((r.rxBuff.drop (i * ethRxBufSize)).take (lens.map UInt16.toNat).sum)
      else .error (.read r.rxBuff.length) := by
  have hle := index_le i
  rw [← r.size] at hle ⊢
  have h := copyChain_some r.rxBuff (i * ethRxBufSize) lens 0 (by rw [Nat.add_zero]; exact hle)
  simpa only [Nat.add_zero] using h

theorem ethRxPacket_segment {r : Ring n} (hown : r.status r.dmaRxDescToGet &&& ethDmaRxDescOwn = 0)
    (hfs : r.status r.dmaRxDescToGet &&& ethDmaRxDescFs = 0) : ethRxPacket r =
      (⟨ethError, none, some r.dmaRxDescToGet⟩, { r with dmaRxDescToGet := slot r.dmaRxDescToGet 1 }) := by
  unfold ethRxPacket
  dsimp only
  rw [if_neg (not_not.mpr hown), if_neg (fun h => h.2.2 hfs)]

theorem ethRxPacket_frame {r : Ring n} (hown : r.status r.dmaRxDescToGet &&& ethDmaRxDescOwn = 0)
    (hsized : Sized (r.status r.dmaRxDescToGet)) (hfs : r.status r.dmaRxDescToGet &&& ethDmaRxDescFs ≠ 0) :
    ethRxPacket r = (⟨ethGetDMARxDescFrameLength (r.status r.dmaRxDescToGet) - 4,
      some (r.dmaRxDescToGet * ethRxBufSize), some r.dmaRxDescToGet⟩,
      { r with dmaRxDescToGet := slot r.dmaRxDescToGet 1 }) := by
  unfold ethRxPacket
  dsimp only
  rw [if_neg (not_not.mpr hown), if_pos ⟨hsized.1, hsized.2.1, hfs⟩]

/-- What `low_level_input` gets for a descriptor that has a size: the bytes of
the chain, or a fault if they are not all in `Rx_Buff`. -/
theorem lowLevelInput_sized {lw : Lwip} {c : ℕ} {r : Ring n}
    (hown : r.status r.dmaRxDescToGet &&& ethDmaRxDescOwn = 0) (hsized : Sized (r.status r.dmaRxDescToGet)) :
    (r.InBuffer lw c r.dmaRxDescToGet → lowLevelInput lw c r = .ok
      ((lw.pbufAlloc c (copyLength (r.status r.dmaRxDescToGet))).map fun _ =>
        if r.status r.dmaRxDescToGet &&& ethDmaRxDescFs = 0 then []
        else (r.rxBuff.drop (r.dmaRxDescToGet * ethRxBufSize)).take
          (copyLength (r.status r.dmaRxDescToGet)).toNat, r.handBack)) ∧
    (¬ r.InBuffer lw c r.dmaRxDescToGet → lowLevelInput lw c r = .error (.read r.rxBuff.length)) := by
  by_cases hfs : r.status r.dmaRxDescToGet &&& ethDmaRxDescFs = 0
  · -- not the first segment: nothing is copied
    have hlen : copyLength (r.status r.dmaRxDescToGet) = ethError.toUInt16 := by
      unfold copyLength
      rw [if_neg (not_not.mpr hfs)]
    refine ⟨fun _ => ?_, fun h => absurd (fun hfs' _ => absurd hfs hfs') h⟩
    unfold lowLevelInput
    rw [ethRxPacket_segment hown hfs, hlen, if_pos hfs]
    dsimp only
    cases halloc : lw.pbufAlloc c ethError.toUInt16 with
    | none => rfl
    | some p =>
      dsimp only
      rw [copyChain_empty _ _ _ _ p.2]
      rfl
  · have hlen : (ethGetDMARxDescFrameLength (r.status r.dmaRxDescToGet) - 4).toUInt16 =
        copyLength (r.status r.dmaRxDescToGet) := by
      unfold copyLength
      rw [if_pos hfs]
    unfold lowLevelInput
    rw [ethRxPacket_frame hown hsized hfs, if_neg hfs]
    dsimp only
    rw [hlen]
    unfold Ring.InBuffer
    cases halloc : lw.pbufAlloc c (copyLength (r.status r.dmaRxDescToGet)) with
    | none => exact ⟨fun _ => rfl, fun h => absurd (fun _ hne => absurd rfl hne) h⟩
    | some p =>
      dsimp only
      rw [copyChain_frame, p.2]
      constructor
      · intro hin
        rw [if_pos (hin hfs (by simp))]
        rfl
      · intro hin
        rw [if_neg fun h => hin fun _ _ => h]
        rfl

theorem frameAt_eq (r : Ring n) (lw : Lwip) (c : ℕ) (i : Fin (n + 1)) : r.frameAt lw c i =
    if Intact (r.status i) ∧ (lw.pbufAlloc c (copyLength (r.status i))).isSome then some (i, r.frame i)
    else none := by
  unfold Ring.frameAt
  by_cases hfs : r.status i &&& ethDmaRxDescFs = 0
  · rw [if_neg fun h => h.1.2.1 hfs, if_neg fun h => h.1.2.1 hfs]
  · unfold copyLength
    rw [if_pos hfs]

theorem passed_input (r : Ring n) (i : Fin (n + 1)) (bytes : List UInt8) (p : Prop) [Decidable p] :
    passed r (.input i bytes :: if p then [.pbufFree i] else []) =
      if Intact (r.status i) then [(i, bytes)] else [] := by
  have hrest : passed r (if p then [.pbufFree i] else []) = [] := by
    by_cases hp : p
    · rw [if_pos hp]
      rfl
    · rw [if_neg hp]
      rfl
  unfold passed at hrest ⊢
  rw [List.filterMap_cons, hrest]
  by_cases h : Intact (r.status i)
  · simp only [if_pos h]
  · simp only [if_neg h]

/-- A descriptor that has a size is handed back, and its frame passed on if it is intact. -/
theorem ethernetifInput_ok {lw : Lwip} {c : ℕ} {r : Ring n}
    (hown : r.status r.dmaRxDescToGet &&& ethDmaRxDescOwn = 0) (hsized : Sized (r.status r.dmaRxDescToGet))
    (hin : r.InBuffer lw c r.dmaRxDescToGet) : ∃ es, ethernetifInput lw c r = .ok (r.handBack, es) ∧
      ∀ r₀ : Ring n, r₀.status r.dmaRxDescToGet = r.status r.dmaRxDescToGet →
        passed r₀ es = (r.frameAt lw c r.dmaRxDescToGet).toList := by
  unfold ethernetifInput
  rw [(lowLevelInput_sized hown hsized).1 hin]
  cases halloc : lw.pbufAlloc c (copyLength (r.status r.dmaRxDescToGet)) with
  | none =>
    refine ⟨[], rfl, fun r₀ hr₀ => ?_⟩
    rw [frameAt_eq, if_neg fun h => by simp [halloc] at h]
    rfl
  | some p =>
    refine ⟨_, rfl, fun r₀ hr₀ => ?_⟩
    rw [frameAt_eq, halloc]
    dsimp only
    rw [passed_input, hr₀]
    by_cases hintact : Intact (r.status r.dmaRxDescToGet)
    · rw [if_pos hintact, if_neg hintact.2.1, if_pos ⟨hintact, rfl⟩, toNat_copyLength hintact]
      rfl
    · rw [if_neg hintact, if_neg fun h => hintact h.1]
      rfl

/-- The bytes of a descriptor that are not all in `Rx_Buff` are not copied. -/
theorem ethernetifInput_error {lw : Lwip} {c : ℕ} {r : Ring n}
    (hown : r.status r.dmaRxDescToGet &&& ethDmaRxDescOwn = 0) (hsized : Sized (r.status r.dmaRxDescToGet))
    (hin : ¬ r.InBuffer lw c r.dmaRxDescToGet) : ethernetifInput lw c r = .error (.read r.rxBuff.length) := by
  unfold ethernetifInput
  rw [(lowLevelInput_sized hown hsized).2 hin]
  rfl

/-! ### The loop -/

/-- The ring after `j` rounds: the first `j` descriptors are handed back, the others as they were. -/
structure Progress (r : Ring n) (j : ℕ) (r' : Ring n) : Prop where
  get : r'.dmaRxDescToGet = slot r.dmaRxDescToGet j
  buff : r'.rxBuff = r.rxBuff
  done : ∀ i < j, r'.status (slot r.dmaRxDescToGet i) = ethDmaRxDescOwn
  rest : ∀ i, j ≤ i → i < n + 1 → r'.status (slot r.dmaRxDescToGet i) = r.status (slot r.dmaRxDescToGet i)

section Progress

variable {lw : Lwip} {r r' : Ring n} {j k : ℕ}

theorem Progress.zero (r : Ring n) : Progress r 0 r where
  get := (slot_zero _).symm
  buff := rfl
  done := fun i hi => absurd hi (Nat.not_lt_zero i)
  rest := fun _ _ _ => rfl

theorem Progress.handBack (h : Progress r j r') (hj : j < n + 1) : Progress r (j + 1) r'.handBack where
  get := by
    unfold Ring.handBack
    dsimp only
    rw [h.get, slot_slot]
  buff := h.buff
  done := fun i hi => by
    unfold Ring.handBack
    dsimp only
    rw [h.get]
    rcases Nat.lt_succ_iff_lt_or_eq.mp hi with hlt | rfl
    · rw [Function.update_of_ne fun e => hlt.ne (slot_inj (hlt.trans hj) hj e)]
      exact h.done i hlt
    · exact Function.update_self ..
  rest := fun i hi hlt => by
    unfold Ring.handBack
    dsimp only
    rw [h.get, Function.update_of_ne fun e => (Nat.lt_of_succ_le hi).ne' (slot_inj hlt hj e)]
    exact h.rest i (by omega) hlt

/-- The current descriptor is as it was, as long as it is not a round further. -/
theorem Progress.status_get (h : Progress r j r') (hj : j < n + 1) :
    r'.status r'.dmaRxDescToGet = r.status (slot r.dmaRxDescToGet j) := by
  rw [h.get]
  exact h.rest j le_rfl hj

theorem Progress.frameAt (h : Progress r j r') (hj : j < n + 1) (c : ℕ) :
    r'.frameAt lw c r'.dmaRxDescToGet = r.frameAt lw c (slot r.dmaRxDescToGet j) := by
  have hstatus := h.rest j le_rfl hj
  unfold Ring.frameAt Ring.frame
  rw [h.get, h.buff, hstatus]

theorem Progress.inBuffer (h : Progress r j r') (hj : j < n + 1) (c : ℕ) :
    r'.InBuffer lw c r'.dmaRxDescToGet ↔ r.InBuffer lw c (slot r.dmaRxDescToGet j) := by
  have hstatus := h.rest j le_rfl hj
  unfold Ring.InBuffer
  rw [h.get, hstatus]

/-- After a round the current descriptor is one handed back. -/
theorem Progress.round (h : Progress r (n + 1) r') : r'.status r'.dmaRxDescToGet = ethDmaRxDescOwn := by
  have hfirst := h.done 0 (Nat.succ_pos n)
  rw [slot_zero] at hfirst
  rw [h.get, slot_round]
  exact hfirst

/-- The guard of the loop. -/
theorem ethGetRxPktSize_ne_zero {status : UInt32} :
    ethGetRxPktSize status ≠ 0 ↔ status &&& ethDmaRxDescOwn = 0 ∧ Sized status := by
  unfold ethGetRxPktSize Sized
  by_cases h : status &&& ethDmaRxDescOwn = 0 ∧ status &&& ethDmaRxDescEs = 0 ∧ status &&& ethDmaRxDescLs ≠ 0
  · rw [if_pos h]
    exact ⟨fun hne => ⟨h.1, h.2.1, h.2.2, hne⟩, fun hs => hs.2.2.2⟩
  · rw [if_neg h]
    exact ⟨fun hne => absurd rfl hne, fun hs => absurd ⟨hs.1, hs.2.1, hs.2.2.1⟩ h⟩

theorem irqLoop_take {fuel c : ℕ} {r₁ : Ring n} {es : List (Event n)}
    (hsize : ethGetRxPktSize (r.status r.dmaRxDescToGet) ≠ 0) (hok : ethernetifInput lw c r = .ok (r₁, es)) :
    irqLoop lw (fuel + 1) c r = (irqLoop lw fuel (c + 1) r₁).map fun x => x.map fun y => (y.1, es ++ y.2) := by
  rw [irqLoop, if_pos hsize, hok]

theorem irqLoop_fault {fuel c : ℕ} {e : Fault} (hsize : ethGetRxPktSize (r.status r.dmaRxDescToGet) ≠ 0)
    (herr : ethernetifInput lw c r = .error e) : irqLoop lw (fuel + 1) c r = .error e := by
  rw [irqLoop, if_pos hsize, herr]

theorem irqLoop_stop {fuel c : ℕ} (hsize : ¬ ethGetRxPktSize (r.status r.dmaRxDescToGet) ≠ 0) :
    irqLoop lw (fuel + 1) c r = .ok (some (r, [])) := by
  rw [irqLoop, if_neg hsize]

/-- The loop comes to an end: a round for each descriptor is enough. -/
theorem irqLoop_returns : ∀ (m c : ℕ) (r' : Ring n), Progress r j r' → j + m = n + 1 →
    irqLoop lw (m + 1) c r' ≠ .ok none := by
  intro m
  induction m generalizing j with
  | zero =>
    intro c r' h hj
    obtain rfl : j = n + 1 := hj
    have hstop : ¬ ethGetRxPktSize (r'.status r'.dmaRxDescToGet) ≠ 0 := by
      rw [ethGetRxPktSize_ne_zero, h.round]
      exact fun hs => absurd hs.1 (by decide)
    rw [irqLoop_stop hstop]
    simp
  | succ m ih =>
    intro c r' h hj
    by_cases hsize : ethGetRxPktSize (r'.status r'.dmaRxDescToGet) ≠ 0
    · obtain ⟨hown, hsized⟩ := ethGetRxPktSize_ne_zero.mp hsize
      by_cases hin : r'.InBuffer lw c r'.dmaRxDescToGet
      · obtain ⟨es, hok, -⟩ := ethernetifInput_ok hown hsized hin
        have hrest := ih (c + 1) r'.handBack (h.handBack (by omega)) (by omega)
        rw [irqLoop_take hsize hok]
        cases hloop : irqLoop lw (m + 1) (c + 1) r'.handBack with
        | error e => simp [Except.map]
        | ok x =>
          cases x with
          | none => exact absurd hloop hrest
          | some y => simp [Except.map]
      · rw [irqLoop_fault hsize (ethernetifInput_error hown hsized hin)]
        simp
    · rw [irqLoop_stop hsize]
      simp

/-- The handler returns on every ring, unless it reads past `Rx_Buff`. -/
theorem ethIrqHandler_returns (lw : Lwip) (r : Ring n) : ethIrqHandler lw r ≠ .ok none :=
  irqLoop_returns (n + 1) 0 r (Progress.zero r) (Nat.zero_add _)

/-- What the handler has done when it comes to descriptor `j`, if all before are taken. -/
theorem ethIrqHandler_reaches (h : Completed r k) : ∀ j ≤ k, (∀ i < j, Taken lw r i) →
    ∃ r' es, Progress r j r' ∧ passed r es = intactFrames lw r j ∧
      ethIrqHandler lw r = (irqLoop lw (n + 2 - j) j r').map (Option.map fun y => (y.1, es ++ y.2)) := by
  intro j
  induction j with
  | zero =>
    intro _ _
    refine ⟨r, [], Progress.zero r, rfl, ?_⟩
    unfold ethIrqHandler
    rw [Nat.sub_zero]
    cases irqLoop lw (n + 2) 0 r with
    | error e => rfl
    | ok x => cases x <;> rfl
  | succ j ih =>
    intro hj htaken
    have hlt : j < n + 1 := by
      have := h.le
      omega
    obtain ⟨r', es, hprog, hpassed, hrun⟩ := ih (by omega) fun i hi => htaken i (by omega)
    obtain ⟨hsized, hin⟩ := htaken j (Nat.lt_succ_self j)
    rw [← hprog.status_get hlt] at hsized
    rw [← hprog.inBuffer hlt] at hin
    have hown : r'.status r'.dmaRxDescToGet &&& ethDmaRxDescOwn = 0 := by
      rw [hprog.status_get hlt]
      exact h.done j hj
    obtain ⟨es', hok, hpassed'⟩ := ethernetifInput_ok hown hsized hin
    have hframe := hpassed' r (by rw [hprog.status_get hlt, hprog.get])
    refine ⟨r'.handBack, es ++ es', hprog.handBack hlt, ?_, ?_⟩
    · unfold passed at hframe hpassed ⊢
      unfold intactFrames at hpassed ⊢
      rw [List.filterMap_append, hpassed, hframe, hprog.frameAt hlt, List.range_succ, List.filterMap_append]
      cases hat : r.frameAt lw j (slot r.dmaRxDescToGet j) <;> simp [hat]
    · rw [hrun, show n + 2 - j = (n + 2 - (j + 1)) + 1 by omega]
      rw [irqLoop_take (ethGetRxPktSize_ne_zero.mpr ⟨hown, hsized⟩) hok]
      cases irqLoop lw (n + 2 - (j + 1)) (j + 1) r'.handBack with
      | error e => rfl
      | ok x => cases x <;> simp [Except.map]

/-- **The handler serves what the DMA has completed exactly if every completed
descriptor is taken.** -/
theorem served_iff (lw : Lwip) (r : Ring n) (h : Completed r k) : Served lw r k ↔ ∀ j < k, Taken lw r j := by
  constructor
  · rintro ⟨r₂, es₂, hrun₂, hback, -, -⟩
    intro j
    induction j using Nat.strong_induction_on with
    | h j ih =>
      intro hj
      have hlt : j < n + 1 := lt_of_lt_of_le hj h.le
      obtain ⟨r', es, hprog, -, hrun⟩ := ethIrqHandler_reaches h j hj.le fun i hi => ih i hi (hi.trans hj)
      have hown : r'.status r'.dmaRxDescToGet &&& ethDmaRxDescOwn = 0 := by
        rw [hprog.status_get hlt]
        exact h.done j hj
      rw [show n + 2 - j = (n + 1 - j) + 1 by omega] at hrun
      unfold Taken
      rw [← hprog.status_get hlt, ← hprog.inBuffer hlt]
      by_cases hsized : Sized (r'.status r'.dmaRxDescToGet)
      · have hsize := ethGetRxPktSize_ne_zero.mpr ⟨hown, hsized⟩
        refine ⟨hsized, ?_⟩
        by_contra hin
        rw [irqLoop_fault hsize (ethernetifInput_error hown hsized hin), hrun₂] at hrun
        cases hrun
      · -- the loop stops here, and the descriptor is not handed back
        rw [irqLoop_stop fun hsize => hsized (ethGetRxPktSize_ne_zero.mp hsize).2, hrun₂] at hrun
        obtain ⟨rfl, -⟩ := Prod.mk.inj (Option.some.inj (Except.ok.inj hrun))
        refine absurd ?_ (hback j hj)
        rw [← hprog.get]
        exact hown
  · intro htaken
    obtain ⟨r', es, hprog, hpassed, hrun⟩ := ethIrqHandler_reaches h k le_rfl htaken
    have hown : r'.status r'.dmaRxDescToGet &&& ethDmaRxDescOwn ≠ 0 := by
      rcases Nat.lt_or_eq_of_le h.le with hlt | rfl
      · rw [hprog.status_get hlt]
        exact h.rest k le_rfl hlt
      · rw [hprog.round]
        decide
    have hstop : ¬ ethGetRxPktSize (r'.status r'.dmaRxDescToGet) ≠ 0 := fun hsize =>
      hown (ethGetRxPktSize_ne_zero.mp hsize).1
    have hle := h.le
    rw [show n + 2 - k = (n + 1 - k) + 1 by omega, irqLoop_stop hstop] at hrun
    refine ⟨r', es, ?_, fun j hj => ?_, hown, hpassed⟩
    · rw [hrun]
      simp [Except.map]
    · rw [hprog.done j hj]
      decide

end Progress

/-- lwIP with a pbuf for every frame. -/
def oneLwip : Lwip := ⟨fun _ len => some ⟨[len], by simp⟩, fun _ _ => errOk⟩

/-- Five descriptors, the first completed with a status. -/
def firstDone (status : UInt32) : Ring 4 :=
  ⟨fun i => if i = 0 then status else ethDmaRxDescOwn, List.replicate (rxBuffSize 4) 0, List.length_replicate,
    0, false⟩

/-- A frame of 60 bytes is served. -/
theorem served_firstDone : Served oneLwip (firstDone 0x00400300) 1 := by
  refine (served_iff oneLwip (firstDone 0x00400300) ⟨by decide, by decide, by decide⟩).mpr fun j hj => ?_
  obtain rfl := Nat.lt_one_iff.mp hj
  refine ⟨⟨by decide, by decide, by decide⟩, fun _ _ => ?_⟩
  decide

/-- A frame with an error stays where it is. -/
theorem not_served : ¬ ∀ (lw : Lwip) (r : Ring 4) (k : ℕ), Completed r k → Served lw r k := by
  intro h
  obtain ⟨r', es, hrun, hback, -, -⟩ := h oneLwip (firstDone 0x00408300) 1 ⟨by decide, by decide, by decide⟩
  have hstop : ethIrqHandler oneLwip (firstDone 0x00408300) = .ok (some (firstDone 0x00408300, [])) :=
    irqLoop_stop (by decide)
  rw [hstop] at hrun
  obtain ⟨rfl, -⟩ := Prod.mk.inj (Option.some.inj (Except.ok.inj hrun))
  exact absurd (hback 0 Nat.one_pos) (by decide)

end EthRx
end Serial2Ethernet
