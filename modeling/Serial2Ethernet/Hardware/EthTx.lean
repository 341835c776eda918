/-
# Sending frames

A ring of transmit descriptors, one buffer each. `low_level_output` copies the
chain into the buffer of the current descriptor and calls `ETH_Tx_Packet`,
which hands the descriptor to the DMA if the DMA does not own it. The DMA
sends the frames it owns in ring order and gives each descriptor back with a
status of its own.

The copy comes before the question who owns the descriptor. So a call that
finds the ring full has already written into the oldest frame: the frames are
sent as they were accepted, and a refused call changes nothing, exactly if
such a call writes the bytes that stand there (`faithful_iff`).
-/
import Serial2Ethernet.Lib.Ring
import Serial2Ethernet.Lib.Run
import Serial2Ethernet.Hardware.UdpInterface

namespace Serial2Ethernet
namespace EthTx

open Lib UdpInterface

/-! ### Bits of a descriptor -/

def ethDmaTxDescOwn : UInt32 := 0x80000000

def ethDmaTxDescLs : UInt32 := 0x20000000

def ethDmaTxDescFs : UInt32 := 0x10000000

def ethDmaTxDescTch : UInt32 := 0x00100000

def ethDmaTxDescChecksumTCPUDPICMPFull : UInt32 := 0x00C00000

def ethDmaTxDescTbs1 : UInt32 := 0x00001FFF

def ethTxBufSize : ℕ := 1524

/-- A descriptor and the buffer its `Buffer1Addr` points to. -/
structure Desc where
  status : UInt32
  controlBufferSize : UInt32
  buffer : Vector UInt8 ethTxBufSize

/-- The DMA owns the descriptor. -/
def Desc.Owned (d : Desc) : Prop := d.status &&& ethDmaTxDescOwn ≠ 0

instance (d : Desc) : Decidable d.Owned := inferInstanceAs (Decidable (_ ≠ _))

/-- The ring of `n + 1` descriptors, the last one chained to the first.
`dma` is the descriptor the DMA is at, and `tbus` says that it has found it
not its own and waits. -/
structure Ring (n : ℕ) where
  dmaTxDscrTab : Fin (n + 1) → Desc
  dmaTxDescToSet : Fin (n + 1)
  dma : Fin (n + 1)
  tbus : Bool

/-- A pbuf chain that fits a transmit buffer. -/
structure Chain where
  pbufs : List Pbuf
  fits : (payload pbufs).length ≤ ethTxBufSize

/-! ### The source -/

def ethError : UInt8 := 0

def ethSuccess : UInt8 := 1

def errOk : Int8 := 0

def errMem : Int8 := -1

section Source

variable {n : ℕ}

/-- Initialize the descriptors in chain mode, with checksums inserted by the hardware. -/
def ethDmaTxDescChainInit (r : Ring n) : Ring n :=
  { r with
    dmaTxDscrTab := fun i =>
      { r.dmaTxDscrTab i with status := ethDmaTxDescTch ||| ethDmaTxDescChecksumTCPUDPICMPFull }
    dmaTxDescToSet := 0
    dma := 0 }

/-- Copy bytes into the buffer from `l` on. -/
def memcpy (l : ℕ) : List UInt8 → Vector UInt8 ethTxBufSize → Except Fault (Vector UInt8 ethTxBufSize)
  | [], buffer => .ok buffer
  | b :: bs, buffer =>
    match store buffer l b with
    | .error e => .error e
    | .ok buffer => memcpy (l + 1) bs buffer

/-- The walk along the chain; the result has the length of the frame. -/
def copyChain : List Pbuf → ℕ → Vector UInt8 ethTxBufSize → Except Fault (ℕ × Vector UInt8 ethTxBufSize)
  | [], l, buffer => .ok (l, buffer)
  | q :: chain, l, buffer =>
    match memcpy l q.payload buffer with
    | .error e => .error e
    | .ok buffer => copyChain chain (l + q.len) buffer

/-- Hand the current descriptor to the DMA, unless the DMA owns it; the DMA is
told to go on if it waits. -/
def ethTxPacket (frameLength : UInt16) (r : Ring n) : UInt8 × Ring n :=
  let d := r.dmaTxDscrTab r.dmaTxDescToSet
  if d.Owned then (ethError, r)
  else
    let d := { d with controlBufferSize := frameLength.toUInt32 &&& ethDmaTxDescTbs1 }
    let d := { d with status := d.status ||| (ethDmaTxDescLs ||| ethDmaTxDescFs) }
    let d := { d with status := d.status ||| ethDmaTxDescOwn }
    (ethSuccess,
      { r with
        dmaTxDscrTab := Function.update r.dmaTxDscrTab r.dmaTxDescToSet d
        dmaTxDescToSet := slot r.dmaTxDescToSet 1
        tbus := false })

/-- The descriptor the next frame goes to. -/
def Ring.current (r : Ring n) : Desc := r.dmaTxDscrTab r.dmaTxDescToSet

/-- The ring with other bytes in the current buffer. -/
def Ring.putBuffer (r : Ring n) (buffer : Vector UInt8 ethTxBufSize) : Ring n :=
  { r with dmaTxDscrTab := Function.update r.dmaTxDscrTab r.dmaTxDescToSet { r.current with buffer := buffer } }

/-- Send a chain: into the current buffer, then to the DMA. -/
def lowLevelOutput (p : List Pbuf) (r : Ring n) : Except Fault (Int8 × Ring n) :=
  match copyChain p 0 r.current.buffer with
  | .error e => .error e
  | .ok (l, buffer) =>
    let res := ethTxPacket (UInt16.ofNat l) (r.putBuffer buffer)
    .ok (if res.1 = ethError then errMem else errOk, res.2)

end Source

/-! ### The DMA -/

/-- What the DMA sends for a descriptor. -/
def Desc.frame (d : Desc) : List UInt8 :=
  d.buffer.toList.take (d.controlBufferSize &&& ethDmaTxDescTbs1).toNat

/-- What is to be seen: a chain accepted or refused by `low_level_output`, a
frame sent by the DMA. -/
inductive Event
  | accepted (bytes : List UInt8)
  | refused (bytes : List UInt8)
  | sent (bytes : List UInt8)
  deriving DecidableEq, Repr

/-- A call of `low_level_output`, or the DMA completes its descriptor with a status. -/
inductive Act
  | output (p : Chain)
  | complete (status : UInt32)

variable {n : ℕ}

/-- One action. -/
def step (r : Ring n) : Act → Except Fault (Ring n × List Event)
  | .output p => (lowLevelOutput p.pbufs r).map fun x =>
    (x.2, [if x.1 = errOk then .accepted (payload p.pbufs) else .refused (payload p.pbufs)])
  | .complete status =>
    let d := r.dmaTxDscrTab r.dma
    if r.tbus then .ok (r, [])
    else if d.Owned then
      .ok ({ r with
        dmaTxDscrTab := Function.update r.dmaTxDscrTab r.dma { d with status := status &&& ~~~ethDmaTxDescOwn }
        dma := slot r.dma 1 }, [.sent d.frame])
    else .ok ({ r with tbus := true }, [])

/-- The frames accepted, in the order of the calls. -/
def accepted (es : List Event) : List (List UInt8) :=
  es.filterMap fun e => match e with | .accepted bytes => some bytes | _ => none

/-- The frames sent, in order. -/
def sent (es : List Event) : List (List UInt8) :=
  es.filterMap fun e => match e with | .sent bytes => some bytes | _ => none

/-- The frame the DMA is to send for a descriptor. -/
def Desc.queued (d : Desc) : Option (List UInt8) := if d.Owned then some d.frame else none

/-- The frames the DMA still has to send, from where it is. -/
def pending (r : Ring n) : List (List UInt8) :=
  (List.range (n + 1)).filterMap fun k => (r.dmaTxDscrTab (slot r.dma k)).queued

/-- A call that is refused leaves the ring as it was. -/
def Unchanged (r : Ring n) (a : Act) : Prop :=
  ∀ r' bytes, step r a = .ok (r', [.refused bytes]) → r' = r

/-- Frames are sent as they were accepted, in order: at every moment of the
run the frames sent so far and the ones pending are the accepted ones. A
refused call changes nothing. -/
structure Faithful (r : Ring n) (as : List Act) : Prop where
  runs : ∃ x, run step r as = .ok x
  kept : ∀ pre post r' es, as = pre ++ post → run step r pre = .ok (r', es) →
    accepted es = sent es ++ pending r'
  unchanged : Meets step Unchanged r as

/-- If the DMA still owns the current descriptor, the bytes stand in its buffer already. -/
def Repeats (r : Ring n) : Act → Prop
  | .output p => r.current.Owned → payload p.pbufs <+: r.current.buffer.toList
  | .complete _ => True

/-! ### Copying the chain -/

/-- Bytes are copied over as many old ones. -/
theorem memcpy_over : ∀ (bs pre old rest : List UInt8) (buffer : Vector UInt8 ethTxBufSize),
    buffer.toList = pre ++ old ++ rest → old.length = bs.length →
    ∃ buffer', memcpy pre.length bs buffer = .ok buffer' ∧ buffer'.toList = pre ++ bs ++ rest := by
  intro bs
  induction bs with
  | nil =>
    intro pre old rest buffer h hlen
    obtain rfl := List.length_eq_zero_iff.mp hlen
    exact ⟨buffer, rfl, h⟩
  | cons b bs ih =>
    intro pre old rest buffer h hlen
    obtain ⟨o, old, rfl⟩ := List.exists_cons_of_length_eq_add_one hlen
    have hlt : pre.length < ethTxBufSize := by
      have := congrArg List.length h
      simp at this
      omega
    have hset : (buffer.set pre.length b hlt).toList = (pre ++ [b]) ++ old ++ rest := by
      rw [Vector.toList_set, h]
      simp
    obtain ⟨buffer', hok, hlist⟩ := ih (pre ++ [b]) old rest _ hset (by simpa using hlen)
    refine ⟨buffer', ?_, by simpa using hlist⟩
    unfold memcpy store
    rw [dif_pos hlt]
    simpa using hok

/-- The walk along the chain copies its payload over as many old bytes. -/
theorem copyChain_over : ∀ (chain : List Pbuf) (pre old rest : List UInt8) (buffer : Vector UInt8 ethTxBufSize),
    buffer.toList = pre ++ old ++ rest → old.length = (payload chain).length →
    ∃ buffer', copyChain chain pre.length buffer = .ok (pre.length + (payload chain).length, buffer') ∧
      buffer'.toList = pre ++ payload chain ++ rest := by
  intro chain
  induction chain with
  | nil =>
    intro pre old rest buffer h hlen
    obtain rfl := List.length_eq_zero_iff.mp hlen
    exact ⟨buffer, rfl, h⟩
  | cons q chain ih =>
    intro pre old rest buffer h hlen
    have hpayload : payload (q :: chain) = q.payload ++ payload chain := rfl
    rw [hpayload, List.length_append] at hlen
    have hsplit : buffer.toList = pre ++ old.take q.len ++ (old.drop q.len ++ rest) := by
      rw [h, List.append_assoc, List.append_assoc, ← List.append_assoc (old.take _), List.take_append_drop]
    have hq : q.payload.length = q.len := rfl
    obtain ⟨buffer₁, h₁, hlist₁⟩ := memcpy_over q.payload pre (old.take q.len) _ buffer hsplit
      (by rw [List.length_take]; omega)
    obtain ⟨buffer₂, h₂, hlist₂⟩ := ih (pre ++ q.payload) (old.drop q.len) rest buffer₁
      (by rw [hlist₁, ← List.append_assoc])
      (by rw [List.length_drop]; omega)
    rw [List.length_append, hq] at h₂
    refine ⟨buffer₂, ?_, by rw [hlist₂, hpayload, List.append_assoc pre]⟩
    unfold copyChain
    rw [h₁]
    dsimp only
    rw [h₂, hpayload, List.length_append, hq, Nat.add_assoc]

/-- A chain that fits replaces the beginning of the buffer. -/
theorem copyChain_ok (p : Chain) (buffer : Vector UInt8 ethTxBufSize) :
    ∃ buffer', copyChain p.pbufs 0 buffer = .ok ((payload p.pbufs).length, buffer') ∧
      buffer'.toList = payload p.pbufs ++ buffer.toList.drop (payload p.pbufs).length := by
  have hfits := p.fits
  obtain ⟨buffer', hok, hlist⟩ := copyChain_over p.pbufs [] (buffer.toList.take (payload p.pbufs).length)
    (buffer.toList.drop (payload p.pbufs).length) buffer (by simp) (by simpa using hfits)
  refine ⟨buffer', ?_, by simpa using hlist⟩
  simpa using hok

/-! ### Descriptors -/

theorem or_and_cancel (x m : UInt32) : (x ||| m) &&& m = m := by
  apply UInt32.eq_of_toBitVec_eq
  apply BitVec.eq_of_getLsbD_eq
  intro i hi
  simp only [UInt32.toBitVec_and, UInt32.toBitVec_or, BitVec.getLsbD_and, BitVec.getLsbD_or]
  cases m.toBitVec.getLsbD i <;> simp

/-- A descriptor the DMA gives back is not its own. -/
theorem not_owned_complete (status cbs : UInt32) (buffer : Vector UInt8 ethTxBufSize) :
    ¬ Desc.Owned ⟨status &&& ~~~ethDmaTxDescOwn, cbs, buffer⟩ := by
  unfold Desc.Owned
  rw [UInt32.and_assoc, UInt32.and_comm (~~~ethDmaTxDescOwn)]
  simp

/-- The length of a frame passes through the 16 bits of the call and the 13 of the descriptor. -/
theorem toNat_tbs1 {l : ℕ} (h : l ≤ ethTxBufSize) :
    ((UInt16.ofNat l).toUInt32 &&& ethDmaTxDescTbs1 &&& ethDmaTxDescTbs1).toNat = l := by
  have hmod := Nat.and_two_pow_sub_one_eq_mod (UInt16.ofNat l).toUInt32.toNat 13
  have hmask : ethDmaTxDescTbs1.toNat = 2 ^ 13 - 1 := rfl
  unfold ethTxBufSize at h
  rw [UInt32.and_assoc, UInt32.and_self, UInt32.toNat_and, hmask, hmod]
  simp
  omega

/-- The descriptor as `ETH_Tx_Packet` hands it to the DMA. -/
def Desc.handed (d : Desc) (frameLength : UInt16) : Desc where
  status := d.status ||| (ethDmaTxDescLs ||| ethDmaTxDescFs) ||| ethDmaTxDescOwn
  controlBufferSize := frameLength.toUInt32 &&& ethDmaTxDescTbs1
  buffer := d.buffer

theorem queued_handed (d : Desc) {l : ℕ} (h : l ≤ ethTxBufSize) :
    (d.handed (UInt16.ofNat l)).queued = some (d.buffer.toList.take l) := by
  have howned : (d.handed (UInt16.ofNat l)).Owned := by
    unfold Desc.Owned Desc.handed
    dsimp only
    rw [or_and_cancel]
    decide
  unfold Desc.queued
  rw [if_pos howned]
  unfold Desc.frame Desc.handed
  dsimp only
  rw [toNat_tbs1 h]

theorem ethTxPacket_owned {r : Ring n} (frameLength : UInt16) (h : r.current.Owned) :
    ethTxPacket frameLength r = (ethError, r) := if_pos h

theorem ethTxPacket_free {r : Ring n} (frameLength : UInt16) (h : ¬ r.current.Owned) :
    ethTxPacket frameLength r = (ethSuccess,
      { r with
        dmaTxDscrTab := Function.update r.dmaTxDscrTab r.dmaTxDescToSet (r.current.handed frameLength)
        dmaTxDescToSet := slot r.dmaTxDescToSet 1
        tbus := false }) := if_neg h

theorem current_putBuffer (r : Ring n) (buffer : Vector UInt8 ethTxBufSize) :
    (r.putBuffer buffer).current = { r.current with buffer := buffer } := Function.update_self ..

/-- A call on a descriptor the DMA owns is refused, after the copy. -/
theorem step_output_owned {r : Ring n} (p : Chain) (h : r.current.Owned) :
    ∃ buffer, step r (.output p) = .ok (r.putBuffer buffer, [.refused (payload p.pbufs)]) ∧
      buffer.toList = payload p.pbufs ++ r.current.buffer.toList.drop (payload p.pbufs).length := by
  obtain ⟨buffer, hcopy, hlist⟩ := copyChain_ok p r.current.buffer
  have howned : (r.putBuffer buffer).current.Owned := by
    rw [current_putBuffer]
    exact h
  refine ⟨buffer, ?_, hlist⟩
  unfold step lowLevelOutput
  simp only [hcopy, ethTxPacket_owned _ howned]
  rfl

/-- A call on a descriptor the DMA does not own hands it the frame. -/
theorem step_output_free {r : Ring n} (p : Chain) (h : ¬ r.current.Owned) :
    ∃ d : Desc, d.queued = some (payload p.pbufs) ∧ step r (.output p) =
      .ok ({ r with
        dmaTxDscrTab := Function.update r.dmaTxDscrTab r.dmaTxDescToSet d
        dmaTxDescToSet := slot r.dmaTxDescToSet 1
        tbus := false }, [.accepted (payload p.pbufs)]) := by
  obtain ⟨buffer, hcopy, hlist⟩ := copyChain_ok p r.current.buffer
  have hfree : ¬ (r.putBuffer buffer).current.Owned := by
    rw [current_putBuffer]
    exact h
  refine ⟨(r.putBuffer buffer).current.handed (UInt16.ofNat (payload p.pbufs).length), ?_, ?_⟩
  · rw [queued_handed _ p.fits, current_putBuffer]
    dsimp only
    rw [hlist, List.take_left]
  · unfold step lowLevelOutput
    simp only [hcopy, ethTxPacket_free _ hfree]
    unfold Ring.putBuffer
    simp only [Function.update_idem]
    rfl

/-- The DMA sends the frame of its descriptor and gives it back, or sends nothing. -/
theorem step_complete (r : Ring n) (status : UInt32) :
    (∃ tbus, step r (.complete status) = .ok ({ r with tbus := tbus }, [])) ∨
      (r.dmaTxDscrTab r.dma).Owned ∧ ∃ d : Desc, ¬ d.Owned ∧ step r (.complete status) = .ok ({ r with
        dmaTxDscrTab := Function.update r.dmaTxDscrTab r.dma d
        dma := slot r.dma 1 }, [.sent (r.dmaTxDscrTab r.dma).frame]) := by
  unfold step
  dsimp only
  by_cases ht : r.tbus
  · rw [if_pos ht]
    exact .inl ⟨r.tbus, rfl⟩
  · rw [if_neg ht]
    by_cases h : (r.dmaTxDscrTab r.dma).Owned
    · rw [if_pos h]
      exact .inr ⟨h, _, not_owned_complete status _ _, rfl⟩
    · rw [if_neg h]
      exact .inl ⟨true, rfl⟩

theorem step_total (r : Ring n) (a : Act) : ∃ r' es, step r a = .ok (r', es) := by
  cases a with
  | output p =>
    by_cases h : r.current.Owned
    · obtain ⟨buffer, hok, -⟩ := step_output_owned p h
      exact ⟨_, _, hok⟩
    · obtain ⟨d, -, hok⟩ := step_output_free p h
      exact ⟨_, _, hok⟩
  | complete status =>
    rcases step_complete r status with ⟨tbus, hok⟩ | ⟨-, d, -, hok⟩
    · exact ⟨_, _, hok⟩
    · exact ⟨_, _, hok⟩

/-- A refused call leaves the ring as it was exactly if it repeats the buffer. -/
theorem unchanged_iff (r : Ring n) (a : Act) : Unchanged r a ↔ Repeats r a := by
  cases a with
  | output p =>
    by_cases h : r.current.Owned
    · obtain ⟨buffer, hok, hlist⟩ := step_output_owned p h
      constructor
      · intro hsame _
        have hbuffer : { r.current with buffer := buffer } = r.current := by
          rw [← current_putBuffer, hsame _ _ hok]
        rw [← congrArg Desc.buffer hbuffer, hlist]
        exact List.prefix_append _ _
      · intro hrep r' bytes hstep
        rw [hok] at hstep
        obtain ⟨hr, -⟩ := Prod.mk.inj (Except.ok.inj hstep)
        obtain ⟨rest, hrest⟩ := hrep h
        have hbuffer : buffer = r.current.buffer := by
          rw [← Vector.toList_inj, hlist, ← hrest, List.drop_left]
        rw [← hr, hbuffer]
        exact congrArg (fun tab => { r with dmaTxDscrTab := tab }) (Function.update_eq_self ..)
    · obtain ⟨d, -, hok⟩ := step_output_free p h
      refine ⟨fun _ howned => absurd howned h, fun _ r' bytes hstep => ?_⟩
      rw [hok] at hstep
      simp at hstep
  | complete status =>
    refine ⟨fun _ => trivial, fun _ r' bytes hstep => ?_⟩
    rcases step_complete r status with ⟨tbus, hok⟩ | ⟨-, d, -, hok⟩
    · rw [hok] at hstep
      cases hstep
    · rw [hok] at hstep
      cases hstep

/-! ### The frames in the ring -/

/-- The frames stand in the descriptors from the DMA's on, which the DMA owns,
and it owns no other. -/
structure Holds (r : Ring n) (frames : List (List UInt8)) : Prop where
  le : frames.length ≤ n + 1
  toSet : r.dmaTxDescToSet = slot r.dma frames.length
  held : RingHolds (fun i => (r.dmaTxDscrTab i).queued) r.dma (frames.map some)
  free : ∀ k, frames.length ≤ k → k < n + 1 → ¬ (r.dmaTxDscrTab (slot r.dma k)).Owned

theorem queued_of_not_owned {d : Desc} (h : ¬ d.Owned) : d.queued = none := if_neg h

theorem owned_of_queued {d : Desc} {f : List UInt8} (h : d.queued = some f) : d.Owned ∧ d.frame = f := by
  unfold Desc.queued at h
  by_cases howned : d.Owned
  · rw [if_pos howned] at h
    exact ⟨howned, Option.some.inj h⟩
  · rw [if_neg howned] at h
    cases h

section Holds

variable {r : Ring n} {frames : List (List UInt8)}

theorem Holds.pending_eq (h : Holds r frames) : pending r = frames := by
  obtain ⟨m, hm⟩ := Nat.exists_eq_add_of_le h.le
  have hheld : (List.range frames.length).map (fun k => (r.dmaTxDscrTab (slot r.dma k)).queued) =
      frames.map some := by
    refine List.ext_getElem (by simp) fun k hk hk' => ?_
    simp only [List.getElem_map, List.getElem_range]
    exact (h.held k hk').trans (List.getElem_map ..)
  have hfree : ((List.range m).map (frames.length + ·)).filterMap
      (fun k => (r.dmaTxDscrTab (slot r.dma k)).queued) = [] := by
    refine List.filterMap_eq_nil_iff.mpr fun k hk => ?_
    obtain ⟨j, hj, rfl⟩ := List.mem_map.mp hk
    have := List.mem_range.mp hj
    exact queued_of_not_owned (h.free _ (by omega) (by omega))
  have hrange : List.range (n + 1) = List.range frames.length ++ (List.range m).map (frames.length + ·) := by
    rw [hm, List.range_add]
  unfold pending
  rw [hrange, List.filterMap_append, hfree, List.append_nil]
  calc (List.range frames.length).filterMap (fun k => (r.dmaTxDscrTab (slot r.dma k)).queued)
      = ((List.range frames.length).map fun k => (r.dmaTxDscrTab (slot r.dma k)).queued).filterMap id := by
        rw [List.filterMap_map]
        rfl
    _ = (frames.map some).filterMap id := by rw [hheld]
    _ = frames := by
        rw [List.filterMap_map]
        exact List.filterMap_some

theorem Holds.init (r : Ring n) : Holds (ethDmaTxDescChainInit r) [] where
  le := Nat.zero_le _
  toSet := (slot_zero _).symm
  held := RingHolds.nil
  free := fun k _ _ => not_not.mpr
    (by decide : (ethDmaTxDescTch ||| ethDmaTxDescChecksumTCPUDPICMPFull) &&& ethDmaTxDescOwn = 0)

/-- If the current descriptor is not the DMA's, not all of them are. -/
theorem Holds.room (h : Holds r frames) (hfree : ¬ r.current.Owned) : frames.length < n + 1 := by
  by_contra hge
  have hlen : frames.length = n + 1 := le_antisymm h.le (by omega)
  have hcurrent : r.dmaTxDescToSet = slot r.dma 0 := by
    rw [h.toSet, hlen, slot_round, slot_zero]
  have hhead := h.held 0 (by simp; omega)
  rw [← hcurrent] at hhead
  exact hfree (owned_of_queued (hhead.trans (List.getElem_map ..))).1

/-- An accepted frame stands behind the others. -/
theorem Holds.output (h : Holds r frames) {d : Desc} {bytes : List UInt8} (hfree : ¬ r.current.Owned)
    (hd : d.queued = some bytes) : Holds { r with
      dmaTxDscrTab := Function.update r.dmaTxDscrTab r.dmaTxDescToSet d
      dmaTxDescToSet := slot r.dmaTxDescToSet 1
      tbus := false } (frames ++ [bytes]) := by
  have hlt := h.room hfree
  have hupdate : (fun i => (Function.update r.dmaTxDscrTab r.dmaTxDescToSet d i).queued) =
      Function.update (fun i => (r.dmaTxDscrTab i).queued) r.dmaTxDescToSet (some bytes) := by
    rw [← hd]
    exact Function.comp_update Desc.queued r.dmaTxDscrTab r.dmaTxDescToSet d
  refine ⟨?_, ?_, ?_, ?_⟩
  · rw [List.length_append]
    exact hlt
  · dsimp only
    rw [h.toSet, slot_slot, List.length_append]
    rfl
  · dsimp only
    rw [hupdate, List.map_append, List.map_singleton]
    have hring := h.held.push (by rw [List.length_map]; exact hlt) (some bytes)
    rw [List.length_map, ← h.toSet] at hring
    exact hring
  · intro k hk hk'
    rw [List.length_append, List.length_singleton] at hk
    have hne : slot r.dma k ≠ r.dmaTxDescToSet := by
      rw [h.toSet]
      intro e
      have := slot_inj hk' hlt e
      omega
    dsimp only
    rw [Function.update_of_ne hne]
    exact h.free k (by omega) hk'

/-- The DMA sends the first of the frames. -/
theorem Holds.complete (h : Holds r frames) (howned : (r.dmaTxDscrTab r.dma).Owned) {d : Desc}
    (hd : ¬ d.Owned) : ∃ rest, frames = (r.dmaTxDscrTab r.dma).frame :: rest ∧ Holds { r with
      dmaTxDscrTab := Function.update r.dmaTxDscrTab r.dma d
      dma := slot r.dma 1 } rest := by
  cases frames with
  | nil =>
    have := h.free 0 le_rfl (Nat.succ_pos n)
    rw [slot_zero] at this
    exact absurd howned this
  | cons f rest =>
    have hle := h.le
    rw [List.length_cons] at hle
    have hheld := h.held
    rw [List.map_cons] at hheld
    refine ⟨rest, by rw [(owned_of_queued hheld.head).2], by omega, ?_, ?_, ?_⟩
    · dsimp only
      rw [h.toSet, slot_next, List.length_cons]
    · intro k hk
      have htail := hheld.tail k hk
      rw [List.length_map] at hk
      dsimp only at htail ⊢
      rw [slot_next] at htail ⊢
      rw [Function.update_of_ne (slot_succ_ne (by omega))]
      exact htail
    · intro k hk hk'
      dsimp only
      rw [slot_next]
      rcases Nat.lt_or_eq_of_le (Nat.le_of_lt_succ hk') with hlt | rfl
      · rw [Function.update_of_ne (slot_succ_ne (by omega))]
        exact h.free (k + 1) (by simpa using hk) (by omega)
      · rw [slot_round, Function.update_self]
        exact hd

end Holds

theorem accepted_append (es fs : List Event) : accepted (es ++ fs) = accepted es ++ accepted fs :=
  List.filterMap_append

theorem sent_append (es fs : List Event) : sent (es ++ fs) = sent es ++ sent fs := List.filterMap_append

/-- What one action does to the frames in the ring. -/
theorem step_holds {r r' : Ring n} {a : Act} {es : List Event} {frames : List (List UInt8)}
    (h : Holds r frames) (hrep : Repeats r a) (hok : step r a = .ok (r', es)) :
    ∃ frames', Holds r' frames' ∧ frames ++ accepted es = sent es ++ frames' := by
  cases a with
  | output p =>
    by_cases howned : r.current.Owned
    · obtain ⟨buffer, hstep, -⟩ := step_output_owned p howned
      have hsame := (unchanged_iff r (.output p)).mpr hrep _ _ hstep
      rw [hstep, hsame] at hok
      obtain ⟨rfl, rfl⟩ := Prod.mk.inj (Except.ok.inj hok)
      exact ⟨frames, h, List.append_nil frames⟩
    · obtain ⟨d, hd, hstep⟩ := step_output_free p howned
      rw [hstep] at hok
      obtain ⟨rfl, rfl⟩ := Prod.mk.inj (Except.ok.inj hok)
      exact ⟨frames ++ [payload p.pbufs], h.output howned hd, rfl⟩
  | complete status =>
    rcases step_complete r status with ⟨tbus, hstep⟩ | ⟨howned, d, hd, hstep⟩
    · rw [hstep] at hok
      obtain ⟨rfl, rfl⟩ := Prod.mk.inj (Except.ok.inj hok)
      exact ⟨frames, ⟨h.le, h.toSet, h.held, h.free⟩, List.append_nil frames⟩
    · rw [hstep] at hok
      obtain ⟨rfl, rfl⟩ := Prod.mk.inj (Except.ok.inj hok)
      obtain ⟨rest, rfl, hrest⟩ := h.complete howned hd
      exact ⟨rest, hrest, List.append_nil _⟩

/-- **Frames are sent as they were accepted exactly as long as no call is made
while the DMA owns the current descriptor**, unless it repeats the bytes there. -/
theorem faithful_iff (r : Ring n) (as : List Act) :
    Faithful (ethDmaTxDescChainInit r) as ↔ Meets step Repeats (ethDmaTxDescChainInit r) as := by
  have hsame : (Unchanged : Ring n → Act → Prop) = Repeats := by
    funext r a
    exact propext (unchanged_iff r a)
  constructor
  · intro h
    rw [← hsame]
    exact h.unchanged
  · intro h
    refine ⟨?_, ?_, hsame ▸ h⟩
    · obtain ⟨r', es, hok, -⟩ := run_total (fun (_ : Ring n) (_ : List Act) => True)
        (fun s a _ _ => by
          obtain ⟨s', es, hok⟩ := step_total s a
          exact ⟨s', es, hok, trivial⟩) as (ethDmaTxDescChainInit r) trivial
      exact ⟨_, hok⟩
    · intro pre post r' es e hrun
      rw [e] at h
      have hinv := run_meets (fun s es => ∃ frames, Holds s frames ∧ accepted es = sent es ++ frames) Repeats
        (fun s a s' o o' hI hP hok => by
          obtain ⟨frames, hholds, hacc⟩ := hI
          obtain ⟨frames', hholds', hstep⟩ := step_holds hholds hP hok
          refine ⟨frames', hholds', ?_⟩
          rw [accepted_append, sent_append, hacc, List.append_assoc, hstep, List.append_assoc])
        pre (o := []) ⟨[], Holds.init r, rfl⟩ h.of_append hrun
      obtain ⟨frames, hholds, hacc⟩ := hinv
      rw [hholds.pending_eq]
      exact hacc

/-- A chain of one segment of one byte. -/
def oneByte (b : UInt8) : Chain := ⟨[⟨[b], (by decide : 1 < 65536)⟩], (by decide : 1 ≤ 1524)⟩

/-- Five frames fill the ring; a sixth is refused, but the DMA sends its bytes for the first. -/
theorem not_faithful : ¬ ∀ as, Faithful
    (ethDmaTxDescChainInit (⟨fun _ => ⟨0, 0, Vector.replicate _ 0⟩, 0, 0, false⟩ : Ring 4)) as := by
  intro h
  have hfull := h [.output (oneByte 1), .output (oneByte 2), .output (oneByte 3), .output (oneByte 4),
    .output (oneByte 5), .output (oneByte 6), .complete 0]
  obtain ⟨r', es, hrun, hseen⟩ := run_observed
    (fun x : Ring 4 × List Event => (accepted x.2, sent x.2))
    (x := ([[1], [2], [3], [4], [5]], [[6]]))
    (by decide +kernel :
      (run step (ethDmaTxDescChainInit (⟨fun _ => ⟨0, 0, Vector.replicate _ 0⟩, 0, 0, false⟩ : Ring 4))
        [.output (oneByte 1), .output (oneByte 2), .output (oneByte 3), .output (oneByte 4),
          .output (oneByte 5), .output (oneByte 6), .complete 0]).toOption.map _ = _)
  obtain ⟨hacc, hsent⟩ := Prod.mk.inj hseen
  have hkept := hfull.kept _ [] r' es (List.append_nil _).symm hrun
  rw [hacc, hsent] at hkept
  simp at hkept

end EthTx
end Serial2Ethernet
