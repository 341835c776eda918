/-
# A datagram on its way out

`sendUdpDatagram` has lwIP allocate a chain of buffers from the pool, makes the
first one point at the caller's bytes, and sends the chain. The first buffer
takes 456 bytes, behind the room for the headers, and each further one 512
(`sent_chain`). The further ones keep what the pool had in them, so the
caller's bytes are sent exactly if there are no others or they hold the rest
already (`sent_iff`).
-/
import Mathlib

namespace Serial2Ethernet
namespace UdpSend

/-- A pointer: the memory from there on. -/
abbrev Memory := ℕ → UInt8

/-! ### The pool and its chains -/

/-- `MEM_ALIGNMENT` -/
def memAlignment : ℕ := 4

/-- `LWIP_MEM_ALIGN_SIZE`: the next multiple of the alignment. -/
def memAlignSize (size : ℕ) : ℕ := (size + memAlignment - 1) / memAlignment * memAlignment

/-- `PBUF_POOL_BUFSIZE_ALIGNED`, of a size of 512. -/
def pbufPoolBufsizeAligned : ℕ := memAlignSize 512

def pbufLinkHlen : ℕ := 14

def pbufIpHlen : ℕ := 20

def pbufTransportHlen : ℕ := 20

inductive PbufLayer
  | transport
  | ip
  | link
  | raw
  deriving DecidableEq, Repr

/-- The header offset of a layer. -/
def PbufLayer.offset : PbufLayer → ℕ
  | .transport => pbufLinkHlen + pbufIpHlen + pbufTransportHlen
  | .ip => pbufLinkHlen + pbufIpHlen
  | .link => pbufLinkHlen
  | .raw => 0

/-- A buffer of a chain; the list it stands in is the chain. -/
structure Pbuf where
  payload : Memory
  totLen : ℕ
  len : ℕ

/-- The loop `while (rem_len > 0)`: the tail of the chain. The buffers of the pool
are those `memp_malloc` returns, in order. -/
def allocTail : (pool : List Memory) → (remLen : ℕ) → Option (List Pbuf)
  | _, 0 => some []
  | [], _ + 1 => none
  | m :: pool, remLen + 1 =>
    let q : Pbuf := ⟨m, remLen + 1, min (remLen + 1) pbufPoolBufsizeAligned⟩
    (allocTail pool (remLen + 1 - q.len)).map (q :: ·)

/-- Allocate a chain of type `PBUF_POOL`, the first buffer apart; `none` is the null pointer. -/
def pbufAlloc (pool : List Memory) (layer : PbufLayer) (length : UInt16) : Option (Pbuf × List Pbuf) :=
  match pool with
  | [] => none
  | m :: pool =>
    let room := memAlignSize layer.offset
    let p : Pbuf := ⟨fun k => m (room + k), length.toNat, min length.toNat (pbufPoolBufsizeAligned - room)⟩
    (allocTail pool (length.toNat - p.len)).map (p, ·)

/-- Send udp datagram: the chain passed to `udp_send`, if one is. -/
def sendUdpDatagram (udppcb : Bool) (pool : List Memory) (ptr : Memory) (size : UInt32) : Option (List Pbuf) :=
  if udppcb then
    match pbufAlloc pool .transport size.toUInt16 with
    | some (buff, next) => some ({ buff with payload := ptr } :: next)
    | none => none
  else none

/-! ### What a chain carries -/

/-- The first `n` bytes at a pointer. -/
def bytes (m : Memory) (n : ℕ) : List UInt8 := (List.range n).map m

/-- The concatenated payload of a chain. -/
def payload (chain : List Pbuf) : List UInt8 := chain.flatMap fun q => bytes q.payload q.len

/-- The total length of a buffer is its length and those of the buffers behind it. -/
def TotalsRight : List Pbuf → Prop
  | [] => True
  | q :: chain => q.totLen = q.len + (chain.map Pbuf.len).sum ∧ TotalsRight chain

/-- The bytes of a datagram in the first buffer: 456. -/
def firstLen : ℕ := pbufPoolBufsizeAligned - memAlignSize PbufLayer.transport.offset

/-- The rest of the caller's bytes is in the buffers behind the first already. -/
def LeftBehind (pool : List Memory) (ptr : Memory) (size : ℕ) : Prop :=
  ∀ k, firstLen + k < size → (pool[1 + k / 512]?).map (· (k % 512)) = some (ptr (firstLen + k))

theorem length_bytes (m : Memory) (n : ℕ) : (bytes m n).length = n := by
  unfold bytes
  rw [List.length_map, List.length_range]

theorem getElem?_bytes {m : Memory} {n k : ℕ} (h : k < n) : (bytes m n)[k]? = some (m k) := by
  unfold bytes
  rw [List.getElem?_map, List.getElem?_range h]
  rfl

theorem bytes_add (m : Memory) (a b : ℕ) : bytes m (a + b) = bytes m a ++ bytes (fun k => m (a + k)) b := by
  unfold bytes
  rw [List.range_add, List.map_append, List.map_map]
  rfl

theorem payload_cons (q : Pbuf) (chain : List Pbuf) :
    payload (q :: chain) = bytes q.payload q.len ++ payload chain := List.flatMap_cons

theorem length_payload : ∀ chain : List Pbuf, (payload chain).length = (chain.map Pbuf.len).sum
  | [] => rfl
  | q :: chain => by
    rw [payload_cons, List.length_append, length_bytes, length_payload chain, List.map_cons, List.sum_cons]

/-! ### The allocation -/

/-- One round of the loop. -/
theorem allocTail_succ {m : Memory} {pool : List Memory} {n : ℕ} {chain : List Pbuf}
    (h : allocTail (m :: pool) (n + 1) = some chain) :
    ∃ rest, allocTail pool (n + 1 - min (n + 1) 512) = some rest ∧ chain = ⟨m, n + 1, min (n + 1) 512⟩ :: rest := by
  rw [allocTail, Option.map_eq_some_iff] at h
  obtain ⟨rest, hrest, rfl⟩ := h
  exact ⟨rest, hrest, rfl⟩

/-- The lengths of the tail sum up to what remained, and its totals are right. -/
theorem allocTail_lengths : ∀ (pool : List Memory) {n : ℕ} {chain : List Pbuf}, allocTail pool n = some chain →
    (chain.map Pbuf.len).sum = n ∧ TotalsRight chain
  | _, 0, _, h => by
    rw [allocTail] at h
    cases h
    exact ⟨rfl, trivial⟩
  | [], _ + 1, _, h => by
    rw [allocTail] at h
    cases h
  | m :: pool, n + 1, chain, h => by
    obtain ⟨rest, hrest, rfl⟩ := allocTail_succ h
    obtain ⟨hsum, htot⟩ := allocTail_lengths pool hrest
    refine ⟨?_, ?_, htot⟩
    · rw [List.map_cons, List.sum_cons, hsum]
      dsimp only
      omega
    · rw [hsum]
      dsimp only
      omega

/-- The tail carries what is in the buffers, 512 bytes of each. -/
theorem allocTail_payload : ∀ (pool : List Memory) {n : ℕ} {chain : List Pbuf}, allocTail pool n = some chain →
    ∀ k < n, (payload chain)[k]? = (pool[k / 512]?).map (· (k % 512))
  | _, 0, _, _, k, hk => absurd hk (Nat.not_lt_zero k)
  | [], _ + 1, _, h, _, _ => by
    rw [allocTail] at h
    cases h
  | m :: pool, n + 1, chain, h, k, hk => by
    obtain ⟨rest, hrest, rfl⟩ := allocTail_succ h
    rw [payload_cons]
    dsimp only
    by_cases hfirst : k < 512
    · have hin : k < min (n + 1) 512 := by omega
      rw [List.getElem?_append_left (by rwa [length_bytes]), getElem?_bytes hin, Nat.div_eq_of_lt hfirst,
        Nat.mod_eq_of_lt hfirst]
      rfl
    · have hfull : min (n + 1) 512 = 512 := by omega
      have hdiv : k / 512 = (k - 512) / 512 + 1 := by omega
      have hmod : k % 512 = (k - 512) % 512 := by omega
      rw [hfull] at hrest ⊢
      calc (bytes m 512 ++ payload rest)[k]?
          = (payload rest)[k - 512]? := by
            rw [List.getElem?_append_right (by rw [length_bytes]; omega), length_bytes]
        _ = (pool[(k - 512) / 512]?).map (· ((k - 512) % 512)) := allocTail_payload pool hrest (k - 512) (by omega)
        _ = ((m :: pool)[k / 512]?).map (· (k % 512)) := by rw [hdiv, hmod, List.getElem?_cons_succ]

/-- The first buffer has the room for the headers in front, and the tail is behind it. -/
theorem pbufAlloc_some {pool : List Memory} {layer : PbufLayer} {length : UInt16} {p : Pbuf} {next : List Pbuf}
    (h : pbufAlloc pool layer length = some (p, next)) : ∃ m free, pool = m :: free ∧
      p = ⟨fun k => m (memAlignSize layer.offset + k), length.toNat,
        min length.toNat (pbufPoolBufsizeAligned - memAlignSize layer.offset)⟩ ∧
      allocTail free (length.toNat - p.len) = some next := by
  unfold pbufAlloc at h
  cases pool with
  | nil => cases h
  | cons m free =>
    obtain ⟨tail, htail, hp⟩ := Option.map_eq_some_iff.mp h
    obtain ⟨rfl, rfl⟩ := Prod.mk.inj hp
    exact ⟨m, free, rfl, rfl, htail⟩

/-- **The contract of the allocation.** The lengths of the chain sum up to the size
asked for, and each total length is that of the buffers from there on. -/
theorem pbufAlloc_lengths {pool : List Memory} {layer : PbufLayer} {length : UInt16} {p : Pbuf} {next : List Pbuf}
    (h : pbufAlloc pool layer length = some (p, next)) :
    ((p :: next).map Pbuf.len).sum = length.toNat ∧ TotalsRight (p :: next) := by
  obtain ⟨m, free, -, hp, htail⟩ := pbufAlloc_some h
  obtain ⟨hsum, htot⟩ := allocTail_lengths free htail
  have hle : p.len ≤ length.toNat := by
    rw [hp]
    exact Nat.min_le_left _ _
  have hall : p.len + (next.map Pbuf.len).sum = length.toNat :=
    calc p.len + (next.map Pbuf.len).sum = p.len + (length.toNat - p.len) := by rw [hsum]
      _ = length.toNat := Nat.add_sub_cancel' hle
  refine ⟨hall, ?_, htot⟩
  rw [hall, hp]

/-! ### What is sent -/

/-- The chain passed to `udp_send`: the first buffer points at the caller's bytes, and the
tail is as it was allocated. -/
theorem sent_chain {pool : List Memory} {ptr : Memory} {size : UInt32} {chain : List Pbuf}
    (hsize : size.toNat ≤ 65535) (h : sendUdpDatagram true pool ptr size = some chain) :
    ∃ m free tail, pool = m :: free ∧ allocTail free (size.toNat - min size.toNat firstLen) = some tail ∧
      chain = ⟨ptr, size.toNat, min size.toNat firstLen⟩ :: tail := by
  have hlen : size.toUInt16.toNat = size.toNat := by
    rw [UInt32.toNat_toUInt16]
    exact Nat.mod_eq_of_lt (by omega)
  unfold sendUdpDatagram at h
  rw [if_pos rfl] at h
  cases halloc : pbufAlloc pool .transport size.toUInt16 with
  | none =>
    rw [halloc] at h
    cases h
  | some r =>
    obtain ⟨buff, next⟩ := r
    rw [halloc] at h
    cases h
    obtain ⟨m, free, hpool, rfl, htail⟩ := pbufAlloc_some halloc
    rw [hlen] at htail ⊢
    exact ⟨m, free, next, hpool, htail, rfl⟩

/-- **What a datagram carries.** The chain that is sent carries the caller's bytes exactly if they
fit in the first buffer, or the rest of them was left behind in the others. -/
theorem sent_iff {pool : List Memory} {ptr : Memory} {size : UInt32} {chain : List Pbuf}
    (hsize : size.toNat ≤ 65535) (h : sendUdpDatagram true pool ptr size = some chain) :
    payload chain = bytes ptr size.toNat ↔ size.toNat ≤ firstLen ∨ LeftBehind pool ptr size.toNat := by
  obtain ⟨m, free, tail, rfl, htail, rfl⟩ := sent_chain hsize h
  rw [payload_cons]
  dsimp only
  by_cases hshort : size.toNat ≤ firstLen
  · rw [Nat.min_eq_left hshort, Nat.sub_self, allocTail] at htail
    cases htail
    rw [Nat.min_eq_left hshort]
    exact iff_of_true (List.append_nil _) (Or.inl hshort)
  · obtain ⟨n, hn⟩ := Nat.exists_eq_add_of_le (Nat.le_of_not_le hshort)
    rw [hn] at hshort htail ⊢
    rw [Nat.min_eq_right (Nat.le_add_right _ _)] at htail ⊢
    rw [Nat.add_sub_cancel_left] at htail
    have hlen : (payload tail).length = n := by
      rw [length_payload, (allocTail_lengths free htail).1]
    rw [bytes_add, List.append_right_inj, or_iff_right hshort]
    constructor
    · intro heq k hk
      have hk' : k < n := Nat.lt_of_add_lt_add_left hk
      rw [Nat.add_comm 1, List.getElem?_cons_succ, ← allocTail_payload free htail k hk', heq, getElem?_bytes hk']
    · intro hleft
      refine List.ext_getElem? fun k => ?_
      by_cases hk : k < n
      · have hbyte := hleft k (Nat.add_lt_add_left hk _)
        rw [Nat.add_comm 1, List.getElem?_cons_succ] at hbyte
        rw [allocTail_payload free htail k hk, hbyte, getElem?_bytes hk]
      · rw [List.getElem?_eq_none (by omega), List.getElem?_eq_none (by rw [length_bytes]; omega)]

/-- Three bytes, from a pool of one buffer. -/
theorem sent_three : ∃ chain, sendUdpDatagram true [fun _ => 0] UInt8.ofNat 3 = some chain ∧
    payload chain = [0, 1, 2] := by
  have hsent : sendUdpDatagram true [fun _ => 0] UInt8.ofNat 3 = some [⟨UInt8.ofNat, 3, 3⟩] := rfl
  exact ⟨_, hsent, (sent_iff (by decide) hsent).mpr (Or.inl (by decide))⟩

/-- The first byte that is not in the first buffer. -/
theorem not_sent : ¬ ∀ pool ptr size chain, size.toNat ≤ 65535 → sendUdpDatagram true pool ptr size = some chain →
    payload chain = bytes ptr size.toNat := by
  intro hall
  have hsent := hall [fun _ => 0, fun _ => 0] (fun _ => 1) 457 _ (by decide) rfl
  have hlast := congrArg List.getLast? hsent
  exact absurd hlast (by decide +kernel)

end UdpSend
end Serial2Ethernet
