/-
# Bringing up the network

`lwip_comm_init` takes six pieces of the internal pool, for the DMA
descriptors and buffers of the driver and for the two memories of lwIP, and
gives them back when a later step fails; the start-up loop calls it until it
succeeds. `PoolCall`s record what is allocated and freed, so that a piece freed
twice would show (`balance`).
-/
import Serial2Ethernet.System.Allocations

namespace Serial2Ethernet
namespace LwipComm

open Lib Malloc

/-- A call on the pool, with the pointer it returns or is given. -/
inductive PoolCall
  | malloc (size : UInt32) (ptr : Ptr)
  | free (ptr : Ptr)
  deriving DecidableEq, Repr

/-- The internal pool, the calls on it so far, and the pointers of the drivers. -/
structure Net where
  pool : Pool .sramin
  calls : List PoolCall
  dmaRxDscrTab : Ptr
  dmaTxDscrTab : Ptr
  rxBuff : Ptr
  txBuff : Ptr
  mempMemory : Ptr
  ramHeap : Ptr

/-! ### Sizes -/

def ethRxbufnb : UInt32 := 5

def ethTxbufnb : UInt32 := 5

/-- Header, extra bytes, VLAN tag, payload and CRC. -/
def ethMaxPacketSize : UInt32 := 1524

def ethRxBufSize : UInt32 := ethMaxPacketSize

def ethTxBufSize : UInt32 := ethMaxPacketSize

/-- Eight words: the descriptors are the enhanced ones. -/
def sizeofEthDmadesc : UInt32 := 32

def memAlignment : UInt32 := 4

def memSize : UInt32 := 16000

def lwipMemAlignSize (size : UInt32) : UInt32 := (size + memAlignment - 1) &&& ~~~(memAlignment - 1)

def ramheapsize : UInt32 := lwipMemAlignSize memSize + 2 * lwipMemAlignSize (4 * 3) + memAlignment

/-! ### The source -/

def errOk : Int8 := 0

def mallocIn (size : UInt32) (net : Net) : Except Fault (Ptr × Net) :=
  (mymalloc size net.pool).map fun r =>
    (r.1, { net with pool := r.2, calls := net.calls ++ [.malloc size r.1] })

def freeIn (ptr : Ptr) (net : Net) : Except Fault Net :=
  (myfree ptr net.pool).map fun pool => { net with pool, calls := net.calls ++ [.free ptr] }

/-- Give back the memory of the driver. -/
def ethMemFree (net : Net) : Except Fault Net := do
  let net ← freeIn net.dmaRxDscrTab net
  let net ← freeIn net.dmaTxDscrTab net
  let net ← freeIn net.rxBuff net
  freeIn net.txBuff net

/-- Take the memory of the driver; the result is 1 if there is not enough. -/
def ethMemMalloc (net : Net) : Except Fault (UInt8 × Net) := do
  let (ptr, net) ← mallocIn (ethRxbufnb * sizeofEthDmadesc) net
  let net := { net with dmaRxDscrTab := ptr }
  let (ptr, net) ← mallocIn (ethTxbufnb * sizeofEthDmadesc) net
  let net := { net with dmaTxDscrTab := ptr }
  let (ptr, net) ← mallocIn (ethRxBufSize * ethRxbufnb) net
  let net := { net with rxBuff := ptr }
  let (ptr, net) ← mallocIn (ethTxBufSize * ethTxbufnb) net
  let net := { net with txBuff := ptr }
  if net.dmaRxDscrTab = none ∨ net.dmaTxDscrTab = none ∨ net.rxBuff = none ∨ net.txBuff = none then
    return (1, ← ethMemFree net)
  else return (0, net)

/-- Give back the memories of lwIP. -/
def lwipCommMemFree (net : Net) : Except Fault Net := do
  let net ← freeIn net.mempMemory net
  freeIn net.ramHeap net

section Source

/- What `memp_get_memorysize` returns: a sum over lwIP's pools, fixed when it is built. -/
variable (mempsize : UInt32)

/-- Take the memories of lwIP; the result is 1 if there is not enough. -/
def lwipCommMemMalloc (net : Net) : Except Fault (UInt8 × Net) := do
  let (ptr, net) ← mallocIn mempsize net
  let net := { net with mempMemory := ptr }
  let (ptr, net) ← mallocIn ramheapsize net
  let net := { net with ramHeap := ptr }
  if net.mempMemory = none ∨ net.ramHeap = none then
    return (1, ← lwipCommMemFree net)
  else return (0, net)

/-- The init callback: it sets up the interface and the DMA and reports no error. -/
def ethernetifInit : Int8 := errOk

/-- Whether `netif_add` returns the interface, by what its init callback returns. -/
def netifAdd (init : Int8) : Bool := init = errOk

/-- Initialize lwIP: 0, or 1 for memory, 2 for the PHY, 3 for the interface.
`lan8720` is what `LAN8720_Init` returns. -/
def lwipCommInit (lan8720 : UInt8) (net : Net) : Except Fault (UInt8 × Net) := do
  let (failed, net) ← ethMemMalloc net
  if failed ≠ 0 then return (1, net)
  else
    let (failed, net) ← lwipCommMemMalloc mempsize net
    if failed ≠ 0 then return (1, ← ethMemFree net)
    else if lan8720 ≠ 0 then
      let net ← lwipCommMemFree net
      return (2, ← ethMemFree net)
    else if netifAdd ethernetifInit = false then return (3, net)
    else return (0, net)

/-- The loop at start-up over what `LAN8720_Init` returns in turn; whether the
network is up when these are used up. -/
def startUp : List UInt8 → Net → Except Fault (Bool × Net)
  | [], net => .ok (false, net)
  | lan8720 :: results, net => do
    let (failed, net) ← lwipCommInit mempsize lan8720 net
    if failed ≠ 0 then startUp results net else return (true, net)

end Source

/-! ### What is held -/

/-- The live offsets after one more call; `none` if it frees one that is not live. -/
def PoolCall.apply (live : List UInt32) : PoolCall → Option (List UInt32)
  | .malloc _ ptr => some (live ++ ptr.toList)
  | .free none => some live
  | .free (some offset) => if offset ∈ live then some (live.erase offset) else none

/-- The offsets live after the calls; `none` if one was freed that was not live. -/
def balance (calls : List PoolCall) : Option (List UInt32) := calls.foldlM PoolCall.apply []

theorem balance_snoc (calls : List PoolCall) (call : PoolCall) :
    balance (calls ++ [call]) = (balance calls).bind fun live => call.apply live := by
  unfold balance
  rw [List.foldlM_append]
  cases calls.foldlM PoolCall.apply [] with
  | none => rfl
  | some live => simp

/-- The blocks behind a pointer. -/
def held (x : Ptr × UInt32) : List Block :=
  x.1.toList.map fun offset => ⟨offset.toNat / 32, blocks x.2⟩

/-- The pieces `l` are what the pool has beyond `g`, and what the calls have left. -/
structure Holding (g : ℕ → ℕ) (l : List (Ptr × UInt32)) (pool : Pool .sramin) (calls : List PoolCall) : Prop where
  ready : pool.memrdy ≠ 0
  aligned : ∀ x ∈ l, ∀ offset ∈ x.1, 32 ∣ offset.toNat
  laid : LaidOn g (memtblsize .sramin) (l.flatMap held) (entry pool.memmap)
  balanced : balance calls = some (l.flatMap fun x => x.1.toList)

section Holding

variable {g : ℕ → ℕ} {l m : List (Ptr × UInt32)}

/-- An allocation is held, if there is one. -/
theorem Holding.malloc (net : Net) (h : Holding g l net.pool net.calls) (size : UInt32)
    (hsize : blocks size < 65536) :
    ∃ ptr pool calls, mallocIn size net = .ok (ptr, { net with pool, calls }) ∧
      Holding g (l ++ [(ptr, size)]) pool calls := by
  have hready : Malloc.ready net.pool = net.pool := ready_of_memrdy h.ready
  have hbalance (ptr : Ptr) : balance (net.calls ++ [.malloc size ptr]) =
      some ((l ++ [(ptr, size)]).flatMap fun x => x.1.toList) := by
    rw [balance_snoc, h.balanced]
    simp [PoolCall.apply]
  -- nothing is taken
  have hnone : mymemMalloc size net.pool = .ok (noRoom, net.pool) →
      ∃ ptr pool calls, mallocIn size net = .ok (ptr, { net with pool, calls }) ∧
        Holding g (l ++ [(ptr, size)]) pool calls := by
    intro hok
    refine ⟨none, net.pool, net.calls ++ [.malloc size none],
      by simp [mallocIn, mymalloc, hok, Except.map], h.ready, ?_, ?_, hbalance none⟩
    · refine List.forall_mem_append.mpr ⟨h.aligned, ?_⟩
      rw [List.forall_mem_singleton]
      rintro offset ⟨⟩
    · rw [List.flatMap_append]
      simpa [held] using h.laid
  by_cases h0 : size = 0
  · apply hnone
    simp [mymemMalloc, h0, hready]
  have hnmemb : (nmembOf .sramin size).toNat = blocks size := by
    rw [toNat_nmembOf, Nat.mod_eq_of_lt hsize]
  obtain ⟨r, pool, hok, hcase⟩ := mymemMalloc_spec net.pool h0 (hnmemb ▸ blocks_pos h0)
  rw [hready, hnmemb] at hcase
  rcases hcase with ⟨hr, hp, -⟩ | ⟨i, htop, hroom, hoffset, hrdy, hentry⟩
  · apply hnone
    rw [hok, hr, hp]
  · refine ⟨some r, pool, net.calls ++ [.malloc size (some r)],
      by simp [mallocIn, mymalloc, hok, hroom, Except.map], hrdy ▸ h.ready, ?_, ?_, hbalance (some r)⟩
    · refine List.forall_mem_append.mpr ⟨h.aligned, ?_⟩
      rw [List.forall_mem_singleton]
      intro offset hoff
      obtain rfl := Option.mem_some_iff.mp hoff
      exact ⟨i, hoffset.trans (Nat.mul_comm i 32)⟩
    · have hheld : held (some r, size) = [⟨i, blocks size⟩] := by
        simp [held, hoffset]
      rw [hentry, List.flatMap_append, List.flatMap_singleton, hheld]
      exact h.laid.take (blocks_pos h0) htop.fits htop.free

/-- What is held is freed; the other pieces stay. -/
theorem Holding.free (net : Net) {x : Ptr × UInt32} (h : Holding g (l ++ x :: m) net.pool net.calls) :
    ∃ pool calls, freeIn x.1 net = .ok { net with pool, calls } ∧ Holding g (l ++ m) pool calls := by
  have hsub : ∀ y ∈ l ++ m, y ∈ l ++ x :: m := fun y hy =>
    ((List.Sublist.refl l).append (List.sublist_cons_self x m)).subset hy
  have haligned : ∀ y ∈ l ++ m, ∀ offset ∈ y.1, 32 ∣ offset.toNat := fun y hy => h.aligned y (hsub y hy)
  have hlaid := h.laid
  rw [List.flatMap_append, List.flatMap_cons] at hlaid
  have hbalanced := h.balanced
  rw [List.flatMap_append, List.flatMap_cons] at hbalanced
  obtain ⟨ptr, size⟩ := x
  cases ptr with
  | none =>
    refine ⟨net.pool, net.calls ++ [.free none], rfl, h.ready, haligned, ?_, ?_⟩
    · rw [List.flatMap_append]
      simpa [held] using hlaid
    · rw [balance_snoc, hbalanced]
      simp [PoolCall.apply]
  | some offset =>
    have hheld : held (some offset, size) = [⟨offset.toNat / 32, blocks size⟩] := rfl
    rw [hheld, List.singleton_append] at hlaid
    set b : Block := ⟨offset.toNat / 32, blocks size⟩ with hb
    have hmem : b ∈ l.flatMap held ++ b :: m.flatMap held := by simp
    have hpos := hlaid.pos b hmem
    have hoffset : offset.toNat = b.start * 32 :=
      (Nat.div_mul_cancel (h.aligned (some offset, size) (by simp) offset rfl)).symm
    obtain ⟨pool, hok, hrdy, hentry⟩ := mymemFree_block h.ready hoffset hpos (hlaid.fits b hmem)
      (hlaid.at_start hmem)
    refine ⟨pool, net.calls ++ [.free (some offset)], by simp [freeIn, myfree, hok, Except.map],
      hrdy ▸ h.ready, haligned, ?_, ?_⟩
    · rw [hentry, List.flatMap_append]
      exact hlaid.release
    · -- the offset is not that of an earlier piece, which would overlap
      have hfresh : offset ∉ l.flatMap fun x => x.1.toList := by
        intro hin
        obtain ⟨y, hy, hoff⟩ := List.mem_flatMap.mp hin
        have hheldy : (⟨offset.toNat / 32, blocks y.2⟩ : Block) ∈ l.flatMap held :=
          List.mem_flatMap.mpr ⟨y, hy, List.mem_map.mpr ⟨offset, hoff, rfl⟩⟩
        have hposy : 0 < blocks y.2 := hlaid.pos _ (List.mem_append_left _ hheldy)
        have hapart := (List.pairwise_append.mp hlaid.apart).2.2 _ hheldy b List.mem_cons_self
        exact hapart b.start (Block.covers_start hposy) (Block.covers_start hpos)
      rw [balance_snoc, hbalanced]
      simp [PoolCall.apply, List.erase_append_right _ hfresh]

end Holding

/-! ### The functions -/

/-- The pieces of the driver. -/
def Net.driver (net : Net) : List (Ptr × UInt32) :=
  [(net.dmaRxDscrTab, ethRxbufnb * sizeofEthDmadesc), (net.dmaTxDscrTab, ethTxbufnb * sizeofEthDmadesc),
    (net.rxBuff, ethRxBufSize * ethRxbufnb), (net.txBuff, ethTxBufSize * ethTxbufnb)]

/-- The memories of lwIP. -/
def Net.memories (mempsize : UInt32) (net : Net) : List (Ptr × UInt32) :=
  [(net.mempMemory, mempsize), (net.ramHeap, ramheapsize)]

/-- What a function that takes pieces leaves: nothing new if it reports an
error, else the pieces, none of them `NULL`. -/
def Took (g : ℕ → ℕ) (l pieces : List (Ptr × UInt32)) (ret : UInt8) (net : Net) : Prop :=
  ret ≠ 0 ∧ Holding g l net.pool net.calls ∨
    ret = 0 ∧ (∀ x ∈ pieces, x.1 ≠ none) ∧ Holding g (l ++ pieces) net.pool net.calls

section Functions

variable {g : ℕ → ℕ} {l : List (Ptr × UInt32)} {net : Net}

theorem ethMemFree_spec (net : Net) (h : Holding g (l ++ net.driver) net.pool net.calls) :
    ∃ pool calls, ethMemFree net = .ok { net with pool, calls } ∧ Holding g l pool calls := by
  obtain ⟨p₁, c₁, h₁, hold₁⟩ := Holding.free net h
  obtain ⟨p₂, c₂, h₂, hold₂⟩ := Holding.free { net with pool := p₁, calls := c₁ } hold₁
  obtain ⟨p₃, c₃, h₃, hold₃⟩ := Holding.free { net with pool := p₂, calls := c₂ } hold₂
  obtain ⟨p₄, c₄, h₄, hold₄⟩ := Holding.free { net with pool := p₃, calls := c₃ } hold₃
  rw [List.append_nil] at hold₄
  refine ⟨p₄, c₄, ?_, hold₄⟩
  unfold ethMemFree
  simp only [h₁, h₂, h₃, h₄, bind, Except.bind]

theorem lwipCommMemFree_spec {mempsize : UInt32} (net : Net)
    (h : Holding g (l ++ net.memories mempsize) net.pool net.calls) :
    ∃ pool calls, lwipCommMemFree net = .ok { net with pool, calls } ∧ Holding g l pool calls := by
  obtain ⟨p₁, c₁, h₁, hold₁⟩ := Holding.free net h
  obtain ⟨p₂, c₂, h₂, hold₂⟩ := Holding.free { net with pool := p₁, calls := c₁ } hold₁
  rw [List.append_nil] at hold₂
  refine ⟨p₂, c₂, ?_, hold₂⟩
  unfold lwipCommMemFree
  simp only [h₁, h₂, bind, Except.bind]

theorem ethMemMalloc_spec (net : Net) (h : Holding g l net.pool net.calls) :
    ∃ ret net', ethMemMalloc net = .ok (ret, net') ∧ Took g l net'.driver ret net' := by
  obtain ⟨ptr₁, p₁, c₁, h₁, hold₁⟩ := Holding.malloc net h (ethRxbufnb * sizeofEthDmadesc) (by decide)
  let n₁ : Net := { net with pool := p₁, calls := c₁, dmaRxDscrTab := ptr₁ }
  obtain ⟨ptr₂, p₂, c₂, h₂, hold₂⟩ := Holding.malloc n₁ hold₁ (ethTxbufnb * sizeofEthDmadesc) (by decide)
  let n₂ : Net := { n₁ with pool := p₂, calls := c₂, dmaTxDscrTab := ptr₂ }
  obtain ⟨ptr₃, p₃, c₃, h₃, hold₃⟩ := Holding.malloc n₂ hold₂ (ethRxBufSize * ethRxbufnb) (by decide)
  let n₃ : Net := { n₂ with pool := p₃, calls := c₃, rxBuff := ptr₃ }
  obtain ⟨ptr₄, p₄, c₄, h₄, hold₄⟩ := Holding.malloc n₃ hold₃ (ethTxBufSize * ethTxbufnb) (by decide)
  let n₄ : Net := { n₃ with pool := p₄, calls := c₄, txBuff := ptr₄ }
  have hold : Holding g (l ++ n₄.driver) n₄.pool n₄.calls := by
    simp only [List.append_assoc, List.cons_append, List.nil_append] at hold₄
    exact hold₄
  have hrun : ethMemMalloc net =
      if n₄.dmaRxDscrTab = none ∨ n₄.dmaTxDscrTab = none ∨ n₄.rxBuff = none ∨ n₄.txBuff = none then
        (ethMemFree n₄).map fun net => (1, net)
      else .ok (0, n₄) := by
    unfold ethMemMalloc
    simp only [h₁, h₂, h₃, h₄, n₁, n₂, n₃, n₄, bind, Except.bind, pure, Except.pure, Except.map]
  rw [hrun]
  by_cases hnull : n₄.dmaRxDscrTab = none ∨ n₄.dmaTxDscrTab = none ∨ n₄.rxBuff = none ∨ n₄.txBuff = none
  · obtain ⟨p, c, hfree, hold'⟩ := ethMemFree_spec n₄ hold
    rw [if_pos hnull, hfree]
    exact ⟨1, _, rfl, .inl ⟨by decide, hold'⟩⟩
  · rw [if_neg hnull]
    refine ⟨0, n₄, rfl, .inr ⟨rfl, ?_, hold⟩⟩
    simpa [Net.driver] using hnull

theorem lwipCommMemMalloc_spec {mempsize : UInt32} (hsize : blocks mempsize < 65536) (net : Net)
    (h : Holding g l net.pool net.calls) :
    ∃ ret net', lwipCommMemMalloc mempsize net = .ok (ret, net') ∧ net'.driver = net.driver ∧
      Took g l (net'.memories mempsize) ret net' := by
  obtain ⟨ptr₁, p₁, c₁, h₁, hold₁⟩ := Holding.malloc net h mempsize hsize
  let n₁ : Net := { net with pool := p₁, calls := c₁, mempMemory := ptr₁ }
  obtain ⟨ptr₂, p₂, c₂, h₂, hold₂⟩ := Holding.malloc n₁ hold₁ ramheapsize (by decide)
  let n₂ : Net := { n₁ with pool := p₂, calls := c₂, ramHeap := ptr₂ }
  have hold : Holding g (l ++ n₂.memories mempsize) n₂.pool n₂.calls := by
    simp only [List.append_assoc, List.cons_append, List.nil_append] at hold₂
    exact hold₂
  have hrun : lwipCommMemMalloc mempsize net =
      if n₂.mempMemory = none ∨ n₂.ramHeap = none then (lwipCommMemFree n₂).map fun net => (1, net)
      else .ok (0, n₂) := by
    unfold lwipCommMemMalloc
    simp only [h₁, h₂, n₁, n₂, bind, Except.bind, pure, Except.pure, Except.map]
  rw [hrun]
  by_cases hnull : n₂.mempMemory = none ∨ n₂.ramHeap = none
  · obtain ⟨p, c, hfree, hold'⟩ := lwipCommMemFree_spec n₂ hold
    rw [if_pos hnull, hfree]
    exact ⟨1, _, rfl, rfl, .inl ⟨by decide, hold'⟩⟩
  · rw [if_neg hnull]
    refine ⟨0, n₂, rfl, rfl, .inr ⟨rfl, ?_, hold⟩⟩
    simpa [Net.memories] using hnull

/-- `lwip_comm_init` leaves the pool as it was, or takes all six pieces. -/
theorem lwipCommInit_spec {mempsize : UInt32} (hsize : blocks mempsize < 65536) (lan8720 : UInt8)
    (net : Net) (h : Holding g [] net.pool net.calls) :
    ∃ ret net', lwipCommInit mempsize lan8720 net = .ok (ret, net') ∧
      Took g [] (net'.driver ++ net'.memories mempsize) ret net' := by
  obtain ⟨ret₁, n₁, h₁, htook₁⟩ := ethMemMalloc_spec net h
  unfold lwipCommInit
  simp only [h₁, bind, Except.bind, pure, Except.pure]
  rcases htook₁ with ⟨hne, hold₁⟩ | ⟨rfl, hsome₁, hold₁⟩
  · rw [if_pos hne]
    exact ⟨1, n₁, rfl, .inl ⟨by decide, hold₁⟩⟩
  obtain ⟨ret₂, n₂, h₂, hdriver, htook₂⟩ := lwipCommMemMalloc_spec hsize n₁ hold₁
  rw [if_neg (by simp), h₂]
  dsimp only
  rw [← hdriver] at htook₂ hsome₁
  rcases htook₂ with ⟨hne, hold₂⟩ | ⟨rfl, hsome₂, hold₂⟩
  · obtain ⟨p, c, hfree, hold₃⟩ := ethMemFree_spec n₂ hold₂
    rw [if_pos hne, hfree]
    exact ⟨1, _, rfl, .inl ⟨by decide, hold₃⟩⟩
  rw [if_neg (by simp)]
  by_cases hlan : lan8720 = 0
  · rw [if_neg (not_not.mpr hlan), if_neg (by decide)]
    rw [List.nil_append] at hold₂
    refine ⟨0, n₂, rfl, .inr ⟨rfl, fun x hx => ?_, hold₂⟩⟩
    exact (List.mem_append.mp hx).elim (hsome₁ x) (hsome₂ x)
  · obtain ⟨p₃, c₃, hfree₃, hold₃⟩ := lwipCommMemFree_spec n₂ hold₂
    obtain ⟨p₄, c₄, hfree₄, hold₄⟩ := ethMemFree_spec { n₂ with pool := p₃, calls := c₃ } hold₃
    rw [if_pos hlan, hfree₃]
    dsimp only
    rw [hfree₄]
    exact ⟨2, _, rfl, .inl ⟨by decide, hold₄⟩⟩

/-- Retrying does not change what can come out. -/
theorem startUp_spec {mempsize : UInt32} (hsize : blocks mempsize < 65536) : ∀ (results : List UInt8) (net : Net),
    Holding g [] net.pool net.calls → ∃ up net', startUp mempsize results net = .ok (up, net') ∧
      Took g [] (net'.driver ++ net'.memories mempsize) (if up then 0 else 1) net' := by
  intro results
  induction results with
  | nil => exact fun net h => ⟨false, net, rfl, .inl ⟨by decide, h⟩⟩
  | cons lan8720 results ih =>
    intro net h
    obtain ⟨ret, n₁, h₁, htook⟩ := lwipCommInit_spec hsize lan8720 net h
    unfold startUp
    simp only [h₁, bind, Except.bind, pure, Except.pure]
    rcases htook with ⟨hne, hold⟩ | ⟨rfl, hsome, hold⟩
    · rw [if_pos hne]
      exact ih n₁ hold
    · rw [if_neg (by simp)]
      exact ⟨true, n₁, rfl, .inr ⟨rfl, hsome, hold⟩⟩

end Functions

/-! ### The pool as a whole -/

/-- The map is that of the session, and all that was taken has been freed. -/
def Restored (s : Session .sramin) (net : Net) : Prop :=
  net.pool.memmap = s.pool.memmap ∧ balance net.calls = some []

/-- The session goes on with the six pieces, and none of them has been freed. -/
def Added (mempsize : UInt32) (s : Session .sramin) (net : Net) : Prop :=
  ∃ as : List Allocation, net.driver ++ net.memories mempsize = as.map (fun a => (some a.offset, a.size)) ∧
    Safe ⟨net.pool, s.live ++ as⟩ ∧ balance net.calls = some (as.map (·.offset))

section Session

variable {mempsize : UInt32} {s : Session .sramin} {net : Net} {l : List (Ptr × UInt32)}

theorem holding_start (h : Safe s) (hpool : net.pool = s.pool) (hcalls : net.calls = []) :
    Holding (entry s.pool.memmap) [] net.pool net.calls where
  ready := hpool ▸ h.ready
  aligned := by simp
  laid := by
    rw [hpool]
    exact LaidOn.nil _ _
  balanced := by
    rw [hcalls]
    rfl

theorem Holding.restored (h : Holding (entry s.pool.memmap) [] net.pool net.calls) : Restored s net :=
  ⟨entry_inj h.laid.eq_ground, h.balanced⟩

/-- Pieces that are held, none of them `NULL`, are allocations. -/
theorem Holding.added (hs : Safe s) (h : Holding (entry s.pool.memmap) l net.pool net.calls)
    (hsome : ∀ x ∈ l, x.1 ≠ none) : ∃ as : List Allocation, l = as.map (fun a => (some a.offset, a.size)) ∧
      Safe ⟨net.pool, s.live ++ as⟩ ∧ balance net.calls = some (as.map (·.offset)) := by
  obtain ⟨as, rfl⟩ : ∃ as : List Allocation, l = as.map (fun a => (some a.offset, a.size)) := by
    refine ⟨l.map fun x => ⟨x.1.getD 0, x.2⟩, ?_⟩
    rw [List.map_map]
    refine (List.map_id l).symm.trans (List.map_congr_left fun x hx => ?_)
    obtain ⟨offset, hoffset⟩ := Option.ne_none_iff_exists'.mp (hsome x hx)
    exact Prod.ext (by simp [hoffset]) rfl
  have hheld : (as.map fun a => (some a.offset, a.size)).flatMap held = as.map Allocation.block := by
    rw [List.flatMap_map, List.map_eq_flatMap]
    rfl
  have hlaid := h.laid
  rw [hheld] at hlaid
  have haligned : ∀ a ∈ as, 32 ∣ a.offset.toNat := fun a ha =>
    h.aligned (some a.offset, a.size) (List.mem_map.mpr ⟨a, ha, rfl⟩) a.offset rfl
  refine ⟨as, rfl, ⟨h.ready, ?_, ?_, ?_⟩, ?_⟩
  · intro a ha
    exact (List.mem_append.mp ha).elim (hs.aligned a) (haligned a)
  · intro a ha
    rcases List.mem_append.mp ha with ha | ha
    · exact hs.fits a ha
    · have hfits := hlaid.fits a.block (List.mem_map_of_mem ha)
      have hblock := Nat.div_mul_cancel (haligned a ha)
      unfold Allocation.block blocks at hfits
      rw [memsize_eq]
      dsimp only at hfits
      omega
  · rw [List.map_append]
    exact hs.laid.trans hlaid
  · rw [h.balanced, List.flatMap_map, List.map_eq_flatMap]
    rfl

/-- **A start-up that fails leaves nothing behind.** Whatever is allocated in
the pool and whatever `LAN8720_Init` reports, a call of `lwip_comm_init` that
fails, and any number of them, leave the map as it was; one that succeeds adds
its six pieces. -/
theorem startUp_restores (hsize : blocks mempsize < 65536) (hs : Safe s) (hpool : net.pool = s.pool)
    (hcalls : net.calls = []) :
    (∀ lan8720, ∃ ret net', lwipCommInit mempsize lan8720 net = .ok (ret, net') ∧
      (ret ≠ 0 → Restored s net') ∧ (ret = 0 → Added mempsize s net')) ∧
    ∀ results, ∃ up net', startUp mempsize results net = .ok (up, net') ∧
      (up = false → Restored s net') ∧ (up = true → Added mempsize s net') := by
  have hstart := holding_start hs hpool hcalls
  constructor
  · intro lan8720
    rcases lwipCommInit_spec hsize lan8720 net hstart with ⟨ret, net', hok, ⟨hne, hold⟩ | ⟨rfl, hsome, hold⟩⟩
    · exact ⟨ret, net', hok, fun _ => hold.restored, fun h => absurd h hne⟩
    · exact ⟨0, net', hok, fun h => absurd rfl h, fun _ => hold.added hs hsome⟩
  · intro results
    obtain ⟨up, net', hok, htook⟩ := startUp_spec hsize results net hstart
    cases up with
    | false =>
      rcases htook with ⟨-, hold⟩ | ⟨hzero, -⟩
      · exact ⟨false, net', hok, fun _ => hold.restored, fun h => absurd h (by decide)⟩
      · exact absurd hzero (by decide)
    | true =>
      rcases htook with ⟨hne, -⟩ | ⟨-, hsome, hold⟩
      · exact absurd rfl hne
      · exact ⟨true, net', hok, fun h => absurd h (by decide), fun _ => hold.added hs hsome⟩

/-- The PHY fails twice on a fresh pool. -/
theorem startUp_restores_fresh : ∃ up net',
    startUp 20000 [1, 1, 0] ⟨mymemInit ⟨Vector.replicate _ 0, 0⟩, [], none, none, none, none, none, none⟩ =
      .ok (up, net') ∧
    (up = false → Restored (started ⟨Vector.replicate _ 0, 0⟩) net') ∧
    (up = true → Added 20000 (started ⟨Vector.replicate _ 0, 0⟩) net') :=
  (startUp_restores (by decide) (started_safe _) rfl rfl).2 [1, 1, 0]

end Session

end LwipComm
end Serial2Ethernet
