/-
# The sixteen UARTs behind the FSMC bus

Each channel has eight registers at `0x2000 + 0x100 * chl`: the divisor at 0
and 1, the frame format at 2, the transmit register at 4, the receive
register at 4 when read, the send count at 6 and the receive count at 7.
-/
import Serial2Ethernet.Hardware.Board
import Serial2Ethernet.Hardware.SysConfig

namespace Serial2Ethernet
namespace UartFsmc

def resetAddr : ℕ := 0
def uart1Base : ℕ := 0x2000
def baseInterval : ℕ := 0x100

/-- The base address of a channel's registers. -/
def addrBase (chl : UInt8) : ℕ := uart1Base + baseInterval * chl.toNat

/-- The clock the divisor divides. -/
def uartClock : UInt32 := 14745600

/-- Initialize a channel. The divisor is computed before the channel is checked. -/
def initUartChlFsmc (chl : UInt8) (baudRate : UInt32) (parity : UInt8) (tr : Trace) :
    Except Fault Trace :=
  if baudRate = 0 then .error .divByZero
  else
    let baudFactor := (uartClock / baudRate).toUInt16
    if chl.toNat < uartFsmcNum then
      let tr := writeFSMC (addrBase chl) (baudFactor &&& 0xff).toUInt8 tr
      let tr := writeFSMC (addrBase chl + 1) (baudFactor >>> 8).toUInt8 tr
      if parity = 0 then .ok (writeFSMC (addrBase chl + 2) 0xc0 tr)
      else if parity = 1 then .ok (writeFSMC (addrBase chl + 2) 0xc1 tr)
      else .ok (writeFSMC (addrBase chl + 2) 0xd1 tr)
    else .ok tr

/-- Reset all channels. -/
def resetUartFsmc (tr : Trace) : Trace :=
  writeFSMC resetAddr 1 (delayUs 100 (writeFSMC resetAddr 0 tr))

/-- The loop of `initUartFsmc` from channel `chl` on. -/
def initUartLoop (cfg : SysConfig) : List (Fin 16) → Trace → Except Fault Trace
  | [], tr => .ok tr
  | chl :: chls, tr =>
    match initUartChlFsmc (UInt8.ofNat chl) (cfg.baudRates chl) (cfg.parities chl) tr with
    | .error e => .error e
    | .ok tr => initUartLoop cfg chls tr

/-- Initialize the UARTs from the configuration. -/
def initUartFsmc (cfg : SysConfig) (tr : Trace) : Except Fault Trace :=
  initUartLoop cfg (List.finRange 16) (resetUartFsmc tr)

/-- The loop of `sendDataUartFsmc`: every byte goes to the transmit register. -/
def sendLoop (chl : UInt8) (bytes : List UInt8) (tr : Trace) : Trace :=
  bytes.foldl (fun tr b => writeFSMC (addrBase chl + 4) b tr) tr

/-- Send the first `size` bytes at `ptr`. The result is how far the send count moved. -/
def sendDataUartFsmc (hw : Device) (chl : UInt8) (ptr : List UInt8) (size : UInt8) (tr : Trace) :
    UInt8 × Trace :=
  let (preSize, tr) := readFSMC hw (addrBase chl + 6) tr
  if chl.toNat < uartFsmcNum ∧ 0 < size then
    let tr := sendLoop chl (ptr.take size.toNat) tr
    let (postSize, tr) := readFSMC hw (addrBase chl + 6) tr
    if postSize > preSize then (postSize - preSize, tr)
    else (UInt8.ofNat (256 + postSize.toNat - preSize.toNat), tr)
  else (0, tr)

/-- The loop of `receiveDataUartFsmc`, `k` times from `i` on. -/
def receiveLoop (hw : Device) (chl : UInt8) {n : ℕ} (ptr : ℕ) :
    (k i : ℕ) → Vector UInt8 n → Trace → Except Fault (Vector UInt8 n × Trace)
  | 0, _, buff, tr => .ok (buff, tr)
  | k + 1, i, buff, tr =>
    match store buff (ptr + i) (readFSMC hw (addrBase chl + 4) tr).1 with
    | .error e => .error e
    | .ok buff => receiveLoop hw chl ptr k (i + 1) buff (readFSMC hw (addrBase chl + 4) tr).2

/-- Receive data into an array, from index `ptr` on: as many bytes as are
pending, at most `max`. -/
def receiveDataUartFsmc (hw : Device) (chl : UInt8) {n : ℕ} (buff : Vector UInt8 n) (ptr : ℕ)
    (max : UInt8) (tr : Trace) : Except Fault (UInt8 × Vector UInt8 n × Trace) :=
  if chl.toNat < uartFsmcNum ∧ 0 < max then
    let (preSize, tr) := readFSMC hw (addrBase chl + 7) tr
    let i := if preSize < max then preSize else max
    (receiveLoop hw chl ptr i.toNat 0 buff tr).map fun r => (i, r)
  else .ok (0, buff, tr)

/-! ### What the functions read -/

/-- What `k` reads of the receive register give. -/
def received (hw : Device) (chl : UInt8) : ℕ → Trace → List UInt8
  | 0, _ => []
  | k + 1, tr => (readFSMC hw (addrBase chl + 4) tr).1 ::
      received hw chl k (readFSMC hw (addrBase chl + 4) tr).2

theorem length_received (hw : Device) (chl : UInt8) (k : ℕ) (tr : Trace) :
    (received hw chl k tr).length = k := by
  induction k generalizing tr with
  | zero => rfl
  | succ k ih => rw [received, List.length_cons, ih]

/-- The loop stores what it reads behind what is known of the array. -/
theorem receiveLoop_prefix (hw : Device) (chl : UInt8) {n : ℕ} (ptr k i : ℕ) (buff : Vector UInt8 n)
    (tr : Trace) {l : List UInt8} (h : l <+: buff.toList) (hl : l.length = ptr + i)
    (hn : l.length + k ≤ n) : ∃ buff',
      receiveLoop hw chl ptr k i buff tr =
        .ok (buff', tr ++ List.replicate k (.readFSMC (addrBase chl + 4))) ∧
      l ++ received hw chl k tr <+: buff'.toList := by
  induction k generalizing i buff tr l with
  | zero => exact ⟨buff, by simp [receiveLoop], by simpa [received] using h⟩
  | succ k ih =>
    obtain ⟨buff₁, h₁, hp₁⟩ := store_next h (by omega) (readFSMC hw (addrBase chl + 4) tr).1
    obtain ⟨buff₂, h₂, hp₂⟩ := ih (i + 1) buff₁ (readFSMC hw (addrBase chl + 4) tr).2 hp₁
      (by simp; omega) (by simp; omega)
    refine ⟨buff₂, ?_, by simpa [received] using hp₂⟩
    rw [hl] at h₁
    rw [receiveLoop, h₁]
    dsimp only
    rw [h₂]
    simp [readFSMC, List.replicate_succ]

/-- The receive count of a channel, as a read of it tells. -/
def pendingCount (hw : Device) (chl : UInt8) (tr : Trace) : UInt8 := (readFSMC hw (addrBase chl + 7) tr).1

/-- The bytes a channel then gives. -/
def block (hw : Device) (chl : UInt8) (tr : Trace) : List UInt8 :=
  received hw chl (pendingCount hw chl tr).toNat (readFSMC hw (addrBase chl + 7) tr).2

@[simp] theorem length_block (hw : Device) (chl : UInt8) (tr : Trace) :
    (block hw chl tr).length = (pendingCount hw chl tr).toNat := length_received ..

/-- What `receiveDataUartFsmc` does to the board. -/
def receiveTrace (hw : Device) (chl : UInt8) (tr : Trace) : Trace :=
  tr ++ .readFSMC (addrBase chl + 7) ::
    List.replicate (pendingCount hw chl tr).toNat (.readFSMC (addrBase chl + 4))

/-- With room for 255 bytes all that is pending is received. -/
theorem receiveDataUartFsmc_prefix (hw : Device) {chl : UInt8} (hc : chl.toNat < uartFsmcNum) {n : ℕ}
    {buff : Vector UInt8 n} {l : List UInt8} (h : l <+: buff.toList) (hn : l.length + 255 ≤ n)
    (tr : Trace) : ∃ buff', receiveDataUartFsmc hw chl buff l.length 255 tr =
        .ok (pendingCount hw chl tr, buff', receiveTrace hw chl tr) ∧
      l ++ block hw chl tr <+: buff'.toList := by
  have hlt := (pendingCount hw chl tr).toNat_lt
  have hall : (if pendingCount hw chl tr < 255 then pendingCount hw chl tr else 255) = pendingCount hw chl tr := by
    split
    · rfl
    · rename_i hge
      simp only [UInt8.lt_iff_toNat_lt, UInt8.reduceToNat] at hge
      exact UInt8.toNat_inj.mp (by simp only [UInt8.reduceToNat]; omega)
  obtain ⟨buff', h', hp'⟩ := receiveLoop_prefix hw chl l.length (pendingCount hw chl tr).toNat 0 buff
    (readFSMC hw (addrBase chl + 7) tr).2 h rfl (by omega)
  refine ⟨buff', ?_, hp'⟩
  rw [receiveDataUartFsmc, if_pos ⟨hc, by decide⟩]
  show (receiveLoop hw chl l.length
    (if pendingCount hw chl tr < 255 then pendingCount hw chl tr else 255).toNat 0 buff
    (readFSMC hw (addrBase chl + 7) tr).2).map (fun r =>
      (if pendingCount hw chl tr < 255 then pendingCount hw chl tr else 255, r)) = _
  rw [hall, h']
  simp [Except.map, receiveTrace, readFSMC]

/-! ### What the functions write -/

@[simp] theorem writes_resetUartFsmc (tr : Trace) :
    writes (resetUartFsmc tr) = writes tr ++ [(resetAddr, 0), (resetAddr, 1)] := by
  simp [resetUartFsmc]

/-- The writes that initialize a channel: the two bytes of the divisor, and the frame format. -/
def initWrites (cfg : SysConfig) (chl : Fin 16) : List (ℕ × UInt8) :=
  let baudFactor := (uartClock / cfg.baudRates chl).toUInt16
  let addrBase := uart1Base + baseInterval * chl
  [(addrBase, (baudFactor &&& 0xff).toUInt8), (addrBase + 1, (baudFactor >>> 8).toUInt8),
    (addrBase + 2,
      if cfg.parities chl = 0 then 0xc0 else if cfg.parities chl = 1 then 0xc1 else 0xd1)]

theorem initUartChlFsmc_zero (chl : UInt8) (parity : UInt8) (tr : Trace) :
    initUartChlFsmc chl 0 parity tr = .error .divByZero := rfl

theorem initUartChlFsmc_ok (cfg : SysConfig) (chl : Fin 16) (tr : Trace) (h : cfg.baudRates chl ≠ 0) :
    ∃ tr', initUartChlFsmc (UInt8.ofNat chl) (cfg.baudRates chl) (cfg.parities chl) tr = .ok tr' ∧
      writes tr' = writes tr ++ initWrites cfg chl := by
  have hchl : (UInt8.ofNat chl).toNat = chl := by
    rw [UInt8.toNat_ofNat']
    omega
  have hlt : (UInt8.ofNat chl).toNat < uartFsmcNum := by
    rw [hchl]
    exact chl.isLt
  unfold initUartChlFsmc initWrites addrBase
  rw [if_neg h]
  dsimp only
  rw [if_pos hlt, hchl]
  by_cases h0 : cfg.parities chl = 0
  · simp [h0]
  · by_cases h1 : cfg.parities chl = 1
    · simp [h1]
    · simp [h0, h1]

/-- With no rate zero the loop initializes channel after channel. -/
theorem initUartLoop_ok (cfg : SysConfig) : ∀ (chls : List (Fin 16)) (tr : Trace),
    (∀ chl ∈ chls, cfg.baudRates chl ≠ 0) → ∃ tr', initUartLoop cfg chls tr = .ok tr' ∧
      writes tr' = writes tr ++ chls.flatMap (initWrites cfg)
  | [], tr, _ => ⟨tr, rfl, by simp⟩
  | chl :: chls, tr, h => by
    rw [List.forall_mem_cons] at h
    obtain ⟨tr₁, h₁, hw₁⟩ := initUartChlFsmc_ok cfg chl tr h.1
    obtain ⟨tr₂, h₂, hw₂⟩ := initUartLoop_ok cfg chls tr₁ h.2
    refine ⟨tr₂, ?_, ?_⟩
    · rw [initUartLoop, h₁]
      exact h₂
    · rw [hw₂, hw₁, List.flatMap_cons, List.append_assoc]

/-- A rate of zero stops the loop. -/
theorem initUartLoop_zero (cfg : SysConfig) : ∀ (chls : List (Fin 16)) (tr : Trace),
    (∃ chl ∈ chls, cfg.baudRates chl = 0) → initUartLoop cfg chls tr = .error .divByZero
  | [], _, h => by simp at h
  | chl :: chls, tr, h => by
    by_cases h0 : cfg.baudRates chl = 0
    · rw [initUartLoop, h0, initUartChlFsmc_zero]
    · obtain ⟨tr₁, h₁, -⟩ := initUartChlFsmc_ok cfg chl tr h0
      rw [initUartLoop, h₁]
      refine initUartLoop_zero cfg chls tr₁ ?_
      obtain ⟨c, hc, hz⟩ := h
      rcases List.mem_cons.mp hc with rfl | hc
      · exact absurd hz h0
      · exact ⟨c, hc, hz⟩

/-- Each register of a channel is initialized once. -/
theorem writtenTo_initWrites (cfg : SysConfig) (chl : Fin 16) {d : ℕ} (hd : d < 3) :
    ∀ chls : List (Fin 16), chls.Nodup →
      writtenTo (uart1Base + baseInterval * chl + d) (chls.flatMap (initWrites cfg)) =
        if chl ∈ chls then
          writtenTo (uart1Base + baseInterval * chl + d) (initWrites cfg chl)
        else []
  | [], _ => rfl
  | c :: chls, hnd => by
    rw [List.nodup_cons] at hnd
    rw [List.flatMap_cons, writtenTo_append, writtenTo_initWrites cfg chl hd chls hnd.2]
    by_cases hc : chl = c
    · subst hc
      rw [if_neg hnd.1, if_pos List.mem_cons_self, List.append_nil]
    · have hval : chl.val ≠ c.val := fun e => hc (Fin.ext e)
      have hother : writtenTo (uart1Base + baseInterval * chl + d) (initWrites cfg c) = [] := by
        unfold writtenTo initWrites baseInterval
        dsimp only
        rw [List.filter_cons_of_neg (by simp; omega), List.filter_cons_of_neg (by simp; omega),
          List.filter_cons_of_neg (by simp; omega)]
        rfl
      have hmem : chl ∈ c :: chls ↔ chl ∈ chls := by simp [hc]
      rw [hother, List.nil_append]
      simp only [hmem]

theorem writes_sendLoop (chl : UInt8) : ∀ (bytes : List UInt8) (tr : Trace),
    writes (sendLoop chl bytes tr) = writes tr ++ bytes.map fun b => (addrBase chl + 4, b)
  | [], tr => by simp [sendLoop]
  | b :: bytes, tr => by
    have ih := writes_sendLoop chl bytes (writeFSMC (addrBase chl + 4) b tr)
    simp only [sendLoop, List.foldl_cons] at ih ⊢
    rw [ih]
    simp

/-- Sending writes the bytes to the transmit register of a channel below 16,
and nothing for any other channel. -/
theorem writes_sendDataUartFsmc (hw : Device) (chl : UInt8) (ptr : List UInt8) (size : UInt8)
    (tr : Trace) : writes (sendDataUartFsmc hw chl ptr size tr).2 = writes tr ++
      if chl.toNat < uartFsmcNum then (ptr.take size.toNat).map fun b => (addrBase chl + 4, b)
      else [] := by
  unfold sendDataUartFsmc
  by_cases hc : chl.toNat < uartFsmcNum
  · by_cases hs : 0 < size
    · simp only [hc, hs, and_self, ite_true]
      split <;> simp [writes_sendLoop]
    · have h0 : size.toNat = 0 := by simpa [UInt8.lt_iff_toNat_lt] using hs
      simp [hs, h0]
  · simp [hc]

end UartFsmc
end Serial2Ethernet
