/-
# The board: what the firmware does to it, in order

A `Trace` is everything the firmware has done to the board so far. The device
behind the FSMC bus is a parameter: what a read at an address returns may
depend on the whole trace before it, so a device may hold FIFOs, count, or
answer at random. A `Fault` is a point at which the C program has no defined
behaviour; the model stops there.
-/
import Mathlib

namespace Serial2Ethernet

/-- Undefined behaviour the model stops at. -/
inductive Fault
  /-- A write past the end of an array. -/
  | write (index : ℕ)
  /-- A read past the end of an array. -/
  | read (index : ℕ)
  /-- A division by zero. -/
  | divByZero
  /-- A null pointer where something is read or written. -/
  | null
  deriving DecidableEq, Repr

/-- One effect on the board. -/
inductive Effect
  | readFSMC (addr : ℕ)
  | writeFSMC (addr : ℕ) (val : UInt8)
  | delayUs (nus : ℕ)
  | openLED (index : UInt8)
  deriving DecidableEq, Repr

/-- The effects on the board, oldest first. -/
abbrev Trace := List Effect

/-- What the device answers to a read at an address after a trace. -/
abbrev Device := Trace → ℕ → UInt8

/-- Read a byte from FSMC. -/
def readFSMC (hw : Device) (addr : ℕ) (tr : Trace) : UInt8 × Trace :=
  (hw tr addr, tr ++ [.readFSMC addr])

/-- Write a byte to FSMC. -/
def writeFSMC (addr : ℕ) (val : UInt8) (tr : Trace) : Trace := tr ++ [.writeFSMC addr val]

/-- Wait. -/
def delayUs (nus : ℕ) (tr : Trace) : Trace := tr ++ [.delayUs nus]

/-- Open an LED. -/
def openLED (index : UInt8) (tr : Trace) : Trace := tr ++ [.openLED index]

/-! ### Arrays -/

section Arrays

variable {n : ℕ} (buff : Vector UInt8 n)

/-- `buff[i] = b`. -/
def store (i : ℕ) (b : UInt8) : Except Fault (Vector UInt8 n) :=
  if h : i < n then .ok (buff.set i b h) else .error (.write i)

/-- A little-endian halfword at `i`. -/
def store16 (i : ℕ) (v : UInt16) : Except Fault (Vector UInt8 n) :=
  match store buff i v.toUInt8 with
  | .error e => .error e
  | .ok buff => store buff (i + 1) (v >>> 8).toUInt8

/-- The loop `cs += buff[i]`, `k` times from `i` on. -/
def sumBytes : (k i : ℕ) → (cs : UInt8) → Except Fault UInt8
  | 0, _, cs => .ok cs
  | k + 1, i, cs => if h : i < n then sumBytes k (i + 1) (cs + buff[i]) else .error (.read i)

/-- The first `size` bytes, read by whoever is given the pointer and the size. -/
def bytesAt (size : ℕ) : Except Fault (List UInt8) :=
  if size ≤ n then .ok (buff.toList.take size) else .error (.read n)

variable {buff} {l : List UInt8}

theorem prefix_length_le (h : l <+: buff.toList) : l.length ≤ n := by
  simpa using h.length_le

/-- A byte stored inside what an array is known to begin with. -/
theorem store_inside (h : l <+: buff.toList) {i : ℕ} (hi : i < l.length) (b : UInt8) :
    ∃ buff', store buff i b = .ok buff' ∧ l.set i b <+: buff'.toList := by
  have hn : i < n := hi.trans_le (prefix_length_le h)
  refine ⟨_, dif_pos hn, ?_⟩
  obtain ⟨rest, hrest⟩ := h
  rw [Vector.toList_set, ← hrest, List.set_append_left _ _ hi]
  exact List.prefix_append _ rest

theorem store16_inside (h : l <+: buff.toList) {i : ℕ} (hi : i + 1 < l.length) (v : UInt16) :
    ∃ buff', store16 buff i v = .ok buff' ∧
      (l.set i v.toUInt8).set (i + 1) (v >>> 8).toUInt8 <+: buff'.toList := by
  obtain ⟨buff₁, h₁, hp₁⟩ := store_inside h (by omega : i < l.length) v.toUInt8
  obtain ⟨buff₂, h₂, hp₂⟩ := store_inside hp₁ (by simpa using hi) (v >>> 8).toUInt8
  refine ⟨buff₂, ?_, hp₂⟩
  rw [store16, h₁]
  exact h₂

/-- A byte stored right behind it. -/
theorem store_next (h : l <+: buff.toList) (hl : l.length < n) (b : UInt8) :
    ∃ buff', store buff l.length b = .ok buff' ∧ l ++ [b] <+: buff'.toList := by
  refine ⟨_, dif_pos hl, ?_⟩
  obtain ⟨rest, hrest⟩ := h
  have hlen : l.length + rest.length = n := by
    simpa using congrArg List.length hrest
  match rest with
  | [] =>
    simp at hlen
    omega
  | c :: rest =>
    rw [Vector.toList_set, ← hrest]
    exact ⟨rest, by simp⟩

/-- The loop sums the bytes behind a beginning that is known. -/
theorem sumBytes_prefix : ∀ (k : ℕ) (pre mid : List UInt8) (cs : UInt8), pre ++ mid <+: buff.toList →
    mid.length = k → sumBytes buff k pre.length cs = .ok (cs + mid.sum)
  | 0, _, mid, cs, _, hk => by
    obtain rfl := List.length_eq_zero_iff.mp hk
    simp [sumBytes]
  | k + 1, pre, [], cs, _, hk => by simp at hk
  | k + 1, pre, b :: mid, cs, h, hk => by
    have hn : pre.length < n := by
      have := prefix_length_le h
      simp only [List.length_append, List.length_cons] at this
      omega
    have hb : buff[pre.length] = b := by
      obtain ⟨rest, hrest⟩ := h
      have hget := congrArg (fun xs => xs[pre.length]?) hrest
      simp only [List.append_assoc, List.cons_append, List.getElem?_append_right, Nat.le_refl,
        Nat.sub_self, List.getElem?_cons_zero, Vector.getElem?_toList, Vector.getElem?_eq_getElem hn,
        Option.some.injEq] at hget
      exact hget.symm
    have ih := sumBytes_prefix k (pre ++ [b]) mid (cs + b) (by simpa using h) (by simpa using hk)
    rw [List.length_append, List.length_singleton] at ih
    rw [sumBytes, dif_pos hn, hb, ih, List.sum_cons, UInt8.add_assoc]

theorem bytesAt_prefix (h : l <+: buff.toList) : bytesAt buff l.length = .ok l := by
  rw [bytesAt, if_pos (prefix_length_le h), ← List.prefix_iff_eq_take.mp h]

end Arrays

namespace Effect

/-- The address and the value an effect writes, if it writes. -/
def written : Effect → Option (ℕ × UInt8)
  | .writeFSMC addr val => some (addr, val)
  | _ => none

end Effect

/-- The bus writes of a trace, in order. -/
def writes (tr : Trace) : List (ℕ × UInt8) := tr.filterMap Effect.written

/-- The values written to one address, in order. -/
def writtenTo (addr : ℕ) (ws : List (ℕ × UInt8)) : List UInt8 :=
  (ws.filter fun w => w.1 = addr).map Prod.snd

@[simp] theorem writes_nil : writes [] = [] := rfl

@[simp] theorem writes_append (s t : Trace) : writes (s ++ t) = writes s ++ writes t :=
  List.filterMap_append

@[simp] theorem writes_readFSMC (hw : Device) (addr : ℕ) (tr : Trace) :
    writes (readFSMC hw addr tr).2 = writes tr := by
  simp [readFSMC, writes, Effect.written]

@[simp] theorem writes_writeFSMC (addr : ℕ) (val : UInt8) (tr : Trace) :
    writes (writeFSMC addr val tr) = writes tr ++ [(addr, val)] := by
  simp [writeFSMC, writes, Effect.written]

@[simp] theorem writes_delayUs (nus : ℕ) (tr : Trace) : writes (delayUs nus tr) = writes tr := by
  simp [delayUs, writes, Effect.written]

@[simp] theorem writes_openLED (index : UInt8) (tr : Trace) :
    writes (openLED index tr) = writes tr := by
  simp [openLED, writes, Effect.written]

@[simp] theorem writtenTo_nil (addr : ℕ) : writtenTo addr [] = [] := rfl

@[simp] theorem writtenTo_append (addr : ℕ) (ws vs : List (ℕ × UInt8)) :
    writtenTo addr (ws ++ vs) = writtenTo addr ws ++ writtenTo addr vs := by
  simp [writtenTo]

end Serial2Ethernet
