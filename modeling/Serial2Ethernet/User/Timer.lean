/-
# The timer: work ticks

The interrupt of timer 3 comes every 5 ms. It counts up to ten cycles and
starts over, and once in a cycle it publishes `MSG_WORKTICK` with the number
of the cycle among the ten.

`ticks`: in a run of the interrupt, the messages published are, for
`k = 0, 1, 2, …`, the tick of parameter `k % 10` at interrupt `k * cycle`.
-/
import Serial2Ethernet.Hardware.Board
import Serial2Ethernet.System.MsgInterface

namespace Serial2Ethernet
namespace Timer

open Lib MsgInterface

/-- The globals, and the time of the network stack that the interrupt advances. -/
structure Globals where
  timerCnt : UInt32
  cycle : UInt32
  lwipLocaltime : UInt32

/-- The globals at power-on. -/
def powerOn : Globals := ⟨0, 0, 0⟩

/-- Initialize timer. -/
def initTimer (queryCycleS : UInt8) (t : Globals) : Globals :=
  { t with
    timerCnt := 0
    cycle := if queryCycleS > 0 then 20 * queryCycleS.toUInt32 else 20 }

/-- What the interrupt does; the outputs are the messages published. -/
def timerProcess (t : Globals) : Except Fault (Globals × List MsgBody) :=
  let t := { t with lwipLocaltime := t.lwipLocaltime + 5 }
  if t.cycle = 0 then .error .divByZero
  else
    let out : List MsgBody :=
      if t.timerCnt % t.cycle = 0 then [⟨msgWorktick, (t.timerCnt / t.cycle % 10).toInt32⟩] else []
    let t := { t with timerCnt := t.timerCnt + 1 }
    .ok (if t.timerCnt ≥ t.cycle * 10 then { t with timerCnt := 0 } else t, out)

/-- One interrupt, with its number beside the messages. -/
def interrupt (t : Globals) (n : ℕ) : Except Fault (Globals × List (ℕ × MsgBody)) :=
  (timerProcess t).map fun r => (r.1, r.2.map fun m => (n, m))

/-- With a cycle the interrupt does not fault, keeps the cycle and advances the time. -/
theorem timerProcess_ok {t : Globals} (h : t.cycle ≠ 0) : ∃ t' out, timerProcess t = .ok (t', out) ∧
    t'.cycle = t.cycle ∧ t'.lwipLocaltime = t.lwipLocaltime + 5 := by
  unfold timerProcess
  dsimp only
  rw [if_neg h]
  by_cases hend : t.timerCnt + 1 ≥ t.cycle * 10
  · rw [if_pos hend]
    exact ⟨_, _, rfl, rfl, rfl⟩
  · rw [if_neg hend]
    exact ⟨_, _, rfl, rfl, rfl⟩

theorem timerProcess_divByZero {t : Globals} (h : t.cycle = 0) : timerProcess t = .error .divByZero := if_pos h

/-- The interrupts of a cycle. -/
def cycleOf (queryCycleS : UInt8) : ℕ := if queryCycleS > 0 then 20 * queryCycleS.toNat else 20

/-- The tick of the `k`-th cycle. -/
def tick (k : ℕ) : MsgBody := ⟨msgWorktick, Int32.ofNat (k % 10)⟩

theorem cycleOf_pos (q : UInt8) : 0 < cycleOf q := by
  unfold cycleOf
  split
  · rename_i h
    rw [gt_iff_lt, UInt8.lt_iff_toNat_lt] at h
    exact Nat.mul_pos (by decide) h
  · decide

theorem cycleOf_le (q : UInt8) : cycleOf q ≤ 5100 := by
  have h := q.toNat_lt
  unfold cycleOf
  split <;> omega

theorem toNat_cycle (q : UInt8) (t : Globals) : (initTimer q t).cycle.toNat = cycleOf q := by
  have h := q.toNat_lt
  unfold initTimer cycleOf
  dsimp only
  split
  · simp only [UInt32.toNat_mul, UInt8.toNat_toUInt32, UInt32.reduceToNat]
    omega
  · rfl

theorem cycle_initTimer (q : UInt8) (t : Globals) : (initTimer q t).cycle ≠ 0 := by
  have hcycle := toNat_cycle q t
  have hpos := cycleOf_pos q
  intro h0
  rw [h0] at hcycle
  exact absurd hcycle (ne_of_lt hpos)

/-- The counter after `n` interrupts. -/
def Counts (q : UInt8) (n : ℕ) (t : Globals) : Prop :=
  t.cycle.toNat = cycleOf q ∧ t.timerCnt.toNat = n % (cycleOf q * 10)

theorem counts_initTimer (q : UInt8) (t : Globals) : Counts q 0 (initTimer q t) :=
  ⟨toNat_cycle q t, by rw [Nat.zero_mod]; rfl⟩

theorem toInt32_eq {v : UInt32} {k : ℕ} (h : v.toNat = k) : v.toInt32 = Int32.ofNat k := by
  have hv : v = UInt32.ofNat k := by
    rw [← h, UInt32.ofNat_toNat]
  rw [hv]
  rfl

section Counts

variable {q : UInt8} {n : ℕ} {t : Globals} (h : Counts q n t)

include h

theorem cycle_ne_zero : t.cycle ≠ 0 := by
  intro h0
  have hpos := cycleOf_pos q
  rw [← h.1, h0] at hpos
  exact absurd hpos (by decide)

/-- A tick is due at the multiples of the cycle. -/
theorem due_iff : t.timerCnt % t.cycle = 0 ↔ cycleOf q ∣ n := by
  rw [← UInt32.toNat_inj, UInt32.toNat_mod, h.2, h.1, Nat.mod_mod_of_dvd _ (Nat.dvd_mul_right _ 10),
    Nat.dvd_iff_mod_eq_zero]
  rfl

/-- Its parameter is the number of the cycle among the ten. -/
theorem para_eq : (t.timerCnt / t.cycle % 10).toInt32 = Int32.ofNat (n / cycleOf q % 10) := by
  apply toInt32_eq
  rw [UInt32.toNat_mod, UInt32.toNat_div, h.2, h.1, Nat.mod_mul_right_div_self]
  exact Nat.mod_mod _ 10

/-- The counter and the ten cycles stay below 2 ^ 32. -/
theorem toNat_next : (t.timerCnt + 1).toNat = n % (cycleOf q * 10) + 1 ∧
    (t.cycle * 10).toNat = cycleOf q * 10 := by
  have hpos := cycleOf_pos q
  have hle := cycleOf_le q
  have hlt : n % (cycleOf q * 10) < cycleOf q * 10 := Nat.mod_lt _ (by omega)
  rw [UInt32.toNat_add, UInt32.toNat_mul, h.1, h.2]
  simp only [UInt32.reduceToNat]
  omega

/-- **One interrupt.** It publishes a tick if it is a multiple of the cycle. -/
theorem timerProcess_counts : ∃ t', Counts q (n + 1) t' ∧
    timerProcess t = .ok (t', if cycleOf q ∣ n then [tick (n / cycleOf q)] else []) := by
  obtain ⟨hsucc, hten⟩ := toNat_next h
  have hpos := cycleOf_pos q
  have hlt : n % (cycleOf q * 10) < cycleOf q * 10 := Nat.mod_lt _ (by omega)
  have hmod : (n + 1) % (cycleOf q * 10) = (n % (cycleOf q * 10) + 1) % (cycleOf q * 10) :=
    (Nat.mod_add_mod n _ 1).symm
  have hout : (if t.timerCnt % t.cycle = 0 then
      [⟨msgWorktick, (t.timerCnt / t.cycle % 10).toInt32⟩] else []) =
      if cycleOf q ∣ n then [tick (n / cycleOf q)] else [] := by
    rw [para_eq h]
    exact if_congr (due_iff h) rfl rfl
  unfold timerProcess
  dsimp only
  rw [if_neg (cycle_ne_zero h), hout]
  by_cases hwrap : t.timerCnt + 1 ≥ t.cycle * 10
  · have hend : cycleOf q * 10 ≤ n % (cycleOf q * 10) + 1 := by
      rwa [ge_iff_le, UInt32.le_iff_toNat_le, hten, hsucc] at hwrap
    rw [if_pos hwrap]
    refine ⟨{ t with timerCnt := 0, lwipLocaltime := t.lwipLocaltime + 5 }, ⟨h.1, ?_⟩, rfl⟩
    have hfull : n % (cycleOf q * 10) + 1 = cycleOf q * 10 := Nat.le_antisymm hlt hend
    rw [hmod, hfull, Nat.mod_self]
    rfl
  · have hmore : n % (cycleOf q * 10) + 1 < cycleOf q * 10 := by
      rw [ge_iff_le, UInt32.le_iff_toNat_le, hten, hsucc] at hwrap
      omega
    rw [if_neg hwrap]
    refine ⟨{ t with timerCnt := t.timerCnt + 1, lwipLocaltime := t.lwipLocaltime + 5 }, ⟨h.1, ?_⟩, rfl⟩
    rw [hmod, Nat.mod_eq_of_lt hmore]
    exact hsucc

end Counts

/-- How many ticks the first `n` interrupts publish. -/
def tickCount (q : UInt8) (n : ℕ) : ℕ := (n + (cycleOf q - 1)) / cycleOf q

theorem lt_tickCount {q : UInt8} {n k : ℕ} : k < tickCount q n ↔ k * cycleOf q < n := by
  have hpos := cycleOf_pos q
  rw [tickCount, Nat.lt_iff_add_one_le, Nat.le_div_iff_mul_le hpos, Nat.add_mul, Nat.one_mul]
  omega

theorem tickCount_of_dvd {q : UInt8} {n : ℕ} (h : cycleOf q ∣ n) : tickCount q n = n / cycleOf q := by
  have hpos := cycleOf_pos q
  obtain ⟨m, rfl⟩ := h
  rw [Nat.mul_div_cancel_left m hpos]
  refine eq_of_forall_lt_iff fun k => ?_
  rw [lt_tickCount, Nat.mul_comm, Nat.mul_lt_mul_left hpos]

theorem tickCount_succ (q : UInt8) (n : ℕ) : tickCount q (n + 1) =
    if cycleOf q ∣ n then tickCount q n + 1 else tickCount q n := by
  have hpos := cycleOf_pos q
  by_cases hd : cycleOf q ∣ n
  · rw [if_pos hd, tickCount_of_dvd hd]
    obtain ⟨m, rfl⟩ := hd
    rw [Nat.mul_div_cancel_left m hpos]
    refine eq_of_forall_lt_iff fun k => ?_
    rw [lt_tickCount, Nat.lt_succ_iff, Nat.lt_succ_iff, Nat.mul_comm, Nat.mul_le_mul_left_iff hpos]
  · rw [if_neg hd]
    refine eq_of_forall_lt_iff fun k => ?_
    rw [lt_tickCount, lt_tickCount, Nat.lt_succ_iff]
    have hne : k * cycleOf q ≠ n := fun e => hd ⟨k, by rw [← e, Nat.mul_comm]⟩
    omega

/-- **The `k`-th tick.** In a run of the interrupt after `initTimer`, the
messages published are the ticks of parameter `k % 10` at interrupt
`k * cycle`, for `k = 0, 1, 2, …` as long as these interrupts are in the run. -/
theorem ticks (q : UInt8) (t : Globals) (n : ℕ) : ∃ t',
    run interrupt (initTimer q t) (List.range n) =
      .ok (t', (List.range (tickCount q n)).map fun k => (k * cycleOf q, tick k)) ∧ Counts q n t' := by
  induction n with
  | zero =>
    have hpos := cycleOf_pos q
    have h0 : tickCount q 0 = 0 := Nat.div_eq_of_lt (by omega)
    rw [h0]
    exact ⟨_, rfl, counts_initTimer q t⟩
  | succ n ih =>
    obtain ⟨t₁, h₁, hC⟩ := ih
    obtain ⟨t₂, hC₂, h₂⟩ := timerProcess_counts hC
    refine ⟨t₂, ?_, hC₂⟩
    rw [List.range_succ]
    refine run_append_ok.mpr ⟨t₁, _, _, h₁, (run_singleton _ _).trans (by rw [interrupt, h₂]; rfl), ?_⟩
    rw [tickCount_succ]
    by_cases hd : cycleOf q ∣ n
    · rw [if_pos hd, if_pos hd, List.range_succ, List.map_append, tickCount_of_dvd hd]
      simp [Nat.div_mul_cancel hd]
    · rw [if_neg hd, if_neg hd, List.map_nil, List.append_nil]

end Timer
end Serial2Ethernet
