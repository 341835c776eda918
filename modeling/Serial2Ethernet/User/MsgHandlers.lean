/-
# The message handlers

What the main loop does with a message: `onConsoleCommand` takes a command
from the console, `onWorkTick` polls two channels, darkens the LEDs or checks
the link, by the parameter of the tick. The calls of `onWorkTick` into other
modules are its outputs (`Call`).

`polled_once` puts the timer and the handler together: the ticks published in
ten cycles poll each channel once and check the link once.
-/
import Serial2Ethernet.Hardware.Console
import Serial2Ethernet.User.Timer

namespace Serial2Ethernet
namespace MsgHandlers

open Lib MsgInterface

/-- A call from a handler into another module. -/
inductive Call
  | checkUartFsmc (chl : UInt8)
  | openLED (index : UInt8)
  | closeLED (index : UInt8)
  | lan8720GetLink
  | publishMsg (m : MsgBody)
  deriving DecidableEq, Repr

/-- On command received from console. -/
def onConsoleCommand (c : Console.Globals) : Console.Globals :=
  if Console.getCommandNum c > 0 then (Console.getCommand c).2 else c

/-- `LAN8720_Get_link`, for what register 29 of the PHY holds. -/
def lan8720GetLink (reg29 : UInt16) : UInt8 := ((reg29 &&& 0x10) >>> 4).toUInt8

/-- On work tick. Register 29 of the PHY is read only by a tick of parameter 9. -/
def onWorkTick (para : Int32) (reg29 : UInt16) (linkStatus : UInt8) : UInt8 × List Call :=
  let (linkStatus, calls) :=
    if para < 8 ∧ para ≥ 0 then
      let chl := para.toUInt32.toUInt8 * 2
      (linkStatus, [Call.checkUartFsmc chl, .checkUartFsmc (chl + 1)])
    else if para = 8 then (linkStatus, [.closeLED 2, .closeLED 3])
    else if para = 9 then
      if lan8720GetLink reg29 ≠ 0 then
        if linkStatus ≠ 0 then (0, [.lan8720GetLink, .closeLED 4, .publishMsg ⟨msgLinkDown, 0⟩])
        else (linkStatus, [.lan8720GetLink, .closeLED 4])
      else (1, [.lan8720GetLink, .openLED 4])
    else (linkStatus, [])
  (linkStatus, calls ++ [if para < 5 then .openLED 1 else .closeLED 1])

/-- The messages that calls publish. -/
def published (calls : List Call) : List MsgBody :=
  calls.filterMap fun | .publishMsg m => some m | _ => none

/-- `onWorkTick` for one message after another, with what the register holds then. -/
def dispatch (linkStatus : UInt8) (d : MsgBody × UInt16) : Except Fault (UInt8 × List Call) :=
  .ok (onWorkTick d.1.para d.2 linkStatus)

/-! ### What a tick does about the link -/

section Link

variable (para : Int32) (reg29 : UInt16) (linkStatus : UInt8)

theorem published_append (cs ds : List Call) : published (cs ++ ds) = published cs ++ published ds :=
  List.filterMap_append

theorem published_led : published [if para < 5 then .openLED 1 else .closeLED 1] = [] := by
  split <;> rfl

theorem getLink_notMem_led : Call.lan8720GetLink ∉ [if para < 5 then Call.openLED 1 else .closeLED 1] := by
  split <;> decide

/-- The tick of parameter 9 reads the link, keeps it in `link_status`, and
publishes a message when the link is down that was up. -/
theorem onWorkTick_nine :
    (onWorkTick 9 reg29 linkStatus).1 = (if lan8720GetLink reg29 ≠ 0 then 0 else 1) ∧
      published (onWorkTick 9 reg29 linkStatus).2 =
        (if lan8720GetLink reg29 ≠ 0 ∧ linkStatus ≠ 0 then [⟨msgLinkDown, 0⟩] else []) ∧
      Call.lan8720GetLink ∈ (onWorkTick 9 reg29 linkStatus).2 := by
  unfold onWorkTick
  dsimp only
  rw [if_neg (by decide), if_neg (by decide), if_pos rfl, published_append, published_led, List.append_nil]
  by_cases hdown : lan8720GetLink reg29 ≠ 0
  · rw [if_pos hdown, if_pos hdown]
    by_cases hup : linkStatus ≠ 0
    · rw [if_pos hup, if_pos ⟨hdown, hup⟩]
      exact ⟨rfl, rfl, List.mem_cons_self⟩
    · rw [if_neg hup, if_neg fun h => hup h.2]
      exact ⟨not_not.mp hup, rfl, List.mem_cons_self⟩
  · rw [if_neg hdown, if_neg hdown, if_neg fun h => hdown h.1]
    exact ⟨rfl, rfl, List.mem_cons_self⟩

variable {para}

/-- No other tick has to do with the link. -/
theorem onWorkTick_of_ne (h9 : para ≠ 9) :
    (onWorkTick para reg29 linkStatus).1 = linkStatus ∧
      published (onWorkTick para reg29 linkStatus).2 = [] ∧
      Call.lan8720GetLink ∉ (onWorkTick para reg29 linkStatus).2 := by
  have hled := getLink_notMem_led para
  unfold onWorkTick
  dsimp only
  rw [published_append, published_led, List.append_nil, List.mem_append, not_or]
  by_cases h8 : para < 8 ∧ para ≥ 0
  · rw [if_pos h8]
    exact ⟨rfl, rfl, by simp, hled⟩
  · rw [if_neg h8]
    by_cases heq : para = 8
    · rw [if_pos heq]
      exact ⟨rfl, rfl, by simp, hled⟩
    · rw [if_neg heq, if_neg h9]
      exact ⟨rfl, rfl, by simp, hled⟩

end Link

/-! ### What a tick polls -/

/-- A poll of a channel, or of the link. -/
def Call.IsPoll : Call → Bool
  | .checkUartFsmc _ | .lan8720GetLink => true
  | .openLED _ | .closeLED _ | .publishMsg _ => false

/-- The polls of the tick of this parameter. -/
def tickPolls (p : ℕ) : List Call :=
  if p < 8 then [.checkUartFsmc (UInt8.ofNat (2 * p)), .checkUartFsmc (UInt8.ofNat (2 * p + 1))]
  else if p = 9 then [.lan8720GetLink]
  else []

theorem tick_para_channels : ∀ p : Fin 10, (Int32.ofNat p < 8 ∧ Int32.ofNat p ≥ 0 ↔ p.val < 8) ∧
    (p.val < 8 → (Int32.ofNat p).toUInt32.toUInt8 * 2 = UInt8.ofNat (2 * p) ∧
      (Int32.ofNat p).toUInt32.toUInt8 * 2 + 1 = UInt8.ofNat (2 * p + 1)) := by decide

theorem tick_para_link : ∀ p : Fin 10, ¬ p.val < 8 → (Int32.ofNat p = 8 ↔ p.val = 8) ∧
    (Int32.ofNat p = 9 ↔ p.val = 9) := by decide

/-- What a tick polls depends on its parameter alone. -/
theorem polls_onWorkTick (k : ℕ) (reg29 : UInt16) (linkStatus : UInt8) :
    (onWorkTick (Timer.tick k).para reg29 linkStatus).2.filter Call.IsPoll = tickPolls (k % 10) := by
  have hlt : k % 10 < 10 := Nat.mod_lt _ (by decide)
  obtain ⟨hchl, hchls⟩ := tick_para_channels ⟨k % 10, hlt⟩
  have hled : ∀ (b : Prop) [Decidable b], ([if b then Call.openLED 1 else .closeLED 1]).filter Call.IsPoll = [] := by
    intro b _
    split <;> rfl
  unfold onWorkTick tickPolls Timer.tick
  by_cases h8 : k % 10 < 8
  · rw [if_pos (hchl.mpr h8), if_pos h8]
    dsimp only
    rw [List.filter_append, hled, (hchls h8).2, (hchls h8).1]
    rfl
  · obtain ⟨hleds, hlink⟩ := tick_para_link ⟨k % 10, hlt⟩ h8
    rw [if_neg (mt hchl.mp h8), if_neg h8]
    by_cases h9 : k % 10 = 9
    · rw [if_neg (mt hleds.mp (by dsimp only; omega)), if_pos (hlink.mpr h9), if_pos h9]
      dsimp only
      rw [List.filter_append, hled]
      split
      · split <;> rfl
      · rfl
    · have h8' : k % 10 = 8 := by omega
      rw [if_pos (hleds.mpr h8'), if_neg h9]
      dsimp only
      rw [List.filter_append, hled]
      rfl

/-- Ticks dispatched in order make their polls in order. -/
theorem run_dispatch (ks : List ℕ) (ds : List (MsgBody × UInt16)) (linkStatus : UInt8)
    (h : ds.map Prod.fst = ks.map Timer.tick) : ∃ linkStatus' calls,
      run dispatch linkStatus ds = .ok (linkStatus', calls) ∧
        calls.filter Call.IsPoll = ks.flatMap fun k => tickPolls (k % 10) := by
  induction ks generalizing ds linkStatus with
  | nil =>
    obtain rfl := List.map_eq_nil_iff.mp h
    exact ⟨linkStatus, [], rfl, rfl⟩
  | cons k ks ih =>
    cases ds with
    | nil => cases h
    | cons d ds =>
      obtain ⟨hd, hds⟩ := List.cons.inj h
      obtain ⟨ls, calls, hrun, hcalls⟩ := ih ds (onWorkTick d.1.para d.2 linkStatus).1 hds
      refine ⟨ls, _, run_cons_ok.mpr ⟨_, (onWorkTick d.1.para d.2 linkStatus).2, calls, rfl, hrun, rfl⟩, ?_⟩
      rw [List.filter_append, hcalls, hd, polls_onWorkTick, List.flatMap_cons]

/-! ### Ten cycles -/

/-- In ten ticks in a row each channel is polled once, and the link. -/
theorem count_polls (k₀ : ℕ) :
    (∀ chl : Fin 16, ((List.range' k₀ 10).flatMap fun k => tickPolls (k % 10)).count
        (.checkUartFsmc (UInt8.ofNat chl)) = 1) ∧
      ((List.range' k₀ 10).flatMap fun k => tickPolls (k % 10)).count .lan8720GetLink = 1 := by
  have hshift : (List.range' k₀ 10).flatMap (fun k => tickPolls (k % 10)) =
      (List.range 10).flatMap fun j => tickPolls ((k₀ % 10 + j) % 10) := by
    rw [List.range'_eq_map_range, List.flatMap_map]
    simp only [Nat.mod_add_mod]
  have hall : ∀ r : Fin 10,
      (∀ chl : Fin 16, ((List.range 10).flatMap fun j => tickPolls ((r.val + j) % 10)).count
        (.checkUartFsmc (UInt8.ofNat chl)) = 1) ∧
      ((List.range 10).flatMap fun j => tickPolls ((r.val + j) % 10)).count .lan8720GetLink = 1 := by
    decide +kernel
  rw [hshift]
  exact hall ⟨k₀ % 10, Nat.mod_lt _ (by decide)⟩

/-- The messages published by the interrupts from number `a` to before number `b`. -/
def window (a b : ℕ) (outs : List (ℕ × MsgBody)) : List MsgBody :=
  (outs.filter fun o => a ≤ o.1 ∧ o.1 < b).map Prod.snd

theorem filter_range {k₀ l m : ℕ} (h : k₀ + l ≤ m) :
    (List.range m).filter (fun k => k₀ ≤ k ∧ k < k₀ + l) = List.range' k₀ l := by
  obtain ⟨r, rfl⟩ := Nat.exists_eq_add_of_le h
  have hbelow : (List.range' 0 k₀).filter (fun k => k₀ ≤ k ∧ k < k₀ + l) = [] := by
    rw [List.filter_eq_nil_iff]
    intro k hk
    rw [List.mem_range'_1] at hk
    simp
    omega
  have hin : (List.range' k₀ l).filter (fun k => k₀ ≤ k ∧ k < k₀ + l) = List.range' k₀ l := by
    rw [List.filter_eq_self]
    intro k hk
    rw [List.mem_range'_1] at hk
    simp
    omega
  have habove : (List.range' (k₀ + l) r).filter (fun k => k₀ ≤ k ∧ k < k₀ + l) = [] := by
    rw [List.filter_eq_nil_iff]
    intro k hk
    rw [List.mem_range'_1] at hk
    simp
    omega
  have hsplit : List.range (k₀ + l + r) = List.range' 0 k₀ ++ List.range' k₀ l ++ List.range' (k₀ + l) r := by
    have h₁ := List.range'_append_1 (s := 0) (m := k₀) (n := l)
    have h₂ := List.range'_append_1 (s := 0) (m := k₀ + l) (n := r)
    rw [Nat.zero_add] at h₁ h₂
    rw [h₁, h₂, List.range_eq_range']
  rw [hsplit, List.filter_append, List.filter_append, hbelow, hin, habove, List.nil_append, List.append_nil]

/-- Ten cycles publish ten ticks in a row. -/
theorem window_ticks {q : UInt8} {n a : ℕ} (h : a + 10 * Timer.cycleOf q ≤ n) : ∃ k₀,
    window a (a + 10 * Timer.cycleOf q)
        ((List.range (Timer.tickCount q n)).map fun k => (k * Timer.cycleOf q, Timer.tick k)) =
      (List.range' k₀ 10).map Timer.tick := by
  have hpos := Timer.cycleOf_pos q
  have hten : Timer.tickCount q (a + 10 * Timer.cycleOf q) = Timer.tickCount q a + 10 := by
    unfold Timer.tickCount
    rw [Nat.add_right_comm, Nat.add_mul_div_right _ _ hpos]
  have hle : Timer.tickCount q a + 10 ≤ Timer.tickCount q n := by
    rw [← hten]
    exact Nat.div_le_div_right (Nat.add_le_add_right h _)
  refine ⟨Timer.tickCount q a, ?_⟩
  rw [window, List.filter_map, List.map_map, ← filter_range hle]
  refine congrArg₂ List.map rfl (List.filter_congr fun k _ => ?_)
  have hfrom : a ≤ k * Timer.cycleOf q ↔ Timer.tickCount q a ≤ k := by
    rw [← Nat.not_lt, ← Nat.not_lt, Timer.lt_tickCount]
  have hto : k * Timer.cycleOf q < a + 10 * Timer.cycleOf q ↔ k < Timer.tickCount q a + 10 := by
    rw [← hten, Timer.lt_tickCount]
  simp only [Function.comp_def, hfrom, hto]

/-- **Every channel is polled once in ten cycles.** The `k`-th tick is
published at interrupt `k * cycle` with parameter `k % 10`, and no other; when
the ticks published by any `10 * cycle` interrupts in a row are dispatched,
whatever the PHY says, each channel is polled once and the link is checked once. -/
theorem polled_once (q : UInt8) (t : Timer.Globals) (n : ℕ) : ∃ t' outs,
    run Timer.interrupt (Timer.initTimer q t) (List.range n) = .ok (t', outs) ∧
      (∀ k, outs[k]? = if k * (Timer.initTimer q t).cycle.toNat < n then
        some (k * (Timer.initTimer q t).cycle.toNat, ⟨msgWorktick, Int32.ofNat (k % 10)⟩) else none) ∧
      ∀ a, a + 10 * (Timer.initTimer q t).cycle.toNat ≤ n →
        ∀ (ds : List (MsgBody × UInt16)) (linkStatus : UInt8),
          ds.map Prod.fst = window a (a + 10 * (Timer.initTimer q t).cycle.toNat) outs →
          ∃ linkStatus' calls, run dispatch linkStatus ds = .ok (linkStatus', calls) ∧
            (∀ chl : Fin 16, calls.count (.checkUartFsmc (UInt8.ofNat chl)) = 1) ∧
            calls.count .lan8720GetLink = 1 := by
  obtain ⟨t', hrun, -⟩ := Timer.ticks q t n
  rw [Timer.toNat_cycle]
  refine ⟨t', _, hrun, fun k => ?_, fun a ha ds linkStatus hds => ?_⟩
  · rw [List.getElem?_map]
    by_cases hk : k * Timer.cycleOf q < n
    · rw [if_pos hk, List.getElem?_range (Timer.lt_tickCount.mpr hk)]
      rfl
    · rw [if_neg hk, List.getElem?_eq_none (by
        rw [List.length_range]
        exact Nat.not_lt.mp (mt Timer.lt_tickCount.mp hk))]
      rfl
  · obtain ⟨k₀, hwin⟩ := window_ticks ha
    rw [hwin] at hds
    obtain ⟨ls, calls, hrun', hcalls⟩ := run_dispatch _ ds linkStatus hds
    have hcount : ∀ c : Call, c.IsPoll = true → calls.count c =
        ((List.range' k₀ 10).flatMap fun k => tickPolls (k % 10)).count c := by
      intro c hc
      rw [← hcalls, List.count_filter hc]
    obtain ⟨hchl, hlink⟩ := count_polls k₀
    refine ⟨ls, calls, hrun', fun chl => ?_, ?_⟩
    · rw [hcount _ rfl, hchl chl]
    · rw [hcount _ rfl, hlink]

end MsgHandlers
end Serial2Ethernet
