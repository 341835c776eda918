/-
# The protocol timers

`lwip_periodic_handle` calls `tcp_tmr` and `etharp_tmr` when the time since its
last call of them has reached their intervals. The time is `lwip_localtime`, 32
bits wide and advanced by 5 ms at each interrupt of timer 3, so it is the true
time modulo 2 ^ 32, and so is the difference to a stamp.

A poll leaves each stamp less than an interval behind the clock. From the
first poll on the differences are the true ones, as long as the gaps between
the polls are less than 2 ^ 32 - 5000 ms: all polls are right exactly if the
first one is (`pollsRight_iff`), for which the stamps are those of time 0.
-/
import Serial2Ethernet.User.Timer

namespace Serial2Ethernet
namespace Periodic

open Lib Timer

/-- `TCP_TMR_INTERVAL` -/
def tcpTmrInterval : UInt32 := 250

/-- `ARP_TMR_INTERVAL` -/
def arpTmrInterval : UInt32 := 5000

/-- The clock, and the time of the last call of each of the timers. -/
structure Globals where
  timer : Timer.Globals
  tcpTimer : UInt32
  arpTimer : UInt32

/-- What a poll calls. -/
structure Poll where
  tcpTmr : Bool
  etharpTmr : Bool
  deriving DecidableEq, Repr

/-- One of the tests `if(lwip_localtime - stamp >= interval)`: the new stamp,
and whether the timer is called. -/
def check (now stamp interval : UInt32) : UInt32 × Bool :=
  if now - stamp ≥ interval then (now, true) else (stamp, false)

/-- The polling task of lwIP, with TCP and without DHCP. -/
def lwipPeriodicHandle (g : Globals) : Globals × Poll :=
  let tcp := check g.timer.lwipLocaltime g.tcpTimer tcpTmrInterval
  let g := { g with tcpTimer := tcp.1 }
  let arp := check g.timer.lwipLocaltime g.arpTimer arpTmrInterval
  let g := { g with arpTimer := arp.1 }
  (g, ⟨tcp.2, arp.2⟩)

/-- An interrupt of timer 3, or a poll of the main loop. -/
inductive Act
  | timerProcess
  | lwipPeriodicHandle
  deriving DecidableEq, Repr

/-- The outputs are the polls. -/
def step (g : Globals) : Act → Except Fault (Globals × List Poll)
  | .timerProcess => (timerProcess g.timer).map fun r => ({ g with timer := r.1 }, [])
  | .lwipPeriodicHandle => .ok ((Periodic.lwipPeriodicHandle g).1, [(Periodic.lwipPeriodicHandle g).2])

/-- After `initTimer`. -/
def start (queryCycleS : UInt8) : Globals := ⟨initTimer queryCycleS powerOn, 0, 0⟩

/-! ### The reference -/

/-- The true time in ms, and the times of the last polls that called the timers. -/
structure Elapsed where
  t : ℕ
  tcp : ℕ
  arp : ℕ

/-- Whether a timer is due: its interval has passed since it was last called. -/
def due (now last interval : ℕ) : ℕ × Bool :=
  if interval ≤ now - last then (now, true) else (last, false)

def Elapsed.step (e : Elapsed) : Act → Except Fault (Elapsed × List Poll)
  | .timerProcess => .ok ({ e with t := e.t + 5 }, [])
  | .lwipPeriodicHandle =>
    let tcp := due e.t e.tcp tcpTmrInterval.toNat
    let arp := due e.t e.arp arpTmrInterval.toNat
    .ok ({ e with tcp := tcp.1, arp := arp.1 }, [⟨tcp.2, arp.2⟩])

/-- Every poll calls what is due. -/
def PollsRight (queryCycleS : UInt8) (acts : List Act) : Prop :=
  ∃ g e polls, run step (start queryCycleS) acts = .ok (g, polls) ∧ run Elapsed.step ⟨0, 0, 0⟩ acts = .ok (e, polls)

/-- Successive polls are less than 2 ^ 32 - 5000 ms apart. -/
def Spaced (acts : List Act) : Prop :=
  ∀ pre k post,
    acts = pre ++ Act.lwipPeriodicHandle :: (List.replicate k Act.timerProcess ++ Act.lwipPeriodicHandle :: post) →
      5 * k < 2 ^ 32 - 5000

/-- What is due at time `t`, if nothing has been called, is due at `t` modulo 2 ^ 32. -/
def FirstRight (t : ℕ) : Prop :=
  (tcpTmrInterval.toNat ≤ t → tcpTmrInterval.toNat ≤ t % 2 ^ 32) ∧
    (arpTmrInterval.toNat ≤ t → arpTmrInterval.toNat ≤ t % 2 ^ 32)

instance (t : ℕ) : Decidable (FirstRight t) := inferInstanceAs (Decidable (_ ∧ _))

/-! ### One test -/

/-- The test looks at the true difference modulo 2 ^ 32. -/
theorem check_eq {now last : ℕ} (h : last ≤ now) (interval : UInt32) :
    check (UInt32.ofNat now) (UInt32.ofNat last) interval =
      if interval.toNat ≤ (now - last) % 2 ^ 32 then (UInt32.ofNat now, true) else (UInt32.ofNat last, false) := by
  unfold check
  refine if_congr ?_ rfl rfl
  rw [← UInt32.ofNat_sub h, ge_iff_le, UInt32.le_iff_toNat_le, UInt32.toNat_ofNat']

/-- A test that answers what is due does what is due. -/
theorem check_right {now last : ℕ} (h : last ≤ now) (interval : UInt32)
    (hdue : interval.toNat ≤ now - last → interval.toNat ≤ (now - last) % 2 ^ 32) :
    check (UInt32.ofNat now) (UInt32.ofNat last) interval =
      (UInt32.ofNat (due now last interval.toNat).1, (due now last interval.toNat).2) := by
  rw [check_eq h]
  unfold due
  by_cases hlong : interval.toNat ≤ now - last
  · rw [if_pos (hdue hlong), if_pos hlong]
  · have hle := Nat.mod_le (now - last) (2 ^ 32)
    rw [if_neg (by omega), if_neg hlong]

theorem check_snd_iff {now last : ℕ} (h : last ≤ now) (interval : UInt32) :
    (check (UInt32.ofNat now) (UInt32.ofNat last) interval).2 = (due now last interval.toNat).2 ↔
      (interval.toNat ≤ now - last → interval.toNat ≤ (now - last) % 2 ^ 32) := by
  constructor
  · intro heq hlong
    rw [check_eq h, due, if_pos hlong] at heq
    by_contra hshort
    rw [if_neg hshort] at heq
    cases heq
  · exact fun hdue => congrArg Prod.snd (check_right h interval hdue)

/-- Behind a test the last call is less than an interval ago. -/
theorem due_recent {now last interval : ℕ} (h : last ≤ now) (hpos : 0 < interval) :
    (due now last interval).1 ≤ now ∧ now - (due now last interval).1 < interval := by
  unfold due
  by_cases hlong : interval ≤ now - last
  · rw [if_pos hlong]
    exact ⟨le_rfl, by rwa [Nat.sub_self]⟩
  · rw [if_neg hlong]
    exact ⟨h, Nat.lt_of_not_le hlong⟩

/-! ### One action -/

/-- The clock and the stamps are the true times modulo 2 ^ 32. -/
structure Follows (g : Globals) (e : Elapsed) : Prop where
  cycle : g.timer.cycle ≠ 0
  now : g.timer.lwipLocaltime = UInt32.ofNat e.t
  tcp : g.tcpTimer = UInt32.ofNat e.tcp
  arp : g.arpTimer = UInt32.ofNat e.arp
  tcp_le : e.tcp ≤ e.t
  arp_le : e.arp ≤ e.t

/-- The last calls are less than an interval and `since` interrupts ago. -/
def Recent (since : ℕ) (e : Elapsed) : Prop :=
  e.t - e.tcp < tcpTmrInterval.toNat + 5 * since ∧ e.t - e.arp < arpTmrInterval.toNat + 5 * since

theorem follows_start (q : UInt8) : Follows (start q) ⟨0, 0, 0⟩ :=
  ⟨cycle_initTimer q powerOn, rfl, rfl, rfl, le_rfl, le_rfl⟩

section Follows

variable {g : Globals} {e : Elapsed}

theorem Follows.tick (h : Follows g e) : ∃ g', step g .timerProcess = .ok (g', []) ∧
    Follows g' { e with t := e.t + 5 } := by
  obtain ⟨t', out, hok, hcycle, htime⟩ := timerProcess_ok h.cycle
  refine ⟨{ g with timer := t' }, ?_, hcycle ▸ h.cycle, ?_, h.tcp, h.arp, h.tcp_le.trans (Nat.le_add_right _ _),
    h.arp_le.trans (Nat.le_add_right _ _)⟩
  · simp [step, hok, Except.map]
  · rw [htime, h.now, UInt32.ofNat_add]
    rfl

theorem Follows.ticks : ∀ (k : ℕ) {g : Globals} {e : Elapsed}, Follows g e → ∃ g',
    run step g (List.replicate k Act.timerProcess) = .ok (g', []) ∧
    run Elapsed.step e (List.replicate k Act.timerProcess) = .ok ({ e with t := e.t + 5 * k }, []) ∧
    Follows g' { e with t := e.t + 5 * k }
  | 0, g, e, h => ⟨g, rfl, rfl, h⟩
  | k + 1, g, e, h => by
    obtain ⟨g₁, h₁, hfollows⟩ := h.tick
    obtain ⟨g', hrun, href, hend⟩ := Follows.ticks k hfollows
    have ht : e.t + 5 + 5 * k = e.t + 5 * (k + 1) := by omega
    dsimp only at href hend
    rw [ht] at href hend
    refine ⟨g', ?_, ?_, hend⟩
    · exact run_cons_ok.mpr ⟨g₁, [], [], h₁, hrun, rfl⟩
    · exact run_cons_ok.mpr ⟨_, [], [], rfl, href, rfl⟩

/-- A poll that answers what is due leaves the stamps right and recent. -/
theorem Follows.poll (h : Follows g e)
    (htcp : tcpTmrInterval.toNat ≤ e.t - e.tcp → tcpTmrInterval.toNat ≤ (e.t - e.tcp) % 2 ^ 32)
    (harp : arpTmrInterval.toNat ≤ e.t - e.arp → arpTmrInterval.toNat ≤ (e.t - e.arp) % 2 ^ 32) :
    ∃ g' e' p, step g .lwipPeriodicHandle = .ok (g', [p]) ∧ e.step .lwipPeriodicHandle = .ok (e', [p]) ∧
      Follows g' e' ∧ Recent 0 e' := by
  have htcp' := check_right h.tcp_le tcpTmrInterval htcp
  have harp' := check_right h.arp_le arpTmrInterval harp
  obtain ⟨htle, htlt⟩ := due_recent h.tcp_le (by decide : 0 < tcpTmrInterval.toNat)
  obtain ⟨hale, halt⟩ := due_recent h.arp_le (by decide : 0 < arpTmrInterval.toNat)
  rw [← h.now, ← h.tcp] at htcp'
  rw [← h.now, ← h.arp] at harp'
  refine ⟨_, ⟨e.t, (due e.t e.tcp tcpTmrInterval.toNat).1, (due e.t e.arp arpTmrInterval.toNat).1⟩, _, rfl, ?_,
    ⟨h.cycle, h.now, ?_, ?_, htle, hale⟩, htlt, halt⟩
  · unfold Elapsed.step Periodic.lwipPeriodicHandle
    dsimp only
    rw [htcp', harp']
  · exact congrArg Prod.fst htcp'
  · exact congrArg Prod.fst harp'

end Follows

/-! ### The gaps -/

/-- The interrupts since the last poll. -/
def sincePoll (since : ℕ) : Act → ℕ
  | .timerProcess => since + 1
  | .lwipPeriodicHandle => 0

/-- A poll comes less than 2 ^ 32 - 5000 ms after the last one. -/
def Close (since : ℕ) (a : Act) : Prop := a = .lwipPeriodicHandle → 5 * since < 2 ^ 32 - 5000

theorem Spaced.append (pre : List Act) {acts : List Act} (h : Spaced (pre ++ acts)) : Spaced acts := by
  intro pre' k post e
  exact h (pre ++ pre') k post (by rw [e, List.append_assoc])

theorem along_close : ∀ (acts : List Act) (since : ℕ), Spaced acts →
    (∀ k post, acts = List.replicate k Act.timerProcess ++ Act.lwipPeriodicHandle :: post →
      5 * (since + k) < 2 ^ 32 - 5000) → Along sincePoll Close since acts
  | [], _, _, _ => trivial
  | .timerProcess :: acts, since, hs, h => by
    refine ⟨nofun, along_close acts (since + 1) (Spaced.append [.timerProcess] hs) ?_⟩
    intro k post e
    have hk := h (k + 1) post (by rw [e, List.replicate_succ, List.cons_append])
    omega
  | .lwipPeriodicHandle :: acts, since, hs, h => by
    refine ⟨fun _ => h 0 acts rfl, along_close acts 0 (Spaced.append [.lwipPeriodicHandle] hs) ?_⟩
    intro k post e
    have hk := hs [] k post (by rw [e, List.nil_append])
    omega

/-- From a recent poll on, all polls are right. -/
theorem run_right {acts : List Act} {since : ℕ} {g : Globals} {e : Elapsed} (h : Follows g e) (hr : Recent since e)
    (hclose : Along sincePoll Close since acts) :
    ∃ g' e' polls, run step g acts = .ok (g', polls) ∧ run Elapsed.step e acts = .ok (e', polls) := by
  refine run_simulates_along (fun since g e => Follows g e ∧ Recent since e) ?_ acts ⟨h, hr⟩ hclose
  rintro since g e a ⟨hf, htcp, harp⟩ hc
  cases a with
  | timerProcess =>
    obtain ⟨g', hok, hf'⟩ := hf.tick
    refine ⟨g', _, [], hok, rfl, hf', ?_, ?_⟩
    · dsimp only [sincePoll]
      omega
    · dsimp only [sincePoll]
      omega
  | lwipPeriodicHandle =>
    have hgap := hc rfl
    have htcp32 : e.t - e.tcp < 2 ^ 32 := by
      have : tcpTmrInterval.toNat = 250 := rfl
      omega
    have harp32 : e.t - e.arp < 2 ^ 32 := by
      have : arpTmrInterval.toNat = 5000 := rfl
      omega
    obtain ⟨g', e', p, hok, href, hf', hr'⟩ := hf.poll (by rw [Nat.mod_eq_of_lt htcp32]; exact id)
      (by rw [Nat.mod_eq_of_lt harp32]; exact id)
    exact ⟨g', e', [p], hok, href, hf', hr'⟩

/-! ### The first poll -/

theorem firstPoll_iff (q : UInt8) {k : ℕ} {acts : List Act}
    (h : Spaced (List.replicate k Act.timerProcess ++ Act.lwipPeriodicHandle :: acts)) :
    PollsRight q (List.replicate k Act.timerProcess ++ Act.lwipPeriodicHandle :: acts) ↔ FirstRight (5 * k) := by
  obtain ⟨g, hticks, hticks', hf⟩ := (follows_start q).ticks k
  dsimp only at hticks' hf
  rw [Nat.zero_add] at hticks' hf
  constructor
  · rintro ⟨g', e', polls, hrun, href⟩
    obtain ⟨g₁, o₁, o₂, h₁, h₂, rfl⟩ := run_append_ok.mp hrun
    obtain ⟨e₁, o₁', o₂', h₁', h₂', ho⟩ := run_append_ok.mp href
    rw [hticks] at h₁
    rw [hticks'] at h₁'
    cases h₁
    cases h₁'
    obtain ⟨_, _, _, hp, -, rfl⟩ := run_cons_ok.mp h₂
    obtain ⟨_, _, _, hp', -, rfl⟩ := run_cons_ok.mp h₂'
    cases hp
    cases hp'
    obtain ⟨htcp, harp⟩ := Poll.mk.inj (List.cons.inj ho).1
    rw [hf.now, hf.tcp] at htcp
    rw [hf.now, hf.arp] at harp
    refine ⟨(check_snd_iff (Nat.zero_le _) tcpTmrInterval).mp htcp, ?_⟩
    exact (check_snd_iff (Nat.zero_le _) arpTmrInterval).mp harp
  · intro hright
    obtain ⟨g₁, e₁, p, hp, hp', hf₁, hr₁⟩ := hf.poll hright.1 hright.2
    have hacts : Spaced acts :=
      Spaced.append (List.replicate k Act.timerProcess ++ [Act.lwipPeriodicHandle]) (by rwa [List.append_assoc])
    have hclose : Along sincePoll Close 0 acts := along_close acts 0 hacts fun k' post e => by
      rw [Nat.zero_add]
      exact h (List.replicate k Act.timerProcess) k' post (by rw [e])
    obtain ⟨g', e', polls, hrun, href⟩ := run_right hf₁ hr₁ hclose
    refine ⟨g', e', [] ++ ([p] ++ polls), ?_, ?_⟩
    · exact run_append_ok.mpr ⟨g, [], _, hticks, run_cons_ok.mpr ⟨g₁, [p], polls, hp, hrun, rfl⟩, rfl⟩
    · exact run_append_ok.mpr ⟨_, [], _, hticks', run_cons_ok.mpr ⟨e₁, [p], polls, hp', href, rfl⟩, rfl⟩

theorem ticks_or_poll : ∀ acts : List Act, (∃ k, acts = List.replicate k Act.timerProcess) ∨
    ∃ k post, acts = List.replicate k Act.timerProcess ++ Act.lwipPeriodicHandle :: post
  | [] => .inl ⟨0, rfl⟩
  | .lwipPeriodicHandle :: acts => .inr ⟨0, acts, rfl⟩
  | .timerProcess :: acts => by
    rcases ticks_or_poll acts with ⟨k, rfl⟩ | ⟨k, post, rfl⟩
    · exact .inl ⟨k + 1, rfl⟩
    · exact .inr ⟨k + 1, post, rfl⟩

theorem ticks_inj : ∀ {k k' : ℕ} {post post' : List Act},
    List.replicate k Act.timerProcess ++ Act.lwipPeriodicHandle :: post =
      List.replicate k' Act.timerProcess ++ Act.lwipPeriodicHandle :: post' → k = k'
  | 0, 0, _, _, _ => rfl
  | 0, k' + 1, _, _, e => by cases e
  | k + 1, 0, _, _, e => by cases e
  | k + 1, k' + 1, _, _, e => congrArg (· + 1) (ticks_inj (List.cons.inj e).2)

/-- **The timers across the wrap.** If successive polls are less than 2 ^ 32 - 5000 ms
apart, every poll calls what is due exactly if the first one does. -/
theorem pollsRight_iff (q : UInt8) {acts : List Act} (h : Spaced acts) : PollsRight q acts ↔
    ∀ k post, acts = List.replicate k Act.timerProcess ++ Act.lwipPeriodicHandle :: post → FirstRight (5 * k) := by
  rcases ticks_or_poll acts with ⟨k, rfl⟩ | ⟨k, post, rfl⟩
  · -- there is no poll
    refine iff_of_true ?_ fun k' post e => ?_
    · obtain ⟨g, hrun, href, -⟩ := (follows_start q).ticks k
      exact ⟨g, _, [], hrun, href⟩
    · have hmem : Act.lwipPeriodicHandle ∈ List.replicate k Act.timerProcess := by simp [e]
      cases List.eq_of_mem_replicate hmem
  · rw [firstPoll_iff q h]
    constructor
    · intro hright k' post' e
      rwa [← ticks_inj e]
    · exact fun hall => hall k post rfl

/-- A poll after 250 ms, and one 5 ms later. -/
theorem pollsRight_iff_short : PollsRight 1
    (List.replicate 50 Act.timerProcess ++ [Act.lwipPeriodicHandle, .timerProcess, .lwipPeriodicHandle]) := by
  refine (pollsRight_iff 1 fun pre k post e => ?_).mpr fun k post e => ?_
  · have hlen := congrArg List.length e
    simp at hlen
    omega
  · rw [← ticks_inj e]
    decide

/-- A run with one poll keeps any spacing. -/
theorem spaced_one (k : ℕ) : Spaced (List.replicate k Act.timerProcess ++ [Act.lwipPeriodicHandle]) := by
  intro pre k' post e
  have hcount := congrArg (List.count Act.lwipPeriodicHandle) e
  simp [List.count_append, List.count_replicate] at hcount
  omega

/-- The first poll comes 4 ms after the clock has wrapped. -/
theorem not_pollsRight : ¬ ∀ (q : UInt8) (acts : List Act), Spaced acts → PollsRight q acts := by
  intro h
  have hfirst : ∀ k : ℕ, 250 ≤ 5 * k → 250 ≤ 5 * k % 2 ^ 32 := fun k =>
    ((firstPoll_iff 1 (spaced_one k)).mp (h 1 _ (spaced_one k))).1
  have hwrap := hfirst 858993460 (by omega)
  omega

end Periodic
end Serial2Ethernet
