/-
# The bridge: from the UARTs to the network

Each of the sixteen receivers is a FIFO. A read of the receive count gives
the number of unread bytes, 255 at most; a read of the receive register takes
the oldest byte; bytes arrive on any channel before any effect on the board.

`bridge` follows a run of `checkUartFsmc` calls: on every channel, the data of
the reports sent for it, followed by what is still unread, is what arrived.
-/
import Serial2Ethernet.Lib.Fifo
import Serial2Ethernet.User.Report

namespace Serial2Ethernet
namespace ProtocolLayer

open UartFsmc

def rxRegister (chl : ℕ) : ℕ := uart1Base + baseInterval * chl + 4

def countRegister (chl : ℕ) : ℕ := uart1Base + baseInterval * chl + 7

/-- The bytes that arrive before the effect of a number, with their channels. -/
abbrev Arrivals := ℕ → List (Fin 16 × UInt8)

/-- Those for one channel. -/
def Arrivals.on (arr : Arrivals) (chl : Fin 16) (n : ℕ) : List UInt8 :=
  ((arr n).filter fun a => a.1 = chl).map Prod.snd

/-- The effect takes a byte from the channel. -/
def Takes (chl : Fin 16) (e : Effect) : Prop := e = .readFSMC (rxRegister chl)

instance (chl : Fin 16) : DecidablePred (Takes chl) := fun e =>
  inferInstanceAs (Decidable (e = .readFSMC (rxRegister chl)))

/-- The unread bytes of a channel. -/
def unread (arr : Arrivals) (chl : Fin 16) (tr : Trace) : List UInt8 :=
  Lib.fifo (arr.on chl) (Takes chl) tr

/-- A board with sixteen FIFOs. -/
structure Fifos (arr : Arrivals) where
  hw : Device
  count : ∀ (tr : Trace) (chl : Fin 16),
    hw tr (countRegister chl) = UInt8.ofNat (min 255 (unread arr chl tr).length)
  oldest : ∀ (tr : Trace) (chl : Fin 16) (b : UInt8) (rest : List UInt8),
    unread arr chl tr = b :: rest → hw tr (rxRegister chl) = b

/-- The channel with this register at the address. -/
def channelAt (register : ℕ → ℕ) (addr : ℕ) : Option (Fin 16) :=
  (List.finRange 16).find? fun c : Fin 16 => addr = register c.val

theorem channelAt_rx : ∀ chl : Fin 16, channelAt rxRegister (rxRegister chl) = some chl := by decide

theorem channelAt_count : ∀ chl : Fin 16, channelAt rxRegister (countRegister chl) = none ∧
    channelAt countRegister (countRegister chl) = some chl := by decide

/-- There are such boards, whatever they answer elsewhere and for an empty FIFO. -/
def fifos (arr : Arrivals) (other : Device) : Fifos arr where
  hw tr addr :=
    match channelAt rxRegister addr with
    | some chl => (unread arr chl tr).headD (other tr addr)
    | none =>
      match channelAt countRegister addr with
      | some chl => UInt8.ofNat (min 255 (unread arr chl tr).length)
      | none => other tr addr
  count tr chl := by simp only [channelAt_count chl]
  oldest tr chl b rest h := by simp only [channelAt_rx chl, h, List.headD_cons]

/-- One call, on what is left by the one before. -/
def serve (hw : Device) (s : Option ReportBuff × Trace) (chl : UInt8) :
    Except Fault ((Option ReportBuff × Trace) × List (List UInt8)) :=
  (checkUartFsmc hw chl s.1 s.2).map fun r => ((r.report, r.tr), r.datagrams)

/-- The data of the reports of a channel. -/
def reported (chl : Fin 16) (datagrams : List (List UInt8)) : List UInt8 :=
  datagrams.flatMap fun datagram =>
    let msg := comDevUartData (datagram.drop 2)
    if msg.uartChl.toNat = chl then msg.data.take msg.num.toNat else []

theorem reported_append (chl : Fin 16) (ds es : List (List UInt8)) :
    reported chl (ds ++ es) = reported chl ds ++ reported chl es := List.flatMap_append

/-- A report counts for its channel, with its data. -/
theorem reported_report (hw : Device) (c : UInt8) (tr : Trace) (chl : Fin 16) :
    reported chl [(report hw c tr).wire] = if c.toNat = chl then block hw c tr else [] := by
  have hbody : (report hw c tr).body.take (report hw c tr).body.length = (report hw c tr).body :=
    List.take_length
  obtain ⟨hchl, hnum, hdata⟩ := comDevUartData_report c (pendingCount hw c tr) (length_block hw c tr) hbody
  show (if (comDevUartData (report hw c tr).body).uartChl.toNat = chl then
    (comDevUartData (report hw c tr).body).data.take (comDevUartData (report hw c tr).body).num.toNat
    else []) ++ [] = _
  rw [hchl, hnum, hdata, List.append_nil]

/-! ### The effects of a call on a channel -/

section Channel

variable {arr : Arrivals} (u : Fifos arr) {taken : List UInt8}

/-- What has been taken from a channel, and what is unread, are what has arrived on it. -/
abbrev Accounts (arr : Arrivals) (chl : Fin 16) (taken : List UInt8) (tr : Trace) : Prop :=
  Lib.Accounts (arr.on chl) (Takes chl) taken tr

theorem not_takes_count (c chl : Fin 16) : ¬ Takes chl (.readFSMC (countRegister c)) := by
  revert c chl
  decide

theorem not_takes_other {c chl : Fin 16} (h : c ≠ chl) : ¬ Takes chl (.readFSMC (rxRegister c)) := by
  revert c chl
  decide

/-- Reads of the receive register take what they give. -/
theorem accounts_received (chl : UInt8) (c : Fin 16) (hc : chl.toNat = c) (k : ℕ) {tr : Trace}
    (h : Accounts arr c taken tr) (hk : k ≤ (unread arr c tr).length) :
    Accounts arr c (taken ++ received u.hw chl k tr)
      (tr ++ List.replicate k (.readFSMC (addrBase chl + 4))) := by
  have haddr : addrBase chl + 4 = rxRegister c := by rw [addrBase, hc]; rfl
  have hT : Takes c (.readFSMC (addrBase chl + 4)) := by rw [haddr]; rfl
  induction k generalizing tr taken with
  | zero => simpa [received] using h
  | succ k ih =>
    cases hun : unread arr c tr with
    | nil => simp [hun] at hk
    | cons b rest =>
      have hb : (readFSMC u.hw (addrBase chl + 4) tr).1 = b := by
        rw [haddr]
        exact u.oldest tr c b rest hun
      have hlen := Lib.length_fifo_take hT hun
      rw [hun, List.length_cons] at hk
      have hrest := ih (h.take hT hun) (by rw [unread]; omega)
      rw [received, hb]
      simpa [readFSMC, List.replicate_succ] using hrest

/-- A channel gives as many bytes as its count said. -/
theorem accounts_block (chl : UInt8) (c : Fin 16) (hc : chl.toNat = c) {tr : Trace}
    (h : Accounts arr c taken tr) :
    Accounts arr c (taken ++ block u.hw chl tr) (receiveTrace u.hw chl tr) := by
  have haddr : addrBase chl + 7 = countRegister c := by rw [addrBase, hc]; rfl
  have hnt : ¬ Takes c (.readFSMC (addrBase chl + 7)) := haddr ▸ not_takes_count c c
  have hcount : (pendingCount u.hw chl tr).toNat = min 255 (unread arr c tr).length := by
    show (u.hw tr (addrBase chl + 7)).toNat = _
    rw [haddr, u.count, UInt8.toNat_ofNat']
    omega
  have hle : (unread arr c tr).length ≤ (unread arr c (tr ++ [.readFSMC (addrBase chl + 7)])).length :=
    Lib.length_fifo_pass hnt
  have := accounts_received u chl c hc (pendingCount u.hw chl tr).toNat (h.pass hnt)
    (by rw [hcount]; exact (min_le_right _ _).trans hle)
  simpa [receiveTrace, block, readFSMC] using this

/-- The other channels are left alone. -/
theorem accounts_other (chl : UInt8) (c c' : Fin 16) (hc : chl.toNat = c) (hne : c ≠ c') {tr : Trace}
    (h : Accounts arr c' taken tr) : Accounts arr c' taken (receiveTrace u.hw chl tr) := by
  refine h.passes _ ?_
  have h7 : addrBase chl + 7 = countRegister c := by rw [addrBase, hc]; rfl
  have h4 : addrBase chl + 4 = rxRegister c := by rw [addrBase, hc]; rfl
  rintro e he
  rcases List.mem_cons.mp he with rfl | he
  · rw [h7]
    exact not_takes_count c c'
  · rw [List.eq_of_mem_replicate he, h4]
    exact not_takes_other hne

/-- One call, seen from any channel. -/
theorem accounts_receiveTrace (chl : UInt8) (hc : chl.toNat < uartFsmcNum) (c : Fin 16) {tr : Trace}
    (h : Accounts arr c taken tr) :
    Accounts arr c (taken ++ if chl.toNat = c then block u.hw chl tr else [])
      (receiveTrace u.hw chl tr) := by
  by_cases he : chl.toNat = c
  · rw [if_pos he]
    exact accounts_block u chl c he h
  · rw [if_neg he, List.append_nil]
    exact accounts_other u chl ⟨chl.toNat, hc⟩ c rfl (fun e => he (congrArg Fin.val e)) h

end Channel

/-! ### Any calls -/

/-- There is a buffer, and every channel's reports and unread bytes are what arrived. -/
structure Bridged (arr : Arrivals) (s : Option ReportBuff × Trace) (datagrams : List (List UInt8)) :
    Prop where
  ready : Ready s.1
  isSome : s.1.isSome = true
  accounts : ∀ chl : Fin 16, Accounts arr chl (reported chl datagrams) s.2

theorem bridged_init (arr : Arrivals) :
    Bridged arr ((initProtocolLayer true powerOn).reportBuff, []) [] :=
  ⟨ready_init true, rfl, fun _ => Lib.accounts_nil _ _⟩

theorem Bridged.serve {arr : Arrivals} (u : Fifos arr) {s : Option ReportBuff × Trace}
    {datagrams : List (List UInt8)} (h : Bridged arr s datagrams) (chl : UInt8) :
    ∃ s' out, serve u.hw s chl = .ok (s', out) ∧ Bridged arr s' (datagrams ++ out) := by
  obtain ⟨report, tr⟩ := s
  obtain ⟨buff, rfl⟩ := Option.isSome_iff_exists.mp h.isSome
  by_cases hc : chl.toNat < uartFsmcNum
  · obtain ⟨buff', hB, -, hcheck⟩ := checkUartFsmc_ok u.hw hc (h.ready buff rfl) tr
    have hready : Ready (some buff') := fun b hb => Option.some.inj hb ▸ hB
    have hacc := fun c => accounts_receiveTrace u chl hc c (h.accounts c)
    by_cases h0 : 0 < pendingCount u.hw chl tr
    · rw [if_pos h0] at hcheck
      refine ⟨_, _, by rw [ProtocolLayer.serve, hcheck]; rfl, hready, rfl, fun c => ?_⟩
      rw [reported_append, reported_report]
      exact (hacc c).pass (by simp [Takes])
    · rw [if_neg h0] at hcheck
      refine ⟨_, _, by rw [ProtocolLayer.serve, hcheck]; rfl, hready, rfl, fun c => ?_⟩
      have hnil : block u.hw chl tr = [] := by
        rw [← List.length_eq_zero_iff, length_block]
        simpa [UInt8.lt_iff_toNat_lt] using h0
      have := hacc c
      rw [hnil, ite_self] at this
      rwa [reported_append]
  · refine ⟨(some buff, tr), [], ?_, h.ready, rfl, fun c => ?_⟩
    · simp only [ProtocolLayer.serve, checkUartFsmc, if_neg hc]
      rfl
    · rw [List.append_nil]
      exact h.accounts c

/-- **Nothing is lost, duplicated or misattributed.** Whatever arrives and
whenever, and whichever channels are asked in whatever order: on each channel
the data of its reports and then the unread bytes are what has arrived. -/
theorem bridge {arr : Arrivals} (u : Fifos arr) (chls : List UInt8) :
    ∃ report tr datagrams,
      Lib.run (serve u.hw) ((initProtocolLayer true powerOn).reportBuff, []) chls =
        .ok ((report, tr), datagrams) ∧
      ∀ chl : Fin 16, reported chl datagrams ++ unread arr chl tr =
        Lib.arrived (arr.on chl) tr.length := by
  have hserve : ∀ (s : Option ReportBuff × Trace) (chl : UInt8) (_ : List UInt8),
      (∃ outs, Bridged arr s outs) →
        ∃ s' out, serve u.hw s chl = .ok (s', out) ∧ ∃ outs, Bridged arr s' outs := by
    rintro s chl - ⟨outs, h⟩
    obtain ⟨s', out, hok, h'⟩ := h.serve u chl
    exact ⟨s', out, hok, _, h'⟩
  obtain ⟨s, datagrams, hrun, -⟩ := Lib.run_total (fun s _ => ∃ outs, Bridged arr s outs) hserve chls _
    ⟨_, bridged_init arr⟩
  refine ⟨s.1, s.2, datagrams, hrun, ?_⟩
  refine (Lib.run_history (fun s _ outs => Bridged arr s outs) _ (bridged_init arr) ?_ chls hrun).accounts
  intro s hist chl s' o o' _ h hstep
  obtain ⟨s₁, out, hok, h'⟩ := h.serve u chl
  rw [hok] at hstep
  simp only [Except.ok.injEq, Prod.mk.injEq] at hstep
  rw [← hstep.1, ← hstep.2]
  exact h'

end ProtocolLayer
end Serial2Ethernet
