/-
# Reports: what a channel has received, on its way to the network

`checkUartFsmc` reads what a channel has pending into `report_buff`, completes
the message around it and hands it to `sendUdpDatagram`. The buffer is
allocated once; the header bytes and the code stay in it from call to call,
everything else is written again or lies behind the checksum.

`report_round_trip` says that what is sent is a frame, for which the
receiver's own state machine gives back the channel and the data.
-/
import Serial2Ethernet.User.Framing

namespace Serial2Ethernet
namespace ProtocolLayer

open UartFsmc

/-- `report_buff`: a `DEV_COM_UART_REPORT` behind two header bytes, and the checksum. -/
abbrev ReportBuff := Vector UInt8 (devComUartReportSize + 3)

/-- What `checkUartFsmc` returns, and what it leaves. -/
structure Checked where
  size : UInt8
  report : Option ReportBuff
  /-- What `sendUdpDatagram` is given. -/
  datagrams : List (List UInt8)
  tr : Trace

/-- `head.len` of a report of `size` bytes. -/
def reportLen (size : UInt8) : UInt16 :=
  UInt16.ofNat (devComUartReportSize + 1 - (maxUartDataSize - size.toNat))

/-- Check uart. The fields of `report_ptr` are at their offsets behind the
two header bytes. -/
def checkUartFsmc (hw : Device) (chl : UInt8) (report : Option ReportBuff) (tr : Trace) :
    Except Fault Checked :=
  match report with
  | some buff =>
    if chl.toNat < uartFsmcNum then do
      let buff ← store buff 6 chl
      let (size, buff, tr) ← receiveDataUartFsmc hw chl buff 8 255 tr
      if 0 < size then
        let buff ← store buff 7 size
        let buff ← store16 buff 2 (reportLen size)
        let len := (reportLen size).toNat
        let cs ← sumBytes buff (len + 2 - 1 - 2) 2 0
        let buff ← store buff (len + 2 - 1) (0 - cs)
        let datagram ← bytesAt buff (len + 2)
        return ⟨size, some buff, [datagram], openLED 2 tr⟩
      else return ⟨size, some buff, [], tr⟩
    else return ⟨0, some buff, [], tr⟩
  | none => return ⟨0, none, [], tr⟩

/-! ### The frame that is sent -/

/-- The body of a report without its checksum. -/
def reportHead (chl size : UInt8) (data : List UInt8) : List UInt8 :=
  (reportLen size).toUInt8 :: (reportLen size >>> 8).toUInt8 :: 0xB1 :: 0 :: chl :: size :: data

section Frame

variable (chl size : UInt8) {data : List UInt8} (h : data.length = size.toNat)

theorem toNat_reportLen : (reportLen size).toNat = size.toNat + 7 := by
  have hlt := size.toNat_lt
  simp only [reportLen, devComUartReportSize, messageHeadSize, maxUartDataSize, UInt16.toNat_ofNat']
  omega

theorem length_reportHead (data : List UInt8) : (reportHead chl size data).length = data.length + 6 := rfl

/-- A halfword is put together again from its bytes. -/
theorem u16_bytes (v : UInt16) : Lib.u16 v.toUInt8 (v >>> 8).toUInt8 = v := by
  apply UInt16.toNat_inj.mp
  have hv := v.toNat_lt
  rw [Lib.toNat_u16]
  simp only [UInt16.toNat_toUInt8, UInt16.toNat_shiftRight, UInt16.reduceToNat, Nat.reduceMod,
    Nat.shiftRight_eq_div_pow, Nat.reducePow]
  omega

/-- A report is a frame. -/
def reportFrame : Frame where
  body := reportHead chl size data ++ [0 - (reportHead chl size data).sum]
  accepted := by
    have hlt := size.toNat_lt
    refine ⟨?_, ?_, ?_, ?_⟩
    · simp [length_reportHead]
    · simp [length_reportHead, h]
      omega
    · have hfield : u16At (reportHead chl size data ++ [0 - (reportHead chl size data).sum]) 0 =
          reportLen size := u16_bytes _
      rw [hfield, toNat_reportLen]
      simp [length_reportHead, h]
    · simp
  five_le := by simp [length_reportHead]

/-- Whatever buffer begins with the report decodes to its channel, count and data. -/
theorem comDevUartData_report {ptr : List UInt8}
    (hptr : ptr.take (reportFrame chl size h).body.length = (reportFrame chl size h).body) :
    (comDevUartData ptr).uartChl = chl ∧ (comDevUartData ptr).num = size ∧
      (comDevUartData ptr).data.take size.toNat = data := by
  have hlt := size.toNat_lt
  have hlen : (reportFrame chl size h).body.length = size.toNat + 7 := by
    simp [reportFrame, length_reportHead, h]
  refine ⟨(u8At_body hptr (by omega)).trans rfl, (u8At_body hptr (by omega)).trans rfl, ?_⟩
  rw [hlen] at hptr
  show ((ptr.drop 6).take maxUartDataSize).take size.toNat = data
  rw [List.take_take, min_eq_left (by unfold maxUartDataSize; omega)]
  calc (ptr.drop 6).take size.toNat
      = ((ptr.take (size.toNat + 7)).drop 6).take size.toNat := by
        rw [List.drop_take, List.take_take, min_eq_left (by omega)]
    _ = (data ++ [0 - (reportHead chl size data).sum]).take size.toNat := by rw [hptr]; rfl
    _ = data := List.take_left' h

end Frame

/-! ### One call -/

/-- The bytes of `report_buff` that no call changes are as they were made. -/
def Framed (buff : ReportBuff) : Prop :=
  ∃ l₀ l₁ chl num : UInt8, [0xaa, 0xaa, l₀, l₁, 0xB1, 0, chl, num] <+: buff.toList

theorem framed_freshReport : Framed freshReport := by
  refine ⟨0x06, 0x01, 0, 0, ?_⟩
  rw [freshReport, Vector.toList_ofFn]
  simp only [List.ofFn_succ]
  exact List.prefix_append _ _

/-- Behind a body in the buffer its checksum is stored, and what is sent ends with it. -/
theorem checksum_sent {buff : ReportBuff} {body : List UInt8} (h : [0xaa, 0xaa] ++ body <+: buff.toList)
    (hfits : body.length + 2 < 264) :
    sumBytes buff body.length 2 0 = .ok body.sum ∧ ∃ buff',
      store buff (body.length + 2) (0 - body.sum) = .ok buff' ∧
      bytesAt buff' (body.length + 3) = .ok (0xaa :: 0xaa :: (body ++ [0 - body.sum])) ∧
      0xaa :: 0xaa :: (body ++ [0 - body.sum]) <+: buff'.toList := by
  have hsum := sumBytes_prefix body.length _ _ 0 h rfl
  rw [UInt8.zero_add] at hsum
  have hlen : ([0xaa, 0xaa] ++ body).length = body.length + 2 := rfl
  obtain ⟨buff', hstore, hp⟩ := store_next h (hlen ▸ hfits) (0 - body.sum)
  have hsent := bytesAt_prefix hp
  rw [hlen] at hstore
  rw [List.length_append, hlen, List.length_singleton] at hsent
  exact ⟨hsum, buff', hstore, hsent, hp⟩

/-- The report of what a channel gives, if it gives anything. -/
def report (hw : Device) (chl : UInt8) (tr : Trace) : Frame :=
  reportFrame chl (pendingCount hw chl tr) (length_block hw chl tr)

/-- **One call.** Nothing outside the buffers is touched. If the channel has
something pending, what is sent is its report, and `head.len` is that of the report. -/
theorem checkUartFsmc_ok (hw : Device) {chl : UInt8} (hc : chl.toNat < uartFsmcNum) {buff : ReportBuff}
    (hB : Framed buff) (tr : Trace) :
    ∃ buff', Framed buff' ∧
      u16At buff'.toList 2 =
        (if 0 < pendingCount hw chl tr then reportLen (pendingCount hw chl tr) else u16At buff.toList 2) ∧
      checkUartFsmc hw chl (some buff) tr =
        .ok (if 0 < pendingCount hw chl tr then
            ⟨pendingCount hw chl tr, some buff', [(report hw chl tr).wire], openLED 2 (receiveTrace hw chl tr)⟩
          else ⟨pendingCount hw chl tr, some buff', [], receiveTrace hw chl tr⟩) := by
  obtain ⟨l₀, l₁, c, n, hp⟩ := hB
  have hlt := (pendingCount hw chl tr).toNat_lt
  have hblock := length_block hw chl tr
  obtain ⟨b₁, h₁, hp₁⟩ := store_inside hp (by decide : 6 < 8) chl
  obtain ⟨b₂, h₂, hp₂⟩ := receiveDataUartFsmc_prefix hw hc hp₁ (by show 263 ≤ 264; omega) tr
  change receiveDataUartFsmc hw chl b₁ 8 255 tr = _ at h₂
  by_cases h0 : 0 < pendingCount hw chl tr
  · obtain ⟨b₃, h₃, hp₃⟩ := store_inside hp₂ (by simp : 7 < _) (pendingCount hw chl tr)
    obtain ⟨b₄, h₄, hp₄⟩ := store16_inside hp₃ (by simp : 2 + 1 < _) (reportLen (pendingCount hw chl tr))
    change [0xaa, 0xaa] ++ reportHead chl (pendingCount hw chl tr) (block hw chl tr) <+: _ at hp₄
    have hhead : (reportHead chl (pendingCount hw chl tr) (block hw chl tr)).length =
        (pendingCount hw chl tr).toNat + 6 := by rw [length_reportHead, hblock]
    obtain ⟨hsum, b₅, h₅, h₆, hp₅⟩ := checksum_sent hp₄ (by omega)
    rw [hhead] at hsum h₅ h₆
    have hlen : u16At b₅.toList 2 = reportLen (pendingCount hw chl tr) := by
      obtain ⟨rest, hrest⟩ := hp₅
      rw [← hrest]
      exact u16_bytes _
    refine ⟨b₅, ⟨_, _, _, _, List.IsPrefix.trans ⟨_, rfl⟩ hp₅⟩, by rw [if_pos h0, hlen], ?_⟩
    have hi : (pendingCount hw chl tr).toNat + 7 + 2 - 1 = (pendingCount hw chl tr).toNat + 8 := rfl
    have hk : (pendingCount hw chl tr).toNat + 8 - 2 = (pendingCount hw chl tr).toNat + 6 := rfl
    simp only [checkUartFsmc, hc, h0, if_true, h₁, h₂, h₃, h₄,
      toNat_reportLen, hk, hi, hsum, h₅, h₆, bind, Except.bind]
    rfl
  · have hlen : u16At b₂.toList 2 = u16At buff.toList 2 := by
      obtain ⟨rest, hrest⟩ := hp
      obtain ⟨rest₂, hrest₂⟩ := hp₂
      rw [← hrest, ← hrest₂]
      rfl
    refine ⟨b₂, ⟨_, _, _, _, List.IsPrefix.trans ⟨_, rfl⟩ hp₂⟩, by rw [if_neg h0, hlen], ?_⟩
    simp only [checkUartFsmc, hc, h0, if_true, if_false, h₁, h₂, bind, Except.bind]
    rfl

/-! ### Any number of calls -/

/-- A call: the board as it is then, and the channel. -/
structure Poll where
  hw : Device
  tr : Trace
  chl : UInt8

/-- What a call does to `report_buff`; the datagrams are the outputs. -/
def poll (report : Option ReportBuff) (p : Poll) : Except Fault (Option ReportBuff × List (List UInt8)) :=
  (checkUartFsmc p.hw p.chl report p.tr).map fun r => (r.report, r.datagrams)

/-- The buffer, if there is one, is framed. -/
def Ready (report : Option ReportBuff) : Prop := ∀ buff, report = some buff → Framed buff

theorem ready_init (alloc : Bool) : Ready (initProtocolLayer alloc powerOn).reportBuff := by
  intro buff hbuff
  cases alloc with
  | false => cases hbuff
  | true =>
    obtain rfl := Option.some.inj hbuff
    exact framed_freshReport

theorem poll_ready {report : Option ReportBuff} (h : Ready report) (p : Poll) :
    ∃ report' out, poll report p = .ok (report', out) ∧ Ready report' ∧ report'.isSome = report.isSome := by
  cases report with
  | none => exact ⟨none, [], rfl, h, rfl⟩
  | some buff =>
    by_cases hc : p.chl.toNat < uartFsmcNum
    · obtain ⟨buff', hB, -, hcheck⟩ := checkUartFsmc_ok p.hw hc (h buff rfl) p.tr
      have hready : Ready (some buff') := fun b hb => Option.some.inj hb ▸ hB
      unfold poll
      rw [hcheck]
      split
      · exact ⟨_, _, rfl, hready, rfl⟩
      · exact ⟨_, _, rfl, hready, rfl⟩
    · refine ⟨some buff, [], ?_, h, rfl⟩
      simp only [poll, checkUartFsmc, if_neg hc]
      rfl

theorem run_poll (alloc : Bool) (polls : List Poll) :
    ∃ report outs, Lib.run poll (initProtocolLayer alloc powerOn).reportBuff polls = .ok (report, outs) ∧
      Ready report ∧ report.isSome = alloc := by
  refine Lib.run_total (fun report _ => Ready report ∧ report.isSome = alloc) ?_ polls _
    ⟨ready_init alloc, by cases alloc <;> rfl⟩
  rintro report p - ⟨hr, hs⟩
  obtain ⟨report', out, h, hr', hs'⟩ := poll_ready hr p
  exact ⟨report', out, h, hr', hs'.trans hs⟩

/-- The receiver's own state machine gives back what a datagram reports. -/
def ReadsBack (datagram : List UInt8) (chl size : UInt8) (data : List UInt8) : Prop :=
  ∀ d : Decoder, d.step = .waitHead1 → ∃ d' ptr, receiving d datagram = .ok (d', [ptr]) ∧
    (comDevUartData ptr).uartChl = chl ∧ (comDevUartData ptr).num = size ∧
    (comDevUartData ptr).data.take size.toNat = data

/-- **Round trip.** After any calls since `initProtocolLayer`, a call for a
channel below 16 touches nothing outside `report_buff`; with a buffer it
receives what the channel has pending, and if that is anything, it sends one
frame of code 0xB1, which reads back as the channel, the count and the data. -/
theorem report_round_trip (alloc : Bool) (polls : List Poll) :
    ∃ report outs, Lib.run poll (initProtocolLayer alloc powerOn).reportBuff polls = .ok (report, outs) ∧
      ∀ (hw : Device) (chl : UInt8) (tr : Trace), chl.toNat < uartFsmcNum →
        ∃ r, checkUartFsmc hw chl report tr = .ok r ∧ (alloc = true → r.size = pendingCount hw chl tr) ∧
          (0 < r.size → ∃ f : Frame, r.datagrams = [f.wire] ∧ f.code = 0xB1 ∧
            ReadsBack f.wire chl r.size (block hw chl tr)) := by
  obtain ⟨report, outs, hrun, hready, hsome⟩ := run_poll alloc polls
  refine ⟨report, outs, hrun, fun hw chl tr hc => ?_⟩
  cases report with
  | none =>
    refine ⟨_, rfl, fun h => ?_, fun h0 => absurd h0 (UInt8.lt_irrefl 0)⟩
    rw [h] at hsome
    cases hsome
  | some buff =>
    obtain ⟨buff', -, -, hcheck⟩ := checkUartFsmc_ok hw hc (hready buff rfl) tr
    by_cases h0 : 0 < pendingCount hw chl tr
    · rw [if_pos h0] at hcheck
      refine ⟨_, hcheck, fun _ => rfl, fun _ => ⟨report hw chl tr, rfl, rfl, fun d hs => ?_⟩⟩
      obtain ⟨d', ptr, hr, -, hptr⟩ := (report hw chl tr).receiving hs
      exact ⟨d', ptr, hr, comDevUartData_report chl _ (length_block hw chl tr) hptr⟩
    · rw [if_neg h0] at hcheck
      exact ⟨_, hcheck, fun _ => rfl, fun h => absurd h h0⟩

/-- Two bytes on channel 3, after five on channel 4. -/
theorem report_round_trip_two : ∃ report outs r,
    Lib.run poll (initProtocolLayer true powerOn).reportBuff
        [⟨fun _ addr => if addr = 0x2407 then 5 else 0x42, [], 4⟩] = .ok (report, outs) ∧
      checkUartFsmc (fun _ addr => if addr = 0x2307 then 2 else 0x41) 3 report [] = .ok r ∧
      ∃ f : Frame, r.datagrams = [f.wire] ∧ f.code = 0xB1 ∧ ReadsBack f.wire 3 2 [0x41, 0x41] := by
  obtain ⟨report, outs, hrun, hcall⟩ := report_round_trip true
    [⟨fun _ addr => if addr = 0x2407 then 5 else 0x42, [], 4⟩]
  obtain ⟨r, hr, hsize, hone⟩ := hcall (fun _ addr => if addr = 0x2307 then 2 else 0x41) 3 [] (by decide)
  have h2 : r.size = 2 := hsize rfl
  rw [h2] at hone
  exact ⟨report, outs, r, hrun, hr, hone (by decide)⟩

end ProtocolLayer
end Serial2Ethernet
