/-
# Two senders of one report buffer

`checkUartFsmc` sets `head.len` for every report it sends. `testUart` sends
the whole buffer with a report of 15 bytes, and takes `head.len` as it finds
it: the length of the whole message that `initProtocolLayer` set, until
`checkUartFsmc` has sent a report of fewer than 255 bytes.

A datagram of `testUart` is a consistent frame exactly when `head.len` is
still, or again, that of the whole message (`testUart_consistent_iff`).
-/
import Serial2Ethernet.User.Report

namespace Serial2Ethernet
namespace ProtocolLayer

open Lib UartFsmc

/-- The loop `report_ptr->data[i] = (u8)i`, `k` times from `i` on. -/
def fillData : (k i : ℕ) → ReportBuff → Except Fault ReportBuff
  | 0, _, buff => .ok buff
  | k + 1, i, buff =>
    match store buff (8 + i) (UInt8.ofNat i) with
    | .error e => .error e
    | .ok buff => fillData k (i + 1) buff

/-- Test uart. -/
def testUart (report : Option ReportBuff) : Except Fault (Option ReportBuff × List (List UInt8)) :=
  match report with
  | some buff => do
    let size : UInt8 := 15
    let buff ← store buff 6 7
    let buff ← store buff 7 size
    let buff ← fillData size.toNat 0 buff
    let cs ← sumBytes buff (devComUartReportSize + 2 - 2) 2 0
    let buff ← store buff (devComUartReportSize + 2) (0 - cs)
    let datagram ← bytesAt buff (devComUartReportSize + 3)
    return (some buff, [datagram])
  | none => .error .null

/-- A call of one of the senders. -/
inductive Send
  | checkUartFsmc (p : Poll)
  | testUart

/-- What a call does to `report_buff`; the datagrams are the outputs. -/
def send (report : Option ReportBuff) : Send → Except Fault (Option ReportBuff × List (List UInt8))
  | .checkUartFsmc p => poll report p
  | .testUart => testUart report

/-! ### Consistent datagrams -/

/-- `head.len` of a datagram. -/
def headLen (datagram : List UInt8) : ℕ := (u16At datagram 2).toNat

/-- `num` of a datagram. -/
def numOf (datagram : List UInt8) : ℕ := (u8At datagram 7).toNat

/-- The datagram has the size its `head.len` says, the bytes behind its header
sum to 0, and the data fits. -/
structure Consistent (datagram : List UInt8) : Prop where
  size : datagram.length = headLen datagram + 2
  sum : ((datagram.drop 2).take (headLen datagram)).sum = 0
  num : numOf datagram + 7 ≤ headLen datagram

theorem headLen_wire (f : Frame) : headLen f.wire = f.body.length := f.accepted.len_field

/-- A frame whose data fits is consistent. -/
theorem consistent_wire {f : Frame} (h : f.Fits) : Consistent f.wire where
  size := by
    rw [headLen_wire]
    rfl
  sum := by
    rw [headLen_wire]
    show (f.body.take f.body.length).sum = 0
    rw [List.take_length]
    exact f.accepted.sum_zero
  num := by
    rw [headLen_wire]
    exact h

theorem fits_report (hw : Device) (chl : UInt8) (tr : Trace) : (report hw chl tr).Fits := by
  have hblock := length_block hw chl tr
  show (pendingCount hw chl tr).toNat + 7 ≤ (report hw chl tr).body.length
  simp [report, reportFrame, length_reportHead, hblock]

/-! ### The test report -/

/-- The data of the test report: 0, 1, 2, .. -/
theorem fillData_prefix : ∀ (k i : ℕ) {pre : List UInt8} {buff : ReportBuff}, pre.length = 8 + i →
    8 + i + k ≤ 264 → pre <+: buff.toList → ∃ buff', fillData k i buff = .ok buff' ∧
      pre ++ (List.range' i k).map UInt8.ofNat <+: buff'.toList
  | 0, i, pre, buff, _, _, h => ⟨buff, rfl, by simpa using h⟩
  | k + 1, i, pre, buff, hpre, hk, h => by
    have hlt : pre.length < 264 := by omega
    obtain ⟨buff₁, h₁, hp₁⟩ := store_next h hlt (UInt8.ofNat i)
    obtain ⟨buff₂, h₂, hp₂⟩ := fillData_prefix k (i + 1) (by simp; omega) (by omega) hp₁
    refine ⟨buff₂, ?_, ?_⟩
    · rw [hpre] at h₁
      rw [fillData, h₁]
      exact h₂
    · rw [List.range'_succ, List.map_cons]
      rwa [List.append_assoc, List.singleton_append] at hp₂

/-- A buffer that begins with `pre` begins with `pre` and more. -/
theorem prefix_extend {n m : ℕ} {pre : List UInt8} {buff : Vector UInt8 n} (h : pre <+: buff.toList)
    (hm : pre.length + m ≤ n) : ∃ more, more.length = m ∧ pre ++ more <+: buff.toList := by
  obtain ⟨rest, hrest⟩ := h
  have hlen : pre.length + rest.length = n := by simpa using congrArg List.length hrest
  refine ⟨rest.take m, by rw [List.length_take]; omega, ?_⟩
  rw [← hrest]
  exact (List.prefix_append_right_inj pre).mpr (List.take_prefix m rest)

/-- The body of a test report without its checksum: `head.len` as it stands in
the buffer, and behind the data whatever reports have left. -/
def testBody (l₀ l₁ : UInt8) (rest : List UInt8) : List UInt8 :=
  [l₀, l₁, 0xB1, 0, 7, 15] ++ (List.range' 0 15).map UInt8.ofNat ++ rest

theorem length_testBody {l₀ l₁ : UInt8} {rest : List UInt8} (h : rest.length = 240) :
    (testBody l₀ l₁ rest).length = 261 := by
  simp [testBody, h]

/-- **One test.** Nothing outside the buffer is touched; the whole of it is sent. -/
theorem testUart_ok {buff : ReportBuff} (hB : Framed buff) :
    ∃ (l₀ l₁ : UInt8) (rest : List UInt8) (buff' : ReportBuff), rest.length = 240 ∧ Framed buff' ∧
      headLen buff.toList = (u16 l₀ l₁).toNat ∧ headLen buff'.toList = (u16 l₀ l₁).toNat ∧
      testUart (some buff) =
        .ok (some buff', [0xaa :: 0xaa :: (testBody l₀ l₁ rest ++ [0 - (testBody l₀ l₁ rest).sum])]) := by
  obtain ⟨l₀, l₁, chl, num, hp⟩ := hB
  have hlen : ∀ {b : ReportBuff} {xs : List UInt8}, 0xaa :: 0xaa :: l₀ :: l₁ :: xs <+: b.toList →
      headLen b.toList = (u16 l₀ l₁).toNat := by
    rintro b xs ⟨more, hmore⟩
    rw [← hmore]
    rfl
  obtain ⟨b₁, h₁, hp₁⟩ := store_inside hp (by decide : 6 < 8) 7
  obtain ⟨b₂, h₂, hp₂⟩ := store_inside hp₁ (by decide : 7 < 8) 15
  obtain ⟨b₃, h₃, hp₃⟩ := fillData_prefix 15 0 (by rfl) (by decide) hp₂
  obtain ⟨rest, hrest, hp₄⟩ := prefix_extend (m := 240) hp₃ (by show 23 + 240 ≤ 264; omega)
  change [0xaa, 0xaa] ++ testBody l₀ l₁ rest <+: _ at hp₄
  have hbody : (testBody l₀ l₁ rest).length = 261 := length_testBody hrest
  obtain ⟨hsum, b₅, h₅, h₆, hp₅⟩ := checksum_sent hp₄ (by omega)
  rw [hbody] at hsum h₅ h₆
  refine ⟨l₀, l₁, rest, b₅, hrest, ⟨l₀, l₁, 7, 15, List.IsPrefix.trans ⟨_, rfl⟩ hp₅⟩, hlen hp, hlen hp₅, ?_⟩
  change fillData (UInt8.toNat 15) 0 b₂ = _ at h₃
  change sumBytes b₃ (devComUartReportSize + 2 - 2) 2 0 = _ at hsum
  change store b₃ (devComUartReportSize + 2) _ = _ at h₅
  change bytesAt b₅ (devComUartReportSize + 3) = _ at h₆
  simp only [testUart, h₁, h₂, h₃, hsum, h₅, h₆, bind, Except.bind]
  rfl

/-- What `testUart` sends is consistent if and only if `head.len` is that of the whole message. -/
theorem testUart_consistent_iff {l₀ l₁ : UInt8} {rest : List UInt8} (h : rest.length = 240) :
    Consistent (0xaa :: 0xaa :: (testBody l₀ l₁ rest ++ [0 - (testBody l₀ l₁ rest).sum])) ↔
      (u16 l₀ l₁).toNat = devComUartReportSize + 1 := by
  have hlen : (testBody l₀ l₁ rest ++ [0 - (testBody l₀ l₁ rest).sum]).length = devComUartReportSize + 1 := by
    rw [List.length_append, length_testBody h]
    rfl
  constructor
  · intro hc
    have hsize := hc.size
    change _ = (u16 l₀ l₁).toNat + 2 at hsize
    rw [List.length_cons, List.length_cons, hlen] at hsize
    omega
  · intro hl
    refine ⟨?_, ?_, ?_⟩
    · show _ = (u16 l₀ l₁).toNat + 2
      rw [List.length_cons, List.length_cons, hlen, hl]
    · show (List.take (u16 l₀ l₁).toNat (testBody l₀ l₁ rest ++ [0 - (testBody l₀ l₁ rest).sum])).sum = 0
      rw [hl, List.take_of_length_le hlen.le, List.sum_append, List.sum_singleton]
      simp
    · show 15 + 7 ≤ (u16 l₀ l₁).toNat
      rw [hl]
      decide

/-! ### Any number of calls -/

/-- `head.len` after a call, from what it was before. -/
def lenAfter (len : ℕ) : Send → ℕ
  | .checkUartFsmc p =>
    if p.chl.toNat < uartFsmcNum ∧ 0 < pendingCount p.hw p.chl p.tr then
      (pendingCount p.hw p.chl p.tr).toNat + 7
    else len
  | .testUart => len

/-- If the call is `testUart`, `head.len` is that of the whole message. -/
def WholeLen (len : ℕ) (a : Send) : Prop := a = .testUart → len = devComUartReportSize + 1

/-- The buffer is framed, and holds `head.len`. -/
def Prepared (report : Option ReportBuff) (len : ℕ) : Prop :=
  ∃ buff, report = some buff ∧ Framed buff ∧ headLen buff.toList = len

theorem prepared_freshReport : Prepared (some freshReport) (devComUartReportSize + 1) := by
  refine ⟨freshReport, rfl, framed_freshReport, ?_⟩
  rw [freshReport, Vector.toList_ofFn]
  simp only [List.ofFn_succ]
  rfl

/-- One call: what is sent is consistent, except by a `testUart` that finds another length. -/
theorem Prepared.send {report : Option ReportBuff} {len : ℕ} (h : Prepared report len) (a : Send) :
    ∃ report' o, send report a = .ok (report', o) ∧ Prepared report' (lenAfter len a) ∧
      ((∀ datagram ∈ o, Consistent datagram) ↔ WholeLen len a) := by
  obtain ⟨buff, rfl, hB, rfl⟩ := h
  cases a with
  | checkUartFsmc p =>
    have hcond : WholeLen (headLen buff.toList) (.checkUartFsmc p) := fun h => by cases h
    by_cases hc : p.chl.toNat < uartFsmcNum
    · obtain ⟨buff', hB', hlen, hcheck⟩ := checkUartFsmc_ok p.hw hc hB p.tr
      by_cases h0 : 0 < pendingCount p.hw p.chl p.tr
      · rw [if_pos h0] at hlen hcheck
        refine ⟨some buff', [(report p.hw p.chl p.tr).wire], ?_, ⟨buff', rfl, hB', ?_⟩, ?_⟩
        · rw [ProtocolLayer.send, poll, hcheck]
          rfl
        · rw [lenAfter, if_pos ⟨hc, h0⟩, ← toNat_reportLen, ← hlen]
          rfl
        · simp [hcond, consistent_wire (fits_report p.hw p.chl p.tr)]
      · rw [if_neg h0] at hlen hcheck
        refine ⟨some buff', [], ?_, ⟨buff', rfl, hB', ?_⟩, by simp [hcond]⟩
        · rw [ProtocolLayer.send, poll, hcheck]
          rfl
        · rw [lenAfter, if_neg fun h => h0 h.2]
          exact congrArg UInt16.toNat hlen
    · refine ⟨some buff, [], ?_, ⟨buff, rfl, hB, ?_⟩, by simp [hcond]⟩
      · simp only [ProtocolLayer.send, poll, checkUartFsmc, if_neg hc]
        rfl
      · rw [lenAfter, if_neg fun h => hc h.1]
  | testUart =>
    obtain ⟨l₀, l₁, rest, buff', hrest, hB', hlen, hlen', hok⟩ := testUart_ok hB
    refine ⟨_, _, hok, ⟨buff', rfl, hB', hlen'.trans hlen.symm⟩, ?_⟩
    rw [List.forall_mem_singleton, testUart_consistent_iff hrest, ← hlen]
    simp [WholeLen]

/-- **The two senders.** After `initProtocolLayer` has got its buffer, no calls
touch anything outside it, and everything they send is consistent exactly if
every `testUart` comes while `head.len` is that of the whole message: before
the first report, or behind one of 255 bytes. -/
theorem sends_consistent_iff (sends : List Send) :
    ∃ report outs, run send (initProtocolLayer true powerOn).reportBuff sends = .ok (report, outs) ∧
      ((∀ datagram ∈ outs, Consistent datagram) ↔ Along lenAfter WholeLen (devComUartReportSize + 1) sends) :=
  outputs_iff_along Prepared Consistent WholeLen (fun _ _ a h => h.send a) sends prepared_freshReport

/-- Two bytes of channel 3 are reported, then the test is sent with the length of that report. -/
theorem not_sends_consistent : ∃ report outs,
    run send (initProtocolLayer true powerOn).reportBuff
      [.checkUartFsmc ⟨fun _ addr => if addr = 0x2307 then 2 else 0x41, [], 3⟩, .testUart] = .ok (report, outs) ∧
    ¬ ∀ datagram ∈ outs, Consistent datagram := by
  obtain ⟨report, outs, hrun, hseen⟩ := run_observed
    (fun r : Option ReportBuff × List (List UInt8) => r.2.map fun d => (d.length, headLen d))
    (x := [(11, 9), (264, 9)])
    (by decide +kernel : (run send (initProtocolLayer true powerOn).reportBuff
      [.checkUartFsmc ⟨fun _ addr => if addr = 0x2307 then 2 else 0x41, [], 3⟩, .testUart]).toOption.map _ = _)
  refine ⟨report, outs, hrun, fun hall => ?_⟩
  have hmem : ((264, 9) : ℕ × ℕ) ∈ outs.map fun d => (d.length, headLen d) := by
    rw [hseen]
    decide
  obtain ⟨d, hd, hpair⟩ := List.mem_map.mp hmem
  obtain ⟨hlen, hhead⟩ := Prod.mk.inj hpair
  have hsize := (hall d hd).size
  rw [hlen, hhead] at hsize
  cases hsize

end ProtocolLayer
end Serial2Ethernet
