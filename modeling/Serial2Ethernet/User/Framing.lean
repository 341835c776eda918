/-
# Frames, and what the decoder holds of the one it is reading

A frame is 0xAA 0xAA and a body of `L` bytes that begins with `L` and sums to
0 (`Frame`). Between two returns to `waitHead1` the decoder has read the
beginning of a frame, and its globals say which: `Tracks d pending` relates
them to the bytes read since. One byte either extends what is pending or
brings the decoder back to `waitHead1` (`Tracks.step`), and then
`handleProtocol` has been called only if what was pending is a frame.

Length 0 is the exception the code does not see: `udp_len - 1` is the largest
unsigned number, the frame never ends, and at the end of the buffer the write
faults.
-/
import Serial2Ethernet.Lib.Segments
import Serial2Ethernet.User.ProtocolLayer

namespace Serial2Ethernet
namespace ProtocolLayer

/-- What follows the two header bytes of a frame the decoder accepts: at
least four bytes, fewer than 1024, as many as the length field says, with sum 0. -/
structure Accepted (body : List UInt8) : Prop where
  four_le : 4 ≤ body.length
  lt : body.length < 1024
  len_field : (u16At body 0).toNat = body.length
  sum_zero : body.sum = 0

instance (body : List UInt8) : Decidable (Accepted body) :=
  decidable_of_iff (4 ≤ body.length ∧ body.length < 1024 ∧ (u16At body 0).toNat = body.length ∧ body.sum = 0)
    ⟨fun ⟨h4, hlt, hl, h0⟩ => ⟨h4, hlt, hl, h0⟩, fun ⟨h4, hlt, hl, h0⟩ => ⟨h4, hlt, hl, h0⟩⟩

/-- A well-formed frame: an accepted body of at least five bytes. -/
structure Frame where
  body : List UInt8
  accepted : Accepted body
  five_le : 5 ≤ body.length

namespace Frame

/-- The bytes of a frame on the wire. -/
def wire (f : Frame) : List UInt8 := 0xaa :: 0xaa :: f.body

def code (f : Frame) : UInt16 := u16At f.body 2
def uartChl (f : Frame) : UInt8 := u8At f.body 4
def num (f : Frame) : UInt8 := u8At f.body 5

/-- The first `num` bytes of the data field. -/
def data (f : Frame) : List UInt8 := (f.body.drop 6).take f.num.toNat

/-- The `num` bytes fit before the checksum. -/
def Fits (f : Frame) : Prop := f.num.toNat + 7 ≤ f.body.length

instance (f : Frame) : Decidable f.Fits := inferInstanceAs (Decidable (_ ≤ _))

end Frame

/-- The first `index_buff` bytes of `udp_buff` are `body`. -/
def Holds (d : Decoder) (body : List UInt8) : Prop :=
  body.length = d.indexBuff.toNat ∧ d.udpBuff.toList.take body.length = body

/-- What the step says about the body read so far. -/
def InStep (d : Decoder) (body : List UInt8) : Prop :=
  match d.step with
  | .waitHead1 => False
  | .waitHead2 => False
  | .len1 => body = []
  | .len2 => body.length = 1 ∧ d.udpLen = (u8At body 0).toUInt16
  | .content => d.udpLen = u16At body 0 ∧ d.udpLen.toNat < 1024 ∧ 2 ≤ body.length ∧
      (d.udpLen.toNat = 0 ∨ d.udpLen.toNat ≤ 3 ∧ body.length = 2 ∨ body.length + 1 < d.udpLen.toNat)
  | .cs => d.udpLen = u16At body 0 ∧ d.udpLen.toNat < 1024 ∧ 4 ≤ d.udpLen.toNat ∧
      body.length + 1 = d.udpLen.toNat

/-- The bytes read since the decoder was last in `waitHead1`. -/
def Tracks (d : Decoder) (pending : List UInt8) : Prop :=
  (d.step = .waitHead1 ∧ pending = []) ∨ (d.step = .waitHead2 ∧ pending = [0xaa]) ∨
    ∃ body, pending = 0xaa :: 0xaa :: body ∧ Holds d body ∧ InStep d body

/-- The decoder is inside a frame of announced length 0. -/
def InZero (d : Decoder) : Prop := d.step = .content ∧ d.udpLen.toNat = 0

theorem tracks_init (alloc : Bool) (g : Globals) : Tracks (initProtocolLayer alloc g).dec [] :=
  Or.inl ⟨rfl, rfl⟩

section Holds

variable {d : Decoder} {body : List UInt8}

theorem Holds.length_le (h : Holds d body) : body.length ≤ 1024 := by
  have := congrArg List.length h.2
  simp only [List.length_take, Vector.length_toList] at this
  omega

/-- Writing the next byte extends the body held. -/
theorem Holds.put (h : Holds d body) (hlt : body.length < 1024) (ch : UInt8) :
    ∃ buff, d.put ch = .ok { d with udpBuff := buff } ∧
      buff.toList.take (body.length + 1) = body ++ [ch] ∧
      (d.indexBuff + 1).toNat = body.length + 1 := by
  have hi : d.indexBuff.toNat < 1024 := h.1 ▸ hlt
  refine ⟨_, d.put_ok ch hi, ?_, ?_⟩
  · have hs : body.length < (d.udpBuff.toList.set body.length ch).length := by simpa using hlt
    rw [Vector.toList_set, ← h.1, List.take_add_one, List.getElem?_eq_getElem hs]
    simp [List.take_set, h.2, List.set_eq_of_length_le]
  · rw [UInt32.toNat_add]
    have := h.1
    simp only [UInt32.reduceToNat]
    omega

end Holds

theorem u16At_append {body : List UInt8} {i : ℕ} (ch : UInt8) (h : i + 1 < body.length) :
    u16At (body ++ [ch]) i = u16At body i := by
  exact u16At_body (List.take_left' rfl) h

/-- The length as the two bytes give it. -/
theorem udpLen_eq (lo hi : UInt8) : lo.toUInt16 + (hi.toUInt16 <<< 8) = Lib.u16 lo hi := by
  apply UInt16.toNat_inj.mp
  have h₀ := lo.toNat_lt
  have h₁ := hi.toNat_lt
  rw [Lib.toNat_u16, UInt16.toNat_add, UInt16.toNat_shiftLeft]
  simp only [UInt8.toNat_toUInt16, UInt16.reduceToNat, Nat.shiftLeft_eq, Nat.reduceMod,
    Nat.reducePow]
  omega

/-! ### One byte, by the step of the decoder -/

section Steps

variable {d : Decoder} {body : List UInt8} (ch : UInt8)

theorem step_waitHead1 (hs : d.step = .waitHead1) : unpackByte d ch =
    .ok ({ d with step := if ch = 0xaa then .waitHead2 else .waitHead1 }, []) := by
  obtain ⟨b, s, len, idx⟩ := d
  obtain rfl : s = .waitHead1 := hs
  simp only [unpackByte]
  split <;> rfl

theorem step_waitHead2 (hs : d.step = .waitHead2) : unpackByte d ch =
    if ch = 0xaa then .ok ({ d with step := .len1, indexBuff := 0 }, [])
    else .ok ({ d with step := .waitHead1 }, []) := by
  unfold unpackByte
  rw [hs]

theorem step_len1 (hs : d.step = .len1) (hH : Holds d []) :
    ∃ d', unpackByte d ch = .ok (d', []) ∧ d'.step = .len2 ∧ Holds d' [ch] ∧
      d'.udpLen = ch.toUInt16 := by
  obtain ⟨b, s, len, idx⟩ := d
  obtain rfl : s = .len1 := hs
  obtain ⟨buff, hput, htake, hidx⟩ := Holds.put (d := ⟨b, .len1, ch.toUInt16, idx⟩) hH (by simp) ch
  simp only [unpackByte, hput]
  exact ⟨_, rfl, rfl, ⟨hidx.symm, htake⟩, rfl⟩

theorem step_len2 (hs : d.step = .len2) (hH : Holds d body) (hl : body.length = 1)
    (hu : d.udpLen = (u8At body 0).toUInt16) :
    ∃ d', unpackByte d ch = .ok (d', []) ∧ Holds d' (body ++ [ch]) ∧
      d'.udpLen = u16At (body ++ [ch]) 0 ∧
      d'.step = if d'.udpLen.toNat < 1024 then .content else .waitHead1 := by
  obtain ⟨lo, rfl⟩ := List.length_eq_one_iff.mp hl
  obtain ⟨b, s, len, idx⟩ := d
  obtain rfl : s = .len2 := hs
  obtain rfl : len = lo.toUInt16 := hu
  obtain ⟨buff, hput, htake, hidx⟩ := Holds.put
    (d := ⟨b, .len2, lo.toUInt16 + (ch.toUInt16 <<< 8), idx⟩) hH (by simp) ch
  simp only [unpackByte, hput]
  refine ⟨_, rfl, ⟨?_, ?_⟩, ?_, ?_⟩
  · simpa using hidx.symm
  · simpa using htake
  · exact udpLen_eq lo ch
  · simp [UInt16.lt_iff_toNat_lt]

/-- A content byte below the limit is stored. -/
theorem step_content (hs : d.step = .content) (hH : Holds d body) (hb : body.length < 1024)
    (hlim : body.length < d.limit.toNat) :
    ∃ d', unpackByte d ch = .ok (d', []) ∧ Holds d' (body ++ [ch]) ∧ d'.udpLen = d.udpLen ∧
      d'.step = if body.length + 1 = d.limit.toNat then .cs else .content := by
  obtain ⟨buff, hput, htake, hidx⟩ := hH.put hb ch
  have hlt : d.indexBuff < d.limit := by rwa [UInt32.lt_iff_toNat_lt, ← hH.1]
  obtain ⟨b, s, len, idx⟩ := d
  obtain rfl : s = .content := hs
  simp only [unpackByte, hlt, if_true, hput]
  refine ⟨_, rfl, ⟨?_, ?_⟩, rfl, ?_⟩
  · simpa using hidx.symm
  · simpa using htake
  · exact if_congr (by rw [← UInt32.toNat_inj, hidx]; rfl) rfl rfl

/-- At the limit the decoder gives up. -/
theorem step_content_exit (hs : d.step = .content) (hH : Holds d body)
    (hlim : d.limit.toNat ≤ body.length) :
    unpackByte d ch = .ok ({ d with step := .waitHead1 }, []) := by
  have hge : ¬ d.indexBuff < d.limit := by
    rw [UInt32.lt_iff_toNat_lt, ← hH.1]
    omega
  unfold unpackByte
  rw [hs]
  simp only [hge, if_false]

/-- Past the end of the buffer the write faults. -/
theorem step_content_fault (hs : d.step = .content) (hH : Holds d body) (hb : body.length = 1024)
    (hlim : 1024 < d.limit.toNat) : unpackByte d ch = .error (.write 1024) := by
  have hi : d.indexBuff.toNat = 1024 := by rw [← hH.1, hb]
  have hlt : d.indexBuff < d.limit := by rwa [UInt32.lt_iff_toNat_lt, hi]
  unfold unpackByte
  rw [hs]
  simp only [hlt, if_true, d.put_error ch hi.ge, hi]

/-- The checksum byte completes the body; a body with sum 0 is handled. -/
theorem step_cs (hs : d.step = .cs) (hH : Holds d body) (hl : body.length + 1 = d.udpLen.toNat)
    (hb : d.udpLen.toNat ≤ 1024) :
    ∃ d' ptr, receiveByte d ch = .ok (d', if (body ++ [ch]).sum = 0 then [ptr] else []) ∧
      d'.step = .waitHead1 ∧ ptr.take (body.length + 1) = body ++ [ch] := by
  obtain ⟨buff, hput, htake, -⟩ := hH.put (by omega) ch
  have hsum := Decoder.sumLoop_eq buff d.udpLen.toNat 0 0 (by omega)
  rw [List.drop_zero, ← hl, htake, UInt8.zero_add, hl] at hsum
  obtain ⟨b, s, len, idx⟩ := d
  obtain rfl : s = .cs := hs
  simp only [receiveByte, hput, hsum]
  exact ⟨_, buff.toList, rfl, rfl, htake⟩

end Steps

/-! ### What is done with a frame -/

section Handle

variable {body ptr : List UInt8}

theorem messageHead_code (h : Accepted body) (hptr : ptr.take body.length = body) :
    (messageHead ptr).code = u16At body 2 := by
  have h4 := h.four_le
  exact u16At_body hptr (by omega)

theorem messageHead_len (h : Accepted body) (hptr : ptr.take body.length = body) :
    (messageHead ptr).len.toNat = body.length := by
  have h4 := h.four_le
  rw [← h.len_field]
  exact congrArg UInt16.toNat (u16At_body hptr (by omega))

/-- In a buffer that begins with a frame, the count is the frame's if the
frame has one; if it is shorter, no count fits. -/
theorem fits_iff (f : Frame) (hptr : ptr.take f.body.length = f.body) :
    (comDevUartData ptr).num.toNat + 2 + messageHeadSize + 1 ≤
      (comDevUartData ptr).head.len.toNat ↔ f.Fits := by
  show _ + 2 + 4 + 1 ≤ (messageHead ptr).len.toNat ↔ _
  rw [messageHead_len f.accepted hptr, Frame.Fits]
  by_cases h7 : 7 ≤ f.body.length
  · have hnum : (comDevUartData ptr).num = f.num := u8At_body hptr (by omega)
    rw [hnum]
  · omega

/-- **What a frame makes `handleProtocol` do.** The bytes after `num` in the
buffer are the frame's as far as they are sent. -/
theorem handleProtocol_frame (f : Frame) (hptr : ptr.take f.body.length = f.body) :
    ∃ bytes, (f.Fits → bytes.take f.num.toNat = f.data) ∧ handleProtocol ptr =
      if f.code = 0xA1 then
        if f.Fits then [.sendDataUartFsmc f.uartChl bytes f.num, .openLED 3] else []
      else if f.code = 0xA2 then [.resetUartFsmc] else [] := by
  have hfits := fits_iff f hptr
  refine ⟨(comDevUartData ptr).data, fun hF => ?_, ?_⟩
  · have hlt := f.num.toNat_lt
    unfold Frame.Fits at hF
    show ((ptr.drop 6).take maxUartDataSize).take _ = _
    rw [List.take_take, min_eq_left (by unfold maxUartDataSize; omega), Frame.data]
    conv_rhs => rw [← hptr, List.drop_take, List.take_take, min_eq_left (by omega)]
  · unfold handleProtocol sendUart
    simp only [messageHead_code f.accepted hptr, hfits]
    show (if f.code = 0xA1 then _ else if f.code = 0xA2 then _ else _) = _
    by_cases hF : f.Fits
    · have hF' := hF
      unfold Frame.Fits at hF'
      have hnum : (comDevUartData ptr).num = f.num := u8At_body hptr (by omega)
      have hchl : (comDevUartData ptr).uartChl = f.uartChl := u8At_body hptr (by omega)
      rw [if_pos hF, if_pos hF, hnum, hchl]
    · rw [if_neg hF, if_neg hF]

end Handle

/-! ### One byte, from any reachable state -/

/-- What the receiver does with the bytes it has read since `waitHead1`: it
goes on (`none`), or it is done with them and gives `handleProtocol` the body,
or nothing. -/
def verdict : List UInt8 → Option (List (List UInt8))
  | [] => none
  | [a] => if a = 0xaa then none else some []
  | a :: b :: body =>
    if a ≠ 0xaa ∨ b ≠ 0xaa then some []
    else if body.length < 2 then none
    else if 1024 ≤ (u16At body 0).toNat then some []
    else if (u16At body 0).toNat = 0 ∨ body.length = 2 ∨ body.length < (u16At body 0).toNat then none
    else if Accepted body then some [body]
    else some []

/-- The buffers given to `handleProtocol` begin with these bodies. -/
def Given : List (List UInt8) → List (List UInt8) → Prop :=
  List.Forall₂ fun ptr body => ptr.take body.length = body

section Verdict

variable {body : List UInt8}

theorem verdict_short (h : body.length < 2) : verdict (0xaa :: 0xaa :: body) = none := by
  simp [verdict, h]

theorem verdict_long (h2 : 2 ≤ body.length) (hl : 1024 ≤ (u16At body 0).toNat) :
    verdict (0xaa :: 0xaa :: body) = some [] := by
  simp [verdict, Nat.not_lt.mpr h2, hl]

theorem verdict_more (h2 : 2 ≤ body.length) (hl : (u16At body 0).toNat < 1024)
    (h : (u16At body 0).toNat = 0 ∨ body.length = 2 ∨ body.length < (u16At body 0).toNat) :
    verdict (0xaa :: 0xaa :: body) = none := by
  simp [verdict, Nat.not_lt.mpr h2, Nat.not_le.mpr hl, h]

theorem verdict_done (h2 : 2 < body.length) (hl : (u16At body 0).toNat < 1024)
    (h0 : (u16At body 0).toNat ≠ 0) (h : (u16At body 0).toNat ≤ body.length) :
    verdict (0xaa :: 0xaa :: body) = some (if Accepted body then [body] else []) := by
  have hmore : ¬ ((u16At body 0).toNat = 0 ∨ body.length = 2 ∨ body.length < (u16At body 0).toNat) := by
    omega
  simp only [verdict, Nat.not_lt.mpr h2.le, Nat.not_le.mpr hl, hmore, if_false, ne_eq, not_true_eq_false,
    or_self]
  split <;> rfl

/-- What is given away is an accepted body, the whole of what was read. -/
theorem verdict_mem {bytes : List UInt8} {out : List (List UInt8)} (h : verdict bytes = some out) :
    out = [] ∨ ∃ body, bytes = 0xaa :: 0xaa :: body ∧ Accepted body ∧ out = [body] := by
  match bytes, h with
  | [], h => cases h
  | [a], h =>
    rw [verdict] at h
    split at h
    · cases h
    · exact Or.inl (Option.some.inj h).symm
  | a :: b :: body, h =>
    by_cases hab : a ≠ 0xaa ∨ b ≠ 0xaa
    · rw [verdict, if_pos hab] at h
      exact Or.inl (Option.some.inj h).symm
    · obtain ⟨rfl, rfl⟩ : a = 0xaa ∧ b = 0xaa := by simpa using hab
      by_cases hacc : Accepted body
      · have h4 := hacc.four_le
        have hl := hacc.len_field
        have hlt := hacc.lt
        rw [verdict_done (by omega) (by omega) (by omega) (by omega), if_pos hacc] at h
        exact Or.inr ⟨body, rfl, hacc, (Option.some.inj h).symm⟩
      · rw [verdict, if_neg hab, if_neg hacc] at h
        split_ifs at h
        · exact Or.inl (Option.some.inj h).symm
        · exact Or.inl (Option.some.inj h).symm

end Verdict

/-- A turn that is not the last of a frame gives nothing away. -/
theorem receiveByte_of_unpackByte {d d' : Decoder} {ch : UInt8} (hs : d.step ≠ .cs)
    (h : unpackByte d ch = .ok (d', [])) : receiveByte d ch = .ok (d', []) := by
  obtain ⟨b, s, len, idx⟩ := d
  cases s with
  | cs => exact absurd rfl hs
  | _ => simp only [receiveByte, h, Except.map]

section Receive

variable {d d' : Decoder} {pending : List UInt8} {ch : UInt8}

/-- One byte does to the receiver what `verdict` says. -/
def Receives (d : Decoder) (pending : List UInt8) (ch : UInt8) : Prop :=
  ∃ d' ptrs, receiveByte d ch = .ok (d', ptrs) ∧ Tracks d' (Lib.feed verdict pending ch).1 ∧
    Given ptrs (Lib.feed verdict pending ch).2

theorem receives_none (hr : receiveByte d ch = .ok (d', [])) (hv : verdict (pending ++ [ch]) = none)
    (hT : Tracks d' (pending ++ [ch])) : Receives d pending ch := by
  refine ⟨d', [], hr, ?_⟩
  rw [Lib.feed_none hv]
  exact ⟨hT, List.Forall₂.nil⟩

theorem receives_some {ptrs out : List (List UInt8)} (hr : receiveByte d ch = .ok (d', ptrs))
    (hv : verdict (pending ++ [ch]) = some out) (hs : d'.step = .waitHead1) (hg : Given ptrs out) :
    Receives d pending ch := by
  refine ⟨d', ptrs, hr, ?_⟩
  rw [Lib.feed_some hv]
  exact ⟨Or.inl ⟨hs, rfl⟩, hg⟩

/-- The two length bytes. -/
theorem receives_len {body : List UInt8} (hs : d.step = .len2) (hH : Holds d body)
    (hl : body.length = 1) (hu : d.udpLen = (u8At body 0).toUInt16) :
    Receives d (0xaa :: 0xaa :: body) ch := by
  obtain ⟨d', h', hH', hu', hs'⟩ := step_len2 ch hs hH hl hu
  have hr := receiveByte_of_unpackByte (by simp [hs]) h'
  have h2 : (body ++ [ch]).length = 2 := by simp [hl]
  by_cases hlt : d'.udpLen.toNat < 1024
  · rw [if_pos hlt] at hs'
    refine receives_none hr (verdict_more h2.ge (hu' ▸ hlt) (Or.inr (Or.inl h2))) ?_
    refine Or.inr (Or.inr ⟨body ++ [ch], rfl, hH', ?_⟩)
    simp only [InStep, hs']
    exact ⟨hu', hlt, by omega, by omega⟩
  · rw [if_neg hlt] at hs'
    exact receives_some hr (verdict_long h2.ge (hu' ▸ Nat.not_lt.mp hlt)) hs' List.Forall₂.nil

/-- A byte of the content; a length below 4 ends the frame without one. -/
theorem receives_content {body : List UInt8} (hs : d.step = .content) (hH : Holds d body)
    (hI : InStep d body) (hz : ¬ (InZero d ∧ d.indexBuff.toNat = 1024)) :
    Receives d (0xaa :: 0xaa :: body) ch := by
  simp only [InStep, hs] at hI
  obtain ⟨hu, hlt, h2, hcase⟩ := hI
  have hlim := d.limit_cases
  have hle := hH.length_le
  have hlen : (body ++ [ch]).length = body.length + 1 := by simp
  have hu' : d.udpLen = u16At (body ++ [ch]) 0 := by rw [hu, u16At_append ch (by omega)]
  by_cases hmore : body.length < d.limit.toNat
  · have hb : body.length < 1024 := by
      rcases Nat.lt_or_ge body.length 1024 with h | h
      · exact h
      · exact absurd ⟨⟨hs, by omega⟩, by rw [← hH.1]; omega⟩ hz
    obtain ⟨d', h', hH', hd', hs'⟩ := step_content ch hs hH hb hmore
    have hr := receiveByte_of_unpackByte (by simp [hs]) h'
    have hv : verdict (0xaa :: 0xaa :: (body ++ [ch])) = none :=
      verdict_more (by omega) (by rw [← hu']; omega) (by rw [← hu']; omega)
    refine receives_none hr hv ?_
    refine Or.inr (Or.inr ⟨body ++ [ch], rfl, hH', ?_⟩)
    by_cases hend : body.length + 1 = d.limit.toNat
    · rw [if_pos hend] at hs'
      simp only [InStep, hs', hd']
      exact ⟨hu', hlt, by omega, by omega⟩
    · rw [if_neg hend] at hs'
      simp only [InStep, hs', hd']
      exact ⟨hu', hlt, by omega, by omega⟩
  · have hr := receiveByte_of_unpackByte (by simp [hs]) (step_content_exit ch hs hH (by omega))
    have hshort : ¬ Accepted (body ++ [ch]) := by
      intro hacc
      have h4 := hacc.four_le
      have hl := hacc.len_field
      rw [← hu'] at hl
      omega
    have hv : verdict (0xaa :: 0xaa :: (body ++ [ch])) = _ :=
      verdict_done (by omega) (by rw [← hu']; omega) (by rw [← hu']; omega) (by rw [← hu']; omega)
    rw [if_neg hshort] at hv
    exact receives_some hr hv rfl List.Forall₂.nil

/-- The checksum byte. -/
theorem receives_cs {body : List UInt8} (hs : d.step = .cs) (hH : Holds d body) (hI : InStep d body) :
    Receives d (0xaa :: 0xaa :: body) ch := by
  simp only [InStep, hs] at hI
  obtain ⟨hu, hlt, h4, hl⟩ := hI
  obtain ⟨d', ptr, hr, hs', htake⟩ := step_cs ch hs hH hl (by omega)
  have hlen : (body ++ [ch]).length = body.length + 1 := by simp
  have hu' : d.udpLen = u16At (body ++ [ch]) 0 := by rw [hu, u16At_append ch (by omega)]
  have hv : verdict (0xaa :: 0xaa :: (body ++ [ch])) = _ :=
    verdict_done (by omega) (by rw [← hu']; omega) (by rw [← hu']; omega) (by rw [← hu']; omega)
  refine receives_some hr hv hs' ?_
  by_cases h0 : (body ++ [ch]).sum = 0
  · have hacc : Accepted (body ++ [ch]) := ⟨by omega, by omega, by rw [← hu']; omega, h0⟩
    rw [if_pos h0, if_pos hacc]
    exact List.Forall₂.cons (by rw [hlen]; exact htake) List.Forall₂.nil
  · rw [if_neg h0, if_neg fun hacc => h0 hacc.sum_zero]
    exact List.Forall₂.nil

end Receive

/-- **One byte, from any reachable state.** What is pending and what is given
to `handleProtocol` are as `verdict` says, unless the decoder is inside a
frame of length 0 and at the end of the buffer. -/
theorem Tracks.receives {d : Decoder} {pending : List UInt8} (h : Tracks d pending) (ch : UInt8)
    (hz : ¬ (InZero d ∧ d.indexBuff.toNat = 1024)) : Receives d pending ch := by
  rcases h with ⟨hs, rfl⟩ | ⟨hs, rfl⟩ | ⟨body, rfl, hH, hI⟩
  · have hr := receiveByte_of_unpackByte (by simp [hs]) (step_waitHead1 ch hs)
    by_cases hc : ch = 0xaa
    · exact receives_none hr (by simp [verdict, hc]) (Or.inr (Or.inl ⟨by simp [hc], by simp [hc]⟩))
    · exact receives_some hr (by simp [verdict, hc]) (by simp [hc]) List.Forall₂.nil
  · by_cases hc : ch = 0xaa
    · have hr := receiveByte_of_unpackByte (by simp [hs]) ((step_waitHead2 ch hs).trans (if_pos hc))
      refine receives_none hr (by simp [verdict, hc]) ?_
      exact Or.inr (Or.inr ⟨[], by simp [hc], ⟨rfl, by simp⟩, rfl⟩)
    · have hr := receiveByte_of_unpackByte (by simp [hs]) ((step_waitHead2 ch hs).trans (if_neg hc))
      exact receives_some hr (by simp [verdict, hc]) rfl List.Forall₂.nil
  · cases hs : d.step with
    | waitHead1 => simp [InStep, hs] at hI
    | waitHead2 => simp [InStep, hs] at hI
    | len1 =>
      simp only [InStep, hs] at hI
      obtain rfl := hI
      obtain ⟨d', h', hs', hH', hu'⟩ := step_len1 ch hs hH
      refine receives_none (receiveByte_of_unpackByte (by simp [hs]) h') (verdict_short (by simp)) ?_
      exact Or.inr (Or.inr ⟨[ch], rfl, hH', by simp [InStep, hs', hu', u8At]⟩)
    | len2 =>
      simp only [InStep, hs] at hI
      exact receives_len hs hH hI.1 hI.2
    | content => exact receives_content hs hH hI hz
    | cs => exact receives_cs hs hH hI

theorem Tracks.length_le {d : Decoder} {pending : List UInt8} (h : Tracks d pending) :
    pending.length ≤ 1026 := by
  rcases h with ⟨_, rfl⟩ | ⟨_, rfl⟩ | ⟨body, rfl, hH, _⟩
  · simp
  · simp
  · have := hH.length_le
    simp only [List.length_cons]
    omega

theorem Tracks.step_nil {d : Decoder} (h : Tracks d []) : d.step = .waitHead1 := by
  rcases h with ⟨hs, _⟩ | ⟨_, h⟩ | ⟨body, h, _⟩
  · exact hs
  · cases h
  · cases h

/-- The receiver goes on with what is pending. -/
theorem Tracks.goes_on {d : Decoder} {pending : List UInt8} (h : Tracks d pending) :
    verdict pending = none := by
  rcases h with ⟨_, rfl⟩ | ⟨_, rfl⟩ | ⟨body, rfl, _, hI⟩
  · rfl
  · rfl
  · cases hs : d.step with
    | waitHead1 => simp [InStep, hs] at hI
    | waitHead2 => simp [InStep, hs] at hI
    | len1 =>
      simp only [InStep, hs] at hI
      exact verdict_short (by simp [hI])
    | len2 =>
      simp only [InStep, hs] at hI
      exact verdict_short (by omega)
    | content =>
      simp only [InStep, hs] at hI
      obtain ⟨hu, hlt, h2, hcase⟩ := hI
      exact verdict_more h2 (hu ▸ hlt) (hu ▸ by omega)
    | cs =>
      simp only [InStep, hs] at hI
      obtain ⟨hu, hlt, h4, hl⟩ := hI
      exact verdict_more (by omega) (hu ▸ hlt) (hu ▸ by omega)

/-- A decoder that can fault has the whole buffer pending. -/
theorem Tracks.length_full {d : Decoder} {pending : List UInt8} (h : Tracks d pending)
    (hz : InZero d ∧ d.indexBuff.toNat = 1024) : pending.length = 1026 := by
  rcases h with ⟨hs, _⟩ | ⟨hs, _⟩ | ⟨body, rfl, hH, _⟩
  · simp [hz.1.1] at hs
  · simp [hz.1.1] at hs
  · simp [hH.1, hz.2]

/-- What ends at a return to `waitHead1`: if anything was called, then for
the accepted body that the pending bytes are. -/
def Ends (seg : List UInt8) (calls : List Call) : Prop :=
  calls = [] ∨ ∃ body ptr, seg = 0xaa :: 0xaa :: body ∧ Accepted body ∧
    ptr.take body.length = body ∧ calls = handleProtocol ptr

/-- The byte extends what is pending, or it ends it. -/
theorem Tracks.step {d : Decoder} {pending : List UInt8} (h : Tracks d pending) (ch : UInt8)
    (hz : ¬ (InZero d ∧ d.indexBuff.toNat = 1024)) :
    ∃ d' calls, unpackByte d ch = .ok (d', calls) ∧
      (Tracks d' (pending ++ [ch]) ∧ calls = [] ∨
        Tracks d' [] ∧ Ends (pending ++ [ch]) calls) := by
  obtain ⟨d', ptrs, hr, hT, hg⟩ := h.receives ch hz
  refine ⟨d', ptrs.flatMap handleProtocol, by rw [unpackByte_eq, hr]; rfl, ?_⟩
  cases hv : verdict (pending ++ [ch]) with
  | none =>
    rw [Lib.feed_none hv] at hT hg
    rw [List.forall₂_nil_right_iff.mp hg]
    exact Or.inl ⟨hT, rfl⟩
  | some out =>
    rw [Lib.feed_some hv] at hT hg
    refine Or.inr ⟨hT, ?_⟩
    rcases verdict_mem hv with rfl | ⟨body, hseg, hacc, rfl⟩
    · rw [List.forall₂_nil_right_iff.mp hg]
      exact Or.inl rfl
    · obtain ⟨ptr, _, hptr, hnil, rfl⟩ := List.forall₂_cons_right_iff.mp hg
      rw [List.forall₂_nil_right_iff.mp hnil]
      exact Or.inr ⟨body, ptr, hseg, hacc, hptr, by simp⟩

/-! ### Any number of bytes -/

section Runs

variable {d d' : Decoder} {pending : List UInt8}

theorem Tracks.receive_ok {ch : UInt8} {ptrs : List (List UInt8)} (h : Tracks d pending)
    (hok : receiveByte d ch = .ok (d', ptrs)) :
    Tracks d' (Lib.feed verdict pending ch).1 ∧ Given ptrs (Lib.feed verdict pending ch).2 := by
  by_cases hz : InZero d ∧ d.indexBuff.toNat = 1024
  · have hfull := h.length_full hz
    rcases h with ⟨_, rfl⟩ | ⟨_, rfl⟩ | ⟨body, rfl, hH, _⟩
    · simp at hfull
    · simp at hfull
    · have hlim := d.limit_cases
      have hu := hz.1.2
      have hfault := step_content_fault ch hz.1.1 hH (by simpa using hfull) (by omega)
      rw [unpackByte_eq, hok] at hfault
      cases hfault
  · obtain ⟨d₁, ptrs₁, hr, hT, hg⟩ := h.receives ch hz
    rw [hok] at hr
    simp only [Except.ok.injEq, Prod.mk.injEq] at hr
    rw [hr.1, hr.2]
    exact ⟨hT, hg⟩

/-- **The receiver cuts the stream as `verdict` says.** -/
theorem Tracks.run_receiving : ∀ {bytes : List UInt8} {d d' : Decoder} {pending : List UInt8}
    {ptrs : List (List UInt8)}, Tracks d pending → receiving d bytes = .ok (d', ptrs) →
    Tracks d' (Lib.feeds verdict pending bytes).1 ∧ Given ptrs (Lib.feeds verdict pending bytes).2
  | [], d, d', pending, ptrs, h, hok => by
    simp only [receiving, Lib.run, Except.ok.injEq, Prod.mk.injEq] at hok
    obtain ⟨rfl, rfl⟩ := hok
    exact ⟨h, List.Forall₂.nil⟩
  | ch :: bytes, d, d', pending, ptrs, h, hok => by
    obtain ⟨d₁, o₁, o₂, h₁, h₂, rfl⟩ := Lib.run_cons_ok.mp hok
    obtain ⟨hT₁, hg₁⟩ := h.receive_ok h₁
    obtain ⟨hT₂, hg₂⟩ := hT₁.run_receiving h₂
    rw [Lib.feeds]
    exact ⟨hT₂, List.rel_append hg₁ hg₂⟩

/-- Nothing faults before more than 1026 bytes are pending. -/
theorem Tracks.run_total : ∀ (bytes : List UInt8) {d : Decoder} {pending : List UInt8},
    Tracks d pending → pending.length + bytes.length ≤ 1026 → ∃ r, receiving d bytes = .ok r
  | [], d, _, _, _ => ⟨(d, []), rfl⟩
  | ch :: bytes, d, pending, h, hlen => by
    rw [List.length_cons] at hlen
    have hz : ¬ (InZero d ∧ d.indexBuff.toNat = 1024) := by
      intro hz
      have := h.length_full hz
      omega
    obtain ⟨d₁, o₁, h₁, hT₁, -⟩ := h.receives ch hz
    have hle := Lib.length_feed_le verdict pending ch
    obtain ⟨⟨d₂, o₂⟩, h₂⟩ := hT₁.run_total bytes (by omega)
    exact ⟨(d₂, o₁ ++ o₂), Lib.run_cons_ok.mpr ⟨d₁, o₁, o₂, h₁, h₂, rfl⟩⟩

end Runs

/-! ### A frame is read -/

namespace Frame

variable (f : Frame)

theorem length_wire_le : f.wire.length ≤ 1025 := by
  have := f.accepted.lt
  simp only [wire, List.length_cons]
  omega

/-- Before its last byte the receiver goes on. -/
theorem verdict_prefix {w r : List UInt8} (h : f.wire = w ++ r) (hr : r ≠ []) : verdict w = none := by
  match w, h with
  | [], _ => rfl
  | [a], h =>
    simp only [wire, List.cons_append, List.cons.injEq] at h
    simp [verdict, ← h.1]
  | a :: b :: body, h =>
    simp only [wire, List.cons_append, List.cons.injEq] at h
    obtain ⟨rfl, rfl, hbody⟩ := h
    have hlen := congrArg List.length hbody
    have hr' := List.length_pos_of_ne_nil hr
    rw [List.length_append] at hlen
    by_cases h2 : body.length < 2
    · exact verdict_short h2
    · have hu : u16At f.body 0 = u16At body 0 := by
        rw [hbody]
        exact u16At_body (List.take_left' rfl) (by omega)
      have hl := f.accepted.len_field
      have hlt := f.accepted.lt
      rw [hu] at hl
      exact verdict_more (by omega) (by omega) (by omega)

theorem verdict_wire : verdict f.wire = some [f.body] := by
  have h5 := f.five_le
  have hl := f.accepted.len_field
  have hlt := f.accepted.lt
  rw [wire, verdict_done (by omega) (by omega) (by omega) (by omega), if_pos f.accepted]

/-- The rest of a frame whose beginning is pending. -/
theorem feeds_rest {pending w : List UInt8} (h : pending ++ w = f.wire) (hw : w ≠ []) :
    Lib.feeds verdict pending w = ([], [f.body]) := by
  obtain ⟨init, last, rfl⟩ : ∃ init last, w = init ++ [last] :=
    ⟨_, _, (List.dropLast_append_getLast hw).symm⟩
  refine Lib.feeds_segment ?_ (by rw [h, f.verdict_wire])
  intro v r e hv
  refine f.verdict_prefix (r := r ++ [last]) ?_ (by simp)
  rw [← h, e]
  simp

/-- From `waitHead1` the receiver reads a frame and is in `waitHead1` again. -/
theorem receiving {d : Decoder} (hs : d.step = .waitHead1) :
    ∃ d' ptr, ProtocolLayer.receiving d f.wire = .ok (d', [ptr]) ∧ d'.step = .waitHead1 ∧
      ptr.take f.body.length = f.body := by
  have hT : Tracks d [] := Or.inl ⟨hs, rfl⟩
  have hlen := f.length_wire_le
  obtain ⟨⟨d', ptrs⟩, hr⟩ := hT.run_total f.wire (by rw [List.length_nil]; omega)
  obtain ⟨hT', hg⟩ := hT.run_receiving hr
  rw [f.feeds_rest (List.nil_append _) (List.cons_ne_nil _ _)] at hT' hg
  obtain ⟨ptr, _, hptr, hnil, rfl⟩ := List.forall₂_cons_right_iff.mp hg
  obtain rfl := List.forall₂_nil_right_iff.mp hnil
  exact ⟨d', ptr, hr, hT'.step_nil, hptr⟩

end Frame

end ProtocolLayer
end Serial2Ethernet
