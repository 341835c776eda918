/-
# What the decoder does with arbitrary bytes

For every stream and every way of cutting it into `onRecvData` calls after
`initProtocolLayer`:

* `session_in_bounds_iff`: every write stays in `udp_buff` exactly when no
  accepted header of length 0 is followed by 1023 bytes or more;
* `session_sound`: when no accepted header announces length 0, every call of
  `sendDataUartFsmc` and `resetUartFsmc` belongs to a frame of the stream,
  distinct calls to disjoint frames, and what is sent lies inside the frame.

Both are read off `Tracks.step`, one byte at a time.
-/
import Serial2Ethernet.User.Framing

namespace Serial2Ethernet
namespace ProtocolLayer

/-- The decoder is about to accept a header of length 0: the second length
byte comes, the first was 0, and so is this one. -/
def AcceptsZero (d : Decoder) (ch : UInt8) : Prop := d.step = .len2 ∧ d.udpLen = 0 ∧ ch = 0

instance (d : Decoder) (ch : UInt8) : Decidable (AcceptsZero d ch) :=
  inferInstanceAs (Decidable (_ ∧ _ ∧ _))

/-- No access of the session leaves `udp_buff`. -/
def InBounds (d : Decoder) (chunks : List (List UInt8)) : Prop := ∃ r, session d chunks = .ok r

/-! ### Reachable states -/

theorem Tracks.step_ok {d d' : Decoder} {pending : List UInt8} {ch : UInt8} {calls : List Call}
    (h : Tracks d pending) (hok : unpackByte d ch = .ok (d', calls)) :
    Tracks d' (pending ++ [ch]) ∧ calls = [] ∨ Tracks d' [] ∧ Ends (pending ++ [ch]) calls := by
  by_cases hz : InZero d ∧ d.indexBuff.toNat = 1024
  · obtain ⟨⟨hs, hu⟩, hi⟩ := hz
    rcases h with ⟨hs', _⟩ | ⟨hs', _⟩ | ⟨body, _, hH, _⟩
    · simp [hs] at hs'
    · simp [hs] at hs'
    · have hlim := d.limit_cases
      rw [step_content_fault ch hs hH (by rw [hH.1, hi]) (by omega)] at hok
      cases hok
  · obtain ⟨d₁, calls₁, h₁, hT⟩ := h.step ch hz
    rw [hok] at h₁
    simp only [Except.ok.injEq, Prod.mk.injEq] at h₁
    rw [h₁.1, h₁.2]
    exact hT

theorem Tracks.run {d d' : Decoder} {pending bytes : List UInt8} {calls : List Call}
    (h : Tracks d pending) (hok : unpacking d bytes = .ok (d', calls)) :
    ∃ pending', Tracks d' pending' := by
  refine Lib.run_history (fun s _ _ => ∃ p, Tracks s p) d ⟨_, h⟩ ?_ bytes hok
  rintro s hist ch s' o o' - ⟨p, hp⟩ hstep
  rcases hp.step_ok hstep with ⟨hT, -⟩ | ⟨hT, -⟩
  · exact ⟨_, hT⟩
  · exact ⟨_, hT⟩

theorem Tracks.len2 {d : Decoder} {pending : List UInt8} (h : Tracks d pending)
    (hs : d.step = .len2) : ∃ lo, Holds d [lo] ∧ d.udpLen = lo.toUInt16 := by
  rcases h with ⟨hs', _⟩ | ⟨hs', _⟩ | ⟨body, _, hH, hI⟩
  · simp [hs] at hs'
  · simp [hs] at hs'
  · simp only [InStep, hs] at hI
    obtain ⟨lo, rfl⟩ := List.length_eq_one_iff.mp hI.1
    exact ⟨lo, hH, hI.2⟩

/-! ### Frames of length 0 -/

/-- Inside a frame of length 0 the decoder stores until the buffer is full, then faults. -/
theorem zero_faults : ∀ (bytes : List UInt8) (d : Decoder) (body : List UInt8),
    InZero d → Holds d body → 1024 < body.length + bytes.length →
    unpacking d bytes = .error (.write 1024)
  | [], d, body, _, hH, hlen => by
    have := hH.length_le
    simp at hlen
    omega
  | ch :: bytes, d, body, hz, hH, hlen => by
    have hlim := d.limit_cases
    have hle := hH.length_le
    have hu := hz.2
    simp only [List.length_cons] at hlen
    by_cases hb : body.length < 1024
    · obtain ⟨d', h', hH', hu', hs'⟩ := step_content ch hz.1 hH hb (by omega)
      rw [if_neg (by omega)] at hs'
      have ih := zero_faults bytes d' (body ++ [ch]) ⟨hs', by rw [hu', hu]⟩ hH' (by simp; omega)
      rw [unpacking, Lib.run_cons h', ← unpacking, ih]
      rfl
    · exact Lib.run_cons_error (step_content_fault ch hz.1 hH (by omega) (by omega)) bytes

theorem step_acceptsZero {d : Decoder} {pending : List UInt8} {ch : UInt8} (h : Tracks d pending)
    (hz : AcceptsZero d ch) :
    ∃ d' body, unpackByte d ch = .ok (d', []) ∧ InZero d' ∧ Holds d' body ∧ body.length = 2 := by
  obtain ⟨hs, hu, rfl⟩ := hz
  obtain ⟨lo, hH, hlo⟩ := h.len2 hs
  obtain ⟨d', h', hH', hu', hs'⟩ := step_len2 0 hs hH rfl hlo
  have hlo0 : lo = 0 := by
    have h16 := congrArg UInt16.toNat (hlo.symm.trans hu)
    apply UInt8.toNat_inj.mp
    simpa using h16
  have h0 : d'.udpLen.toNat = 0 := by rw [hu', hlo0]; rfl
  rw [if_pos (by omega)] at hs'
  exact ⟨d', _, h', ⟨hs', h0⟩, hH', rfl⟩

/-- The only ways into a frame of length 0. -/
theorem inZero_of_step {d d' : Decoder} {pending : List UInt8} {ch : UInt8} {calls : List Call}
    (h : Tracks d pending) (hok : unpackByte d ch = .ok (d', calls)) (hz : InZero d') :
    InZero d ∧ d'.indexBuff.toNat = d.indexBuff.toNat + 1 ∨
      AcceptsZero d ch ∧ d'.indexBuff.toNat = 2 := by
  rcases h.step_ok hok with ⟨hT, -⟩ | ⟨hT, -⟩
  · rcases hT with ⟨hs', -⟩ | ⟨hs', -⟩ | ⟨body', hb', hH', hI'⟩
    · simp [hz.1] at hs'
    · simp [hz.1] at hs'
    · simp only [InStep, hz.1] at hI'
      rcases h with ⟨hs, rfl⟩ | ⟨hs, rfl⟩ | ⟨body, rfl, hH, hI⟩
      · simp at hb'
      · have := hI'.2.2.1
        simp at hb'
        simp [hb'.2] at this
      · obtain rfl : body ++ [ch] = body' := by simpa using hb'
        have hidx : d'.indexBuff.toNat = d.indexBuff.toNat + 1 := by
          rw [← hH'.1, ← hH.1]; simp
        cases hs : d.step with
        | waitHead1 => simp [InStep, hs] at hI
        | waitHead2 => simp [InStep, hs] at hI
        | len1 =>
          have := hI'.2.2.1
          simp only [InStep, hs] at hI
          simp [hI] at this
        | len2 =>
          simp only [InStep, hs] at hI
          obtain ⟨lo, rfl⟩ := List.length_eq_one_iff.mp hI.1
          have h16 : (u16At ([lo] ++ [ch]) 0).toNat = 0 := by rw [← hI'.1, hz.2]
          obtain ⟨hlo, hch⟩ : lo = 0 ∧ ch = 0 := Lib.u16_eq_zero h16
          refine Or.inr ⟨⟨hs, by rw [hI.2, hlo]; rfl, hch⟩, ?_⟩
          rw [hidx, ← hH.1]
          rfl
        | content =>
          simp only [InStep, hs] at hI
          refine Or.inl ⟨⟨hs, ?_⟩, hidx⟩
          rw [hI.1, ← u16At_append ch (by omega), ← hI'.1, hz.2]
        | cs =>
          simp only [InStep, hs] at hI
          have : d'.udpLen.toNat = d.udpLen.toNat := by
            rw [hI'.1, hI.1, u16At_append ch (by omega)]
          have := hz.2
          omega
  · rcases hT with ⟨hs', -⟩ | ⟨hs', hp⟩ | ⟨_, hp, -⟩
    · simp [hz.1] at hs'
    · simp at hp
    · simp at hp

/-! ### Every write stays in the buffer -/

/-- What the bytes still to come must satisfy: no header of length 0 with
1023 bytes or more after it, and not too many bytes in the one being read. -/
def ZeroesShort (d : Decoder) (bytes : List UInt8) : Prop :=
  (InZero d → d.indexBuff.toNat + bytes.length ≤ 1024) ∧
    ∀ pre ch post d' calls, bytes = pre ++ ch :: post → unpacking d pre = .ok (d', calls) →
      AcceptsZero d' ch → post.length < 1023

theorem ZeroesShort.step {d d' : Decoder} {pending : List UInt8} {ch : UInt8} {calls : List Call}
    {bytes : List UInt8} (hT : Tracks d pending) (h : ZeroesShort d (ch :: bytes))
    (hok : unpackByte d ch = .ok (d', calls)) : ZeroesShort d' bytes := by
  refine ⟨fun hz => ?_, fun pre c post d'' calls' hb hrun => ?_⟩
  · rcases inZero_of_step hT hok hz with ⟨hz', hidx⟩ | ⟨ha, hidx⟩
    · have := h.1 hz'
      simp only [List.length_cons] at this
      omega
    · have := h.2 [] ch bytes d [] rfl rfl ha
      omega
  · exact h.2 (ch :: pre) c post d'' (calls ++ calls') (by rw [hb]; rfl)
      (Lib.run_cons_ok.mpr ⟨_, _, _, hok, hrun, rfl⟩)

theorem unpacking_total {d : Decoder} {pending bytes : List UInt8} (hT : Tracks d pending)
    (hz : ZeroesShort d bytes) : ∃ r, unpacking d bytes = .ok r := by
  have hstep : ∀ d ch bytes, (∃ p, Tracks d p) ∧ ZeroesShort d (ch :: bytes) →
      ∃ d' calls, unpackByte d ch = .ok (d', calls) ∧ (∃ p, Tracks d' p) ∧ ZeroesShort d' bytes := by
    rintro d ch bytes ⟨⟨p, hp⟩, hz⟩
    obtain ⟨d', calls, h', hT⟩ := hp.step ch (fun ⟨h0, hi⟩ => by
      have := hz.1 h0
      simp only [List.length_cons] at this
      omega)
    refine ⟨d', calls, h', ?_, hz.step hp h'⟩
    rcases hT with ⟨hT, -⟩ | ⟨hT, -⟩
    · exact ⟨_, hT⟩
    · exact ⟨_, hT⟩
  obtain ⟨d', calls, hrun, -⟩ := Lib.run_total
    (fun d bytes => (∃ p, Tracks d p) ∧ ZeroesShort d bytes) hstep bytes d ⟨⟨_, hT⟩, hz⟩
  exact ⟨(d', calls), hrun⟩

theorem not_inZero_init (alloc : Bool) (g : Globals) : ¬ InZero (initProtocolLayer alloc g).dec :=
  fun hz => by simp [InZero, initProtocolLayer] at hz

/-- **Every write stays in `udp_buff` exactly when no accepted header of
length 0 has 1023 bytes or more after it**, for every stream and every way of
cutting it, from any globals before `initProtocolLayer`. -/
theorem session_in_bounds_iff (alloc : Bool) (g : Globals) (chunks : List (List UInt8)) :
    InBounds (initProtocolLayer alloc g).dec chunks ↔
      ∀ pre ch post d calls, chunks.flatten = pre ++ ch :: post →
        unpacking (initProtocolLayer alloc g).dec pre = .ok (d, calls) →
        AcceptsZero d ch → post.length < 1023 := by
  have hinit := tracks_init alloc g
  constructor
  · rintro ⟨r, hr⟩ pre ch post d calls hsplit hpre ha
    rw [session_eq, hsplit] at hr
    obtain ⟨d₁, o₁, o₂, h₁, h₂, -⟩ := Lib.run_append_ok.mp hr
    obtain rfl : d₁ = d := by
      have := h₁.symm.trans hpre
      simp only [Except.ok.injEq, Prod.mk.injEq] at this
      exact this.1
    obtain ⟨d₂, o₃, o₄, h₃, h₄, -⟩ := Lib.run_cons_ok.mp h₂
    obtain ⟨p, hp⟩ := hinit.run hpre
    obtain ⟨d', body, h', hz, hH, hl⟩ := step_acceptsZero hp ha
    obtain rfl : d₂ = d' := by
      have := h₃.symm.trans h'
      simp only [Except.ok.injEq, Prod.mk.injEq] at this
      exact this.1
    by_contra hlen
    have := zero_faults post d₂ body hz hH (by omega)
    rw [unpacking, h₄] at this
    cases this
  · intro hshort
    obtain ⟨r, hr⟩ := unpacking_total hinit
      ⟨fun hz => absurd hz (not_inZero_init alloc g), hshort⟩
    exact ⟨r, (session_eq _ _).trans hr⟩

/-- A header of length 0 and 1023 more bytes: the last one goes to `udp_buff[1024]`. -/
theorem session_out_of_bounds :
    session (initProtocolLayer true powerOn).dec [0xaa :: 0xaa :: 0 :: 0 :: List.replicate 1023 0] =
        .error (.write 1024) ∧
      ¬ InBounds (initProtocolLayer true powerOn).dec
        [0xaa :: 0xaa :: 0 :: 0 :: List.replicate 1023 0] := by
  have herr : session (initProtocolLayer true powerOn).dec
      [0xaa :: 0xaa :: 0 :: 0 :: List.replicate 1023 0] = .error (.write 1024) := by
    have h₃ : unpacking (initProtocolLayer true powerOn).dec [0xaa, 0xaa, 0] =
        .ok (⟨(Vector.replicate 1024 0).set 0 0, .len2, 0, 1⟩, []) := rfl
    obtain ⟨p, hp⟩ := (tracks_init true powerOn).run h₃
    obtain ⟨d', body, h', hz, hH, hl⟩ := step_acceptsZero hp ⟨rfl, rfl, rfl⟩
    have hlen : (List.replicate 1023 (0 : UInt8)).length = 1023 := List.length_replicate
    generalize List.replicate 1023 (0 : UInt8) = tail at hlen ⊢
    have hrest := zero_faults tail d' body hz hH (by omega)
    rw [session_eq, List.flatten_cons, List.flatten_nil, List.append_nil]
    show unpacking _ ([0xaa, 0xaa, 0] ++ 0 :: tail) = _
    rw [unpacking] at h₃ hrest ⊢
    rw [Lib.run_append, h₃]
    dsimp only
    rw [Lib.run_cons h', hrest]
    rfl
  refine ⟨herr, ?_⟩
  rintro ⟨r, hr⟩
  rw [herr] at hr
  cases hr

/-! ### Only frames are acted on -/

/-- A call that drives the UARTs. -/
def Call.isUart : Call → Bool
  | .openLED _ => false
  | _ => true

/-- The frame accounts for the call: a reset frame for a reset; for sending, a
data frame whose channel, count and data bytes, all before its checksum byte,
are what is sent. -/
def Frame.Justifies (f : Frame) : Call → Prop
  | .resetUartFsmc => f.code = 0xA2
  | .sendDataUartFsmc chl ptr size => f.code = 0xA1 ∧ chl = f.uartChl ∧ size = f.num ∧
      6 + size.toNat < f.body.length ∧ ptr.take size.toNat = f.data
  | .openLED _ => False

/-- The calls are accounted for, in order, by disjoint frames of the stream. -/
def Justified (stream : List UInt8) (calls : List Call) : Prop :=
  ∃ (parts : List (List UInt8 × Frame)) (rest : List UInt8),
    stream = (parts.flatMap fun p => p.1 ++ p.2.wire) ++ rest ∧
      List.Forall₂ (fun p c => p.2.Justifies c) parts (calls.filter Call.isUart)

theorem not_short {body : List UInt8} (h : Accepted body) (hl : body.length = 4) :
    u16At body 2 ≠ 0xA1 ∧ u16At body 2 ≠ 0xA2 := by
  obtain ⟨a, b, c, e, rfl⟩ : ∃ a b c e, body = [a, b, c, e] := by
    match body, hl with
    | [a, b, c, e], _ => exact ⟨a, b, c, e, rfl⟩
  have hlen := h.len_field
  have hsum := congrArg UInt8.toNat h.sum_zero
  change (Lib.u16 a b).toNat = 4 at hlen
  rw [Lib.toNat_u16] at hlen
  simp only [List.sum_cons, List.sum_nil, UInt8.toNat_add, UInt8.toNat_zero] at hsum
  have h₂ := c.toNat_lt
  have h₃ := e.toNat_lt
  constructor <;> intro hcode <;> have h16 := congrArg UInt16.toNat hcode <;>
    change (Lib.u16 c e).toNat = _ at h16 <;> rw [Lib.toNat_u16] at h16 <;>
    simp only [UInt16.reduceToNat] at h16 <;> omega

theorem handleProtocol_accepted {body ptr : List UInt8} (h : Accepted body)
    (hptr : ptr.take body.length = body) :
    (handleProtocol ptr).filter Call.isUart = [] ∨
      ∃ (h5 : 5 ≤ body.length) (c : Call), (handleProtocol ptr).filter Call.isUart = [c] ∧
        (⟨body, h, h5⟩ : Frame).Justifies c := by
  have h4 := h.four_le
  by_cases h5 : 5 ≤ body.length
  · obtain ⟨bytes, hbytes, hcalls⟩ := handleProtocol_frame ⟨body, h, h5⟩ hptr
    rw [hcalls]
    by_cases hA1 : (⟨body, h, h5⟩ : Frame).code = 0xA1
    · by_cases hF : (⟨body, h, h5⟩ : Frame).Fits
      · rw [if_pos hA1, if_pos hF]
        refine Or.inr ⟨h5, _, rfl, hA1, rfl, rfl, ?_, hbytes hF⟩
        unfold Frame.Fits at hF
        omega
      · rw [if_pos hA1, if_neg hF]
        exact Or.inl rfl
    · rw [if_neg hA1]
      by_cases hA2 : (⟨body, h, h5⟩ : Frame).code = 0xA2
      · rw [if_pos hA2]
        exact Or.inr ⟨h5, _, rfl, hA2⟩
      · rw [if_neg hA2]
        exact Or.inl rfl
  · obtain ⟨hA1, hA2⟩ := not_short h (by omega)
    unfold handleProtocol
    simp only [messageHead_code h hptr, hA1, hA2, if_false]
    exact Or.inl rfl

/-- From `waitHead1` on, whatever is called is accounted for by the bytes read. -/
theorem unpacking_sound {d d' : Decoder} {bytes : List UInt8} {calls : List Call}
    (hT : Tracks d []) (hok : unpacking d bytes = .ok (d', calls)) : Justified bytes calls := by
  -- the invariant: `rest` has been given up, `pending` is still being read
  have hI := Lib.run_history
    (fun s hist o => ∃ parts rest pending, Tracks s pending ∧
      hist = (parts.flatMap fun p : List UInt8 × Frame => p.1 ++ p.2.wire) ++ (rest ++ pending) ∧
      List.Forall₂ (fun p c => p.2.Justifies c) parts (o.filter Call.isUart))
    d ⟨[], [], [], hT, rfl, .nil⟩ ?_ bytes hok
  · obtain ⟨parts, rest, pending, -, hb, hF⟩ := hI
    exact ⟨parts, rest ++ pending, hb, hF⟩
  · rintro s hist ch s' o o' - ⟨parts, rest, pending, hs, rfl, hF⟩ hstep
    have hgiveUp : Tracks s' [] → o'.filter Call.isUart = [] →
        ∃ parts' rest' pending', Tracks s' pending' ∧
          (parts.flatMap fun p : List UInt8 × Frame => p.1 ++ p.2.wire) ++ (rest ++ pending) ++ [ch] =
            (parts'.flatMap fun p : List UInt8 × Frame => p.1 ++ p.2.wire) ++ (rest' ++ pending') ∧
          List.Forall₂ (fun p c => p.2.Justifies c) parts' ((o ++ o').filter Call.isUart) := by
      intro hT' ho'
      refine ⟨parts, rest ++ (pending ++ [ch]), [], hT', by simp, ?_⟩
      rw [List.filter_append, ho', List.append_nil]
      exact hF
    rcases hs.step_ok hstep with ⟨hT', rfl⟩ | ⟨hT', hE⟩
    · exact ⟨parts, rest, pending ++ [ch], hT', by simp, by simpa using hF⟩
    · rcases hE with rfl | ⟨body, ptr, hseg, hacc, hptr, rfl⟩
      · exact hgiveUp hT' rfl
      · rcases handleProtocol_accepted hacc hptr with h0 | ⟨h5, c, hc, hJ⟩
        · exact hgiveUp hT' h0
        · refine ⟨parts ++ [(rest, ⟨body, hacc, h5⟩)], [], [], hT', ?_, ?_⟩
          · simp [Frame.wire, ← hseg]
          · rw [List.filter_append, hc]
            exact List.rel_append hF (.cons hJ .nil)

/-- **Only frames are acted on.** If no accepted header announces length 0,
the session runs to its end, and every call that drives the UARTs is
accounted for by a frame of the stream, distinct calls by disjoint frames in
the same order; what was in `udp_buff` before is never sent. -/
theorem session_sound (alloc : Bool) (g : Globals) (chunks : List (List UInt8))
    (hz : ∀ pre ch post d calls, chunks.flatten = pre ++ ch :: post →
      unpacking (initProtocolLayer alloc g).dec pre = .ok (d, calls) → ¬ AcceptsZero d ch) :
    ∃ d calls, session (initProtocolLayer alloc g).dec chunks = .ok (d, calls) ∧
      Justified chunks.flatten calls := by
  have hinit := tracks_init alloc g
  obtain ⟨⟨d, calls⟩, hr⟩ := unpacking_total hinit
    ⟨fun h => absurd h (not_inZero_init alloc g),
      fun pre ch post d calls hb hrun ha => absurd ha (hz pre ch post d calls hb hrun)⟩
  exact ⟨d, calls, (session_eq _ _).trans hr, unpacking_sound hinit hr⟩

/-- A reset frame, after a byte of noise, cut inside its length field. -/
theorem session_sound_reset : ∃ d calls,
    session (initProtocolLayer true powerOn).dec [[0x55, 0xaa, 0xaa, 5], [0, 0xA2, 0, 0x59]] =
        .ok (d, calls) ∧
      Justified [0x55, 0xaa, 0xaa, 5, 0, 0xA2, 0, 0x59] calls := by
  refine session_sound true powerOn [[0x55, 0xaa, 0xaa, 5], [0, 0xA2, 0, 0x59]] ?_
  intro pre ch post d calls hsplit hrun ha
  have hcheck : ∀ i : Fin 8, ∀ r ∈ (unpacking (initProtocolLayer true powerOn).dec
      ([0x55, 0xaa, 0xaa, 5, 0, 0xA2, 0, 0x59].take i)).toOption,
      ¬ AcceptsZero r.1 ([0x55, 0xaa, 0xaa, 5, 0, 0xA2, 0, 0x59].getD i 0) := by
    decide
  change [0x55, 0xaa, 0xaa, 5, 0, 0xA2, 0, 0x59] = _ at hsplit
  have hlen : pre.length < 8 := by
    have := congrArg List.length hsplit
    simp at this
    omega
  have := hcheck ⟨pre.length, hlen⟩ (d, calls)
  rw [hsplit] at this
  simp only [List.take_left', hrun] at this
  refine this rfl ?_
  simpa [List.getD_eq_getElem?_getD] using ha

end ProtocolLayer
end Serial2Ethernet
