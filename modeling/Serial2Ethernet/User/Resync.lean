/-
# Resynchronisation: what a datagram inherits from those before it

The receiver's globals outlive a datagram. What they hold of an unfinished
frame can be read off them (`pendingOf`), and it is all that the datagrams
before leave to the next:

* `resync_iff`: 1025 further bytes bring the decoder back to `waitHead1`,
  unless the header in progress announces length 0;
* `independent_iff`: a datagram that is one frame makes exactly one call of
  `handleProtocol`, with that frame, exactly when nothing is pending, or when
  what is pending happens to be the beginning of that very frame.
-/
import Serial2Ethernet.User.Delivery

namespace Serial2Ethernet
namespace ProtocolLayer

/-- Some datagrams have been given to `onRecvData` since `initProtocolLayer`. -/
def Reachable (d : Decoder) : Prop :=
  ∃ alloc g chunks calls, session (initProtocolLayer alloc g).dec chunks = .ok (d, calls)

/-- The bytes read since `waitHead1`, as the globals hold them. -/
def pendingOf (d : Decoder) : List UInt8 :=
  match d.step with
  | .waitHead1 => []
  | .waitHead2 => [0xaa]
  | _ => 0xaa :: 0xaa :: d.udpBuff.toList.take d.indexBuff.toNat

theorem Tracks.eq_pendingOf {d : Decoder} {pending : List UInt8} (h : Tracks d pending) :
    pending = pendingOf d := by
  rcases h with ⟨hs, rfl⟩ | ⟨hs, rfl⟩ | ⟨body, rfl, hH, hI⟩
  · simp [pendingOf, hs]
  · simp [pendingOf, hs]
  · have hbody : d.udpBuff.toList.take d.indexBuff.toNat = body := by rw [← hH.1, hH.2]
    unfold pendingOf
    rw [hbody]
    cases hs : d.step with
    | waitHead1 => simp [InStep, hs] at hI
    | waitHead2 => simp [InStep, hs] at hI
    | _ => rfl

theorem session_ok {d d' : Decoder} {chunks : List (List UInt8)} {calls : List Call}
    (h : session d chunks = .ok (d', calls)) : ∃ ptrs, receiving d chunks.flatten = .ok (d', ptrs) := by
  rw [session_eq, unpacking_eq] at h
  cases hr : receiving d chunks.flatten with
  | error e => simp [hr, Except.map] at h
  | ok r =>
    obtain ⟨d₁, ptrs⟩ := r
    simp only [hr, Except.map, Except.ok.injEq, Prod.mk.injEq] at h
    exact ⟨ptrs, by rw [h.1]⟩

theorem session_of_receiving {d d' : Decoder} {chunks : List (List UInt8)} {ptrs : List (List UInt8)}
    (h : receiving d chunks.flatten = .ok (d', ptrs)) :
    session d chunks = .ok (d', ptrs.flatMap handleProtocol) := by
  rw [session_eq, unpacking_eq, h]
  rfl

theorem Reachable.tracks {d : Decoder} (h : Reachable d) : Tracks d (pendingOf d) := by
  obtain ⟨alloc, g, chunks, calls, hok⟩ := h
  obtain ⟨ptrs, hr⟩ := session_ok hok
  have hT := ((tracks_init alloc g).run_receiving hr).1
  rwa [hT.eq_pendingOf] at hT

/-! ### Back to `waitHead1` -/

/-- Some of the bytes bring the decoder back to `waitHead1`, however they are cut. -/
def Returns (d : Decoder) (bytes : List UInt8) : Prop :=
  ∃ pre post, bytes = pre ++ post ∧ pre ≠ [] ∧ ∀ chunks : List (List UInt8), chunks.flatten = pre →
    ∃ d' calls, session d chunks = .ok (d', calls) ∧ d'.step = .waitHead1

/-- A header that announces length 0. -/
def zeroHeader : List UInt8 := [0xaa, 0xaa, 0, 0]

/-- Before a header of length 0 is complete and ever after the receiver goes on. -/
theorem verdict_zeroHeader {bytes : List UInt8} (h : bytes <+: zeroHeader ∨ zeroHeader <+: bytes) :
    verdict bytes = none := by
  rcases h with h | ⟨rest, rfl⟩
  · have hall : ∀ w ∈ zeroHeader.inits, verdict w = none := by decide
    exact hall bytes ((List.mem_inits _ _).mpr h)
  · have h2 : 2 ≤ (0 :: 0 :: rest : List UInt8).length := by simp
    exact verdict_more h2 (Nat.zero_lt_succ _) (Or.inl rfl)

theorem zeroHeader_begins {body : List UInt8} (h2 : 2 ≤ body.length) (h0 : (u16At body 0).toNat = 0) :
    zeroHeader <+: 0xaa :: 0xaa :: body := by
  rcases body with _ | ⟨lo, _ | ⟨hi, rest⟩⟩
  · cases h2
  · simp at h2
  · obtain ⟨rfl, rfl⟩ : lo = 0 ∧ hi = 0 := Lib.u16_eq_zero h0
    exact ⟨rest, rfl⟩

/-- Without one the receiver is done before it has read 1025 bytes. -/
theorem length_le_of_verdict {bytes : List UInt8} (h : verdict bytes = none)
    (hz : ¬ zeroHeader <+: bytes) : bytes.length ≤ 1024 := by
  rcases bytes with _ | ⟨a, _ | ⟨b, body⟩⟩
  · simp
  · simp
  · by_cases hab : a ≠ 0xaa ∨ b ≠ 0xaa
    · rw [verdict, if_pos hab] at h
      cases h
    · obtain ⟨rfl, rfl⟩ : a = 0xaa ∧ b = 0xaa := by simpa using hab
      rcases Nat.lt_or_ge body.length 3 with hshort | h3
      · simp only [List.length_cons]
        omega
      · have hlt : (u16At body 0).toNat < 1024 := by
          by_contra hge
          rw [verdict_long (by omega) (Nat.not_lt.mp hge)] at h
          cases h
        have h0 : (u16At body 0).toNat ≠ 0 := fun h0 => hz (zeroHeader_begins (by omega) h0)
        by_contra hlong
        simp only [List.length_cons] at hlong
        rw [verdict_done (by omega) hlt h0 (by omega)] at h
        cases h

section Returns

variable {d : Decoder} {pending bytes : List UInt8}

theorem Tracks.not_returns (h : Tracks d pending) (hz : zeroHeader <+: pending ++ bytes) :
    ¬ Returns d bytes := by
  rintro ⟨pre, post, rfl, hne, hall⟩
  obtain ⟨d', calls, hok, hs⟩ := hall [pre] (by simp)
  obtain ⟨ptrs, hr⟩ := session_ok hok
  rw [List.flatten_singleton] at hr
  have hopen : Lib.feeds verdict pending pre = (pending ++ pre, []) := by
    refine Lib.feeds_open pre ?_
    intro w r e _
    have hw : pending ++ w <+: pending ++ (pre ++ post) := by
      rw [e, List.append_assoc]
      exact (List.prefix_append_right_inj pending).mpr (List.prefix_append w _)
    exact verdict_zeroHeader (List.prefix_or_prefix_of_prefix hw hz)
  have hT := (h.run_receiving hr).1
  rw [hopen] at hT
  have hnil := hT.eq_pendingOf
  simp only [pendingOf, hs, List.append_eq_nil_iff] at hnil
  exact hne hnil.2

theorem Tracks.returns (h : Tracks d pending) (hlen : bytes.length = 1025)
    (hz : ¬ zeroHeader <+: pending ++ bytes) : Returns d bytes := by
  have hnone : ∀ w r, bytes = w ++ r → verdict (pending ++ w) = none →
      (pending ++ w).length ≤ 1024 := by
    intro w r e hv
    refine length_le_of_verdict hv ?_
    intro hw
    refine hz (hw.trans ?_)
    rw [e, ← List.append_assoc]
    exact List.prefix_append _ r
  rcases Lib.feeds_cases bytes pending with hopen | ⟨w, a, r, out, e, hw, hout, -⟩
  · have hne : bytes ≠ [] := List.ne_nil_of_length_pos (by omega)
    have := hnone bytes [] (by simp) (hopen bytes [] (by simp) hne)
    rw [List.length_append] at this
    omega
  · have hv : verdict (pending ++ w) = none := by
      have hf := Lib.verdict_feeds rfl w pending h.goes_on
      rwa [hw] at hf
    have hle : pending.length + (w ++ [a]).length ≤ 1026 := by
      have := hnone w (a :: r) e hv
      simp only [List.length_append, List.length_singleton] at this ⊢
      omega
    obtain ⟨⟨d', ptrs⟩, hr⟩ := h.run_total _ hle
    refine ⟨w ++ [a], r, by rw [e]; simp, by simp, fun chunks hc => ?_⟩
    refine ⟨d', _, session_of_receiving (by rw [hc]; exact hr), ?_⟩
    have hT := (h.run_receiving hr).1
    rw [Lib.feeds_append, hw] at hT
    simp only [Lib.feeds, Lib.feed_some hout] at hT
    exact hT.step_nil

end Returns

/-- **Resynchronisation within 1025 bytes**, from every reachable state,
exactly when the frame in progress or begun next does not announce length 0. -/
theorem resync_iff {d : Decoder} (hd : Reachable d) {bytes : List UInt8} (hlen : bytes.length = 1025) :
    Returns d bytes ↔ ¬ zeroHeader <+: pendingOf d ++ bytes :=
  ⟨fun hr hz => hd.tracks.not_returns hz hr, hd.tracks.returns hlen⟩

/-- A header of length 0x03FF with nothing behind it is given up within 1025 bytes. -/
theorem resync_corrupted_length :
    ∃ d, Reachable d ∧ pendingOf d = [0xaa, 0xaa, 0xff, 3] ∧ Returns d (List.replicate 1025 0) := by
  have hT := tracks_init true powerOn
  obtain ⟨⟨d, ptrs⟩, hr⟩ := hT.run_total [0xaa, 0xaa, 0xff, 3] (by decide)
  have hd : Reachable d :=
    ⟨true, powerOn, [[0xaa, 0xaa, 0xff, 3]], _, session_of_receiving hr⟩
  have hp : pendingOf d = [0xaa, 0xaa, 0xff, 3] := (hT.run_receiving hr).1.eq_pendingOf.symm
  refine ⟨d, hd, hp, (resync_iff hd List.length_replicate).mpr ?_⟩
  rw [hp]
  decide

/-- A header of length 0 and nothing but zeros behind it. -/
theorem resync_zero_length :
    ¬ ∀ d, Reachable d → ∀ bytes : List UInt8, bytes.length = 1025 → Returns d bytes := by
  intro hall
  have hd : Reachable (initProtocolLayer true powerOn).dec := ⟨true, powerOn, [], [], rfl⟩
  have hlen : (zeroHeader ++ List.replicate 1021 0).length = 1025 := by
    rw [List.length_append, List.length_replicate]
    rfl
  exact (tracks_init true powerOn).not_returns (List.prefix_append _ _) (hall _ hd _ hlen)

/-! ### One datagram, one frame -/

/-- The datagram that is the frame makes one call of `handleProtocol`, with the frame. -/
def HandledOnce (d : Decoder) (f : Frame) : Prop :=
  ∃ d' ptr, receiving d f.wire = .ok (d', [ptr]) ∧ ptr.take f.body.length = f.body

/-- What is pending is the beginning of this frame as well: the first bytes of
the datagram complete it to the frame, and the bytes after them hold none. -/
def Repeats (pending : List UInt8) (f : Frame) : Prop :=
  ∃ w r, f.wire = w ++ r ∧ pending ++ w = f.wire ∧ Lib.segments verdict r = []

section Independent

variable {d : Decoder} {pending : List UInt8} {f : Frame}

theorem Accepted.unique {body body' ptr : List UInt8} (h : Accepted body) (h' : Accepted body')
    (hptr : ptr.take body.length = body) (hptr' : ptr.take body'.length = body') : body = body' := by
  have h4 := h.four_le
  have h4' := h'.four_le
  have hlen : body.length = body'.length := by
    rw [← h.len_field, ← h'.len_field, ← u16At_body hptr (by omega), u16At_body hptr' (by omega)]
  rw [← hptr, hlen, hptr']

theorem Tracks.handledOnce (h : Tracks d pending) (hrep : Repeats pending f) : HandledOnce d f := by
  obtain ⟨w, r, hwire, hw, hr⟩ := hrep
  have hlen := f.length_wire_le
  have hne : w ≠ [] := by
    rintro rfl
    have hnone := h.goes_on
    rw [List.append_nil] at hw
    rw [hw, f.verdict_wire] at hnone
    cases hnone
  have hlw := congrArg List.length hwire
  have hlp := congrArg List.length hw
  rw [List.length_append] at hlw hlp
  obtain ⟨⟨d₁, ptrs₁⟩, h₁⟩ := h.run_total w (by omega)
  obtain ⟨hT₁, hg₁⟩ := h.run_receiving h₁
  rw [f.feeds_rest hw hne] at hT₁ hg₁
  obtain ⟨⟨d₂, ptrs₂⟩, h₂⟩ := hT₁.run_total r (by rw [List.length_nil]; omega)
  have hg₂ := (hT₁.run_receiving h₂).2
  change Given ptrs₂ (Lib.segments verdict r) at hg₂
  rw [hr] at hg₂
  obtain ⟨ptr, _, hptr, hnil, rfl⟩ := List.forall₂_cons_right_iff.mp hg₁
  obtain rfl := List.forall₂_nil_right_iff.mp hnil
  obtain rfl := List.forall₂_nil_right_iff.mp hg₂
  refine ⟨d₂, ptr, ?_, hptr⟩
  rw [hwire]
  exact Lib.run_append_ok.mpr ⟨d₁, [ptr], [], h₁, h₂, rfl⟩

theorem Tracks.repeats (h : Tracks d pending) (hone : HandledOnce d f) : Repeats pending f := by
  obtain ⟨d', ptr, hr, hptr⟩ := hone
  have hg := (h.run_receiving hr).2
  obtain ⟨body, _, hbody, hnil, hout⟩ := List.forall₂_cons_left_iff.mp hg
  obtain rfl := List.forall₂_nil_left_iff.mp hnil
  rcases Lib.feeds_cases f.wire pending with hopen | ⟨w, a, r, out, e, hw, hv, hf⟩
  · rw [Lib.feeds_open f.wire hopen] at hout
    cases hout
  · rw [hf] at hout
    rcases verdict_mem hv with rfl | ⟨body', hseg, hacc, rfl⟩
    · -- the frame would have to fit into what is left of the datagram
      rw [List.nil_append] at hout
      have hmem : body ∈ (Lib.feeds verdict [] r).2 := by
        have hseg : Lib.segments verdict r = [body] := hout
        rw [← Lib.segments, hseg]
        exact List.mem_singleton_self body
      obtain ⟨s, out, hs, hbs, hlen⟩ := Lib.mem_segments r [] hmem
      rcases verdict_mem hs with rfl | ⟨body', rfl, hacc, rfl⟩
      · cases hbs
      · obtain rfl := List.mem_singleton.mp hbs
        have heq := hacc.unique f.accepted hbody hptr
        have hle := congrArg List.length e
        simp only [heq, List.length_cons, List.length_append, List.length_nil, Frame.wire] at hle hlen
        omega
    · obtain ⟨rfl, hrest⟩ := List.cons.inj hout
      have heq := hacc.unique f.accepted hbody hptr
      refine ⟨w ++ [a], r, by rw [e]; simp, ?_, hrest⟩
      rw [← List.append_assoc, hseg, heq, Frame.wire]

end Independent

/-- **A datagram read on its own.** After any datagrams, a datagram that is
one frame makes one call of `handleProtocol`, with the frame, exactly when
the datagrams before left nothing pending, or the beginning of the same frame. -/
theorem independent_iff {d : Decoder} (hd : Reachable d) (f : Frame) :
    HandledOnce d f ↔ d.step = .waitHead1 ∨ Repeats (pendingOf d) f := by
  constructor
  · exact fun hone => Or.inr (hd.tracks.repeats hone)
  · rintro (hs | hrep)
    · obtain ⟨d', ptr, hr, -, hptr⟩ := f.receiving hs
      exact ⟨d', ptr, hr, hptr⟩
    · exact hd.tracks.handledOnce hrep

/-- After a datagram of noise a reset is handled. -/
theorem independent_noise :
    ∃ d calls, session (initProtocolLayer true powerOn).dec [[1, 2, 3]] = .ok (d, calls) ∧
      HandledOnce d resetFrame := by
  have hT := tracks_init true powerOn
  obtain ⟨⟨d, ptrs⟩, hr⟩ := hT.run_total [1, 2, 3] (by decide)
  have hs : session (initProtocolLayer true powerOn).dec [[1, 2, 3]] = .ok (d, _) :=
    session_of_receiving hr
  have hstep : d.step = .waitHead1 := (hT.run_receiving hr).1.step_nil
  exact ⟨d, _, hs, (independent_iff ⟨true, powerOn, [[1, 2, 3]], _, hs⟩ resetFrame).mpr (Or.inl hstep)⟩

/-- A header without its body takes the next datagram for it. -/
theorem dependent_truncated :
    ¬ ∀ d, Reachable d → ∀ f : Frame, HandledOnce d f := by
  intro hall
  have hT := tracks_init true powerOn
  obtain ⟨⟨d, ptrs⟩, hr⟩ := hT.run_total [0xaa, 0xaa, 9, 0] (by decide)
  have hd : Reachable d :=
    ⟨true, powerOn, [[0xaa, 0xaa, 9, 0]], _, session_of_receiving hr⟩
  obtain ⟨d', ptr, hone, -⟩ := hall d hd resetFrame
  have hg := ((hT.run_receiving hr).1.run_receiving hone).2
  have hnone : (Lib.feeds verdict (Lib.feeds verdict [] [0xaa, 0xaa, 9, 0]).1 resetFrame.wire).2 = [] := by
    decide
  rw [hnone] at hg
  cases hg

end ProtocolLayer
end Serial2Ethernet
