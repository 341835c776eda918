/-
# The UDP interface: a received pbuf chain on its way to the handler

`udp_demo_recv` walks the chain and copies the segments one behind the other
into `udp_recvbuf`. The call of the handler stands inside the walk, behind
the test that ends it when the buffer is full, so after every segment that
leaves room the handler is given all that has been copied so far.

`recv_handed` says what the handler gets in all: the prefixes of the payload
whose lengths are the running totals below 2048. `recv_exactly_once_iff` says
when that is the payload, once. `recv_in_bounds` says that the walk stays in
the buffer and in the segments, whatever the chain.
-/
import Serial2Ethernet.Lib.Prefixes
import Serial2Ethernet.Hardware.Board

namespace Serial2Ethernet
namespace UdpInterface

def udpRxBufsize : UInt32 := 2048

/-- A segment of a chain; `len` counts the bytes at `payload` and is 16 bits wide. -/
structure Pbuf where
  payload : List UInt8
  len_lt : payload.length < 65536

/-- `q->len`. -/
def Pbuf.len (q : Pbuf) : ℕ := q.payload.length

/-- What `udp_demo_recv` does outside its own buffer. -/
inductive Event
  | handler (ptr : Vector UInt8 2048) (size : UInt32)
  | pbufFree

/-- The loop `udp_recvbuf[i+data_len] = payload[i]`, `n` times from `i` on. -/
def copyLoop (payload : List UInt8) (dataLen : ℕ) :
    (n i : ℕ) → Vector UInt8 2048 → Except Fault (Vector UInt8 2048)
  | 0, _, buf => .ok buf
  | n + 1, i, buf =>
    match payload[i]? with
    | none => .error (.read i)
    | some b =>
      if h : i + dataLen < 2048 then copyLoop payload dataLen n (i + 1) (buf.set (i + dataLen) b h)
      else .error (.write (i + dataLen))

/-- One segment: as much as there is room for, or all of it. -/
def copySegment (q : Pbuf) (dataLen : UInt32) (buf : Vector UInt8 2048) :
    Except Fault (Vector UInt8 2048 × UInt32) :=
  if q.len > (udpRxBufsize - dataLen).toNat then
    (copyLoop q.payload dataLen.toNat (udpRxBufsize - dataLen).toNat 0 buf).map (·, udpRxBufsize)
  else (copyLoop q.payload dataLen.toNat q.len 0 buf).map (·, dataLen + UInt32.ofNat q.len)

/-- The walk along the chain. -/
def recvLoop : List Pbuf → UInt32 → Vector UInt8 2048 → Except Fault (Vector UInt8 2048 × List Event)
  | [], _, buf => .ok (buf, [])
  | q :: chain, dataLen, buf =>
    match copySegment q dataLen buf with
    | .error e => .error e
    | .ok (buf, dataLen) =>
      if dataLen ≥ udpRxBufsize then .ok (buf, [])
      else
        match recvLoop chain dataLen buf with
        | .error e => .error e
        | .ok (buf', events) => .ok (buf', .handler buf dataLen :: events)

/-- The callback. No chain is a null pointer; `handler` says whether one is registered. -/
def udpDemoRecv (handler : Bool) (p : List Pbuf) (buf : Vector UInt8 2048) :
    Except Fault (Vector UInt8 2048 × List Event) :=
  if p = [] then .ok (buf, [])
  else if handler then (recvLoop p 0 buf).map fun r => (r.1, r.2 ++ [.pbufFree])
  else .ok (buf, [.pbufFree])

/-- The payload of a chain. -/
def payload (chain : List Pbuf) : List UInt8 := chain.flatMap Pbuf.payload

/-- The bytes an event hands to the handler. -/
def Event.bytes : Event → List UInt8
  | .handler ptr size => ptr.toList.take size.toNat
  | .pbufFree => []

/-- The running totals below 2048, up to the first that is not. -/
def totals : ℕ → List Pbuf → List ℕ
  | _, [] => []
  | t, q :: chain => if 2048 ≤ t + q.len then [] else (t + q.len) :: totals (t + q.len) chain

/-! ### Copying -/

theorem Pbuf.take_len (q : Pbuf) : q.payload.take q.len = q.payload := List.take_length

/-- The loop appends the bytes behind the ones copied so far. -/
theorem copyLoop_ok (pl : List UInt8) (dataLen : ℕ) : ∀ (n i : ℕ) (buf : Vector UInt8 2048)
    (pre : List UInt8), i + n ≤ pl.length → dataLen + (i + n) ≤ 2048 →
    buf.toList.take (dataLen + i) = pre ++ pl.take i →
    ∃ buf', copyLoop pl dataLen n i buf = .ok buf' ∧
      buf'.toList.take (dataLen + (i + n)) = pre ++ pl.take (i + n)
  | 0, i, buf, pre, _, _, h => ⟨buf, rfl, h⟩
  | n + 1, i, buf, pre, hpl, hroom, h => by
    have hi : i < pl.length := by omega
    have hset : (buf.set (i + dataLen) pl[i] (by omega)).toList.take (dataLen + (i + 1)) =
        pre ++ pl.take (i + 1) := by
      have hs : dataLen + i < (buf.toList.set (dataLen + i) pl[i]).length := by simp; omega
      have hpast : (buf.toList.take (dataLen + i)).set (dataLen + i) pl[i] =
          buf.toList.take (dataLen + i) :=
        List.set_eq_of_length_le (by rw [List.length_take]; exact min_le_left _ _)
      rw [Vector.toList_set, Nat.add_comm i dataLen, ← Nat.add_assoc, List.take_add_one,
        List.getElem?_eq_getElem hs, List.take_add_one, List.getElem?_eq_getElem hi,
        ← List.append_assoc, ← h, List.take_set, hpast]
      simp
    obtain ⟨buf', h', ht⟩ := copyLoop_ok pl dataLen n (i + 1) _ pre (by omega) (by omega) hset
    refine ⟨buf', ?_, ?_⟩
    · rw [copyLoop, List.getElem?_eq_getElem hi]
      simp only [(by omega : i + dataLen < 2048), dite_true]
      exact h'
    · rw [← Nat.add_assoc i n 1, Nat.add_right_comm i n 1]
      exact ht

theorem udpRxBufsize_sub {dataLen : UInt32} (h : dataLen.toNat ≤ 2048) :
    (udpRxBufsize - dataLen).toNat = 2048 - dataLen.toNat :=
  UInt32.toNat_sub_of_le _ _ (UInt32.le_iff_toNat_le.mpr h)

section Segment

variable (q : Pbuf) {dataLen : UInt32} {buf : Vector UInt8 2048} {pre : List UInt8}

theorem copySegment_cut (hlt : dataLen.toNat < 2048) (hpre : buf.toList.take dataLen.toNat = pre)
    (hlong : 2048 - dataLen.toNat < q.len) : ∃ buf', copySegment q dataLen buf = .ok (buf', udpRxBufsize) ∧
      buf'.toList.take 2048 = pre ++ q.payload.take (2048 - dataLen.toNat) := by
  have hroom := udpRxBufsize_sub hlt.le
  have hle : 0 + (2048 - dataLen.toNat) ≤ q.payload.length := by
    rw [Nat.zero_add]
    exact hlong.le
  have hpre0 : buf.toList.take (dataLen.toNat + 0) = pre ++ q.payload.take 0 := by simpa using hpre
  obtain ⟨buf', hok, htake⟩ := copyLoop_ok q.payload dataLen.toNat _ 0 buf pre hle (by omega) hpre0
  have h2048 : dataLen.toNat + (0 + (2048 - dataLen.toNat)) = 2048 := by omega
  rw [h2048, Nat.zero_add] at htake
  refine ⟨buf', ?_, htake⟩
  unfold copySegment
  rw [hroom, if_pos hlong, hok]
  rfl

theorem copySegment_fits (hlt : dataLen.toNat < 2048) (hpre : buf.toList.take dataLen.toNat = pre)
    (hfits : q.len ≤ 2048 - dataLen.toNat) : ∃ buf' dataLen', copySegment q dataLen buf = .ok (buf', dataLen') ∧
      dataLen'.toNat = dataLen.toNat + q.len ∧ buf'.toList.take dataLen'.toNat = pre ++ q.payload := by
  have hroom := udpRxBufsize_sub hlt.le
  have hadd : (dataLen + UInt32.ofNat q.len).toNat = dataLen.toNat + q.len := by
    rw [UInt32.toNat_add, UInt32.toNat_ofNat']
    omega
  have hpre0 : buf.toList.take (dataLen.toNat + 0) = pre ++ q.payload.take 0 := by simpa using hpre
  obtain ⟨buf', hok, htake⟩ := copyLoop_ok q.payload dataLen.toNat q.len 0 buf pre (Nat.zero_add _).le (by omega) hpre0
  rw [Nat.zero_add, q.take_len] at htake
  refine ⟨buf', dataLen + UInt32.ofNat q.len, ?_, hadd, by rw [hadd, htake]⟩
  unfold copySegment
  rw [hroom, if_neg (Nat.not_lt.mpr hfits), hok]
  rfl

/-- A segment is appended, as far as it fits. -/
theorem copySegment_ok (hlen : pre.length = dataLen.toNat) (hlt : dataLen.toNat < 2048)
    (hpre : buf.toList.take dataLen.toNat = pre) :
    ∃ buf' dataLen', copySegment q dataLen buf = .ok (buf', dataLen') ∧
      dataLen'.toNat = min (dataLen.toNat + q.len) 2048 ∧
      buf'.toList.take dataLen'.toNat = (pre ++ q.payload).take 2048 := by
  by_cases hlong : 2048 - dataLen.toNat < q.len
  · obtain ⟨buf', hok, htake⟩ := copySegment_cut q hlt hpre hlong
    have hmin : min (dataLen.toNat + q.len) 2048 = 2048 := min_eq_right (by omega)
    have hshort : pre.length ≤ 2048 := hlen.trans_le hlt.le
    refine ⟨buf', udpRxBufsize, hok, hmin.symm, htake.trans ?_⟩
    rw [List.take_append, hlen, List.take_of_length_le hshort]
  · have hfits : q.len ≤ 2048 - dataLen.toNat := Nat.not_lt.mp hlong
    obtain ⟨buf', dataLen', hok, hadd, htake⟩ := copySegment_fits q hlt hpre hfits
    refine ⟨buf', dataLen', hok, ?_, ?_⟩
    · rw [hadd, min_eq_left (by omega)]
    · have hwhole : (pre ++ q.payload).length ≤ 2048 := by
        rw [List.length_append, hlen]
        show dataLen.toNat + q.len ≤ 2048
        omega
      rw [htake, List.take_of_length_le hwhole]

end Segment

/-! ### What the handler gets -/

/-- From the walk's state on, the handler gets the prefixes at the running totals. -/
theorem recvLoop_handed : ∀ (chain : List Pbuf) (dataLen : UInt32) (buf : Vector UInt8 2048)
    (pre : List UInt8), pre.length = dataLen.toNat → dataLen.toNat < 2048 →
    buf.toList.take dataLen.toNat = pre →
    ∃ buf' events, recvLoop chain dataLen buf = .ok (buf', events) ∧
      events.flatMap Event.bytes =
        (totals dataLen.toNat chain).flatMap (pre ++ payload chain).take
  | [], _, buf, _, _, _, _ => ⟨buf, [], rfl, rfl⟩
  | q :: chain, dataLen, buf, pre, hlen, hlt, hpre => by
    obtain ⟨buf₁, len₁, h₁, hlen₁, ht₁⟩ := copySegment_ok q hlen hlt hpre
    rw [recvLoop, h₁, totals]
    dsimp only
    by_cases hfull : 2048 ≤ dataLen.toNat + q.len
    · have hge : len₁ ≥ udpRxBufsize := by
        rw [ge_iff_le, UInt32.le_iff_toNat_le, hlen₁, min_eq_right hfull]
        exact le_rfl
      rw [if_pos hge, if_pos hfull]
      exact ⟨buf₁, [], rfl, rfl⟩
    · rw [min_eq_left (by omega)] at hlen₁
      have hge : ¬ len₁ ≥ udpRxBufsize := by
        rw [ge_iff_le, UInt32.le_iff_toNat_le, hlen₁]
        exact hfull
      have hpre₁ : (pre ++ q.payload).length = len₁.toNat := by
        rw [List.length_append, hlen, hlen₁]
        rfl
      rw [List.take_of_length_le (l := pre ++ q.payload) (by omega)] at ht₁
      obtain ⟨buf₂, events, h₂, hb⟩ := recvLoop_handed chain len₁ buf₁ (pre ++ q.payload) hpre₁
        (by omega) ht₁
      rw [if_neg hge, if_neg hfull, h₂]
      refine ⟨buf₂, _, rfl, ?_⟩
      have hpl : pre ++ payload (q :: chain) = (pre ++ q.payload) ++ payload chain := by
        simp [payload]
      rw [List.flatMap_cons, hb, hlen₁, List.flatMap_cons, hpl]
      congr 1
      rw [Event.bytes, ht₁, List.take_left' (by rw [hpre₁, hlen₁])]

/-- **What the handler gets**, in all: the prefixes of the payload at the
running totals below 2048. -/
theorem recv_handed (chain : List Pbuf) (buf : Vector UInt8 2048) :
    ∃ buf' events, udpDemoRecv true chain buf = .ok (buf', events) ∧
      events.flatMap Event.bytes = (totals 0 chain).flatMap (payload chain).take := by
  unfold udpDemoRecv
  by_cases hp : chain = []
  · rw [if_pos hp, hp]
    exact ⟨buf, [], rfl, rfl⟩
  · obtain ⟨buf', events, h', hb⟩ := recvLoop_handed chain 0 buf [] rfl (by decide) (by simp)
    rw [if_neg hp, if_pos rfl, h']
    refine ⟨buf', events ++ [.pbufFree], rfl, ?_⟩
    rw [List.flatMap_append, hb]
    simp [Event.bytes]

/-! ### When that is the payload, once -/

theorem payload_cons (q : Pbuf) (chain : List Pbuf) :
    payload (q :: chain) = q.payload ++ payload chain := List.flatMap_cons

theorem totals_le : ∀ (chain : List Pbuf) (t : ℕ), ∀ c ∈ totals t chain, c ≤ t + (payload chain).length
  | [], _, c, hc => by simp [totals] at hc
  | q :: chain, t, c, hc => by
    rw [totals] at hc
    rw [payload_cons, List.length_append]
    show c ≤ t + (q.len + _)
    split at hc
    · simp at hc
    · rcases List.mem_cons.mp hc with rfl | hc
      · omega
      · have := totals_le chain (t + q.len) c hc
        omega

/-- Below 2048 the last running total is the total. -/
theorem totals_concat (last : Pbuf) : ∀ (chain : List Pbuf) (t : ℕ),
    t + (payload (chain ++ [last])).length < 2048 →
    totals t (chain ++ [last]) = totals t chain ++ [t + (payload (chain ++ [last])).length]
  | [], t, h => by
    have hl : (payload ([] ++ [last])).length = last.len := by simp [payload, Pbuf.len]
    rw [hl] at h ⊢
    simp only [List.nil_append, totals]
    rw [if_neg (by omega)]
  | q :: chain, t, h => by
    rw [List.cons_append, payload_cons, List.length_append] at h ⊢
    change t + (q.len + _) < 2048 at h
    show totals t (q :: (chain ++ [last])) = totals t (q :: chain) ++ [t + (q.len + _)]
    rw [totals, totals, if_neg (by omega), if_neg (by omega),
      totals_concat last chain (t + q.len) (by omega), List.cons_append, Nat.add_assoc]

theorem totals_sum_eq_zero : ∀ chain : List Pbuf, (payload chain).length < 2048 →
    ((totals 0 chain).sum = 0 ↔ ∀ q ∈ chain, q.len = 0)
  | [], _ => by simp [totals]
  | q :: chain, h => by
    rw [payload_cons, List.length_append] at h
    change q.len + _ < 2048 at h
    rw [totals, if_neg (by omega), List.sum_cons]
    by_cases h0 : q.len = 0
    · have ih := totals_sum_eq_zero chain (by omega)
      simp [h0, ih]
    · simp [h0]

/-- The handler gets the payload of the chain, cut at 2048 bytes, once and in order. -/
def DeliveredOnce (chain : List Pbuf) (buf : Vector UInt8 2048) : Prop :=
  ∃ buf' events, udpDemoRecv true chain buf = .ok (buf', events) ∧
    events.flatMap Event.bytes = (payload chain).take (min (payload chain).length 2048)

theorem deliveredOnce_iff (chain : List Pbuf) (buf : Vector UInt8 2048) :
    DeliveredOnce chain buf ↔ (totals 0 chain).sum = min (payload chain).length 2048 ∧
      Lib.Repeats (payload chain) (totals 0 chain) 0 := by
  obtain ⟨buf', events, hrun, hb⟩ := recv_handed chain buf
  rw [← Lib.flatMap_take_eq (fun c hc => by simpa using totals_le chain 0 c hc) (min_le_left _ _), ← hb]
  constructor
  · rintro ⟨buf₂, events₂, hrun₂, hb₂⟩
    rw [hrun] at hrun₂
    simp only [Except.ok.injEq, Prod.mk.injEq] at hrun₂
    rw [hrun₂.2, hb₂]
  · exact fun h => ⟨buf', events, hrun, h⟩

/-- **Exactly once.** For every chain: a payload below 2048 bytes is delivered
once exactly when no segment before the last has a byte in it. A longer one
is delivered as it should be only by a coincidence of its bytes: the running
totals below 2048 add up to 2048, and the payload repeats its beginning there. -/
theorem recv_exactly_once_iff (chain : List Pbuf) (buf : Vector UInt8 2048) :
    DeliveredOnce chain buf ↔
      ((payload chain).length < 2048 ∧ ∀ q ∈ chain.dropLast, q.len = 0) ∨
      (2048 ≤ (payload chain).length ∧ (totals 0 chain).sum = 2048 ∧
        Lib.Repeats (payload chain) (totals 0 chain) 0) := by
  rw [deliveredOnce_iff]
  by_cases hlong : 2048 ≤ (payload chain).length
  · rw [min_eq_right hlong]
    simp [hlong, Nat.not_lt.mpr hlong]
  · have hshort : (payload chain).length < 2048 := Nat.lt_of_not_le hlong
    rw [min_eq_left (by omega)]
    simp only [hshort, hlong, true_and, false_and, or_false]
    rcases List.eq_nil_or_concat chain with rfl | ⟨init, last, rfl⟩
    · simp [totals, payload, Lib.Repeats]
    · rw [List.concat_eq_append] at hshort ⊢
      have hinit : (payload init).length ≤ (payload (init ++ [last])).length := by simp [payload]
      have htot := totals_concat last init 0 (by omega)
      have hzero := totals_sum_eq_zero init (by omega)
      rw [Nat.zero_add] at htot
      rw [List.dropLast_concat, ← hzero]
      constructor
      · rintro ⟨hsum, -⟩
        rw [htot, List.sum_append, List.sum_singleton] at hsum
        omega
      · intro h0
        have hall : ∀ c ∈ totals 0 init, c = 0 := List.sum_eq_zero_iff_forall_eq_nat.mp h0
        have hnil : (totals 0 init).flatMap (payload (init ++ [last])).take = [] := by
          rw [List.flatMap_eq_nil_iff]
          intro c hc
          rw [hall c hc, List.take_zero]
        refine (Lib.flatMap_take_eq (fun c hc => by simpa using totals_le _ 0 c hc) le_rfl).mp ?_
        rw [htot, List.flatMap_append, hnil]
        simp

/-- Two segments of one byte each: the handler gets the first byte twice. -/
theorem recv_twice : ¬ DeliveredOnce [⟨[1], by decide⟩, ⟨[2], by decide⟩] (Vector.replicate 2048 0) := by
  rw [deliveredOnce_iff]
  rintro ⟨hsum, -⟩
  exact absurd hsum (by decide)

/-! ### The bounds -/

/-- The walk comes to the segments `rest`, with `data_len` and the buffer as they are then. -/
inductive Reaches : List Pbuf → UInt32 → Vector UInt8 2048 → List Pbuf → UInt32 → Vector UInt8 2048 → Prop
  | here (chain : List Pbuf) (dataLen : UInt32) (buf : Vector UInt8 2048) :
      Reaches chain dataLen buf chain dataLen buf
  | next {q : Pbuf} {chain rest : List Pbuf} {dataLen dataLen₁ dataLen' : UInt32} {buf buf₁ buf' : Vector UInt8 2048}
      (hcopy : copySegment q dataLen buf = .ok (buf₁, dataLen₁)) (hroom : ¬ dataLen₁ ≥ udpRxBufsize)
      (hrest : Reaches chain dataLen₁ buf₁ rest dataLen' buf') : Reaches (q :: chain) dataLen buf rest dataLen' buf'

theorem copySegment_le (q : Pbuf) {dataLen : UInt32} (buf : Vector UInt8 2048) (hlt : dataLen.toNat < 2048) :
    ∃ buf' dataLen', copySegment q dataLen buf = .ok (buf', dataLen') ∧ dataLen'.toNat ≤ 2048 := by
  have hlen : (buf.toList.take dataLen.toNat).length = dataLen.toNat := by
    rw [List.length_take, Vector.length_toList]
    exact Nat.min_eq_left hlt.le
  obtain ⟨buf', dataLen', hok, hlen', -⟩ := copySegment_ok q hlen hlt rfl
  exact ⟨buf', dataLen', hok, hlen'.trans_le (Nat.min_le_right _ _)⟩

theorem lt_of_room {dataLen : UInt32} (hroom : ¬ dataLen ≥ udpRxBufsize) : dataLen.toNat < 2048 := by
  rw [ge_iff_le, UInt32.le_iff_toNat_le] at hroom
  exact Nat.lt_of_not_le hroom

theorem Reaches.lt {chain rest : List Pbuf} {dataLen dataLen' : UInt32} {buf buf' : Vector UInt8 2048}
    (h : Reaches chain dataLen buf rest dataLen' buf') (hlt : dataLen.toNat < 2048) : dataLen'.toNat < 2048 := by
  induction h with
  | here => exact hlt
  | next hcopy hroom hrest ih => exact ih (lt_of_room hroom)

theorem recvLoop_in_bounds : ∀ (chain : List Pbuf) {dataLen : UInt32} (buf : Vector UInt8 2048), dataLen.toNat < 2048 →
    ∃ buf' events, recvLoop chain dataLen buf = .ok (buf', events) ∧
      ∀ ptr size, .handler ptr size ∈ events → size.toNat ≤ 2048
  | [], _, buf, _ => ⟨buf, [], rfl, nofun⟩
  | q :: chain, dataLen, buf, hlt => by
    obtain ⟨buf₁, dataLen₁, hcopy, hle⟩ := copySegment_le q buf hlt
    rw [recvLoop, hcopy]
    dsimp only
    by_cases hfull : dataLen₁ ≥ udpRxBufsize
    · rw [if_pos hfull]
      exact ⟨buf₁, [], rfl, nofun⟩
    · obtain ⟨buf', events, hrest, hsizes⟩ := recvLoop_in_bounds chain buf₁ (lt_of_room hfull)
      rw [if_neg hfull, hrest]
      refine ⟨buf', _, rfl, fun ptr size hmem => ?_⟩
      rcases List.mem_cons.mp hmem with h | h
      · cases h
        exact hle
      · exact hsizes ptr size h

/-- **In bounds.** For every chain the callback neither reads behind a segment nor writes
behind the buffer, and hands over 2048 bytes at most; and whichever segment it comes to,
`data_len` is at most 2048, before and after, and the room behind it is a true difference. -/
theorem recv_in_bounds (handler : Bool) (chain : List Pbuf) (buf : Vector UInt8 2048) :
    (∃ buf' events, udpDemoRecv handler chain buf = .ok (buf', events) ∧
      ∀ ptr size, .handler ptr size ∈ events → size.toNat ≤ 2048) ∧
    ∀ q rest dataLen buf', Reaches chain 0 buf (q :: rest) dataLen buf' →
      dataLen.toNat ≤ 2048 ∧ (udpRxBufsize - dataLen).toNat = 2048 - dataLen.toNat ∧
        ∃ buf'' dataLen', copySegment q dataLen buf' = .ok (buf'', dataLen') ∧ dataLen'.toNat ≤ 2048 := by
  have hzero : (0 : UInt32).toNat < 2048 := by decide
  constructor
  · unfold udpDemoRecv
    by_cases hp : chain = []
    · rw [if_pos hp]
      exact ⟨buf, [], rfl, nofun⟩
    rw [if_neg hp]
    cases handler with
    | false => exact ⟨buf, [.pbufFree], rfl, by simp⟩
    | true =>
      obtain ⟨buf', events, hok, hsizes⟩ := recvLoop_in_bounds chain buf hzero
      rw [if_pos rfl, hok]
      refine ⟨buf', events ++ [.pbufFree], rfl, fun ptr size hmem => ?_⟩
      rcases List.mem_append.mp hmem with h | h
      · exact hsizes ptr size h
      · simp at h
  · intro q rest dataLen buf' hreach
    have hlt := hreach.lt hzero
    exact ⟨hlt.le, udpRxBufsize_sub hlt.le, copySegment_le q buf' hlt⟩

end UdpInterface
end Serial2Ethernet
