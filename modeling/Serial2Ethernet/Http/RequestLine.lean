/-
# The request line, in pieces

A request comes in as TCP cut it: over any number of callbacks, each with a
chain of buffers, while other connections go on. `http_parse_request` looks at
all there is each time. Of a request line `GET uri ...` nothing is understood
before the end of the line is there, and then it is the URI, however the line
was cut (`parseLine_cut`). So nothing is answered to the pieces
(`gathers_quiet`), and to the last one what is answered to a request that comes
at once (`request_served`).
-/
import Serial2Ethernet.Http.Pages

namespace Serial2Ethernet
namespace Httpd

open Lib Lib.Scanner Fs Ssi

/-! ### What is found in a beginning -/

/-- What is found in a beginning of a buffer is found in the buffer. -/
theorem strnstr_append {token : List UInt8} (hne : 0 < token.length) (rest : List UInt8) :
    ∀ {buffer : List UInt8} {n k m : ℕ}, strnstr token buffer n = some k → n ≤ m →
      strnstr token (buffer ++ rest) m = some k
  | [], _, _, _, h, _ => by cases h
  | b :: buffer, n, k, m, h, hle => by
    unfold strnstr at h
    rw [List.cons_append]
    unfold strnstr
    split at h
    · next hgo =>
      rw [if_pos ⟨hgo.1, hgo.2.trans hle⟩]
      split at h
      · next hpre =>
        have hlong : token <+: b :: (buffer ++ rest) := hpre.trans (List.prefix_append (b :: buffer) rest)
        rw [if_pos hlong]
        exact h
      · next hpre =>
        obtain ⟨j, hj, rfl⟩ := Option.map_eq_some_iff.mp h
        have hlen : token.length ≤ (b :: buffer).length := by
          have := (strnstr_some hne hj).2.length_le
          rw [List.length_drop] at this
          rw [List.length_cons]
          omega
        have hlong : ¬ token <+: b :: (buffer ++ rest) := fun hlong =>
          hpre (List.prefix_of_prefix_length_le hlong (List.prefix_append (b :: buffer) rest) hlen)
        rw [if_neg hlong, strnstr_append hne rest hj (by omega)]
        rfl
    · cases h

/-- A token is found behind characters none of which is its first one or the end of a string. -/
theorem strnstr_first {c : UInt8} (hc : c ≠ 0) (cs rest : List UInt8) : ∀ {text : List UInt8} {n : ℕ},
    (∀ b ∈ text, b ≠ 0 ∧ b ≠ c) → text.length + cs.length < n →
      strnstr (c :: cs) (text ++ (c :: cs ++ rest)) n = some text.length
  | [], n, _, hn => by
    rw [List.length_nil, Nat.zero_add] at hn
    rw [List.nil_append, List.cons_append]
    unfold strnstr
    have hpre : c :: cs <+: c :: (cs ++ rest) := List.prefix_append (c :: cs) rest
    rw [if_pos ⟨hc, hn⟩, if_pos hpre]
    rfl
  | b :: text, n, htext, hn => by
    rw [List.forall_mem_cons] at htext
    rw [List.length_cons] at hn
    rw [List.cons_append]
    unfold strnstr
    have hpre : ¬ c :: cs <+: b :: (text ++ (c :: cs ++ rest)) := fun h =>
      htext.1.2 (List.cons_prefix_cons.mp h).1.symm
    rw [if_pos ⟨htext.1.1, by rw [List.length_cons]; omega⟩, if_neg hpre,
      strnstr_first hc cs rest htext.2 (by omega)]
    rfl

/-! ### Request lines -/

/-- The characters of a URI as it is requested. -/
def IsUri (uri : List UInt8) : Prop := ∀ b ∈ uri, b ≠ 0 ∧ b ≠ 0x20 ∧ b ≠ 0x0D

/-- A request from its first line on. -/
def getLine (uri tail : List UInt8) : List UInt8 := text "GET " ++ uri ++ 0x20 :: tail

/-- The end of a line is there. -/
def LineEnds (data : List UInt8) : Prop := (strnstr crlf data data.length).isSome

instance (data : List UInt8) : Decidable (LineEnds data) := inferInstanceAs (Decidable (_ = true))

variable {uri tail : List UInt8}

/-- The end of the line is behind the URI. -/
theorem lineEnds_behind (huri : IsUri uri) {data : List UInt8} (hpre : data <+: getLine uri tail) (h : LineEnds data) :
    ∃ tail', data = getLine uri tail' ∧ 2 ≤ tail'.length := by
  obtain ⟨k, hk⟩ := Option.isSome_iff_exists.mp h
  obtain ⟨hlen, hcrlf⟩ := strnstr_some (by decide) hk
  have hchar : data[k]? = some 0x0D := by
    obtain ⟨rest, hrest⟩ := hcrlf
    have := congrArg List.head? hrest
    rwa [List.head?_drop, eq_comm] at this
  have hhead : ∀ b ∈ text "GET " ++ uri ++ [0x20], b ≠ 0x0D := by
    intro b hb
    rcases List.mem_append.mp hb with hb | hb
    · rcases List.mem_append.mp hb with hb | hb
      · have hget : ∀ b ∈ text "GET ", b ≠ 0x0D := by simp [text]
        exact hget b hb
      · exact (huri b hb).2.2
    · rw [List.mem_singleton.mp hb]
      decide
  have hline : getLine uri tail = (text "GET " ++ uri ++ [0x20]) ++ tail := by
    rw [getLine, List.append_assoc _ [0x20] tail]
    rfl
  have hbehind : (text "GET " ++ uri ++ [0x20]).length ≤ k := by
    by_contra hlt
    have hlt : k < (text "GET " ++ uri ++ [0x20]).length := Nat.lt_of_not_le hlt
    have hget : (getLine uri tail)[k]? = some 0x0D := by
      obtain ⟨rest, hrest⟩ := hpre
      rw [← hrest, List.getElem?_append_left (List.getElem?_eq_some_iff.mp hchar).1, hchar]
    rw [hline, List.getElem?_append_left hlt] at hget
    exact hhead _ (List.mem_of_getElem? hget) rfl
  have hlong : text "GET " ++ uri ++ [0x20] <+: data := by
    refine List.prefix_of_prefix_length_le ?_ hpre (by omega)
    rw [hline]
    exact List.prefix_append _ _
  obtain ⟨tail', rfl⟩ := hlong
  refine ⟨tail', ?_, ?_⟩
  · rw [getLine, List.append_assoc _ [0x20] tail']
    rfl
  · change k + 2 ≤ _ at hlen
    rw [List.length_append] at hlen
    omega

/-- **Of a request line that is cut anywhere**, nothing is understood before its end is there, and
then the URI. -/
theorem parseLine_cut (huri : IsUri uri) {data : List UInt8} (hpre : data <+: getLine uri tail) :
    parseLine data = if LineEnds data then .get uri false else .incomplete := by
  unfold parseLine
  by_cases hend : LineEnds data
  · obtain ⟨tail', rfl, htail⟩ := lineEnds_behind huri hpre hend
    have hlen : (getLine uri tail').length = 4 + uri.length + (tail'.length + 1) := by
      rw [getLine, List.length_append, List.length_append, List.length_cons]
      rfl
    have hdrop : (getLine uri tail').drop 4 = uri ++ 0x20 :: tail' := by
      rw [getLine, List.append_assoc]
      exact List.drop_left' rfl
    have hfind : strnstr (text " ") ((getLine uri tail').drop 4) ((getLine uri tail').length - 4) =
        some uri.length := by
      rw [hdrop]
      exact strnstr_first (by decide) [] tail' (fun b hb => ⟨(huri b hb).1, (huri b hb).2.1⟩)
        (by rw [List.length_nil]; omega)
    have hget : text "GET " <+: getLine uri tail' := by
      rw [getLine, List.append_assoc]
      exact List.prefix_append _ _
    rw [if_pos hend, if_pos ⟨show 7 ≤ _ by omega, hend⟩, if_pos hget, hfind]
    dsimp only
    rw [hdrop, List.take_left]
  · rw [if_neg hend, if_neg fun h => hend h.2]

theorem lineEnds_getLine (huri : IsUri uri) : LineEnds (getLine uri (text "HTTP/1.1" ++ crlf)) := by
  have hsplit : getLine uri (text "HTTP/1.1" ++ crlf) =
      (text "GET " ++ uri ++ text " HTTP/1.1") ++ (0x0D :: [0x0A] ++ []) := by
    rw [getLine, List.append_assoc _ (text " HTTP/1.1")]
    rfl
  have hhead : ∀ b ∈ text "GET " ++ uri ++ text " HTTP/1.1", b ≠ 0 ∧ b ≠ 0x0D := by
    intro b hb
    rcases List.mem_append.mp hb with hb | hb
    · rcases List.mem_append.mp hb with hb | hb
      · have hget : ∀ b ∈ text "GET ", b ≠ 0 ∧ b ≠ 0x0D := by simp [text]
        exact hget b hb
      · exact ⟨(huri b hb).1, (huri b hb).2.2⟩
    · have hversion : ∀ b ∈ text " HTTP/1.1", b ≠ 0 ∧ b ≠ 0x0D := by simp [text]
      exact hversion b hb
  have hlen : (text "GET " ++ uri ++ text " HTTP/1.1").length + 1 <
      ((text "GET " ++ uri ++ text " HTTP/1.1") ++ (0x0D :: [0x0A] ++ [])).length := by
    generalize text "GET " ++ uri ++ text " HTTP/1.1" = head
    rw [List.length_append]
    exact Nat.lt_succ_self _
  rw [LineEnds, hsplit]
  exact Option.isSome_iff_exists.mpr ⟨_, strnstr_first (by decide) [0x0A] [] hhead hlen⟩

theorem LineEnds.mono {data data' : List UInt8} (hpre : data <+: data') (h : LineEnds data) : LineEnds data' := by
  obtain ⟨rest, rfl⟩ := hpre
  obtain ⟨k, hk⟩ := Option.isSome_iff_exists.mp h
  refine Option.isSome_iff_exists.mpr ⟨k, strnstr_append (by decide) rest hk ?_⟩
  rw [List.length_append]
  omega

/-- As long as it fits, the request is all that has come in. -/
theorem requestData_eq {req : List (List UInt8)} (h : req.flatten.length ≤ lwipHttpdMaxReqLength) :
    requestData req = req.flatten := by
  unfold requestData
  split
  · next p => rw [List.flatten_singleton]
  · exact List.take_of_length_le h

/-- The first pieces of a request, which are kept until the rest is there. -/
structure Partly (uri tail : List UInt8) (req : List (List UInt8)) : Prop where
  cut : req.flatten <+: getLine uri tail
  open_line : ¬ LineEnds req.flatten
  short : req.flatten.length ≤ lwipHttpdMaxReqLength
  few : req.length ≤ lwipHttpdReqQueuelen

theorem Partly.of_append {req more : List (List UInt8)} (h : Partly uri tail (req ++ more)) : Partly uri tail req := by
  have hpre : req.flatten <+: (req ++ more).flatten := by
    rw [List.flatten_append]
    exact List.prefix_append _ _
  have hfew := h.few
  rw [List.length_append] at hfew
  exact ⟨hpre.trans h.cut, fun hend => h.open_line (hend.mono hpre), hpre.length_le.trans h.short, by omega⟩

theorem Partly.parseLine_eq {req : List (List UInt8)} (huri : IsUri uri) (h : Partly uri tail req) :
    parseLine (requestData req) = .incomplete := by
  rw [requestData_eq h.short, parseLine_cut huri h.cut, if_neg h.open_line]

/-- The pieces `got`, and the ones with which the line is complete. -/
structure Pieces (uri tail : List UInt8) (got p : List (List UInt8)) : Prop where
  isUri : IsUri uri
  partly : Partly uri tail got
  cut : (got ++ p).flatten <+: getLine uri tail
  ends : LineEnds (got ++ p).flatten
  short : (got ++ p).flatten.length ≤ lwipHttpdMaxReqLength

theorem Pieces.parseLine_eq {got p : List (List UInt8)} (h : Pieces uri tail got p) :
    parseLine (requestData (got ++ p)) = .get uri false := by
  rw [requestData_eq h.short, parseLine_cut h.isUri h.cut, if_pos h.ends]

/-- A line that comes at once. -/
theorem Pieces.of_line (huri : IsUri uri) (hends : LineEnds (getLine uri tail))
    (hshort : (getLine uri tail).length ≤ lwipHttpdMaxReqLength) : Pieces uri tail [] [getLine uri tail] where
  isUri := huri
  partly := ⟨List.nil_prefix, by decide, Nat.zero_le _, Nat.zero_le _⟩
  cut := by
    rw [List.nil_append, List.flatten_singleton]
  ends := by
    rwa [List.nil_append, List.flatten_singleton]
  short := by
    rwa [List.nil_append, List.flatten_singleton]

/-- A line that is cut in front of its end. -/
theorem Pieces.of_cut (huri : IsUri uri) (hends : LineEnds (getLine uri tail))
    (hshort : (getLine uri tail).length ≤ lwipHttpdMaxReqLength) {n : ℕ} (hn : n ≤ 4 + uri.length) :
    Pieces uri tail [(getLine uri tail).take n] [(getLine uri tail).drop n] := by
  have hjoin : ([(getLine uri tail).take n] ++ [(getLine uri tail).drop n]).flatten = getLine uri tail := by
    rw [List.flatten_append, List.flatten_singleton, List.flatten_singleton, List.take_append_drop]
  have hpre : [(getLine uri tail).take n].flatten <+: getLine uri tail := by
    rw [List.flatten_singleton]
    exact List.take_prefix n _
  refine ⟨huri, ⟨hpre, fun hend => ?_, hpre.length_le.trans hshort, by rw [List.length_singleton]; decide⟩, ?_, ?_, ?_⟩
  · obtain ⟨tail', hcut, -⟩ := lineEnds_behind huri hpre hend
    have hlong : 4 + uri.length < (getLine uri tail').length := by
      have hget : (text "GET ").length = 4 := by decide
      rw [getLine, List.length_append, List.length_append, hget, List.length_cons]
      omega
    rw [← hcut, List.flatten_singleton] at hlong
    have := List.length_take_le n (getLine uri tail)
    omega
  · rw [hjoin]
  · rwa [hjoin]
  · rwa [hjoin]

/-! ### Over a run of the server -/

section Runs

variable {P : Type} {E : ℕ → Env P} {J : P → Prop} {fsRoot : List FsdataFile} {s s' : Server P} {e : Event P}
  {o o' : List Buffer} {c : ℕ} {got p : List (List UInt8)}

/-- The data that an event brings to a connection. -/
def Event.pieces (c : ℕ) : Event P → List (List UInt8)
  | .recv pcb (some p) .ok => if pcb = c then p else []
  | _ => []

def received (c : ℕ) (as : List (Event P)) : List (List UInt8) := as.flatMap (Event.pieces c)

/-- On the connection data comes in, and it is not polled too often. -/
def Feeds (c : ℕ) (s : Server P) (e : Event P) : Prop :=
  e.pcb = some c → (∃ p, e = .recv c (some p) .ok) ∨
    e = .poll c ∧ ∀ hs, s.conns c = .active hs → hs.retries + 1 ≠ httpdMaxRetries

/-- The connection waits for the rest of its request. -/
def Gathers (c : ℕ) (got : List (List UInt8)) (s : Server P) : Prop :=
  ∃ hs, s.conns c = .active hs ∧ hs.handle = none ∧ hs.req = got

theorem pieces_other (hp : e.pcb ≠ some c) : e.pieces c = [] := by
  cases e with
  | recv pcb p err =>
    cases p with
    | some p => cases err with
      | ok => exact if_neg fun he => hp (congrArg some he)
      | mem => rfl
      | other => rfl
    | none => rfl
  | _ => rfl

/-- A piece without an end of the line is put to the others. -/
theorem httpRecv_gathers {E : Env P} {hs : HttpState} (hnone : hs.handle = none) (huri : IsUri uri)
    (hpart : Partly uri tail (hs.req ++ p)) (fs : FsMemory) (w : P) :
    httpRecv E fsRoot (some p) .ok hs fs w =
      .ok (⟨.active { hs with req := hs.req ++ p }, fs, ⟨w, []⟩, false⟩, []) := by
  have hparse : httpParseRequest E fsRoot p hs fs w = .ok (.inprogress, ⟨{ hs with req := hs.req ++ p }, fs, w⟩) := by
    unfold httpParseRequest
    rw [if_neg (by rw [hnone]; exact Bool.false_ne_true)]
    dsimp only
    rw [hpart.parseLine_eq huri]
    exact if_pos ⟨hpart.short, hpart.few⟩
  unfold httpRecv
  dsimp only
  rw [if_pos (by rw [hnone]; rfl), hparse]

theorem step_gathers (huri : IsUri uri) (hg : Gathers c got s) (hf : Feeds c s e)
    (hpart : Partly uri tail (got ++ e.pieces c)) (hch : Changes E fsRoot s e s' o c)
    (hs : step E fsRoot s e = .ok (s', o)) : Gathers c (got ++ e.pieces c) s' := by
  obtain ⟨hs₀, hc, hnone, rfl⟩ := hg
  by_cases hp : e.pcb = some c
  · rcases hf hp with ⟨p, rfl⟩ | ⟨rfl, hretries⟩
    · have hpieces : (Event.recv c (some p) .ok : Event P).pieces c = p := if_pos rfl
      rw [hpieces] at hpart ⊢
      unfold step at hs
      dsimp only at hs
      rw [hc] at hs
      dsimp only at hs
      rw [httpRecv_gathers hnone huri hpart] at hs
      obtain ⟨rfl, -⟩ := Prod.mk.inj (Except.ok.inj hs)
      exact ⟨_, put_conn _, hnone, rfl⟩
    · show Gathers c (hs₀.req ++ []) s'
      rw [List.append_nil]
      unfold step httpPoll at hs
      dsimp only at hs
      rw [hc] at hs
      dsimp only at hs
      rw [if_neg (hretries hs₀ hc), if_neg (by rw [hnone]; exact Bool.false_ne_true)] at hs
      obtain ⟨rfl, -⟩ := Prod.mk.inj (Except.ok.inj hs)
      exact ⟨_, put_conn _, hnone, rfl⟩
  · rw [pieces_other hp, List.append_nil]
    exact ⟨hs₀, (hch.other hp hc).1, hnone, rfl⟩

variable (hbody : ∀ f ∈ fsRoot, HasBody f)
include hbody

/-- Whatever happens, the pieces that have come in are kept. -/
theorem run_gathers (huri : IsUri uri) : ∀ (as : List (Event P)) {s s' : Server P} {o : List Buffer}
    {got : List (List UInt8)}, ServerInv E fsRoot s → Gathers c got s → Meets (step E fsRoot) (Feeds c) s as →
    Partly uri tail (got ++ received c as) → run (step E fsRoot) s as = .ok (s', o) →
    Gathers c (got ++ received c as) s'
  | [], s, s', o, got, _, hg, _, _, hr => by
    obtain ⟨rfl, -⟩ := run_nil_ok.mp hr
    rwa [received, List.flatMap_nil, List.append_nil]
  | e :: as, s, s', o, got, h, hg, hf, hpart, hr => by
    obtain ⟨s₁, o₁, o₂, h₁, h₂, -⟩ := run_cons_ok.mp hr
    have hsplit : got ++ received c (e :: as) = got ++ e.pieces c ++ received c as := by
      rw [received, List.flatMap_cons, List.append_assoc]
      rfl
    rw [hsplit] at hpart ⊢
    obtain ⟨hinv, hch⟩ := step_ok hbody h h₁
    exact run_gathers huri as hinv (step_gathers huri hg hf.1 hpart.of_append (hch c) h₁)
      (hf.2 (s₁, o₁) (by rw [h₁]; rfl)) hpart h₂

/-- As long as the end of the line is missing, nothing has been sent. -/
theorem gathers_quiet (huri : IsUri uri) {as : List (Event P)} (h : ServerInv E fsRoot s) (hg : Gathers c got s)
    (hf : Meets (step E fsRoot) (Feeds c) s as) (hpart : Partly uri tail (got ++ received c as)) :
    Always (step E fsRoot) (fun t => t.queued c = []) s as := by
  refine (always_iff as s).mpr fun pre post t o hsplit hr => ?_
  subst hsplit
  have hpre : Partly uri tail (got ++ received c pre) := by
    rw [received, List.flatMap_append, ← List.append_assoc] at hpart
    exact hpart.of_append
  obtain ⟨hs, hc, hnone, -⟩ := run_gathers hbody huri pre h hg hf.of_append hpre hr
  exact (((run_inv hbody pre h hr).conn c hs hc).waiting hnone).queued

/-- A request whose line came in pieces, behind its last piece. -/
theorem pieces_ask {w : P} {fs : FsMemory} (hfree : ∀ i, (fs i).inuse = false) {pre as : List (Event P)} {s₀ : Server P}
    {o₀ : List Buffer} (hr₀ : run (step E fsRoot) (Server.init w fs) pre = .ok (s₀, o₀)) (hwaits : Gathers c [] s₀)
    (hf : Meets (step E fsRoot) (Feeds c) s₀ as) (hr : run (step E fsRoot) s₀ as = .ok (s, o))
    (hpieces : Pieces uri tail (received c as) p) :
    (∃ o, run (step E fsRoot) (Server.init w fs) (pre ++ as) = .ok (s, o)) ∧ ∃ hs, s.conns c = .active hs ∧
      hs.handle = none ∧ parseLine (requestData (hs.req ++ p)) = .get uri false := by
  have hinv₀ := run_inv hbody pre (init_inv E fsRoot w hfree) hr₀
  obtain ⟨hs, hc, hnone, hreq⟩ := run_gathers hbody hpieces.isUri as hinv₀ hwaits hf hpieces.partly hr
  rw [List.nil_append] at hreq
  exact ⟨⟨_, run_append_ok.mpr ⟨s₀, o₀, o, hr₀, hr, rfl⟩⟩, hs, hc, hnone, by rw [hreq]; exact hpieces.parseLine_eq⟩

/-- **A request in pieces.** On a connection that waits for its request the line comes in pieces, among
callbacks on other connections. Before the last piece nothing is sent; then what is sent is the file
for the URI: a beginning of it at any time, and all of it when the connection is closed. -/
theorem request_served {w : P} {fs : FsMemory} (hfree : ∀ i, (fs i).inuse = false) (hE : (E c).Keeps J)
    {pre as : List (Event P)} {s₀ : Server P} {o₀ : List Buffer}
    (hr₀ : run (step E fsRoot) (Server.init w fs) pre = .ok (s₀, o₀)) (hwaits : Gathers c [] s₀)
    (hf : Meets (step E fsRoot) (Feeds c) s₀ as) (hr : run (step E fsRoot) s₀ as = .ok (s, o))
    (hpieces : Pieces uri tail (received c as) p) :
    Always (step E fsRoot) (fun t => t.queued c = []) s₀ as ∧
      ∀ f tagCheck rest s' o', served fsRoot uri = some (f, tagCheck) → ¬ Full s.fs →
        (uri = text "/" ∨ (E c).gPCGIs.find? (fun cgi => cgi.pcCGIName = (splitUri uri).1) = none) →
        Meets (step E fsRoot) (Lets J c) s (.recv c (some p) .ok :: rest) →
        run (step E fsRoot) s (.recv c (some p) .ok :: rest) = .ok (s', o') →
        (∃ all, Job.Shows (E c) J ⟨f, 0, tagCheck⟩ all ∧ s'.queued c <+: all) ∧
          ((s'.conns c).Ended → Job.Delivered (E c) J ⟨f, 0, tagCheck⟩ (s'.queued c)) := by
  have hinv₀ := run_inv hbody pre (init_inv E fsRoot w hfree) hr₀
  refine ⟨gathers_quiet hbody hpieces.isUri hinv₀ hwaits hf hpieces.partly, ?_⟩
  intro f tagCheck rest s' o' hserved hslot hplain hl hr'
  obtain ⟨⟨o, hreach⟩, hask⟩ := pieces_ask hbody hfree hr₀ hwaits hf hr hpieces
  have hasks : Asks E fsRoot s c p uri false := ⟨⟨w, fs, pre ++ as, o, hfree, hreach⟩, hask, hslot, hplain⟩
  have hshown := asks_shown hbody hE hasks hserved hl hr'
  rwa [headerLen_false] at hshown

end Runs

/-- A request in two pieces, with another client between them. -/
def firstPiece : List (Event ℕ) := [.recv 0 (some [text "GET / H"]) .ok, .accept 1]

def lastPiece : List (List UInt8) := [text "TTP/1.0\r\n"]

theorem request_served_small : ∃ s o, run tightStep tightServer firstPiece = .ok (s, o) ∧ s.queued 0 = [] ∧
    ∃ s' o', run tightStep s (.recv 0 (some lastPiece) .ok :: fourBytes 3) = .ok (s', o') ∧
      s'.queued 0 <+: (indexPage ++ [Part.text indexTail]).flatMap (Part.shown unknown) ∧
      ((s'.conns 0).Ended → s'.queued 0 = (indexPage ++ [Part.text indexTail]).flatMap (Part.shown unknown)) := by
  have hinit := init_inv (fun _ => Env.tight) [indexFile] 4 noFiles_free
  have hinv := run_inv index_body ([.accept 0] ++ firstPiece) hinit rfl
  obtain ⟨s', o', hr'⟩ := run_plain index_body (fun _ => rfl) hinv (.recv 0 (some lastPiece) .ok :: fourBytes 3)
  have hpieces : Pieces (text "/") (text "HTTP/1.0\r\n") (received 0 firstPiece) lastPiece :=
    ⟨by simp [IsUri, text], ⟨by decide, by decide, by decide, by decide⟩, by decide, by decide, by decide⟩
  have hfeeds : Meets tightStep (Feeds 0) tightServer firstPiece := by
    refine .of_forall fun e he s hp => ?_
    simp only [firstPiece, List.mem_cons, List.not_mem_nil, or_false] at he
    rcases he with rfl | rfl
    · exact .inl ⟨_, rfl⟩
    · cases hp
  have hlets : ∀ s, Meets tightStep (Lets (fun _ => True) 0) s (.recv 0 (some lastPiece) .ok :: fourBytes 3) :=
    fun s => ⟨lets_recv 0 trivial lastPiece, fun r _ => (fourBytes_meets 3 r.1).imp fun _ _ h => h.1⟩
  obtain ⟨hquiet, hserves⟩ := request_served (E := fun _ => Env.tight) index_body noFiles_free (.of_true _)
    tight_accepts ⟨.init, rfl, rfl, rfl⟩ hfeeds rfl hpieces
  obtain ⟨⟨all, hall, hpre⟩, hend⟩ :=
    hserves _ _ _ s' o' index_served (fun h => by cases h 0) (.inl rfl) (hlets _) hr'
  have hans := tight_inserts.answers
  have hnone := (always_iff firstPiece tightServer).mp hquiet firstPiece [] _ _ (List.append_nil _).symm rfl
  refine ⟨_, _, rfl, hnone, s', o', hr', ?_, fun he => ?_⟩
  · rw [← (hall.shownAs index_data rfl rfl).eq_shown hans]
    exact hpre
  · have hends := (hend he).endsAs index_data index_last rfl rfl
    exact hends.eq_shown rfl hans

end Httpd
end Serial2Ethernet
