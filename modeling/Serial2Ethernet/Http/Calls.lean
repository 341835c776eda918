/-
# What the server does to the rest of the system

The server calls TCP, the heap and the handlers of URIs, and nothing else. What
TCP and the heap leave alone, a callback leaves alone too, whatever the state of
its connection is (`httpSendData_world`), unless it completes the request for
the URI of a handler: then it is one call of that handler with the parameters
of the URI (`step_acted`). A run faults only if such a call does (`server_safe`).
-/
import Serial2Ethernet.Http.Connections

namespace Serial2Ethernet
namespace Httpd

open Lib Lib.Scanner Fs Ssi

/-! ### Sending -/

section Sending

variable {P : Type} {E : Env P} {J : P → Prop} (hE : E.Keeps J)
include hE

theorem send_world {s s' : Sender P} {mem : List UInt8} {ptr len : ℕ} {copy : Bool} {advance : ℕ → HttpState}
    (hJ : J s.io.world) (h : send E s mem ptr len copy advance = .ok s') : J s'.io.world := by
  obtain ⟨s₁, h₁, hs₁⟩ := send_cases hE s copy advance hJ (send_bound h)
  obtain rfl := Except.ok.inj (h.symm.trans h₁)
  rcases hs₁ with ⟨n, w, rfl, -, -, hw⟩ | ⟨err, n, w, rfl, -, hw⟩
  · exact hw
  · exact hw

theorem tagLeadOut_world {s s' : Sender P} {b : UInt8} (hJ : J s.io.world) (h : tagLeadOut E s b = .ok s') :
    J s'.io.world := by
  unfold tagLeadOut at h
  split at h
  · obtain rfl := Except.ok.inj h
    exact hJ
  · split at h
    · split at h
      · dsimp only at h
        split at h
        · exact send_world hE (by exact hJ) h
        · obtain rfl := Except.ok.inj h
          exact hJ
      · obtain rfl := Except.ok.inj h
        exact hJ
    · obtain rfl := Except.ok.inj h
      exact hJ

theorem tagSending_world {s s' : Sender P} (hJ : J s.io.world) (h : tagSending E s = .ok s') : J s'.io.world := by
  unfold tagSending at h
  split at h
  · dsimp only at h
    generalize (if s.hs.tagEnd - s.hs.file < s.len then s.hs.tagEnd - s.hs.file else s.len) = len at h
    split at h
    · exact send_world hE hJ h
    · obtain rfl := Except.ok.inj h
      exact hJ
  · split at h
    · exact send_world hE hJ h
    · obtain rfl := Except.ok.inj h
      exact hJ

omit hE in
/-- A round that reads a character and no more. -/
theorem char_world {f : UInt8 → HttpState} {s s' : Sender P} (hJ : J s.io.world)
    (h : (s.hs.char.map fun b => { s with hs := f b }) = .ok s') : J s'.io.world := by
  obtain ⟨b, -, rfl⟩ := map_ok_iff.mp h
  exact hJ

theorem tagStep_world {s s' : Sender P} (hJ : J s.io.world) (h : tagStep E s = .ok s') : J s'.io.world := by
  unfold tagStep at h
  split at h
  · exact char_world hJ h
  · split at h
    · obtain rfl := Except.ok.inj h
      exact hJ
    · exact char_world hJ h
  · exact char_world hJ h
  · cases hb : s.hs.char with
    | error e =>
      rw [hb] at h
      cases h
    | ok b =>
      rw [hb] at h
      exact tagLeadOut_world hE hJ h
  · exact tagSending_world hE hJ h

theorem tagLoop_world (s : Sender P) {r : Bool} {s' : Sender P} (hJ : J s.io.world) (h : tagLoop E s = .ok (r, s')) :
    J s'.io.world := by
  induction s using tagLoop.induct E with
  | case1 s hcond hlen =>
    rw [tagLoop, dif_pos hcond, dif_pos hlen] at h
    obtain ⟨-, rfl⟩ := Prod.mk.inj (Except.ok.inj h)
    exact hJ
  | case2 s hcond hlen e hs =>
    rw [tagLoop, dif_pos hcond, dif_neg hlen] at h
    split at h
    · cases h
    · next s₂ he =>
      rw [hs] at he
      cases he
  | case3 s hcond hlen s₁ hs ih =>
    rw [tagLoop, dif_pos hcond, dif_neg hlen] at h
    split at h
    · cases h
    · next s₂ he =>
      obtain rfl := Except.ok.inj (hs.symm.trans he)
      exact ih (tagStep_world hE hJ hs) h
  | case4 s hcond =>
    rw [tagLoop, dif_neg hcond] at h
    obtain ⟨-, rfl⟩ := Prod.mk.inj (Except.ok.inj h)
    exact hJ

theorem sendScanned_world {s s' : Sender P} (hJ : J s.io.world) (h : sendScanned E s = .ok s') : J s'.io.world := by
  unfold sendScanned at h
  split at h
  · exact send_world hE hJ h
  · obtain rfl := Except.ok.inj h
    exact hJ

theorem sendLoop_world {s s' : Sender P} {r : Bool} (hJ : J s.io.world) (h : sendLoop E s = .ok (r, s')) :
    J s'.io.world := by
  unfold sendLoop at h
  split at h
  · cases h
  · next s₁ hloop =>
    obtain ⟨-, rfl⟩ := Prod.mk.inj (Except.ok.inj h)
    exact tagLoop_world hE s hJ hloop
  · next s₁ hloop =>
    obtain ⟨s₂, hs₂, he⟩ := map_ok_iff.mp h
    obtain ⟨-, rfl⟩ := Prod.mk.inj he
    exact sendScanned_world hE (tagLoop_world hE s hJ hloop) hs₂

theorem sendTags_world {s s' : Sender P} {r : Bool} (hJ : J s.io.world) (h : sendTags E s = .ok (r, s')) :
    J s'.io.world := by
  unfold sendTags at h
  dsimp only at h
  split at h
  · split at h
    · cases h
    · next s₁ hsend =>
      have hJ₁ : J s₁.io.world := send_world hE (by exact hJ) hsend
      split at h
      · obtain ⟨-, rfl⟩ := Prod.mk.inj (Except.ok.inj h)
        exact hJ₁
      · exact sendLoop_world hE hJ₁ h
  · exact sendLoop_world hE (by exact hJ) h

theorem httpCloseConn_world (hs : Option HttpState) (fs : FsMemory) {io : Io P} (hJ : J io.world) :
    J (httpCloseConn E hs fs io).2.2.world := by
  have hclose := hE.tcpClose io.world hJ
  unfold httpCloseConn
  rcases hw : E.tcpClose io.world with ⟨err, w⟩
  rw [hw] at hclose
  cases err <;> exact hclose

theorem closeAndReturn_world (hs : HttpState) (fs : FsMemory) {io : Io P} (hJ : J io.world) (ret : Bool) :
    J (closeAndReturn E hs fs io ret).io.world :=
  httpCloseConn_world hE (some hs) fs hJ

theorem allocBuf_world (count : ℕ) {w : P} (hJ : J w) : J (allocBuf E count w).2 := by
  induction count using Nat.strong_induction_on generalizing w with
  | _ count ih =>
    have hw := hE.memMalloc w count hJ
    rw [allocBuf]
    split
    · next w' halloc =>
      rwa [halloc] at hw
    · next w' halloc =>
      rw [halloc] at hw
      split
      · exact ih (count / 2) (by omega) hw
      · exact hw

/-- The state of the rest behind what is done before anything is sent. -/
def Refill.world : Refill P → P
  | .ret d => d.io.world
  | .go _ _ w => w

theorem refill_world (hs : HttpState) (fs : FsMemory) {w : P} (hJ : J w) : J (refill E hs fs w).world := by
  unfold refill
  split
  · split
    · exact closeAndReturn_world hE hs fs hJ false
    · next handle _ =>
      split
      · exact closeAndReturn_world hE hs fs hJ false
      · cases hs.buf with
        | some bufLen =>
          dsimp only
          split
          · exact closeAndReturn_world hE _ fs hJ true
          · exact hJ
        | none =>
          have hbuf := allocBuf_world hE (2 * E.tcpMss w) hJ
          dsimp only
          split
          · exact hbuf
          · split
            · exact closeAndReturn_world hE _ fs hbuf true
            · exact hbuf
  · exact hJ

/-- **A call of `http_send_data`** keeps what TCP and the heap keep. -/
theorem httpSendData_world {hs : HttpState} {fs : FsMemory} {w : P} {d : Done P} (hJ : J w)
    (h : httpSendData E hs fs w = .ok d) : J d.io.world := by
  have hfill := refill_world hE hs fs hJ
  unfold httpSendData at h
  split at h
  · next d' hret =>
    obtain rfl := Except.ok.inj h
    rwa [hret] at hfill
  · next hs' fs' w' hgo =>
    rw [hgo] at hfill
    have hsent : ∀ {r s'}, (if hs'.tagCheck then sendTags E ⟨⟨w', []⟩, hs', 0, .ok, false⟩
        else sendPlain E ⟨⟨w', []⟩, hs', 0, .ok, false⟩) = .ok (r, s') → J s'.io.world := by
      intro r s' hs
      split at hs
      · exact sendTags_world hE hfill hs
      · obtain ⟨s₁, hs₁, he⟩ := map_ok_iff.mp hs
        obtain ⟨-, rfl⟩ := Prod.mk.inj he
        exact send_world hE (by exact hfill) hs₁
    dsimp only at h
    split at h
    · cases h
    · next s' hs =>
      obtain rfl := Except.ok.inj h
      exact hsent hs
    · next s' hs =>
      have hJ' := hsent hs
      split at h
      · split at h
        · cases h
        · split at h
          · obtain rfl := Except.ok.inj h
            exact closeAndReturn_world hE _ _ hJ' false
          · obtain rfl := Except.ok.inj h
            exact hJ'
      · obtain rfl := Except.ok.inj h
        exact hJ'

end Sending

/-! ### Calls of handlers -/

section Asks

variable {P : Type}

/-- The handler that a URI is for, and the parameters it is given. -/
def handlerOf (E : Env P) (uri : List UInt8) : Option (Cgi P × List Param) :=
  if uri = text "/" then none
  else (E.gPCGIs.find? fun cgi => cgi.pcCGIName = (splitUri uri).1).map fun cgi =>
    (cgi, extractUriParameters ((splitUri uri).2.map chars))

/-- The handler that is called for the buffers `p`: that of the URI, if they complete a request. -/
def calledFor (E : Env P) (p : List (List UInt8)) : Conn → Option (Cgi P × List Param)
  | .active hs =>
    if hs.handle.isNone then
      match parseLine (requestData (hs.req ++ p)) with
      | .get uri _ => handlerOf E uri
      | _ => none
    else none
  | _ => none

/-- The handler that is called at an event. -/
def called (E : ℕ → Env P) (s : Server P) : Event P → Option (Cgi P × List Param)
  | .recv pcb (some p) .ok => calledFor (E pcb) p (s.conns pcb)
  | _ => none

/-- What a call does to the rest of the system. -/
def answer (w : P) : Option (Cgi P × List Param) → Except Fault P
  | some (cgi, ps) => (cgi.pfnCGIHandler w ps).map Prod.snd
  | none => .ok w

/-- What an event does to the rest of the system, TCP and the heap apart. -/
def acted (E : ℕ → Env P) (s : Server P) : Event P → Except Fault P
  | .world w => .ok w
  | e => answer s.world (called E s e)

variable {E : Env P} {J : P → Prop} {fsRoot : List FsdataFile} {fs : FsMemory} {hs : HttpState} {w : P}

theorem httpFindFile_answer (uri : List UInt8) (is09 : Bool) (w : P) :
    (httpFindFile E fsRoot hs uri is09 fs w).map Found.world = answer w (handlerOf E uri) := by
  unfold httpFindFile handlerOf
  dsimp only
  split
  · split
    · rfl
    · rfl
  · split
    · next cgi hfind =>
      rw [hfind]
      dsimp only [Option.map_some, answer]
      cases cgi.pfnCGIHandler w (extractUriParameters ((splitUri uri).2.map chars)) with
      | error f => rfl
      | ok r => exact congrArg Except.ok (openUri_world r.1 r.2)
    · next hfind =>
      rw [hfind]
      exact congrArg Except.ok (openUri_world uri w)

theorem httpParseRequest_answer (fsRoot : List FsdataFile) (fs : FsMemory) (hnone : hs.handle = none)
    (p : List (List UInt8)) (w : P) :
    (httpParseRequest E fsRoot p hs fs w).map (fun r => r.2.world) = answer w (calledFor E p (.active hs)) := by
  unfold httpParseRequest calledFor
  rw [if_neg (by rw [hnone]; exact Bool.false_ne_true)]
  dsimp only
  rw [if_pos (show hs.handle.isNone = true by rw [hnone]; rfl)]
  cases parseLine (requestData (hs.req ++ p)) with
  | get uri is09 =>
    have h : (httpFindFile E fsRoot { hs with req := hs.req ++ p } uri is09 fs w).map Found.world =
        answer w (handlerOf E uri) := httpFindFile_answer uri is09 w
    dsimp only
    rw [← h]
    cases httpFindFile E fsRoot { hs with req := hs.req ++ p } uri is09 fs w <;> rfl
  | unsupported => rfl
  | incomplete =>
    dsimp only
    split <;> rfl

/-- While a file is sent, no handler is called. -/
theorem calledFor_busy (hsome : hs.handle ≠ none) (p : List (List UInt8)) : calledFor E p (.active hs) = none :=
  if_neg fun h => hsome (Option.isNone_iff_eq_none.mp h)

/-- **Received data** is one call of a handler, or none. -/
theorem httpRecv_answer (hE : E.Keeps J) {p : List (List UInt8)} {r : Done P × List (List UInt8)}
    (hr : httpRecv E fsRoot (some p) .ok hs fs w = .ok r) :
    ∃ w', answer w (calledFor E p (.active hs)) = .ok w' ∧ (J w' → J r.1.io.world) := by
  unfold httpRecv at hr
  dsimp only at hr
  rcases Option.eq_none_or_eq_some hs.handle with hnone | ⟨i, hsome⟩
  · rw [if_pos (by rw [hnone]; rfl)] at hr
    have hanswer := httpParseRequest_answer (E := E) fsRoot fs hnone p w
    rw [← hanswer]
    cases hparse : httpParseRequest E fsRoot p hs fs w with
    | error f =>
      rw [hparse] at hr
      cases hr
    | ok found =>
      obtain ⟨parsed, found⟩ := found
      rw [hparse] at hr
      refine ⟨found.world, rfl, fun hJ => ?_⟩
      cases parsed with
      | ok =>
        obtain ⟨d, hd, rfl⟩ := map_ok_iff.mp hr
        exact httpSendData_world hE hJ hd
      | inprogress =>
        obtain rfl := Except.ok.inj hr
        exact hJ
      | arg =>
        obtain rfl := Except.ok.inj hr
        exact closeAndReturn_world hE _ _ hJ false
      | use =>
        obtain rfl := Except.ok.inj hr
        exact hJ
  · rw [if_neg (by rw [hsome]; exact Bool.false_ne_true)] at hr
    obtain rfl := Except.ok.inj hr
    exact ⟨w, by rw [calledFor_busy (by rw [hsome]; exact Option.some_ne_none i)]; rfl, id⟩

/-- The callback faults only if the handler does. -/
theorem httpRecv_fault (hbody : ∀ f ∈ fsRoot, HasBody f) {queued : List UInt8}
    (hinv : ConnInv E (fun _ => True) fsRoot fs hs queued) {p : List (List UInt8)} {f : Fault}
    (hr : httpRecv E fsRoot (some p) .ok hs fs w = .error f) : answer w (calledFor E p (.active hs)) = .error f := by
  unfold httpRecv at hr
  dsimp only at hr
  rcases Option.eq_none_or_eq_some hs.handle with hnone | ⟨i, hsome⟩
  · rw [if_pos (by rw [hnone]; rfl)] at hr
    have hcases : (∃ r, httpParseRequest E fsRoot p hs fs w = .ok (.ok, r) ∧
        FindsFile E (fun _ => True) fsRoot fs (hs.req ++ p) r) ∨ _ := httpParseRequest_cases hnone p
    rcases hcases with ⟨r, hparse, hfinds⟩ | ⟨f', hparse, -⟩ | hparse | hparse
    · have hsend : ∃ d, httpSendData E { r.hs with req := [] } r.fs r.world = .ok d := by
        rcases hfinds.found with ⟨job, hstarts⟩ | ⟨-, hhandle, hzero⟩
        · obtain ⟨d, hd, -⟩ := httpSendData_found (w := w) (.of_true E) hbody hinv hnone trivial hfinds hstarts 0
          exact ⟨d, hd⟩
        · exact ⟨_, httpSendData_none { r.hs with req := [] } hhandle hzero⟩
      obtain ⟨d, hd⟩ := hsend
      rw [hparse] at hr
      dsimp only at hr
      rw [hd] at hr
      cases hr
    · rw [← httpParseRequest_answer fsRoot fs hnone p w, hparse]
      rw [hparse] at hr
      dsimp only at hr
      obtain rfl := Except.error.inj hr
      rfl
    · rw [hparse] at hr
      cases hr
    · rw [hparse] at hr
      cases hr
  · rw [if_neg (by rw [hsome]; exact Bool.false_ne_true)] at hr
    cases hr

end Asks

section Steps

variable {P : Type} {E : ℕ → Env P} {J : P → Prop} {fsRoot : List FsdataFile} {s s' : Server P} {e : Event P}
  {o : List Buffer}

theorem httpAccept_world (hE : ∀ c, (E c).Keeps J) (pcb : ℕ) (hJ : J s.world) : J (httpAccept E s pcb).world := by
  have hw := (hE pcb).memMalloc s.world (E pcb).httpStateSize hJ
  unfold httpAccept
  rcases halloc : (E pcb).memMalloc s.world (E pcb).httpStateSize with ⟨ok, w⟩
  rw [halloc] at hw
  cases ok <;> exact hw

theorem httpPoll_world {E : Env P} (hE : E.Keeps J) {hs : HttpState} {fs : FsMemory} {w : P} {d : Done P} (hJ : J w)
    (h : httpPoll E hs fs w = .ok d) : J d.io.world := by
  unfold httpPoll at h
  dsimp only at h
  split at h
  · obtain rfl := Except.ok.inj h
    exact closeAndReturn_world hE _ fs hJ false
  · split at h
    · exact httpSendData_world hE hJ h
    · obtain rfl := Except.ok.inj h
      exact hJ

/-- The event is no data for the connection. -/
theorem recv_answer {E : Env P} (hE : E.Keeps J) {hs : HttpState} {fs : FsMemory} {w : P}
    {r : Done P × List (List UInt8)} {p : Option (List (List UInt8))} {err : Err} (hnone : p = none ∨ err ≠ .ok)
    (h : httpRecv E fsRoot p err hs fs w = .ok r) (hJ : J w) : J r.1.io.world := by
  have hclose : httpRecv E fsRoot p err hs fs w = .ok (closeAndReturn E hs fs ⟨w, []⟩ false, p.getD []) := by
    cases p with
    | none => rfl
    | some p => cases err with
      | ok => exact absurd rfl (hnone.resolve_left (Option.some_ne_none p))
      | mem => rfl
      | other => rfl
  obtain rfl := Except.ok.inj (hclose.symm.trans h)
  exact closeAndReturn_world hE hs fs hJ false

/-- Nothing is called for data on a connection that is closed. -/
theorem acted_ended {pcb : ℕ} (hend : (s.conns pcb).Ended) (p : Option (List (List UInt8))) (err : Err) :
    acted E s (.recv pcb p err) = .ok s.world := by
  have hcalled : called E s (.recv pcb p err) = none := by
    cases p with
    | none => rfl
    | some p => cases err with
      | ok =>
        show calledFor (E pcb) p (s.conns pcb) = none
        cases hc : s.conns pcb with
        | active hs => exact absurd hc (hend hs)
        | closing => rfl
        | closed => rfl
      | mem => rfl
      | other => rfl
  exact congrArg (answer s.world) hcalled

/-- **One step of the server** is, to the rest of the system, what the event does to it, and calls of TCP
and of the heap. -/
theorem step_acted (hE : ∀ c, (E c).Keeps J) (hs : step E fsRoot s e = .ok (s', o)) :
    ∃ w, acted E s e = .ok w ∧ (J w → J s'.world) := by
  have hput : ∀ {pcb : ℕ} {x : Except Fault (Done P)},
      x.map (fun d => (s.put pcb d, ([] : List Buffer))) = .ok (s', o) →
      (∀ d, x = .ok d → J s.world → J d.io.world) → J s.world → J s'.world := by
    intro pcb x hx hd hJ
    obtain ⟨d, rfl, he⟩ := map_ok_iff.mp hx
    obtain ⟨rfl, -⟩ := Prod.mk.inj he
    exact hd d rfl hJ
  have hstays : ∀ {w : Server P}, (Except.ok (w, ([] : List Buffer)) : Except Fault _) = .ok (s', o) → s' = w :=
    fun he => (Prod.mk.inj (Except.ok.inj he)).1.symm
  cases e with
  | world w => exact ⟨w, rfl, fun hJ => hstays hs ▸ hJ⟩
  | accept pcb =>
    refine ⟨s.world, rfl, fun hJ => ?_⟩
    unfold step at hs
    dsimp only at hs
    split at hs
    · exact hstays hs ▸ httpAccept_world hE pcb hJ
    · exact hstays hs ▸ hJ
  | recv pcb p err =>
    unfold step at hs
    dsimp only at hs
    cases hc : s.conns pcb with
    | active hs₀ =>
      rw [hc] at hs
      obtain ⟨r, hr, he⟩ := map_ok_iff.mp hs
      obtain ⟨rfl, -⟩ := Prod.mk.inj he
      cases p with
      | none => exact ⟨s.world, rfl, recv_answer (hE pcb) (.inl rfl) hr⟩
      | some p => cases err with
        | ok =>
          have hanswer := httpRecv_answer (hE pcb) hr
          rw [← hc] at hanswer
          exact hanswer
        | mem => exact ⟨s.world, rfl, recv_answer (hE pcb) (.inr Err.noConfusion) hr⟩
        | other => exact ⟨s.world, rfl, recv_answer (hE pcb) (.inr Err.noConfusion) hr⟩
    | closing =>
      rw [hc] at hs
      exact ⟨s.world, acted_ended (hc ▸ fun _ => Conn.noConfusion) p err, fun hJ => hstays hs ▸ hJ⟩
    | closed =>
      rw [hc] at hs
      exact ⟨s.world, acted_ended (hc ▸ fun _ => Conn.noConfusion) p err, fun hJ => hstays hs ▸ hJ⟩
  | sent pcb =>
    refine ⟨s.world, rfl, fun hJ => ?_⟩
    unfold step at hs
    dsimp only at hs
    split at hs
    · exact hput hs (fun d hd hJ => httpSendData_world (hE pcb) hJ hd) hJ
    · exact hstays hs ▸ hJ
  | poll pcb =>
    refine ⟨s.world, rfl, fun hJ => ?_⟩
    unfold step at hs
    dsimp only at hs
    split at hs
    · exact hput hs (fun d hd hJ => httpPoll_world (hE pcb) hJ hd) hJ
    · exact hstays hs ▸ httpCloseConn_world (hE pcb) none s.fs hJ
    · exact hstays hs ▸ hJ
  | err pcb =>
    refine ⟨s.world, rfl, fun hJ => ?_⟩
    unfold step at hs
    dsimp only at hs
    split at hs <;> exact hstays hs ▸ hJ

theorem acted_of_fault (hbody : ∀ f ∈ fsRoot, HasBody f) (h : ServerInv E fsRoot s) {f : Fault}
    (hs : step E fsRoot s e = .error f) : acted E s e = .error f := by
  rcases step_changes hbody h e with ⟨s', o, hok, -⟩ | ⟨pcb, p, f', rfl, -, -⟩
  · rw [hs] at hok
    cases hok
  · unfold step at hs
    dsimp only at hs
    show answer s.world (calledFor (E pcb) p (s.conns pcb)) = .error f
    cases hc : s.conns pcb with
    | active hs₀ =>
      rw [hc] at hs
      dsimp only at hs
      cases hr : httpRecv (E pcb) fsRoot (some p) .ok hs₀ s.fs s.world with
      | ok r =>
        rw [hr] at hs
        cases hs
      | error f' =>
        rw [hr] at hs
        obtain rfl := Except.error.inj hs
        exact httpRecv_fault hbody (h.conn pcb hs₀ hc) hr
    | closing =>
      rw [hc] at hs
      cases hs
    | closed =>
      rw [hc] at hs
      cases hs

/-- What is no call of a handler does not fault. -/
theorem called_of_fault (hbody : ∀ f ∈ fsRoot, HasBody f) (h : ServerInv E fsRoot s) {f : Fault}
    (hs : step E fsRoot s e = .error f) :
    ∃ cgi ps, called E s e = some (cgi, ps) ∧ cgi.pfnCGIHandler s.world ps = .error f := by
  have hacted := acted_of_fault hbody h hs
  have hanswer : answer s.world (called E s e) = .error f := by
    cases e with
    | world w => cases hacted
    | _ => exact hacted
  cases hcalled : called E s e with
  | none =>
    rw [hcalled] at hanswer
    cases hanswer
  | some k =>
    obtain ⟨cgi, ps⟩ := k
    rw [hcalled] at hanswer
    refine ⟨cgi, ps, rfl, ?_⟩
    cases hcgi : cgi.pfnCGIHandler s.world ps with
    | error f' =>
      rw [answer, hcgi] at hanswer
      exact congrArg Except.error (Except.error.inj hanswer)
    | ok r =>
      rw [answer, hcgi] at hanswer
      cases hanswer

/-- **The server does not fault.** From the start, any callbacks in any order come to their end, with
the invariant kept, unless a request is completed and the handler for its URI faults, as the rest of
the system is then, on the parameters of the URI. -/
theorem server_safe {as : List (Event P)} {w : P} {fs : FsMemory} (hbody : ∀ f ∈ fsRoot, HasBody f)
    (hfree : ∀ i, (fs i).inuse = false) :
    (∃ s o, run (step E fsRoot) (Server.init w fs) as = .ok (s, o) ∧ ServerInv E fsRoot s) ∨
      ∃ pre e post s o cgi ps f, as = pre ++ e :: post ∧ run (step E fsRoot) (Server.init w fs) pre = .ok (s, o) ∧
        called E s e = some (cgi, ps) ∧ cgi.pfnCGIHandler s.world ps = .error f ∧
        run (step E fsRoot) (Server.init w fs) as = .error f := by
  have hinit := init_inv E fsRoot w hfree
  cases hr : run (step E fsRoot) (Server.init w fs) as with
  | ok r => exact .inl ⟨r.1, r.2, rfl, run_inv hbody as hinit hr⟩
  | error f =>
    obtain ⟨pre, e, post, s, o, rfl, hpre, hstep⟩ := run_error_iff.mp hr
    obtain ⟨cgi, ps, hcalled, hfault⟩ := called_of_fault hbody (run_inv hbody pre hinit hpre) hstep
    exact .inr ⟨pre, e, post, s, o, cgi, ps, f, rfl, hpre, hcalled, hfault, rfl⟩

end Steps

/-- A handler that needs a parameter. -/
def Env.needy : Env Unit :=
  { Env.roomy with gPCGIs := [⟨text "/a", fun _ ps => if ps = [] then .error .null else .ok (text "/", ())⟩] }

/-- A client requests a URI. -/
def requests (uri : String) : List (Event Unit) :=
  [.accept 0, .recv 0 (some [text "GET ", text uri, text " HTTP/1.0\r\n"]) .ok]

def needyStep : Server Unit → Event Unit → Except Fault (Server Unit × List Buffer) :=
  step (fun _ => Env.needy) [plainFile]

/-- With a parameter the run comes to its end, and without one the handler faults. -/
theorem server_safe_small :
    (∃ s o, run needyStep (Server.init () noFiles) (requests "/a?b=c") = .ok (s, o) ∧
      ServerInv (fun _ => Env.needy) [plainFile] s) ∧
    ∃ pre e post s o cgi ps f, requests "/a" = pre ++ e :: post ∧
      run needyStep (Server.init () noFiles) pre = .ok (s, o) ∧ called (fun _ => Env.needy) s e = some (cgi, ps) ∧
      cgi.pfnCGIHandler s.world ps = .error f ∧
      run needyStep (Server.init () noFiles) (requests "/a") = .error f := by
  have hends : (run needyStep (Server.init () noFiles) (requests "/a?b=c")).toOption.isSome = true := by
    decide +kernel
  have hfaults : (run needyStep (Server.init () noFiles) (requests "/a")).toOption.isSome = false := by
    decide +kernel
  constructor
  · rcases server_safe (E := fun _ => Env.needy) (w := ()) plain_body noFiles_free with
      h | ⟨_, _, _, _, _, _, _, f, -, -, -, -, hr⟩
    · exact h
    · rw [needyStep, hr] at hends
      cases hends
  · rcases server_safe (E := fun _ => Env.needy) (w := ()) plain_body noFiles_free with ⟨s, o, hr, -⟩ | h
    · rw [needyStep, hr] at hfaults
      cases hfaults
    · exact h

end Httpd
end Serial2Ethernet
