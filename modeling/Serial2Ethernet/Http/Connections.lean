/-
# Runs of the server

In every run of callbacks on any connections, in any order, with any behaviour
of TCP in between, the slots of the table of open files in use are those of the
connections that have a file open, and each connection waits for its request or
is busy with a file (`step_changes`, `slots_held`). The handlers of the URIs are
the only part of the server that may fault (`run_faults`).
-/
import Serial2Ethernet.Lib.Slots
import Serial2Ethernet.Http.Callback

namespace Serial2Ethernet
namespace Httpd

open Lib Lib.Scanner Fs Ssi

def Event.pcb {P : Type} : Event P → Option ℕ
  | .accept pcb => some pcb
  | .recv pcb _ _ => some pcb
  | .sent pcb => some pcb
  | .poll pcb => some pcb
  | .err pcb => some pcb
  | .world _ => none

def Buffer.pcb : Buffer → ℕ
  | .taken pcb _ => pcb
  | .freed pcb _ => pcb

section Server

variable {P : Type} {E : ℕ → Env P} {fsRoot : List FsdataFile} {s s' : Server P} {e : Event P}
  {o : List Buffer} {c pcb : ℕ} {d : Done P}

structure ServerInv (E : ℕ → Env P) (fsRoot : List FsdataFile) (s : Server P) : Prop where
  slots : Owned (fun i => (s.fs i).inuse = true) fun c => (s.conns c).handle
  conn : ∀ c hs, s.conns c = .active hs → ConnInv (E c) (fun _ => True) fsRoot s.fs hs (s.queued c)

/-- What one event does to a connection: nothing, or it is accepted, or there is a callback on it,
or it is tried again to close it. -/
inductive Changes (E : ℕ → Env P) (fsRoot : List FsdataFile) (s : Server P) (e : Event P)
    (s' : Server P) (o : List Buffer) (c : ℕ) : Prop
  | same : (e.pcb = some c → (s.conns c).Ended ∨ e = .accept c) → s'.conns c = s.conns c →
      s'.queued c = s.queued c → (∀ i, (s.conns c).handle = some i → s'.fs i = s.fs i) → (∀ b ∈ o, b.pcb ≠ c) →
      Changes E fsRoot s e s' o c
  | accepted : e = .accept c → s.conns c = .closed → s'.conns c = .active .init → s'.queued c = [] → o = [] →
      Changes E fsRoot s e s' o c
  | called {hs : HttpState} {freed : List (List UInt8)} {d : Done P} : s.conns c = .active hs → e.pcb = some c →
      s'.conns c = d.conn → s'.queued c = s.queued c ++ d.io.sent → s'.fs = d.fs →
      o = e.taken.map (.taken c) ++ freed.map (.freed c) →
      Returns (E c) (fun _ => True) fsRoot s.fs hs (s.queued c) s.world c e freed d → Changes E fsRoot s e s' o c
  | closing : s.conns c = .closing → s'.conns c = .closing ∨ s'.conns c = .closed → s'.queued c = s.queued c →
      o = [] → Changes E fsRoot s e s' o c

/-- An open connection, its file and what was sent on it are left alone by callbacks on the others. -/
theorem Changes.other (hch : Changes E fsRoot s e s' o c) (hp : e.pcb ≠ some c) {hs : HttpState}
    (hc : s.conns c = .active hs) :
    s'.conns c = .active hs ∧ s'.queued c = s.queued c ∧ ∀ i, hs.handle = some i → s'.fs i = s.fs i := by
  cases hch with
  | same _ hconn hqueued hfs _ => exact ⟨hconn.trans hc, hqueued, fun i hi => hfs i (by rw [hc]; exact hi)⟩
  | accepted he => exact absurd (congrArg Event.pcb he) hp
  | called _ he => exact absurd he hp
  | closing hclosing =>
    rw [hc] at hclosing
    cases hclosing

/-! ### One step -/

theorem put_other (d : Done P) (hc : c ≠ pcb) :
    (s.put pcb d).conns c = s.conns c ∧ (s.put pcb d).queued c = s.queued c :=
  ⟨Function.update_of_ne hc .., Function.update_of_ne hc ..⟩

theorem put_conn (d : Done P) : (s.put pcb d).conns pcb = d.conn := Function.update_self ..

theorem put_queued (d : Done P) : (s.put pcb d).queued pcb = s.queued pcb ++ d.io.sent := Function.update_self ..

theorem put_handle (s : Server P) (pcb : ℕ) (d : Done P) :
    (fun c => ((s.put pcb d).conns c).handle) = Function.update (fun c => (s.conns c).handle) pcb d.conn.handle := by
  funext c
  by_cases hc : c = pcb
  · subst hc
    rw [Function.update_self, put_conn]
  · rw [Function.update_of_ne hc, (put_other d hc).1]

/-- A callback leaves the files of the other connections alone. -/
theorem moves_other (h : ServerInv E fsRoot s) (hm : Moves s.fs d.fs (s.conns pcb).handle d.conn.handle)
    (hc : c ≠ pcb) {k : Fin lwipMaxOpenFiles} (hk : (s.conns c).handle = some k) : d.fs k = s.fs k := by
  have hused : (s.fs k).inuse = true := (h.slots.used_iff k).mpr ⟨c, hk⟩
  generalize hb : (s.conns pcb).handle = before at hm
  generalize d.conn.handle = behind at hm
  cases hm with
  | stay hs => exact (hs k).2 hused
  | @give i _ hs =>
    have hki : k ≠ i := fun he => hc (h.slots.inj c pcb k hk (he ▸ hb))
    exact (hs k hki).2 hused
  | @take i hfree _ hs =>
    have hki : k ≠ i := fun he => by rw [he, hfree] at hused; cases hused
    exact (hs k hki).2 hused

/-- The slots after a callback. -/
theorem moves_slots (h : ServerInv E fsRoot s) (hm : Moves s.fs d.fs (s.conns pcb).handle d.conn.handle) :
    Owned (fun i => (d.fs i).inuse = true) (Function.update (fun c => (s.conns c).handle) pcb d.conn.handle) := by
  have hiff : ∀ {k}, Same s.fs d.fs k → ((d.fs k).inuse = true ↔ (s.fs k).inuse = true) := fun hs => by rw [hs.1]
  generalize hb : (s.conns pcb).handle = before at hm
  generalize ha : d.conn.handle = behind at hm
  cases hm with
  | stay hs =>
    rw [← hb, Function.update_eq_self]
    refine ⟨fun k => ?_, h.slots.inj⟩
    rw [hiff (hs k)]
    exact h.slots.used_iff k
  | give hout hs =>
    exact h.slots.give hb (by rw [hout]; exact Bool.false_ne_true) fun k hk => hiff (hs k hk)
  | take hfree hin hs =>
    exact h.slots.take (by rw [hfree]; exact Bool.false_ne_true) hb hin fun k hk => hiff (hs k hk)

/-- A connection that nothing is done to keeps its invariant. -/
theorem ConnInv.frame {E : Env P} {J : P → Prop} {fs fs' : FsMemory} {hs : HttpState} {queued : List UInt8}
    (h : ConnInv E J fsRoot fs hs queued) (hfs : ∀ i, hs.handle = some i → fs' i = fs i) :
    ConnInv E J fsRoot fs' hs queued := by
  refine ⟨h.retries, h.phase.imp_right ?_⟩
  rintro ⟨job, ⟨i, hi, hfile⟩, hroot, hreq, hserves⟩
  exact ⟨job, ⟨i, hi, (hfs i hi).trans hfile⟩, hroot, hreq, hserves⟩

/-- What is kept when the connection `pcb` is changed by a callback. -/
theorem ServerInv.put (h : ServerInv E fsRoot s)
    (hm : Moves s.fs d.fs (s.conns pcb).handle d.conn.handle)
    (hconn : ∀ hs', d.conn = .active hs' →
      ConnInv (E pcb) (fun _ => True) fsRoot d.fs hs' (s.queued pcb ++ d.io.sent)) :
    ServerInv E fsRoot (s.put pcb d) := by
  refine ⟨?_, fun c hs hc => ?_⟩
  · rw [put_handle]
    exact moves_slots h hm
  · by_cases hcp : c = pcb
    · subst hcp
      rw [put_queued]
      exact hconn hs ((put_conn d).symm.trans hc)
    · rw [(put_other d hcp).1] at hc
      rw [(put_other d hcp).2]
      exact (h.conn c hs hc).frame fun i hi => moves_other h hm hcp (by rw [hc]; exact hi)

/-- A callback that returns. -/
theorem called_changes (h : ServerInv E fsRoot s) {hs : HttpState} {freed : List (List UInt8)}
    (hc : s.conns pcb = .active hs) (he : e.pcb = some pcb)
    (hret : Returns (E pcb) (fun _ => True) fsRoot s.fs hs (s.queued pcb) s.world pcb e freed d) (c : ℕ) :
    Changes E fsRoot s e (s.put pcb d) (e.taken.map (.taken pcb) ++ freed.map (.freed pcb)) c := by
  have hm : Moves s.fs d.fs (s.conns pcb).handle d.conn.handle := hc ▸ hret.moves
  by_cases hcp : c = pcb
  · subst hcp
    exact .called hc he (put_conn d) (put_queued d) rfl rfl hret
  · refine .same (fun hp => absurd (Option.some.inj (hp.symm.trans he)) hcp) (put_other d hcp).1 (put_other d hcp).2
      (fun i hi => moves_other h hm hcp hi) fun b hb => ?_
    rcases List.mem_append.mp hb with hb | hb <;> obtain ⟨p, -, rfl⟩ := List.mem_map.mp hb <;> exact Ne.symm hcp

/-- An event that does nothing. -/
theorem same_changes (he : e.pcb = some pcb) (hc : (s.conns pcb).Ended ∨ e = .accept pcb) (c : ℕ) :
    Changes E fsRoot s e s [] c := by
  refine .same (fun hp => ?_) rfl rfl (fun _ _ => rfl) nofun
  obtain rfl := Option.some.inj (he.symm.trans hp)
  exact hc

/-- A connection is tried again to close, or is gone. -/
theorem closing_changes (h : ServerInv E fsRoot s) (he : e.pcb = some pcb) (hc : s.conns pcb = .closing) {conn : Conn}
    (hconn : conn = .closing ∨ conn = .closed) (w : P) (ret : Bool) :
    ServerInv E fsRoot (s.put pcb ⟨conn, s.fs, ⟨w, []⟩, ret⟩) ∧
      ∀ c, Changes E fsRoot s e (s.put pcb ⟨conn, s.fs, ⟨w, []⟩, ret⟩) [] c := by
  have hhandle : conn.handle = (s.conns pcb).handle := by
    rw [hc]
    rcases hconn with rfl | rfl <;> rfl
  have hm : Moves s.fs s.fs (s.conns pcb).handle conn.handle := by
    rw [hhandle]
    exact .stay fun _ => .of_eq rfl
  refine ⟨h.put hm fun hs' he => ?_, fun c => ?_⟩
  · rcases hconn with rfl | rfl <;> cases he
  · by_cases hcp : c = pcb
    · subst hcp
      refine .closing hc (hconn.imp (put_conn _).trans (put_conn _).trans) ?_ rfl
      rw [put_queued, List.append_nil]
    · exact .same (fun hp => absurd (Option.some.inj (hp.symm.trans he)) hcp) (put_other _ hcp).1 (put_other _ hcp).2
        (fun _ _ => rfl) nofun

theorem httpAccept_changes (h : ServerInv E fsRoot s) (hc : s.conns pcb = .closed) :
    ServerInv E fsRoot (httpAccept E s pcb) ∧ ∀ c, Changes E fsRoot s (.accept pcb) (httpAccept E s pcb) [] c := by
  unfold httpAccept
  rcases (E pcb).memMalloc s.world (E pcb).httpStateSize with ⟨ok, w⟩
  cases ok with
  | false =>
    refine ⟨⟨h.slots, h.conn⟩, fun c => .same (fun hp => .inr ?_) rfl rfl (fun _ _ => rfl) nofun⟩
    rw [Option.some.inj hp]
  | true =>
    refine ⟨⟨h.slots.congr fun c => ?_, fun c hs he => ?_⟩, fun c => ?_⟩
    · by_cases hcp : c = pcb
      · subst hcp
        dsimp only
        rw [Function.update_self, hc]
        rfl
      · dsimp only
        rw [Function.update_of_ne hcp]
    · dsimp only at he ⊢
      by_cases hcp : c = pcb
      · subst hcp
        rw [Function.update_self] at he ⊢
        obtain rfl := Conn.active.inj he
        exact ⟨zero_lt_retries, .inl ⟨rfl, rfl, rfl⟩⟩
      · rw [Function.update_of_ne hcp] at he ⊢
        exact h.conn c hs he
    · by_cases hcp : c = pcb
      · subst hcp
        exact .accepted rfl hc (Function.update_self ..) (Function.update_self ..) rfl
      · exact .same (fun hp => absurd (Option.some.inj hp).symm hcp) (Function.update_of_ne hcp ..)
          (Function.update_of_ne hcp ..) (fun _ _ => rfl) nofun

section Steps

variable (hbody : ∀ f ∈ fsRoot, HasBody f)
include hbody

/-- **A callback on one connection**, whatever is known of the texts that were inserted on it. -/
theorem step_called {J : P → Prop} (hE : (E c).Keeps J) {hs : HttpState} (hc : s.conns c = .active hs)
    (hinv : ConnInv (E c) J fsRoot s.fs hs (s.queued c)) (hJ : J s.world) (hp : e.pcb = some c) (hne : e ≠ .accept c)
    (hkeep : ∀ p err r, e = .recv c (some p) err →
      httpParseRequest (E c) fsRoot p hs s.fs s.world = .ok (.ok, r) → J r.world) :
    (∃ freed d, step E fsRoot s e = .ok (s.put c d, e.taken.map (.taken c) ++ freed.map (.freed c)) ∧
      Returns (E c) J fsRoot s.fs hs (s.queued c) s.world c e freed d) ∨
    ∃ p f, e = .recv c (some p) .ok ∧ step E fsRoot s e = .error f ∧ CgiFaults (E c) f := by
  cases e with
  | world w => cases hp
  | accept pcb =>
    obtain rfl := Option.some.inj hp
    exact absurd rfl hne
  | recv pcb p err =>
    obtain rfl := Option.some.inj hp
    unfold step
    dsimp only
    rw [hc]
    dsimp only
    rcases httpRecv_returns hE hbody hJ hinv p err pcb (fun q hq r => hkeep q err r (by rw [hq])) with
      ⟨r, hr, hret⟩ | ⟨f, hr, hf⟩
    · rw [hr]
      exact .inl ⟨r.2, r.1, rfl, hret⟩
    · have hshape : ∃ q, p = some q ∧ err = .ok := by
        cases p with
        | none => cases hr
        | some q => cases err with
          | ok => exact ⟨q, rfl, rfl⟩
          | mem => cases hr
          | other => cases hr
      rw [hr]
      obtain ⟨q, rfl, rfl⟩ := hshape
      exact .inr ⟨q, f, rfl, rfl, hf⟩
  | sent pcb =>
    obtain rfl := Option.some.inj hp
    obtain ⟨d, hd, hret⟩ := httpSent_returns hE hbody hJ hinv pcb
    unfold step
    dsimp only
    rw [hc]
    dsimp only
    rw [hd]
    exact .inl ⟨[], d, rfl, hret⟩
  | poll pcb =>
    obtain rfl := Option.some.inj hp
    obtain ⟨d, hd, hret⟩ := httpPoll_returns hE hbody hJ hinv pcb
    unfold step
    dsimp only
    rw [hc]
    dsimp only
    rw [hd]
    exact .inl ⟨[], d, rfl, hret⟩
  | err pcb =>
    obtain rfl := Option.some.inj hp
    unfold step
    dsimp only
    rw [hc]
    exact .inl ⟨[], httpErr hs s.fs s.world, rfl, httpErr_returns hJ pcb⟩

/-- **One step of the server** keeps the invariant, and changes each connection in one of the ways
there are, unless the handler of a URI faults. -/
theorem step_changes (h : ServerInv E fsRoot s) (e : Event P) :
    (∃ s' o, step E fsRoot s e = .ok (s', o) ∧ ServerInv E fsRoot s' ∧ ∀ c, Changes E fsRoot s e s' o c) ∨
      ∃ pcb p f, e = .recv pcb (some p) .ok ∧ step E fsRoot s e = .error f ∧ CgiFaults (E pcb) f := by
  have hquiet : ∀ {pcb}, e.pcb = some pcb → (s.conns pcb).Ended ∨ e = .accept pcb →
      ServerInv E fsRoot s ∧ ∀ c, Changes E fsRoot s e s [] c := fun hp hc => ⟨h, same_changes hp hc⟩
  have hactive : ∀ {pcb hs}, s.conns pcb = .active hs → e.pcb = some pcb → e ≠ .accept pcb →
      (∃ s' o, step E fsRoot s e = .ok (s', o) ∧ ServerInv E fsRoot s' ∧ ∀ c, Changes E fsRoot s e s' o c) ∨
      ∃ pcb p f, e = .recv pcb (some p) .ok ∧ step E fsRoot s e = .error f ∧ CgiFaults (E pcb) f := by
    intro pcb hs hc hp hne
    rcases step_called hbody (.of_true (E pcb)) hc (h.conn pcb hs hc) trivial hp hne (fun _ _ _ _ _ => trivial) with
      ⟨freed, d, hstep, hret⟩ | ⟨p, f, he, hstep, hf⟩
    · exact .inl ⟨_, _, hstep, h.put (hc ▸ hret.moves) hret.conn, called_changes h hc hp hret⟩
    · exact .inr ⟨pcb, p, f, he, hstep, hf⟩
  cases e with
  | world w => exact .inl ⟨_, _, rfl, ⟨h.slots, h.conn⟩, fun c => .same nofun rfl rfl (fun _ _ => rfl) nofun⟩
  | accept pcb =>
    unfold step
    dsimp only
    cases hc : s.conns pcb with
    | closed => exact .inl ⟨_, _, rfl, httpAccept_changes h hc⟩
    | active hs => exact .inl ⟨_, _, rfl, hquiet rfl (.inr rfl)⟩
    | closing => exact .inl ⟨_, _, rfl, hquiet rfl (.inr rfl)⟩
  | recv pcb p err =>
    cases hc : s.conns pcb with
    | active hs => exact hactive hc rfl nofun
    | closing => exact .inl ⟨s, [], by rw [step, hc], hquiet rfl (.inl (hc ▸ nofun))⟩
    | closed => exact .inl ⟨s, [], by rw [step, hc], hquiet rfl (.inl (hc ▸ nofun))⟩
  | sent pcb =>
    cases hc : s.conns pcb with
    | active hs => exact hactive hc rfl nofun
    | closing => exact .inl ⟨s, [], by rw [step, hc], hquiet rfl (.inl (hc ▸ nofun))⟩
    | closed => exact .inl ⟨s, [], by rw [step, hc], hquiet rfl (.inl (hc ▸ nofun))⟩
  | poll pcb =>
    cases hc : s.conns pcb with
    | active hs => exact hactive hc rfl nofun
    | closing =>
      unfold step
      dsimp only
      rw [hc]
      dsimp only
      unfold httpCloseConn
      rcases (E pcb).tcpClose s.world with ⟨err, w⟩
      cases err with
      | ok => exact .inl ⟨_, _, rfl, closing_changes h rfl hc (.inr rfl) w false⟩
      | mem => exact .inl ⟨_, _, rfl, closing_changes h rfl hc (.inl rfl) w false⟩
      | other => exact .inl ⟨_, _, rfl, closing_changes h rfl hc (.inl rfl) w false⟩
    | closed => exact .inl ⟨s, [], by rw [step, hc], hquiet rfl (.inl (hc ▸ nofun))⟩
  | err pcb =>
    cases hc : s.conns pcb with
    | active hs => exact hactive hc rfl nofun
    | closing =>
      unfold step
      dsimp only
      rw [hc]
      exact .inl ⟨_, _, rfl, closing_changes h rfl hc (.inr rfl) s.world false⟩
    | closed => exact .inl ⟨s, [], by rw [step, hc], hquiet rfl (.inl (hc ▸ nofun))⟩

/-- A step that does not fault. -/
theorem step_ok (h : ServerInv E fsRoot s) (hs : step E fsRoot s e = .ok (s', o)) :
    ServerInv E fsRoot s' ∧ ∀ c, Changes E fsRoot s e s' o c := by
  rcases step_changes hbody h e with ⟨s₁, o₁, h₁, hinv, hch⟩ | ⟨_, _, _, -, h₁, -⟩
  · rw [hs] at h₁
    obtain ⟨rfl, rfl⟩ := Prod.mk.inj (Except.ok.inj h₁)
    exact ⟨hinv, hch⟩
  · rw [hs] at h₁
    cases h₁

end Steps

/-! ### Runs -/

section Runs

variable {as : List (Event P)} {w : P} {fs : FsMemory} (hbody : ∀ f ∈ fsRoot, HasBody f)

/-- At first no connection is open, and no file. -/
theorem init_inv (E : ℕ → Env P) (fsRoot : List FsdataFile) (w : P) (hfree : ∀ i, (fs i).inuse = false) :
    ServerInv E fsRoot (Server.init w fs) :=
  ⟨.init (fun i => by rw [Server.init, hfree]; exact Bool.false_ne_true) fun _ => rfl, nofun⟩

include hbody

theorem run_inv (as : List (Event P)) {s s' : Server P} {o : List Buffer} (h : ServerInv E fsRoot s)
    (hr : run (step E fsRoot) s as = .ok (s', o)) : ServerInv E fsRoot s' :=
  run_keeps (fun _ _ _ _ hs hstep => (step_ok hbody hs hstep).1) as h hr

theorem run_faults : ∀ (as : List (Event P)) {s : Server P}, ServerInv E fsRoot s →
    (∃ s' o, run (step E fsRoot) s as = .ok (s', o) ∧ ServerInv E fsRoot s') ∨
      ∃ pcb p f, Event.recv pcb (some p) .ok ∈ as ∧ run (step E fsRoot) s as = .error f ∧ CgiFaults (E pcb) f
  | [], s, h => .inl ⟨s, [], rfl, h⟩
  | e :: as, s, h => by
    rcases step_changes hbody h e with ⟨s₁, o₁, h₁, hinv, -⟩ | ⟨pcb, p, f, rfl, h₁, hf⟩
    · rcases run_faults as hinv with ⟨s', o, hr, hinv'⟩ | ⟨pcb, p, f, hmem, hr, hf⟩
      · exact .inl ⟨s', o₁ ++ o, run_cons_ok.mpr ⟨s₁, o₁, o, h₁, hr, rfl⟩, hinv'⟩
      · refine .inr ⟨pcb, p, f, List.mem_cons_of_mem _ hmem, ?_, hf⟩
        rw [run_cons h₁, hr]
        rfl
    · exact .inr ⟨pcb, p, f, List.mem_cons_self, run_cons_error h₁ as, hf⟩

/-- **The table of open files.** In every state that is reached from the start, a slot is in use
exactly if one connection has its file open there, and no two connections have theirs in one slot. -/
theorem slots_held (hfree : ∀ i, (fs i).inuse = false)
    (hr : run (step E fsRoot) (Server.init w fs) as = .ok (s, o)) (i : Fin lwipMaxOpenFiles) :
    ((s.fs i).inuse = true ↔ ∃! c, (s.conns c).handle = some i) ∧
      ∀ c c', (s.conns c).handle = some i → (s.conns c').handle = some i → c = c' := by
  have hinv := run_inv hbody as (init_inv E fsRoot w hfree) hr
  refine ⟨?_, fun c c' hc hc' => hinv.slots.inj c c' i hc hc'⟩
  rw [hinv.slots.used_iff]
  constructor
  · rintro ⟨c, hc⟩
    exact ⟨c, hc, fun c' hc' => hinv.slots.inj c' c i hc' hc⟩
  · rintro ⟨c, hc, -⟩
    exact ⟨c, hc⟩

end Runs

end Server

/-! ### The small server -/

theorem index_body : ∀ f ∈ [indexFile], HasBody f := by
  intro f hf
  obtain rfl := List.mem_singleton.mp hf
  have hnone : strnstr (crlf ++ crlf) indexFile.data indexFile.data.length = none := by decide
  refine ⟨by decide, fun k hk => ?_⟩
  rw [hnone] at hk
  cases hk

theorem plain_body : ∀ f ∈ [plainFile], HasBody f := by
  intro f hf
  obtain rfl := List.mem_singleton.mp hf
  refine ⟨by decide, fun k hk => ?_⟩
  have hfound : strnstr (crlf ++ crlf) plainFile.data plainFile.data.length = some 15 := by decide
  obtain rfl := Option.some.inj (hfound.symm.trans hk)
  decide

/-- Without handlers nothing faults. -/
theorem run_plain {P : Type} {E : ℕ → Env P} {fsRoot : List FsdataFile} (hbody : ∀ f ∈ fsRoot, HasBody f)
    (hno : ∀ c, (E c).gPCGIs = []) {s : Server P} (h : ServerInv E fsRoot s) (as : List (Event P)) :
    ∃ s' o, run (step E fsRoot) s as = .ok (s', o) := by
  rcases run_faults hbody as h with ⟨s', o, hr, -⟩ | ⟨pcb, _, _, -, -, cgi, hcgi, -⟩
  · exact ⟨s', o, hr⟩
  · rw [hno pcb] at hcgi
    exact absurd hcgi List.not_mem_nil

theorem noFiles_free (i : Fin lwipMaxOpenFiles) : (noFiles i).inuse = false := rfl

theorem roomy_init (fsRoot : List FsdataFile) : ServerInv (fun _ => Env.roomy) fsRoot (Server.init () noFiles) :=
  init_inv (fun _ => Env.roomy) fsRoot () noFiles_free

/-- TCP has taken four bytes of the file, and the slot is in use. -/
theorem slots_held_small : ∃ s o,
    run (step (fun _ => Env.tight) [plainFile]) (Server.init 4 noFiles)
      [.accept 0, .accept 1, .recv 1 (some indexRequest) .ok] = .ok (s, o) ∧
    s.queued 1 = text "HTTP" ∧ (∃! c, (s.conns c).handle = some 0) ∧
      ∀ c c', (s.conns c).handle = some 0 → (s.conns c').handle = some 0 → c = c' := by
  have hlooks : (run (step (fun _ => Env.tight) [plainFile]) (Server.init 4 noFiles)
      [.accept 0, .accept 1, .recv 1 (some indexRequest) .ok]).toOption.map
        (fun r => (r.1.queued 1, (r.1.fs 0).inuse)) = some (text "HTTP", true) := by decide +kernel
  obtain ⟨s, o, hr, hobserved⟩ := run_observed _ hlooks
  obtain ⟨hqueued, hinuse⟩ := Prod.mk.inj hobserved
  obtain ⟨hiff, hinj⟩ := slots_held plain_body noFiles_free hr 0
  exact ⟨s, o, hr, hqueued, hiff.mp hinuse, hinj⟩

end Httpd
end Serial2Ethernet
