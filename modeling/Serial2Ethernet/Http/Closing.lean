/-
# How connections end

A connection is closed because the other side has closed it or an error has
come, because it was polled four times with nothing acknowledged in between,
because its request cannot be served, or because all of a file has been sent;
nothing else closes one (`closed_cause`). One on which nothing is acknowledged
and no file is opened is gone by its fourth poll (`idle_closed`).

The buffers of a request are given back when the request is complete. What
comes in while a file is sent is not, nor is what there is of a request when
the connection is closed: `buffers_returned` says that these are the only
buffers the server does not free.
-/
import Serial2Ethernet.Http.Pages

namespace Serial2Ethernet
namespace Httpd

open Lib Fs

section Runs

variable {P : Type} {E : ℕ → Env P} {fsRoot : List FsdataFile} {s s' : Server P} {e : Event P}
  {o o' : List Buffer} {c : ℕ} {as : List (Event P)} {w : P} {fs : FsMemory}

/-! ### Polls -/

def Event.isPoll (c : ℕ) : Event P → Bool
  | .poll pcb => pcb = c
  | _ => false

/-- How often the connection was polled. -/
def polls (c : ℕ) (as : List (Event P)) : ℕ := as.countP (Event.isPoll c)

/-- Nothing is acknowledged on the connection, and no file is opened for it. -/
def Quiet (E : ℕ → Env P) (fsRoot : List FsdataFile) (c : ℕ) (s : Server P) (e : Event P) : Prop :=
  e ≠ .sent c ∧ e ≠ .accept c ∧ ∀ r ∈ (step E fsRoot s e).toOption,
    (r.1.conns c).handle.isSome = true → (s.conns c).handle.isSome = true

theorem httpCloseConn_handle (E : Env P) (hs : Option HttpState) (fs : FsMemory) (io : Io P) :
    (httpCloseConn E hs fs io).1.handle = none := by
  unfold httpCloseConn
  rcases E.tcpClose io.world with ⟨err, w⟩
  cases err <;> rfl

/-- A poll opens no file. -/
theorem poll_quiet (E : ℕ → Env P) (fsRoot : List FsdataFile) (c : ℕ) (s : Server P) :
    Quiet E fsRoot c s (.poll c) := by
  refine ⟨nofun, nofun, fun r hr hsome => ?_⟩
  unfold step at hr
  dsimp only at hr
  cases hc : s.conns c with
  | active hs =>
    show hs.handle.isSome = true
    by_contra hnone
    rw [hc] at hr
    unfold httpPoll at hr
    dsimp only at hr
    rw [if_neg hnone] at hr
    split at hr <;> obtain rfl := Option.some.inj hr <;> rw [put_conn] at hsome
    · unfold closeAndReturn at hsome
      rw [httpCloseConn_handle] at hsome
      cases hsome
    · exact hnone hsome
  | closing =>
    rw [hc] at hr
    obtain rfl := Option.some.inj hr
    rw [put_conn, httpCloseConn_handle] at hsome
    cases hsome
  | closed =>
    rw [hc] at hr
    obtain rfl := Option.some.inj hr
    rwa [hc] at hsome

theorem polls_cons (c : ℕ) (e : Event P) (as : List (Event P)) : polls c (e :: as) = polls c [e] + polls c as := by
  unfold polls
  rw [← List.singleton_append, List.countP_append]

/-- A poll is one of the connection of the event. -/
theorem polls_of_pcb (hp : e.pcb = some c) : polls c [e] = e.polls.toNat := by
  cases e with
  | poll pcb =>
    obtain rfl := Option.some.inj hp
    show List.countP _ _ = 1
    rw [List.countP_singleton]
    exact if_pos (decide_eq_true rfl)
  | _ => rfl

theorem polls_of_ne (hp : e.pcb ≠ some c) : polls c [e] = 0 := by
  cases e with
  | poll pcb =>
    unfold polls
    rw [List.countP_singleton]
    exact if_neg fun hd => hp (congrArg some (of_decide_eq_true hd))
  | _ => rfl

/-- A connection that goes on counts its polls. -/
theorem step_polls (h : ServerInv E fsRoot s) (hq : Quiet E fsRoot c s e) (hs : step E fsRoot s e = .ok (s', o))
    (hch : Changes E fsRoot s e s' o c) {hs₁ : HttpState} (hactive : s'.conns c = .active hs₁) :
    ∃ hs₀, s.conns c = .active hs₀ ∧ hs₀.retries.toNat + polls c [e] ≤ hs₁.retries.toNat := by
  cases hch with
  | same hout hconn =>
    rw [hconn] at hactive
    have hp : e.pcb ≠ some c := fun hp =>
      (hout hp).elim (fun hend => hend hs₁ hactive) fun he => hq.2.1 he
    exact ⟨hs₁, hactive, by rw [polls_of_ne hp, Nat.add_zero]⟩
  | accepted he => exact absurd he hq.2.1
  | @called hs₀ _ d hc hp hconn _ _ _ hret =>
    have hd := hconn.symm.trans hactive
    have hhandle : hs₁.handle = hs₀.handle := by
      rcases (h.conn c hs₀ hc).phase with hw | ⟨job, hb⟩
      · have hkeep := hq.2.2 (s', o) (by rw [hs]; rfl)
        rw [hactive, hc] at hkeep
        change hs₁.handle.isSome = true → hs₀.handle.isSome = true at hkeep
        rw [hw.handle] at hkeep ⊢
        exact Option.not_isSome_iff_eq_none.mp fun hsome => Bool.false_ne_true (hkeep hsome)
      · rcases hret.busy job hb with ⟨hs', hc', hh, -⟩ | ⟨hend, -⟩
        · obtain rfl := Conn.active.inj (hd.symm.trans hc')
          exact hh
        · exact absurd hd (hend hs₁)
    have hr := hret.retries hs₁ hd hq.1 hhandle
    have hlt := (h.conn c hs₀ hc).retries
    refine ⟨hs₀, hc, ?_⟩
    rw [polls_of_pcb hp, hr, UInt8.toNat_add]
    have hmax : hs₀.retries.toNat < 4 := UInt8.lt_iff_toNat_lt.mp hlt
    have hone : e.polls.toNat ≤ 1 := by
      cases e with
      | poll pcb => exact le_refl 1
      | _ => exact Nat.zero_le 1
    omega
  | closing _ hconn =>
    rw [hactive] at hconn
    rcases hconn with hconn | hconn <;> cases hconn

/-! ### Buffers -/

/-- The buffers of the connection that were taken. -/
def takenOf (c : ℕ) (o : List Buffer) : List (List UInt8) :=
  o.filterMap fun b => match b with
    | .taken pcb p => if pcb = c then some p else none
    | .freed _ _ => none

/-- The buffers of the connection that were freed. -/
def freedOf (c : ℕ) (o : List Buffer) : List (List UInt8) :=
  o.filterMap fun b => match b with
    | .taken _ _ => none
    | .freed pcb p => if pcb = c then some p else none

/-- The step loses a buffer of the connection. -/
def Loses (c : ℕ) (s : Server P) (e : Event P) : Prop :=
  e.pcb = some c ∧ ∃ hs, s.conns c = .active hs ∧ lostBuffers hs e ≠ []

theorem takenOf_append (c : ℕ) (o o' : List Buffer) : takenOf c (o ++ o') = takenOf c o ++ takenOf c o' :=
  List.filterMap_append

theorem freedOf_append (c : ℕ) (o o' : List Buffer) : freedOf c (o ++ o') = freedOf c o ++ freedOf c o' :=
  List.filterMap_append

theorem outputs_of (c : ℕ) (xs ys : List (List UInt8)) :
    takenOf c (xs.map (.taken c) ++ ys.map (.freed c)) = xs ∧
      freedOf c (xs.map (.taken c) ++ ys.map (.freed c)) = ys := by
  constructor <;> simp [takenOf, freedOf, List.filterMap_map]

theorem outputs_other (h : ∀ b ∈ o, b.pcb ≠ c) : takenOf c o = [] ∧ freedOf c o = [] := by
  constructor <;> refine List.filterMap_eq_nil_iff.mpr fun b hb => ?_ <;> cases b with
  | taken pcb p => first | exact if_neg (h _ hb) | rfl
  | freed pcb p => first | exact if_neg (h _ hb) | rfl

/-- **The buffers of one step**: those there were and those that came in are freed, kept, or lost. -/
theorem step_buffers (hch : Changes E fsRoot s e s' o c) : ∃ lost,
    ((s.conns c).req ++ takenOf c o).Perm (freedOf c o ++ ((s'.conns c).req ++ lost)) ∧
      (lost = [] ↔ ¬ Loses c s e) := by
  cases hch with
  | same hout hconn _ _ hother =>
    obtain ⟨ht, hf⟩ := outputs_other hother
    refine ⟨[], ?_, iff_of_true rfl ?_⟩
    · rw [ht, hf, hconn]
      exact .refl _
    · rintro ⟨hp, hs, hc, hne⟩
      rcases hout hp with hend | rfl
      · exact hend hs hc
      · exact hne rfl
  | accepted he hc hc' _ ho =>
    refine ⟨[], ?_, iff_of_true rfl ?_⟩
    · rw [hc, hc', ho]
      exact .refl _
    · rintro ⟨-, hs, -, hne⟩
      rw [he] at hne
      exact hne rfl
  | @called hs freed d hc hp hconn _ _ ho hret =>
    obtain ⟨ht, hf⟩ := outputs_of c e.taken freed
    refine ⟨lostBuffers hs e, ?_, ?_⟩
    · rw [ho, ht, hf, hc, hconn]
      exact hret.buffers
    · constructor
      · rintro hnil ⟨-, hs', hc', hne⟩
        obtain rfl := Conn.active.inj (hc.symm.trans hc')
        exact hne hnil
      · intro hkeep
        by_contra hne
        exact hkeep ⟨hp, hs, hc, hne⟩
  | closing hc hconn _ ho =>
    refine ⟨[], ?_, iff_of_true rfl ?_⟩
    · rw [hc, ho]
      rcases hconn with hconn | hconn <;> rw [hconn] <;> exact .refl _
    · rintro ⟨-, hs, hc', -⟩
      rw [hc] at hc'
      cases hc'

/-! ### Runs -/

variable (hbody : ∀ f ∈ fsRoot, HasBody f)
include hbody

theorem run_polls : ∀ (as : List (Event P)) {s s' : Server P} {o : List Buffer}, ServerInv E fsRoot s →
    Meets (step E fsRoot) (Quiet E fsRoot c) s as → run (step E fsRoot) s as = .ok (s', o) →
    ∀ hs', s'.conns c = .active hs' → ∃ hs, s.conns c = .active hs ∧ hs.retries.toNat + polls c as ≤ hs'.retries.toNat
  | [], s, s', o, _, _, hr => by
    obtain ⟨rfl, -⟩ := run_nil_ok.mp hr
    exact fun hs' hc => ⟨hs', hc, le_refl _⟩
  | e :: as, s, s', o, h, hq, hr => by
    obtain ⟨s₁, o₁, o₂, h₁, h₂, -⟩ := run_cons_ok.mp hr
    obtain ⟨hinv, hch⟩ := step_ok hbody h h₁
    intro hs' hc'
    obtain ⟨hs₁, hc₁, hle₁⟩ := run_polls as hinv (hq.2 (s₁, o₁) (by rw [h₁]; rfl)) h₂ hs' hc'
    obtain ⟨hs, hc, hle⟩ := step_polls h hq.1 h₁ (hch c) hc₁
    refine ⟨hs, hc, ?_⟩
    rw [polls_cons]
    omega

theorem run_buffers : ∀ (as : List (Event P)) {s s' : Server P} {o : List Buffer}, ServerInv E fsRoot s →
    run (step E fsRoot) s as = .ok (s', o) → ∃ lost,
      ((s.conns c).req ++ takenOf c o).Perm (freedOf c o ++ ((s'.conns c).req ++ lost)) ∧
        (lost = [] ↔ Meets (step E fsRoot) (fun s e => ¬ Loses c s e) s as)
  | [], s, s', o, _, hr => by
    obtain ⟨rfl, rfl⟩ := run_nil_ok.mp hr
    exact ⟨[], by rw [takenOf]; exact .refl _, iff_of_true rfl trivial⟩
  | e :: as, s, s', o, h, hr => by
    obtain ⟨s₁, o₁, o₂, h₁, h₂, rfl⟩ := run_cons_ok.mp hr
    obtain ⟨hinv, hch⟩ := step_ok hbody h h₁
    obtain ⟨lost₁, hperm₁, hiff₁⟩ := step_buffers (hch c)
    obtain ⟨lost₂, hperm₂, hiff₂⟩ := run_buffers as hinv h₂
    refine ⟨lost₁ ++ lost₂, ?_, ?_⟩
    · rw [takenOf_append, freedOf_append, ← List.append_assoc]
      rw [← Multiset.coe_eq_coe] at hperm₁ hperm₂ ⊢
      simp only [← Multiset.coe_add] at hperm₁ hperm₂ ⊢
      calc ((s.conns c).req + takenOf c o₁ + takenOf c o₂ : Multiset (List UInt8))
          = freedOf c o₁ + ((s₁.conns c).req + lost₁) + takenOf c o₂ := by rw [hperm₁]
        _ = freedOf c o₁ + ((s₁.conns c).req + takenOf c o₂) + lost₁ := by abel
        _ = freedOf c o₁ + (freedOf c o₂ + ((s'.conns c).req + lost₂)) + lost₁ := by rw [hperm₂]
        _ = freedOf c o₁ + freedOf c o₂ + ((s'.conns c).req + (lost₁ + lost₂)) := by abel
    · rw [List.append_eq_nil_iff, hiff₁, hiff₂, Meets]
      refine and_congr_right fun _ => ?_
      simp [h₁, Except.toOption]

/-- **Idle connections.** A connection on which nothing is acknowledged and for which no file is opened
is closed by its fourth poll. -/
theorem idle_closed (hfree : ∀ i, (fs i).inuse = false) {pre : List (Event P)}
    (hr₀ : run (step E fsRoot) (Server.init w fs) pre = .ok (s, o))
    (hq : Meets (step E fsRoot) (Quiet E fsRoot c) s as) (hr : run (step E fsRoot) s as = .ok (s', o'))
    (hpolls : 4 ≤ polls c as) : (s'.conns c).Ended := by
  have hinv := run_inv hbody pre (init_inv E fsRoot w hfree) hr₀
  have hinv' := run_inv hbody as hinv hr
  intro hs' hc'
  obtain ⟨hs, -, hle⟩ := run_polls hbody as hinv hq hr hs' hc'
  have hmax : hs'.retries.toNat < 4 := UInt8.lt_iff_toNat_lt.mp (hinv'.conn c hs' hc').retries
  omega

/-- **Why a connection is closed.** -/
theorem closed_cause (hfree : ∀ i, (fs i).inuse = false)
    (hr : run (step E fsRoot) (Server.init w fs) as = .ok (s, o))
    (hs : step E fsRoot s e = .ok (s', o')) {hs₀ : HttpState} (hc : s.conns c = .active hs₀)
    (hend : (s'.conns c).Ended) : e.pcb = some c ∧ (Aborts hs₀ e ∨ Refuses (s'.queued c) e ∨
      ∃ job : Job, job.file ∈ fsRoot ∧ Skips job.file job.skip ∧ job.Delivered (E c) (fun _ => True) (s'.queued c)) := by
  have hinv := run_inv hbody as (init_inv E fsRoot w hfree) hr
  cases (step_ok hbody hinv hs).2 c with
  | same _ hconn =>
    rw [hconn] at hend
    exact absurd hc (hend hs₀)
  | accepted _ hclosed =>
    rw [hc] at hclosed
    cases hclosed
  | @called hs₁ _ d hc₁ hp hconn hqueued _ _ hret =>
    obtain rfl := Conn.active.inj (hc.symm.trans hc₁)
    rw [hconn] at hend
    rw [hqueued]
    refine ⟨hp, ?_⟩
    rcases (hinv.conn c hs₀ hc).phase with hwait | ⟨job, hb⟩
    · exact (hret.waiting hwait).resolve_left fun ⟨hs', h⟩ => hend hs' h
    · rcases hret.busy job hb with ⟨hs', h, -⟩ | ⟨-, habort | hdone⟩
      · exact absurd h (hend hs')
      · exact .inl habort
      · exact .inr (.inr ⟨job, hb.image, hb.serves.skips, hdone⟩)
  | closing hclosing =>
    rw [hc] at hclosing
    cases hclosing

/-- **The buffers that are given back.** Of the buffers that came in on a connection, all are freed or
kept for the rest of a request exactly if no data came in while a file was sent, and no
connection was closed in the middle of a request. -/
theorem buffers_returned (hfree : ∀ i, (fs i).inuse = false)
    (hr : run (step E fsRoot) (Server.init w fs) as = .ok (s, o)) (c : ℕ) :
    (takenOf c o).Perm (freedOf c o ++ (s.conns c).req) ↔
      Meets (step E fsRoot) (fun s e => ¬ Loses c s e) (Server.init w fs) as := by
  obtain ⟨lost, hperm, hiff⟩ := run_buffers (c := c) hbody as (init_inv E fsRoot w hfree) hr
  rw [← hiff]
  change (takenOf c o).Perm _ at hperm
  constructor
  · intro h
    have hlen := (h.symm.trans hperm).length_eq
    simp only [List.length_append] at hlen
    exact List.length_eq_zero_iff.mp (by omega)
  · rintro rfl
    rwa [List.append_nil] at hperm

end Runs

/-! ### Connections of the small server -/

/-- A client that is only there. -/
theorem idle_closed_small : ∃ s o, run smallStep smallServer (List.replicate 4 (.poll 0)) = .ok (s, o) ∧
    (s.conns 0).Ended := by
  have hq : Meets smallStep (Quiet (fun _ => Env.roomy) [indexFile] 0) smallServer (List.replicate 4 (.poll 0)) := by
    refine .of_forall fun e he s => ?_
    rw [List.eq_of_mem_replicate he]
    exact poll_quiet _ _ 0 s
  exact ⟨_, _, rfl, idle_closed index_body noFiles_free small_accepts hq rfl (by decide)⟩

/-- The client has closed. -/
def closes : Event Unit := .recv 0 none .ok

theorem closed_cause_small : ∃ s' o, smallStep smallServer closes = .ok (s', o) ∧ closes.pcb = some 0 ∧
    (Aborts .init closes ∨ Refuses (s'.queued 0) closes ∨ ∃ job : Job, job.file ∈ [indexFile] ∧
      Skips job.file job.skip ∧ job.Delivered Env.roomy (fun _ => True) (s'.queued 0)) := by
  exact ⟨_, _, rfl, closed_cause index_body noFiles_free small_accepts rfl rfl
    fun _ h => Conn.noConfusion h⟩

theorem buffers_returned_small : ∃ s o, run smallStep (Server.init () noFiles) twoClients = .ok (s, o) ∧
    ((takenOf 1 o).Perm (freedOf 1 o ++ (s.conns 1).req) ↔
      Meets smallStep (fun s e => ¬ Loses 1 s e) (Server.init () noFiles) twoClients) := by
  obtain ⟨s, o, hr⟩ := run_plain index_body (fun _ => rfl) (roomy_init _) twoClients
  exact ⟨s, o, hr, buffers_returned index_body noFiles_free hr 1⟩

end Httpd
end Serial2Ethernet
