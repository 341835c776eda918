/-
# Pages over a run of the server

A connection that is busy with a file stays busy with it, whatever happens on
the other connections, until all of the file has been sent (`run_onJob`). The
texts that are inserted may change meanwhile, as far as a property `J` of the
rest of the system lets them. What has been sent is at any time a beginning of
the file as it may be shown, and at the end all of it; only the text of a tag
that ends the file is not sent. The end comes, at the latest, with the
acknowledgement that follows as many as there are bytes to show (`run_acks`).
-/
import Serial2Ethernet.Http.Connections
import Serial2Ethernet.Http.Lookup

namespace Serial2Ethernet
namespace Httpd

open Lib Lib.Scanner Fs Ssi

/-! ### What a file is shown as -/

section Texts

variable {P : Type} {E : Env P} {J : P → Prop} {ins : List UInt8 → List UInt8} {fsRoot : List FsdataFile}
  {fs : FsMemory} {hs : HttpState} {queued out data : List UInt8} {job : Job} {page : List Part} {w : P}

/-- The text of a tag is the same at any time. -/
def Inserts (E : Env P) (J : P → Prop) (ins : List UInt8 → List UInt8) : Prop :=
  ∀ w, J w → ∀ name, getTagInsert E w (name.takeWhile (· ≠ 0)) = ins name

theorem Inserts.answers (h : Inserts E J ins) (name text : List UInt8) (ha : Answers E J name text) :
    text = ins name := by
  obtain ⟨w, hw, rfl⟩ := ha
  exact h w hw name

/-- What the file of a job may be shown as. -/
def Job.Shows (E : Env P) (J : P → Prop) (job : Job) (out : List UInt8) : Prop :=
  Shown E J job.tagCheck job.file.data job.skip out

theorem answers_exist (hJ : J w) (name : List UInt8) : ∃ text, Answers E J name text := ⟨_, w, hJ, rfl⟩

/-- What is shown of a beginning of the file is a beginning of what is shown of the file. -/
theorem shows_of_take (hJ : J w) {n : ℕ} (h : Shown E J job.tagCheck (job.file.data.take n) job.skip out) :
    ∃ all, job.Shows E J all ∧ out <+: all := by
  unfold Job.Shows
  unfold Shown at h ⊢
  by_cases htag : job.tagCheck = true
  · rw [if_pos htag] at h
    obtain ⟨st, hw⟩ := h
    obtain ⟨out', st', hw'⟩ := hw.extend (answers_exist hJ) (job.file.data.drop n)
    rw [List.take_append_drop] at hw'
    exact ⟨out ++ out', by rw [if_pos htag]; exact ⟨st', hw'⟩, List.prefix_append _ _⟩
  · rw [if_neg htag] at h
    refine ⟨job.file.data.drop job.skip, by rw [if_neg htag], ?_⟩
    rw [h, List.drop_take]
    exact List.take_prefix _ _

/-- What has been sent is a beginning of what is shown. -/
theorem Busy.begins (hJ : J w) (h : Busy E J fsRoot fs hs job queued) : ∃ all, job.Shows E J all ∧ queued <+: all := by
  obtain ⟨out, hpre, n, hshown⟩ := h.serves.serving.sent_prefix
  rw [h.serves.tags] at hshown
  obtain ⟨all, hall, hout⟩ := shows_of_take hJ hshown
  exact ⟨all, hall, hpre.trans hout⟩

theorem Job.Delivered.begins (hJ : J w) (h : job.Delivered E J out) : ∃ all, job.Shows E J all ∧ out <+: all := by
  unfold Job.Delivered Whole at h
  unfold Job.Shows Shown
  by_cases htag : job.tagCheck = true
  · rw [if_pos htag] at h
    obtain ⟨pre, b, out', st, hdata, hw, rfl⟩ := h
    rw [hdata]
    cases hs : (scan st b).2 with
    | none => exact ⟨_, by rw [if_pos htag]; exact ⟨_, hw.plain hs⟩, List.prefix_refl _⟩
    | some name =>
      obtain ⟨text, hx⟩ := answers_exist hJ name
      exact ⟨_, by rw [if_pos htag]; exact ⟨_, hw.mark hs hx⟩, List.prefix_append _ _⟩
  · rw [if_neg htag] at h
    exact ⟨out, by rw [if_neg htag]; exact h, List.prefix_refl _⟩

/-- A page of texts and tags is shown as such. -/
theorem Job.Shows.shownAs (h : job.Shows E J out) (hdata : job.file.data = page.flatMap Part.bytes)
    (htag : job.tagCheck = true) (hskip : job.skip = 0) : ShownAs (Answers E J) page out := by
  rw [Job.Shows, Shown, if_pos htag, hskip, hdata] at h
  obtain ⟨st, hw⟩ := h
  exact woven_page hw

theorem Job.Delivered.endsAs (h : job.Delivered E J out) (hdata : job.file.data = page.flatMap Part.bytes)
    (hlast : ∀ t, page.getLast? = some (.text t) → t.bytes ≠ []) (htag : job.tagCheck = true) (hskip : job.skip = 0) :
    EndsAs (Answers E J) page out := by
  rw [Job.Delivered, Whole, if_pos htag, hskip] at h
  obtain ⟨pre, b, out', st, hpre, hw, rfl⟩ := h
  exact woven_last (hdata.symm.trans hpre) hlast hw

end Texts

/-! ### A connection with a job -/

section Runs

variable {P : Type} {E : ℕ → Env P} {J : P → Prop} {fsRoot : List FsdataFile} {s s' : Server P} {e : Event P}
  {o : List Buffer} {c : ℕ} {job : Job}

/-- The event does not end what is sent on the connection, and the rest of the system has the property. -/
def Lets (J : P → Prop) (c : ℕ) (s : Server P) (e : Event P) : Prop :=
  J s.world ∧ e ≠ .accept c ∧ (e.pcb = some c → ∀ hs, s.conns c = .active hs → ¬ Aborts hs e)

theorem lets_recv {J : P → Prop} (c : ℕ) {s : Server P} (hJ : J s.world) (p : List (List UInt8)) :
    Lets J c s (.recv c (some p) .ok) :=
  ⟨hJ, nofun, fun _ _ _ h => h.elim nofun fun h => h rfl⟩

/-- The connection is busy with the job, or it has been closed and the job is done. -/
def OnJob (E : ℕ → Env P) (J : P → Prop) (fsRoot : List FsdataFile) (c : ℕ) (job : Job) (s : Server P) : Prop :=
  (∃ hs, s.conns c = .active hs ∧ Busy (E c) J fsRoot s.fs hs job (s.queued c)) ∨
    (s.conns c).Ended ∧ job.Delivered (E c) J (s.queued c)

/-- What is sent on the connection of a job, at any time and at the end. -/
theorem OnJob.shown (hj : OnJob E J fsRoot c job s) {w : P} (hJ : J w) :
    (∃ all, job.Shows (E c) J all ∧ s.queued c <+: all) ∧
      ((s.conns c).Ended → job.Delivered (E c) J (s.queued c)) := by
  rcases hj with ⟨hs, hc, hb⟩ | ⟨-, hdone⟩
  · exact ⟨hb.begins hJ, fun he => absurd hc (he hs)⟩
  · exact ⟨hdone.begins hJ, fun _ => hdone⟩

/-- The event is an acknowledgement on the connection. -/
def Event.isSent (c : ℕ) : Event P → Bool
  | .sent pcb => pcb = c
  | _ => false

/-- How often data was acknowledged on the connection. -/
def acks (c : ℕ) (as : List (Event P)) : ℕ := as.countP (Event.isSent c)

/-- The event does not end what is sent on the connection, and TCP has room when data is acknowledged. -/
def LetsTake (E : ℕ → Env P) (J : P → Prop) (c : ℕ) (s : Server P) (e : Event P) : Prop :=
  Lets J c s e ∧ (e = .sent c → Takes (E c) s.world)

theorem step_ended (h : (s.conns c).Ended) (hne : e ≠ .accept c) (hch : Changes E fsRoot s e s' o c) :
    (s'.conns c).Ended := by
  cases hch with
  | same _ hconn => rwa [hconn]
  | accepted he => exact absurd he hne
  | called hc => exact absurd hc (h _)
  | closing _ hconn =>
    rcases hconn with hconn | hconn <;> rw [hconn] <;> exact nofun

/-- An acknowledgement makes a busy connection send at least one byte. -/
theorem step_acks (hl : LetsTake E J c s e) (hch : Changes E fsRoot s e s' o c) (hbusy : ¬ (s'.conns c).Ended) :
    (s.queued c).length + acks c [e] ≤ (s'.queued c).length := by
  have hone : acks c [e] ≤ 1 := (List.countP_le_length).trans (le_refl 1)
  have hsent : acks c [e] ≠ 0 → e = .sent c := by
    intro h
    unfold acks at h
    rw [List.countP_singleton] at h
    cases e with
    | sent pcb =>
      have hpcb : pcb = c := by
        by_contra hne
        exact h (if_neg fun hd => hne (of_decide_eq_true hd))
      rw [hpcb]
    | _ => exact absurd rfl h
  by_cases hzero : acks c [e] = 0
  · rw [hzero]
    cases hch with
    | same _ _ hqueued => rw [hqueued, Nat.add_zero]
    | accepted he => exact absurd he hl.1.2.1
    | called _ _ _ hqueued =>
      rw [hqueued, List.length_append]
      omega
    | closing _ _ hqueued => rw [hqueued, Nat.add_zero]
  · obtain rfl := hsent hzero
    cases hch with
    | same hout hconn =>
      rw [hconn] at hbusy
      exact absurd ((hout rfl).resolve_right nofun) hbusy
    | accepted he => cases he
    | @called hs _ d _ _ hconn hqueued _ _ hret =>
      rw [hconn] at hbusy
      obtain ⟨hs', hc'⟩ := not_forall_not.mp hbusy
      have hne := hret.progress hs' hc' rfl (hl.2 rfl)
      have := List.length_pos_iff.mpr hne
      rw [hqueued, List.length_append]
      omega
    | closing _ hconn =>
      refine absurd ?_ hbusy
      rcases hconn with hconn | hconn <;> rw [hconn] <;> exact nofun

variable (hbody : ∀ f ∈ fsRoot, HasBody f)
include hbody

theorem step_onJob (hE : (E c).Keeps J) (hinv : ServerInv E fsRoot s) (h : OnJob E J fsRoot c job s) (hl : Lets J c s e)
    (hstep : step E fsRoot s e = .ok (s', o)) (hch : Changes E fsRoot s e s' o c) : OnJob E J fsRoot c job s' := by
  obtain ⟨hJ, hne, hgoes⟩ := hl
  rcases h with ⟨hs, hc, hb⟩ | ⟨hend, hdone⟩
  · by_cases hp : e.pcb = some c
    · have hconn : ConnInv (E c) J fsRoot s.fs hs (s.queued c) := ⟨(hinv.conn c hs hc).retries, .inr ⟨job, hb⟩⟩
      have hkeep : ∀ p err r, e = .recv c (some p) err →
          httpParseRequest (E c) fsRoot p hs s.fs s.world = .ok (.ok, r) → J r.world := by
        intro p err r _ hparse
        obtain ⟨i, hi, -⟩ := hb.open_file
        unfold httpParseRequest at hparse
        rw [if_pos (by rw [hi]; rfl)] at hparse
        cases (Prod.mk.inj (Except.ok.inj hparse)).1
      rcases step_called hbody hE hc hconn hJ hp hne hkeep with ⟨freed, d, hd, hret⟩ | ⟨p, f, -, hf, -⟩
      · rw [hstep] at hd
        obtain ⟨rfl, -⟩ := Prod.mk.inj (Except.ok.inj hd)
        unfold OnJob
        rw [put_conn, put_queued]
        rcases hret.busy job hb with ⟨hs', hc', -, hb'⟩ | ⟨hend, hdone⟩
        · exact .inl ⟨hs', hc', hb'⟩
        · exact .inr ⟨hend, hdone.resolve_left (hgoes hp hs hc)⟩
      · rw [hstep] at hf
        cases hf
    · obtain ⟨hconn, hqueued, hfs⟩ := hch.other hp hc
      obtain ⟨⟨i, hi, hfile⟩, hroot, hreq, hserves⟩ := hb
      exact .inl ⟨hs, hconn, ⟨i, hi, (hfs i hi).trans hfile⟩, hroot, hreq, hqueued ▸ hserves⟩
  · refine .inr ⟨step_ended hend hne hch, ?_⟩
    cases hch with
    | same _ _ hqueued => rwa [hqueued]
    | accepted he => exact absurd he hne
    | called hc => exact absurd hc (hend _)
    | closing _ _ hqueued => rwa [hqueued]

/-- Whatever happens, the connection stays on its job, if it is not aborted. -/
theorem run_onJob (hE : (E c).Keeps J) : ∀ (as : List (Event P)) {s s' : Server P} {o : List Buffer},
    ServerInv E fsRoot s → OnJob E J fsRoot c job s → Meets (step E fsRoot) (Lets J c) s as →
    run (step E fsRoot) s as = .ok (s', o) → OnJob E J fsRoot c job s'
  | [], s, s', o, _, hj, _, hr => by
    exact (run_nil_ok.mp hr).1 ▸ hj
  | e :: as, s, s', o, h, hj, hl, hr => by
    obtain ⟨s₁, o₁, o₂, h₁, h₂, -⟩ := run_cons_ok.mp hr
    obtain ⟨hinv, hch⟩ := step_ok hbody h h₁
    have hrest := hl.2 (s₁, o₁) (by rw [h₁]; rfl)
    exact run_onJob hE as hinv (step_onJob hbody hE h hj hl.1 h₁ (hch c)) hrest h₂

/-- A request for a file gives the connection its job. -/
theorem request_onJob (hE : (E c).Keeps J) (h : ServerInv E fsRoot s) {hs : HttpState} (hc : s.conns c = .active hs)
    (hnone : hs.handle = none) {p : List (List UInt8)} {uri : List UInt8} {is09 : Bool}
    (hget : parseLine (requestData (hs.req ++ p)) = .get uri is09) {r : Found P}
    (hfind : httpFindFile (E c) fsRoot { hs with req := hs.req ++ p } uri is09 s.fs s.world = .ok r) (hJ : J r.world)
    (hstarts : Starts (E c) J fsRoot s.fs r job) (hstep : step E fsRoot s (.recv c (some p) .ok) = .ok (s', o)) :
    OnJob E J fsRoot c job s' ∧ J s'.world := by
  have hconn : ConnInv (E c) J fsRoot s.fs hs (s.queued c) := (h.conn c hs hc).texts hnone
  obtain ⟨d, hd, hret, hjob⟩ := httpRecv_job hE hbody hconn hnone hget hfind hJ hstarts c
  unfold step at hstep
  dsimp only at hstep
  rw [hc] at hstep
  dsimp only at hstep
  rw [hd] at hstep
  obtain ⟨rfl, -⟩ := Prod.mk.inj (Except.ok.inj hstep)
  refine ⟨?_, hret.world⟩
  unfold OnJob
  rw [put_conn, put_queued]
  exact hjob

theorem run_acks : ∀ (as : List (Event P)) {s s' : Server P} {o : List Buffer}, ServerInv E fsRoot s →
    Meets (step E fsRoot) (LetsTake E J c) s as → run (step E fsRoot) s as = .ok (s', o) →
    ((s.conns c).Ended → (s'.conns c).Ended) ∧
      (¬ (s'.conns c).Ended → (s.queued c).length + acks c as ≤ (s'.queued c).length)
  | [], s, s', o, _, _, hr => by
    obtain ⟨rfl, -⟩ := run_nil_ok.mp hr
    exact ⟨id, fun _ => le_refl _⟩
  | e :: as, s, s', o, h, hl, hr => by
    obtain ⟨s₁, o₁, o₂, h₁, h₂, -⟩ := run_cons_ok.mp hr
    obtain ⟨hinv, hch⟩ := step_ok hbody h h₁
    have hrest := hl.2 (s₁, o₁) (by rw [h₁]; rfl)
    obtain ⟨hend, hlen⟩ := run_acks as hinv hrest h₂
    refine ⟨fun he => hend (step_ended he hl.1.1.2.1 (hch c)), fun hbusy => ?_⟩
    have hstep := step_acks hl.1 (hch c) fun he => hbusy (hend he)
    have hsplit : acks c (e :: as) = acks c [e] + acks c as := by
      unfold acks
      rw [← List.singleton_append, List.countP_append]
    have := hlen hbusy
    omega

omit hbody in
/-- In a state that is reached from the start, a request for a URI is complete on a connection that
waits for one, a slot is free, and no handler is for the URI. -/
structure Asks (E : ℕ → Env P) (fsRoot : List FsdataFile) (s : Server P) (c : ℕ) (p : List (List UInt8))
    (uri : List UInt8) (is09 : Bool) : Prop where
  reached : ∃ w fs pre o, (∀ i, (fs i).inuse = false) ∧ run (step E fsRoot) (Server.init w fs) pre = .ok (s, o)
  waits : ∃ hs, s.conns c = .active hs ∧ hs.handle = none ∧ parseLine (requestData (hs.req ++ p)) = .get uri is09
  free : ¬ Full s.fs
  plain : uri = text "/" ∨ (E c).gPCGIs.find? (fun cgi => cgi.pcCGIName = (splitUri uri).1) = none

section Asked

variable {p : List (List UInt8)} {uri : List UInt8} {is09 tagCheck : Bool} {f : FsdataFile}
  {page : List Part} {rest : List (Event P)}

/-- Behind the request the connection has its job. -/
theorem asks_job (hE : (E c).Keeps J) (ha : Asks E fsRoot s c p uri is09)
    (hserved : served fsRoot uri = some (f, tagCheck))
    (hJ : J s.world) (hstep : step E fsRoot s (.recv c (some p) .ok) = .ok (s', o)) :
    ServerInv E fsRoot s' ∧ OnJob E J fsRoot c ⟨f, headerLen f is09, tagCheck⟩ s' := by
  obtain ⟨⟨w, fs, pre, o₀, hfs, hrun⟩, ⟨hs, hc, hnone, hget⟩, hfree, hplain⟩ := ha
  have hinv := run_inv hbody pre (init_inv E fsRoot w hfs) hrun
  have hopens : ∃ r, httpFindFile (E c) fsRoot { hs with req := hs.req ++ p } uri is09 s.fs s.world = .ok r ∧
      r.world = s.world ∧ Finds (E c) J fsRoot s.fs is09 r (served fsRoot uri) :=
    httpFindFile_opens hfree { hs with req := hs.req ++ p } uri s.world hplain
  obtain ⟨r, hfind, hw, hfinds⟩ := hopens
  rw [hserved] at hfinds
  exact ⟨(step_ok hbody hinv hstep).1,
    (request_onJob hbody hE hinv hc hnone hget hfind (by rwa [hw]) hfinds hstep).1⟩

/-- What is sent behind a request for a file. -/
theorem asks_shown (hE : (E c).Keeps J) (ha : Asks E fsRoot s c p uri is09)
    (hserved : served fsRoot uri = some (f, tagCheck))
    (hl : Meets (step E fsRoot) (Lets J c) s (.recv c (some p) .ok :: rest))
    (hr : run (step E fsRoot) s (.recv c (some p) .ok :: rest) = .ok (s', o)) :
    (∃ all, Job.Shows (E c) J ⟨f, headerLen f is09, tagCheck⟩ all ∧ s'.queued c <+: all) ∧
      ((s'.conns c).Ended → Job.Delivered (E c) J ⟨f, headerLen f is09, tagCheck⟩ (s'.queued c)) := by
  obtain ⟨s₁, o₁, o₂, h₁, h₂, -⟩ := run_cons_ok.mp hr
  obtain ⟨hinv, hj⟩ := asks_job hbody hE ha hserved hl.1.1 h₁
  have hrest := hl.2 (s₁, o₁) (by rw [h₁]; rfl)
  exact (run_onJob hbody hE rest hinv hj hrest h₂).shown hl.1.1

/-- **Pages.** Behind a request for a page of texts and tags, whatever happens on this and on other
connections, what has been sent is a beginning of the page as it may be shown, each tag with the text it
has at some time; and when the connection is closed, without having been aborted, it is all of the page
but the text of a tag at its end. -/
theorem page_delivered (hE : (E c).Keeps J) (ha : Asks E fsRoot s c p uri false)
    (hserved : served fsRoot uri = some (f, true)) (hdata : f.data = page.flatMap Part.bytes)
    (hlast : ∀ t, page.getLast? = some (.text t) → t.bytes ≠ [])
    (hl : Meets (step E fsRoot) (Lets J c) s (.recv c (some p) .ok :: rest))
    (hr : run (step E fsRoot) s (.recv c (some p) .ok :: rest) = .ok (s', o)) :
    (∃ all, ShownAs (Answers (E c) J) page all ∧ s'.queued c <+: all) ∧
      ((s'.conns c).Ended → EndsAs (Answers (E c) J) page (s'.queued c)) := by
  obtain ⟨⟨all, hall, hpre⟩, hend⟩ := asks_shown hbody hE ha hserved hl hr
  have hskip : headerLen f false = 0 := headerLen_false f
  exact ⟨⟨all, hall.shownAs hdata rfl hskip, hpre⟩, fun he => (hend he).endsAs hdata hlast rfl hskip⟩

/-- **Files without tags** are sent as they are, to a client of HTTP/0.9 without the header. -/
theorem file_delivered (ha : Asks E fsRoot s c p uri is09) (hserved : served fsRoot uri = some (f, false))
    (hl : Meets (step E fsRoot) (Lets (fun _ => True) c) s (.recv c (some p) .ok :: rest))
    (hr : run (step E fsRoot) s (.recv c (some p) .ok :: rest) = .ok (s', o)) :
    s'.queued c <+: f.data.drop (headerLen f is09) ∧
      ((s'.conns c).Ended → s'.queued c = f.data.drop (headerLen f is09)) := by
  obtain ⟨⟨all, rfl, hpre⟩, hend⟩ := asks_shown hbody (.of_true (E c)) ha hserved hl hr
  exact ⟨hpre, hend⟩

/-- **The page comes to its end**: as long as TCP has room when data is acknowledged, the connection is
closed, and all of the page sent, after no more acknowledgements than it can have bytes to show, and one. -/
theorem page_ends (hE : (E c).Keeps J) (ha : Asks E fsRoot s c p uri is09)
    (hserved : served fsRoot uri = some (f, tagCheck))
    (hl : Meets (step E fsRoot) (LetsTake E J c) s (.recv c (some p) .ok :: rest))
    (hacks : ∀ all, Job.Shows (E c) J ⟨f, headerLen f is09, tagCheck⟩ all → all.length < acks c rest)
    (hr : run (step E fsRoot) s (.recv c (some p) .ok :: rest) = .ok (s', o)) :
    (s'.conns c).Ended ∧ Job.Delivered (E c) J ⟨f, headerLen f is09, tagCheck⟩ (s'.queued c) := by
  have hlets : Meets (step E fsRoot) (Lets J c) s (.recv c (some p) .ok :: rest) := hl.imp fun _ _ h => h.1
  obtain ⟨⟨all, hall, hpre⟩, hdone⟩ := asks_shown hbody hE ha hserved hlets hr
  obtain ⟨s₁, o₁, o₂, h₁, h₂, -⟩ := run_cons_ok.mp hr
  have hinv := (asks_job hbody hE ha hserved hlets.1.1 h₁).1
  have hended : (s'.conns c).Ended := by
    by_contra hbusy
    have hsent := (run_acks hbody rest hinv (hl.2 (s₁, o₁) (by rw [h₁]; rfl)) h₂).2 hbusy
    have hlen := hpre.length_le
    have hall := hacks all hall
    omega
  exact ⟨hended, hdone hended⟩

end Asked

end Runs

/-! ### The page of the small server -/

theorem starts_plain {bytes : List UInt8} (h : ∀ k ∈ [1, 2, 3, 4], ¬ gPcTagLeadIn.take k <:+ bytes) (k : ℕ)
    (hpos : 1 ≤ k) (hlt : k < lenTagLeadIn) : ¬ gPcTagLeadIn.take k <:+ bytes := by
  have hk : k = 1 ∨ k = 2 ∨ k = 3 ∨ k = 4 := by
    unfold lenTagLeadIn at hlt
    omega
  exact h k (by simpa using hk)

def indexHead : PlainText := ⟨text "<p>", by decide, starts_plain (by decide)⟩

def indexTag : Tag := ⟨[], text "x", [], nofun, by decide, by decide, by simp [text, Blank, gPcTagLeadOut], nofun⟩

def indexTail : PlainText := ⟨text "!", by decide, starts_plain (by decide)⟩

def indexPage : List Part := [.text indexHead, .tag indexTag]

/-- The insert for a name that the application does not know. -/
def unknown (name : List UInt8) : List UInt8 := getTagInsert Env.roomy () (name.takeWhile (· ≠ 0))

/-- A client is there. -/
def smallServer : Server Unit := httpAccept (fun _ => Env.roomy) (Server.init () noFiles) 0

theorem small_accepts : run smallStep (Server.init () noFiles) [.accept 0] = .ok (smallServer, []) := rfl

theorem index_served : served [indexFile] (text "/") = some (indexFile, true) := by decide

theorem index_data : indexFile.data = (indexPage ++ [Part.text indexTail]).flatMap Part.bytes := by decide

theorem index_last (t : PlainText) (h : (indexPage ++ [Part.text indexTail]).getLast? = some (.text t)) :
    t.bytes ≠ [] := by
  rw [List.getLast?_concat] at h
  obtain rfl := Part.text.inj (Option.some.inj h)
  exact List.cons_ne_nil _ _

/-- A client whose TCP has room for four bytes. -/
def tightServer : Server ℕ := httpAccept (fun _ => Env.tight) (Server.init 4 noFiles) 0

def tightStep : Server ℕ → Event ℕ → Except Fault (Server ℕ × List Buffer) := step (fun _ => Env.tight) [indexFile]

theorem tight_accepts : run tightStep (Server.init 4 noFiles) [.accept 0] = .ok (tightServer, []) := rfl

theorem tight_inserts : Inserts Env.tight (fun _ => True) unknown := fun _ _ _ => rfl

theorem tight_asks : Asks (fun _ => Env.tight) [indexFile] tightServer 0 indexRequest (text "/") false where
  reached := ⟨4, noFiles, [.accept 0], [], noFiles_free, tight_accepts⟩
  waits := ⟨.init, rfl, rfl, by decide⟩
  free := fun h => by cases h 0
  plain := .inl rfl

/-- Four bytes at a time are acknowledged. -/
def fourBytes : ℕ → List (Event ℕ)
  | 0 => []
  | n + 1 => .world 4 :: .sent 0 :: fourBytes n

/-- The request, another client that makes it too, and acknowledgements. -/
def tightEvents (n : ℕ) : List (Event ℕ) :=
  .recv 0 (some indexRequest) .ok :: .accept 1 :: .recv 1 (some indexRequest) .ok :: fourBytes n

theorem tight_takes : Takes Env.tight 4 :=
  ⟨Nat.succ_pos 3, Nat.succ_pos 1459, fun _ _ h => congrArg Prod.fst (if_pos h)⟩

theorem fourBytes_meets : ∀ (n : ℕ) (s : Server ℕ),
    Meets tightStep (LetsTake (fun _ => Env.tight) (fun _ => True) 0) s (fourBytes n)
  | 0, _ => trivial
  | n + 1, s => by
    have hsent (s : Server ℕ) : Lets (fun _ => True) 0 s (.sent 0) := ⟨trivial, nofun, fun _ _ _ => id⟩
    refine ⟨⟨⟨trivial, nofun, nofun⟩, nofun⟩, fun r hr => ⟨⟨hsent r.1, fun _ => ?_⟩, fun r' _ => fourBytes_meets n r'.1⟩⟩
    obtain rfl := Option.some.inj hr
    exact tight_takes

theorem tight_meets (n : ℕ) :
    Meets tightStep (LetsTake (fun _ => Env.tight) (fun _ => True) 0) tightServer (tightEvents n) := by
  have hother : ∀ (s : Server ℕ) (e : Event ℕ), e.pcb = some 1 → LetsTake (fun _ => Env.tight) (fun _ => True) 0 s e := by
    intro s e he
    have hne : e.pcb ≠ some 0 := by rw [he]; decide
    exact ⟨⟨trivial, fun h => hne (congrArg Event.pcb h), fun h => absurd h hne⟩,
      fun h => absurd (congrArg Event.pcb h) hne⟩
  refine ⟨⟨lets_recv 0 trivial indexRequest, nofun⟩, fun r _ => ⟨hother r.1 _ rfl, fun r' _ => ?_⟩⟩
  exact ⟨hother r'.1 _ rfl, fun r'' _ => fourBytes_meets n r''.1⟩

theorem tight_run (n : ℕ) : ∃ s o, run tightStep tightServer (tightEvents n) = .ok (s, o) :=
  run_plain index_body (fun _ => rfl)
    (run_inv index_body [.accept 0] (init_inv (fun _ => Env.tight) [indexFile] 4 noFiles_free) tight_accepts)
    (tightEvents n)

theorem page_delivered_small : ∃ s o, run tightStep tightServer (tightEvents 3) = .ok (s, o) ∧
    s.queued 0 <+: (indexPage ++ [Part.text indexTail]).flatMap (Part.shown unknown) ∧
      ((s.conns 0).Ended → s.queued 0 = (indexPage ++ [Part.text indexTail]).flatMap (Part.shown unknown)) := by
  obtain ⟨s, o, hr⟩ := tight_run 3
  obtain ⟨⟨all, hall, hpre⟩, hend⟩ := page_delivered (E := fun _ => Env.tight) index_body (.of_true _) tight_asks
    index_served index_data index_last ((tight_meets 3).imp fun _ _ h => h.1) hr
  have hans := tight_inserts.answers
  exact ⟨s, o, hr, hall.eq_shown hans ▸ hpre, fun he => (hend he).eq_shown rfl hans⟩

theorem page_ends_small : ∃ s o, run tightStep tightServer (tightEvents 40) = .ok (s, o) ∧
    (s.conns 0).Ended ∧ s.queued 0 = (indexPage ++ [Part.text indexTail]).flatMap (Part.shown unknown) := by
  obtain ⟨s, o, hr⟩ := tight_run 40
  have hans := tight_inserts.answers
  have hacks : ∀ all, Job.Shows Env.tight (fun _ => True) ⟨indexFile, headerLen indexFile false, true⟩ all →
      all.length < acks 0 ((tightEvents 40).drop 1) := by
    intro all hall
    rw [(hall.shownAs index_data rfl (headerLen_false indexFile)).eq_shown hans]
    decide
  obtain ⟨hended, hall⟩ := page_ends (E := fun _ => Env.tight) index_body (.of_true _) tight_asks index_served
    (tight_meets 40) hacks hr
  have hends := hall.endsAs index_data index_last rfl (headerLen_false indexFile)
  exact ⟨s, o, hr, hended, hends.eq_shown rfl hans⟩

/-- A client of HTTP/0.9 requests the page without tags. -/
def plainRequest : List (List UInt8) := [text "GET /\r\n"]

theorem file_delivered_small : ∃ s o,
    run (step (fun _ => Env.roomy) [plainFile]) smallServer [.recv 0 (some plainRequest) .ok] = .ok (s, o) ∧
      s.queued 0 <+: plainFile.data.drop (headerLen plainFile true) ∧
      ((s.conns 0).Ended → s.queued 0 = plainFile.data.drop (headerLen plainFile true)) := by
  have hinv := run_inv plain_body [.accept 0] (roomy_init [plainFile]) rfl
  have hasks : Asks (fun _ => Env.roomy) [plainFile] smallServer 0 plainRequest (text "/") true :=
    ⟨⟨(), noFiles, [.accept 0], [], noFiles_free, rfl⟩, ⟨.init, rfl, rfl, by decide⟩, (fun h => by cases h 0), .inl rfl⟩
  obtain ⟨s, o, hr⟩ := run_plain plain_body (fun _ => rfl) hinv [.recv 0 (some plainRequest) .ok]
  have hserved : served [plainFile] (text "/") = some (plainFile, false) := by decide
  refine ⟨s, o, hr, file_delivered plain_body hasks hserved (.of_forall fun e he s => ?_) hr⟩
  obtain rfl := List.mem_singleton.mp he
  exact lets_recv 0 trivial plainRequest

end Httpd
end Serial2Ethernet
