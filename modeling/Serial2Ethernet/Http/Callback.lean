/-
# One callback

A connection waits for its request, or is busy with a file (`ConnInv`). Each of
the callbacks keeps that, moves at most the slot of its own connection in the
table of open files, and says why it closes a connection and which buffers it
gives back: `Returns` is all of that, and `httpRecv_returns`, `httpSent_returns`,
`httpPoll_returns` and `httpErr_returns` are the four callbacks. Only the
handler of a URI may fault.
-/
import Serial2Ethernet.Http.Sending
import Serial2Ethernet.Http.Server

namespace Serial2Ethernet
namespace Httpd

open Lib Lib.Scanner Fs Ssi

/-! ### Opening a file -/

section Open

variable {P : Type} {E : Env P} {J : P → Prop} {fsRoot : List FsdataFile} {fs fs' : FsMemory}
  {i : Fin lwipMaxOpenFiles} {hs : HttpState} {is09 : Bool}

/-- There is something to be sent of the file, also without its header. -/
def HasBody (f : FsdataFile) : Prop :=
  f.data ≠ [] ∧ ∀ k, strnstr (crlf ++ crlf) f.data f.data.length = some k → k + 4 < f.data.length

/-- What is left out of the file: nothing, or its header. -/
def Skips (f : FsdataFile) (skip : ℕ) : Prop :=
  skip = 0 ∨ ∃ k, strnstr (crlf ++ crlf) f.data f.data.length = some k ∧ skip = k + 4

/-- What a client is not sent: the header of the file, if it knows no headers. -/
def headerLen (f : FsdataFile) (is09 : Bool) : ℕ :=
  if f.httpHeaderIncluded ∧ is09 then
    match strnstr (crlf ++ crlf) f.data f.data.length with
    | some fileStart => fileStart + 4
    | none => 0
  else 0

theorem skips_headerLen (f : FsdataFile) (is09 : Bool) : Skips f (headerLen f is09) := by
  unfold headerLen
  by_cases h09 : f.httpHeaderIncluded = true ∧ is09 = true
  · rw [if_pos h09]
    cases hfind : strnstr (crlf ++ crlf) f.data f.data.length with
    | some k => exact .inr ⟨k, hfind, rfl⟩
    | none => exact .inl rfl
  · rw [if_neg h09]
    exact .inl rfl

theorem headerLen_false (f : FsdataFile) : headerLen f false = 0 :=
  if_neg fun h => Bool.false_ne_true h.2

theorem HasBody.lt {f : FsdataFile} (h : HasBody f) {skip : ℕ} (hskip : Skips f skip) : skip < f.data.length := by
  rcases hskip with rfl | ⟨k, hk, rfl⟩
  · exact List.length_pos_iff.mpr h.1
  · exact h.2 k hk

/-- The slot of an open file. -/
def slot (f : FsdataFile) : FsTable := ⟨⟨f.data, f.data.length, f.httpHeaderIncluded⟩, true⟩

/-- The slot was free, and holds a file of the image. -/
def Opened (fsRoot : List FsdataFile) (fs fs' : FsMemory) (i : Fin lwipMaxOpenFiles) (f : FsdataFile) : Prop :=
  f ∈ fsRoot ∧ (fs i).inuse = false ∧ fs' = Function.update fs i (slot f)

theorem openFirst_cases (fsRoot : List FsdataFile) (fs : FsMemory) (names : List (List UInt8)) :
    (∃ i name f, openFirst fsRoot fs names = (some (i, name), (openFirst fsRoot fs names).2) ∧
      Opened fsRoot fs (openFirst fsRoot fs names).2 i f) ∨ openFirst fsRoot fs names = (none, fs) := by
  induction names with
  | nil => exact .inr rfl
  | cons name names ih =>
    unfold openFirst
    rcases h : fsOpen fsRoot fs name with ⟨r, m⟩
    cases r with
    | some i =>
      obtain ⟨f, hf, hfree, hm⟩ := fsOpen_some h
      exact .inl ⟨i, name, f, rfl, List.mem_of_find?_eq_some hf, hfree, hm⟩
    | none =>
      obtain ⟨-, rfl⟩ := fsOpen_none h
      exact ih

/-- What is sent on a connection: a file, without its first `skip` bytes, with or without inserts. -/
structure Job where
  file : FsdataFile
  skip : ℕ
  tagCheck : Bool

/-- The state of a connection that has a file to send, and has been sent `queued` of it. -/
structure Serves (E : Env P) (J : P → Prop) (hs : HttpState) (job : Job) (queued : List UInt8) : Prop where
  skips : Skips job.file job.skip
  tags : hs.tagCheck = job.tagCheck
  serving : Serving E J job.file.data job.skip hs queued

/-- The state with a file that has just been opened. -/
theorem httpInitFile_serves {f : FsdataFile} (hs : HttpState) (is09 : Bool) (h : Opened fsRoot fs fs' i f) :
    let hs' := httpInitFile hs fs' (some i) is09
    hs'.handle = some i ∧ hs'.req = hs.req ∧ hs'.retries = 0 ∧
      Serves E J hs' ⟨f, headerLen f is09, hs.tagCheck⟩ [] := by
  have hskips := skips_headerLen f is09
  unfold headerLen at hskips ⊢
  obtain ⟨-, -, rfl⟩ := h
  have hstart : ∀ k ≤ f.data.length, ∀ hs' : HttpState, hs'.block = f.data → hs'.file = k →
      hs'.left = f.data.length - k → hs'.parsed = 0 → hs'.parseLeft = f.data.length → hs'.tagState = .none →
      Serving E J f.data k hs' [] := by
    intro k hk hs' hb hf hl hp hpl ht
    have hlen : hs'.block.length = f.data.length := by rw [hb]
    refine ⟨hb, ?_⟩
    split
    · refine ⟨by omega, by omega, by omega, by omega, fun hs => ?_, [], .idle, ?_, ?_, ?_, fun hend => ?_⟩
      · rw [ht] at hs
        cases hs
      · rw [hp, List.take_zero]
        exact .nil
      · rw [ht]
        exact .none
      · have hne : hs'.tagState ≠ .sending := by rw [ht]; exact nofun
        rw [HttpState.pending, if_neg hne, hp, List.take_zero, List.drop_nil]
        rfl
      · rcases hend with hs | ⟨-, hpos⟩
        · rw [ht] at hs
          cases hs
        · omega
    · exact ⟨by omega, by rw [hf]; rfl⟩
  let start : HttpState := { hs with
    tagIndex := 0, tagState := .none, parsed := 0, parseLeft := f.data.length, tagEnd := 0
    handle := some i, block := f.data, file := 0, left := f.data.length, retries := 0 }
  have hinit : httpInitFile hs (Function.update fs i (slot f)) (some i) is09 =
      if f.httpHeaderIncluded ∧ is09 then
        match strnstr (crlf ++ crlf) f.data f.data.length with
        | some fileStart => start.sentFile (fileStart + 4)
        | none => start
      else start := by
    unfold httpInitFile
    dsimp only
    rw [Function.update_self]
    rfl
  have hwhole : start.handle = some i ∧ start.req = hs.req ∧ start.retries = 0 ∧
      Serves E J start ⟨f, 0, hs.tagCheck⟩ [] :=
    ⟨rfl, rfl, rfl, .inl rfl, rfl, hstart 0 (Nat.zero_le _) start rfl rfl rfl rfl rfl rfl⟩
  dsimp only
  rw [hinit]
  by_cases h09 : f.httpHeaderIncluded = true ∧ is09 = true
  · rw [if_pos h09] at hskips ⊢
    rw [if_pos h09]
    cases hfind : strnstr (crlf ++ crlf) f.data f.data.length with
    | some k =>
      have hle : k + 4 ≤ f.data.length := (strnstr_some (by decide) hfind).1
      exact ⟨rfl, rfl, rfl, .inr ⟨k, hfind, rfl⟩, rfl,
        hstart (k + 4) hle (start.sentFile (k + 4)) rfl (Nat.zero_add _) rfl rfl rfl rfl⟩
    | none => exact hwhole
  · rw [if_neg h09, if_neg h09]
    exact hwhole

/-- The file is open, and is served from its beginning. -/
def Starts (E : Env P) (J : P → Prop) (fsRoot : List FsdataFile) (fs : FsMemory) (r : Found P) (job : Job) : Prop :=
  ∃ i, Opened fsRoot fs r.fs i job.file ∧ r.hs.handle = some i ∧ Serves E J r.hs job []

/-- A file was found, or none was. -/
structure FindsFile (E : Env P) (J : P → Prop) (fsRoot : List FsdataFile) (fs : FsMemory) (queue : List (List UInt8))
    (r : Found P) : Prop where
  req : r.hs.req = queue
  retries : r.hs.retries = 0
  found : (∃ job, Starts E J fsRoot fs r job) ∨ r.fs = fs ∧ r.hs.handle = none ∧ r.hs.left = 0

theorem opened_starts {f : FsdataFile} (hs : HttpState) (h : Opened fsRoot fs fs' i f) (w : P) :
    let r : Found P := ⟨httpInitFile hs fs' (some i) is09, fs', w⟩
    FindsFile E J fsRoot fs hs.req r ∧ Starts E J fsRoot fs r ⟨f, headerLen f is09, hs.tagCheck⟩ := by
  obtain ⟨hhandle, hreq, hretries, hserve⟩ := httpInitFile_serves (E := E) (J := J) hs is09 h
  have hstarts : Starts E J fsRoot fs ⟨httpInitFile hs fs' (some i) is09, fs', w⟩
      ⟨f, headerLen f is09, hs.tagCheck⟩ := ⟨i, h, hhandle, hserve⟩
  exact ⟨⟨hreq, hretries, .inl ⟨_, hstarts⟩⟩, hstarts⟩

theorem opened_finds {f : FsdataFile} (hs : HttpState) (h : Opened fsRoot fs fs' i f) (w : P) :
    FindsFile E J fsRoot fs hs.req ⟨httpInitFile hs fs' (some i) is09, fs', w⟩ :=
  (opened_starts hs h w).1

theorem openUri_finds (hs : HttpState) (uri : List UInt8) (w : P) :
    FindsFile E J fsRoot fs hs.req (openUri fsRoot hs uri is09 fs w) := by
  unfold openUri
  rcases h : fsOpen fsRoot fs uri with ⟨r, m⟩
  cases r with
  | some i =>
    obtain ⟨f, hf, hfree, hm⟩ := fsOpen_some h
    exact opened_finds { hs with tagCheck := isSsi uri } ⟨List.mem_of_find?_eq_some hf, hfree, hm⟩ w
  | none =>
    obtain ⟨-, rfl⟩ := fsOpen_none h
    dsimp only
    unfold httpGet404File
    rcases openFirst_cases fsRoot m [text "/404.html", text "/404.htm", text "/404.shtml"] with
      ⟨i, name, f, he, ho⟩ | he
    · rw [he]
      exact opened_finds { hs with tagCheck := isSsi name } ho w
    · rw [he]
      exact ⟨rfl, rfl, .inr ⟨rfl, rfl, rfl⟩⟩

/-- A handler of a URI faults. -/
def CgiFaults (E : Env P) (f : Fault) : Prop :=
  ∃ cgi ∈ E.gPCGIs, ∃ w ps, cgi.pfnCGIHandler w ps = .error f

theorem openUri_world (uri : List UInt8) (w : P) : (openUri fsRoot hs uri is09 fs w).world = w := by
  unfold openUri
  rcases fsOpen fsRoot fs uri with ⟨r, m⟩
  cases r with
  | some i => rfl
  | none =>
    dsimp only
    rcases httpGet404File fsRoot m with ⟨r, m'⟩
    cases r <;> rfl

theorem httpFindFile_finds (uri : List UInt8) (w : P) :
    (∃ r, httpFindFile E fsRoot hs uri is09 fs w = .ok r ∧ FindsFile E J fsRoot fs hs.req r) ∨
      ∃ f, httpFindFile E fsRoot hs uri is09 fs w = .error f ∧ CgiFaults E f := by
  unfold httpFindFile
  dsimp only
  split
  · refine .inl ?_
    rcases openFirst_cases fsRoot fs (gPsDefaultFilenames.map Prod.fst) with
      ⟨i, name, f, he, ho⟩ | he
    · rw [he]
      exact ⟨_, rfl, opened_finds { hs with tagCheck := (gPsDefaultFilenames.lookup name).getD false } ho w⟩
    · rw [he]
      dsimp only
      unfold httpGet404File
      rcases openFirst_cases fsRoot fs [text "/404.html", text "/404.htm", text "/404.shtml"] with
        ⟨i, name, f, he', ho⟩ | he'
      · rw [he']
        exact ⟨_, rfl, opened_finds { hs with tagCheck := false } ho w⟩
      · rw [he']
        exact ⟨_, rfl, rfl, rfl, .inr ⟨rfl, rfl, rfl⟩⟩
  · split
    · next cgi hfind =>
      have hmem := List.mem_of_find?_eq_some hfind
      split
      · next f hret => exact .inr ⟨f, rfl, cgi, hmem, w, _, hret⟩
      · next uri' w' hret => exact .inl ⟨_, rfl, openUri_finds { hs with tagCheck := false } uri' w'⟩
    · exact .inl ⟨_, rfl, openUri_finds { hs with tagCheck := false } uri w⟩

theorem httpFindFile_ok {uri : List UInt8} {w : P} {r : Found P}
    (h : httpFindFile E fsRoot hs uri is09 fs w = .ok r) : FindsFile E J fsRoot fs hs.req r := by
  have hcases : (∃ r, httpFindFile E fsRoot hs uri is09 fs w = .ok r ∧ FindsFile E J fsRoot fs hs.req r) ∨
    ∃ f, httpFindFile E fsRoot hs uri is09 fs w = .error f ∧ CgiFaults E f := httpFindFile_finds uri w
  rw [h] at hcases
  rcases hcases with ⟨r', he, hfinds⟩ | ⟨f, he, -⟩
  · rwa [Except.ok.inj he]
  · cases he

end Open

/-! ### One callback -/

/-- The slot is the same, as far as anyone sees. -/
def Same (fs fs' : FsMemory) (k : Fin lwipMaxOpenFiles) : Prop :=
  (fs' k).inuse = (fs k).inuse ∧ ((fs k).inuse = true → fs' k = fs k)

theorem Same.of_eq {fs fs' : FsMemory} {k : Fin lwipMaxOpenFiles} (h : fs' k = fs k) : Same fs fs' k :=
  ⟨by rw [h], fun _ => h⟩

theorem Same.trans {fs fs₁ fs₂ : FsMemory} {k : Fin lwipMaxOpenFiles} (h : Same fs fs₁ k) (h' : Same fs₁ fs₂ k) :
    Same fs fs₂ k := by
  refine ⟨h'.1.trans h.1, fun hin => ?_⟩
  rw [h'.2 (by rw [h.1, hin]), h.2 hin]

/-- What a callback does to the table of open files: nothing, or it gives back the slot of its
connection, or takes a free one for it. -/
inductive Moves (fs fs' : FsMemory) : (held held' : Option (Fin lwipMaxOpenFiles)) → Prop
  | stay {held : Option (Fin lwipMaxOpenFiles)} : (∀ k, Same fs fs' k) → Moves fs fs' held held
  | give {i : Fin lwipMaxOpenFiles} : (fs' i).inuse = false → (∀ k, k ≠ i → Same fs fs' k) → Moves fs fs' (some i) none
  | take {i : Fin lwipMaxOpenFiles} : (fs i).inuse = false → (fs' i).inuse = true → (∀ k, k ≠ i → Same fs fs' k) →
      Moves fs fs' none (some i)

theorem Moves.close (fs : FsMemory) (i : Fin lwipMaxOpenFiles) : Moves fs (fsClose fs i) (some i) none :=
  .give (fsClose_inuse fs i) fun _ hk => .of_eq (fsClose_other fs hk)

/-- A slot is taken, and then the rest of the callback. -/
theorem Moves.behind_take {fs fs₁ fs₂ : FsMemory} {i : Fin lwipMaxOpenFiles} {held : Option (Fin lwipMaxOpenFiles)}
    (hfree : (fs i).inuse = false) (hin : (fs₁ i).inuse = true) (hother : ∀ k, k ≠ i → fs₁ k = fs k)
    (h : Moves fs₁ fs₂ (some i) held) : Moves fs fs₂ none held := by
  have hsame : ∀ {k}, k ≠ i → Same fs₁ fs₂ k → Same fs fs₂ k := fun hk hs => (Same.of_eq (hother _ hk)).trans hs
  cases h with
  | stay hs => exact .take hfree ((hs i).1.trans hin) fun k hk => hsame hk (hs k)
  | give hout hs =>
    refine .stay fun k => ?_
    by_cases hk : k = i
    · subst hk
      exact ⟨hout.trans hfree.symm, fun hin' => by rw [hfree] at hin'; cases hin'⟩
    · exact hsame hk (hs k hk)

section Callback

variable {P : Type} {E : Env P} {J : P → Prop} {fsRoot : List FsdataFile} {fs fs' : FsMemory} {hs : HttpState}
  {i : Fin lwipMaxOpenFiles} {w : P} {queued : List UInt8} {job : Job}

/-- The connection has the file of the job open, and has been sent `queued` of it. -/
structure Busy (E : Env P) (J : P → Prop) (fsRoot : List FsdataFile) (fs : FsMemory) (hs : HttpState) (job : Job)
    (queued : List UInt8) : Prop where
  open_file : ∃ i, hs.handle = some i ∧ fs i = slot job.file
  image : job.file ∈ fsRoot
  req : hs.req = []
  serves : Serves E J hs job queued

/-- The connection waits for its request. -/
structure Waiting (hs : HttpState) (queued : List UInt8) : Prop where
  handle : hs.handle = none
  left : hs.left = 0
  queued : queued = []

/-- A connection waits, or is busy with a file; it has not been polled too often. -/
structure ConnInv (E : Env P) (J : P → Prop) (fsRoot : List FsdataFile) (fs : FsMemory) (hs : HttpState)
    (queued : List UInt8) : Prop where
  retries : hs.retries < httpdMaxRetries
  phase : Waiting hs queued ∨ ∃ job, Busy E J fsRoot fs hs job queued

/-- What is sent for a job in all. -/
def Job.Delivered (E : Env P) (J : P → Prop) (job : Job) (out : List UInt8) : Prop :=
  Whole E J job.tagCheck job.file.data job.skip out

/-- The request and the counter of the polls do not matter for what is sent. -/
theorem Serves.aside (h : Serves E J hs job queued) (req : List (List UInt8)) (retries : UInt8) :
    Serves E J { hs with req, retries } job queued := by
  obtain ⟨hskips, htags, hblock, hsent⟩ := h
  refine ⟨hskips, htags, hblock, ?_⟩
  by_cases htag : hs.tagCheck = true
  · rw [if_pos htag] at hsent ⊢
    obtain ⟨h₁, h₂, h₃, h₄, h₅, h₆⟩ := hsent
    exact ⟨h₁, h₂, h₃, h₄, h₅, h₆⟩
  · rw [if_neg htag] at hsent ⊢
    exact hsent

theorem Busy.setRetries (h : Busy E J fsRoot fs hs job queued) (retries : UInt8) :
    Busy E J fsRoot fs { hs with retries } job queued :=
  ⟨h.open_file, h.image, h.req, h.serves.aside hs.req retries⟩

theorem Waiting.not_busy (h : Waiting hs queued) : ¬ Busy E J fsRoot fs hs job queued := by
  intro hb
  obtain ⟨i, hi, -⟩ := hb.open_file
  rw [h.handle] at hi
  cases hi

theorem ConnInv.waiting (h : ConnInv E J fsRoot fs hs queued) (hnone : hs.handle = none) : Waiting hs queued := by
  refine h.phase.resolve_right ?_
  rintro ⟨job, hb⟩
  obtain ⟨i, hi, -⟩ := hb.open_file
  rw [hnone] at hi
  cases hi

/-- For a connection that waits it does not matter what the texts of the tags are. -/
theorem ConnInv.texts {J' : P → Prop} (h : ConnInv E J' fsRoot fs hs queued) (hnone : hs.handle = none) :
    ConnInv E J fsRoot fs hs queued :=
  ⟨h.retries, .inl (h.waiting hnone)⟩

theorem ConnInv.busy (h : ConnInv E J fsRoot fs hs queued) (hsome : hs.handle = some i) :
    ∃ job, Busy E J fsRoot fs hs job queued := by
  refine h.phase.resolve_left fun hw => ?_
  rw [hw.handle] at hsome
  cases hsome

theorem zero_lt_retries : 0 < httpdMaxRetries := by decide

theorem succ_lt_retries {r : UInt8} (h : r < httpdMaxRetries) (hne : r + 1 ≠ httpdMaxRetries) :
    r + 1 < httpdMaxRetries := by
  have hadd : (r + 1).toNat = (r.toNat + 1) % 256 := UInt8.toNat_add ..
  have hmax : httpdMaxRetries.toNat = 4 := rfl
  rw [UInt8.lt_iff_toNat_lt] at h ⊢
  have hne' : (r + 1).toNat ≠ 4 := fun he => hne (UInt8.toNat_inj.mp he)
  omega

/-! ### What a call leaves -/

/-- The connection goes on no longer. -/
def Conn.Ended (conn : Conn) : Prop := ∀ hs, conn ≠ .active hs

/-- A call that sends on a busy connection: the connection stays busy with its job, or the job is done. -/
structure Sends (E : Env P) (J : P → Prop) (fsRoot : List FsdataFile) (fs : FsMemory) (hs : HttpState) (job : Job)
    (queued : List UInt8) (w : P) (d : Done P) : Prop where
  world : J d.io.world
  moves : Moves fs d.fs hs.handle d.conn.handle
  cause : (∃ hs', d.conn = .active hs') ∨ d.conn.Ended ∧ job.Delivered E J (queued ++ d.io.sent)
  conn : ∀ hs', d.conn = .active hs' → hs'.frame = hs.frame ∧
    Busy E J fsRoot d.fs hs' job (queued ++ d.io.sent) ∧ (Takes E w → d.io.sent ≠ [])

/-- **Sending on a connection with a file open.** -/
theorem httpSendData_sends (hE : E.Keeps J) (hbody : ∀ f ∈ fsRoot, HasBody f) (hJ : J w)
    (hbusy : Busy E J fsRoot fs hs job queued) :
    ∃ d, httpSendData E hs fs w = .ok d ∧ Sends E J fsRoot fs hs job queued w d := by
  obtain ⟨⟨i, hhandle, hfile⟩, hroot, hreq, hskips, htags, hserve⟩ := hbusy
  have hread : fsBytesLeft (fs i).file ≤ 0 := by
    rw [hfile, fsBytesLeft]
    exact (sub_self _).le
  obtain ⟨d, hd, hw, hs', hserve', hframe, hconn⟩ := httpSendData_goes hE hJ hserve hhandle hread
  have hh : hs'.handle = hs.handle := congrArg Prod.fst hframe
  have hr : hs'.req = hs.req := congrArg (fun f => f.2.2.1) hframe
  have ht : hs'.tagCheck = hs.tagCheck := congrArg (fun f => f.2.2.2.2.2) hframe
  refine ⟨d, hd, ?_⟩
  have hclosed : d.conn.handle = none → d.conn.Ended → hs'.left = 0 ∧ d.fs = fsClose fs i →
      Sends E J fsRoot fs hs job queued w d := by
    rintro hnone hne ⟨hleft, hfs⟩
    refine ⟨hw, ?_, .inr ⟨hne, ?_⟩, fun hs' he => absurd he (hne hs')⟩
    · rw [hfs, hnone, hhandle]
      exact .close fs i
    · have hwhole := hserve'.complete hleft ((hbody job.file hroot).lt hskips)
      rw [ht, htags] at hwhole
      exact hwhole
  cases hc : d.conn with
  | active hs₁ =>
    rw [hc] at hconn
    obtain ⟨rfl, hfs⟩ := hconn
    refine ⟨hw, ?_, .inl ⟨hs₁, hc⟩, fun hs₂ he => ?_⟩
    · rw [hfs, hc]
      show Moves fs fs hs.handle hs₁.handle
      rw [hh]
      exact .stay fun _ => .of_eq rfl
    · obtain rfl := Conn.active.inj (hc.symm.trans he)
      refine ⟨hframe, ⟨⟨i, hh.trans hhandle, hfs ▸ hfile⟩, hroot, hr.trans hreq, hskips, ht.trans htags, hserve'⟩,
        fun htakes => ?_⟩
      exact httpSendData_progress hE htakes hJ hserve hhandle hread hd hc
  | closing =>
    rw [hc] at hconn
    exact hclosed (by rw [hc]; rfl) (fun hs' he => by rw [hc] at he; cases he) hconn
  | closed =>
    rw [hc] at hconn
    exact hclosed (by rw [hc]; rfl) (fun hs' he => by rw [hc] at he; cases he) hconn

/-- Without a file, the connection is closed. -/
theorem httpSendData_none (hs : HttpState) (hhandle : hs.handle = none) (hleft : hs.left = 0) :
    httpSendData E hs fs w = .ok (closeAndReturn E hs fs ⟨w, []⟩ false) := by
  unfold httpSendData refill
  rw [if_pos hleft, hhandle]

/-- A callback that ends a connection whatever it is busy with. -/
def Aborts (hs : HttpState) : Event P → Prop
  | .recv _ p err => p = none ∨ err ≠ .ok
  | .poll _ => hs.retries + 1 = httpdMaxRetries
  | .err _ => True
  | _ => False

/-- A callback that closes a connection that has not been given a file: the request is none, or
there is no file for it, nor one that says so; or something was acknowledged before anything was sent. -/
def Refuses (out : List UInt8) : Event P → Prop
  | .recv _ (some _) .ok => out = []
  | .sent _ => out = []
  | _ => False

/-- The buffers that a callback is handed. -/
def Event.taken : Event P → List (List UInt8)
  | .recv _ p _ => p.getD []
  | _ => []

/-- The buffers that a callback on a connection neither frees nor keeps: what comes in while a file
is sent, and what there is of a request when the connection is closed. -/
def lostBuffers (hs : HttpState) : Event P → List (List UInt8)
  | .recv _ (some p) .ok => if hs.handle.isSome then p else []
  | .recv _ _ _ => hs.req
  | .sent _ => hs.req
  | .poll _ => if hs.retries + 1 = httpdMaxRetries then hs.req else []
  | .err _ => hs.req
  | _ => []

def Conn.req : Conn → List (List UInt8)
  | .active hs => hs.req
  | _ => []

def Event.polls : Event P → UInt8
  | .poll _ => 1
  | _ => 0

/-- What a callback does on a connection with the invariant. -/
structure Returns (E : Env P) (J : P → Prop) (fsRoot : List FsdataFile) (fs : FsMemory) (hs : HttpState)
    (queued : List UInt8) (w : P) (pcb : ℕ) (e : Event P) (freed : List (List UInt8)) (d : Done P) : Prop where
  world : J d.io.world
  moves : Moves fs d.fs hs.handle d.conn.handle
  conn : ∀ hs', d.conn = .active hs' → ConnInv E J fsRoot d.fs hs' (queued ++ d.io.sent)
  /-- A connection that is busy stays so until its job is done. -/
  busy : ∀ job, Busy E J fsRoot fs hs job queued →
    (∃ hs', d.conn = .active hs' ∧ hs'.handle = hs.handle ∧ Busy E J fsRoot d.fs hs' job (queued ++ d.io.sent)) ∨
      d.conn.Ended ∧ (Aborts hs e ∨ job.Delivered E J (queued ++ d.io.sent))
  /-- One that waits goes on, or is closed with nothing sent, or after all of a file. -/
  waiting : Waiting hs queued → (∃ hs', d.conn = .active hs') ∨ Aborts hs e ∨ Refuses (queued ++ d.io.sent) e ∨
    ∃ job : Job, job.file ∈ fsRoot ∧ Skips job.file job.skip ∧ job.Delivered E J (queued ++ d.io.sent)
  buffers : (hs.req ++ e.taken).Perm (freed ++ (d.conn.req ++ lostBuffers hs e))
  retries : ∀ hs', d.conn = .active hs' → e ≠ .sent pcb → hs'.handle = hs.handle → hs'.retries = hs.retries + e.polls
  progress : ∀ hs', d.conn = .active hs' → e = .sent pcb → Takes E w → d.io.sent ≠ []

theorem closeAndReturn_fs (hs : HttpState) (fs : FsMemory) (io : Io P) (ret : Bool) :
    (closeAndReturn E hs fs io ret).fs = hs.handle.elim fs (fsClose fs) := by
  unfold closeAndReturn httpCloseConn
  rcases E.tcpClose io.world with ⟨err, w⟩
  dsimp only [Option.bind_some]
  cases hs.handle <;> cases err <;> rfl

/-- The connection is closed without anything being sent. -/
theorem closing_returns (hE : E.Keeps J) {w w' : P} (hJ : J w') (hs hs₁ : HttpState) (hh : hs₁.handle = hs.handle)
    {pcb : ℕ} {e : Event P} {freed : List (List UInt8)} (hbusy : Aborts hs e ∨ Waiting hs queued ∧ Refuses queued e)
    (hbuf : (hs.req ++ e.taken).Perm (freed ++ lostBuffers hs e)) :
    Returns E J fsRoot fs hs queued w pcb e freed (closeAndReturn E hs₁ fs ⟨w', []⟩ false) := by
  have hne : (closeAndReturn E hs₁ fs ⟨w', []⟩ false).conn.Ended :=
    fun hs' => closeAndReturn_conn hs₁ hs' fs ⟨w', []⟩ false
  have hw := hE.tcpClose w' hJ
  have hnone : ∀ {r : Conn}, r.handle = none →
      Moves fs (closeAndReturn E hs₁ fs ⟨w', []⟩ false).fs hs.handle r.handle := by
    intro r hr
    rw [closeAndReturn_fs, hh, hr]
    cases hs.handle with
    | none => exact .stay fun _ => .of_eq rfl
    | some i => exact .close fs i
  have hcall : J (closeAndReturn E hs₁ fs ⟨w', []⟩ false).io.world ∧
      Moves fs (closeAndReturn E hs₁ fs ⟨w', []⟩ false).fs hs.handle
        (closeAndReturn E hs₁ fs ⟨w', []⟩ false).conn.handle ∧
      (closeAndReturn E hs₁ fs ⟨w', []⟩ false).conn.req = [] ∧
      (closeAndReturn E hs₁ fs ⟨w', []⟩ false).io.sent = [] := by
    refine ⟨?_, hnone ?_, ?_⟩ <;> unfold closeAndReturn httpCloseConn <;>
      rcases hc : E.tcpClose w' with ⟨err, w''⟩ <;> rw [hc] at hw
    · cases err <;> exact hw
    · cases err <;> rfl
    · cases err <;> exact ⟨rfl, rfl⟩
  obtain ⟨hworld, hmoves, hreq, hsent⟩ := hcall
  refine ⟨hworld, hmoves, fun hs' he => absurd he (hne hs'), fun job hb => ?_, fun _ => ?_, ?_,
    fun hs' he => absurd he (hne hs'), fun hs' he => absurd he (hne hs')⟩
  · exact .inr ⟨hne, .inl (hbusy.resolve_right fun h => h.1.not_busy hb)⟩
  · rw [hsent, List.append_nil]
    rcases hbusy with h | h
    · exact .inr (.inl h)
    · exact .inr (.inr (.inl h.2))
  · rwa [hreq, List.nil_append]

theorem httpErr_returns (hJ : J w) (pcb : ℕ) :
    Returns E J fsRoot fs hs queued w pcb (.err pcb) [] (httpErr hs fs w) := by
  refine ⟨hJ, ?_, nofun, fun _ _ => .inr ⟨nofun, .inl trivial⟩, fun _ => .inr (.inl trivial), ?_, nofun, nofun⟩
  · unfold httpErr
    cases hs.handle with
    | none => exact .stay fun _ => .of_eq rfl
    | some i => exact .close fs i
  · simp [httpErr, Event.taken, lostBuffers, Conn.req]

/-- The connection goes on, with nothing sent. -/
theorem staying_returns (hJ : J w) (hs : HttpState) {hs₁ : HttpState} (hinv : ConnInv E J fsRoot fs hs₁ queued)
    (hh : hs₁.handle = hs.handle) (hbusy : ∀ job, Busy E J fsRoot fs hs job queued → Busy E J fsRoot fs hs₁ job queued)
    {pcb : ℕ} {e : Event P} {freed : List (List UInt8)} (hne : e ≠ .sent pcb)
    (hretries : hs₁.retries = hs.retries + e.polls)
    (hbuf : (hs.req ++ e.taken).Perm (freed ++ (hs₁.req ++ lostBuffers hs e))) :
    Returns E J fsRoot fs hs queued w pcb e freed ⟨.active hs₁, fs, ⟨w, []⟩, false⟩ := by
  refine ⟨hJ, ?_, fun hs' he => ?_, fun job hb => .inl ⟨hs₁, rfl, hh, ?_⟩, fun _ => .inl ⟨hs₁, rfl⟩, hbuf,
    fun hs' he _ _ => ?_, fun _ _ he => absurd he hne⟩
  · show Moves fs fs hs.handle hs₁.handle
    rw [hh]
    exact .stay fun _ => .of_eq rfl
  · obtain rfl := Conn.active.inj he
    show ConnInv E J fsRoot fs hs₁ (queued ++ [])
    rwa [List.append_nil]
  · show Busy E J fsRoot fs hs₁ job (queued ++ [])
    rw [List.append_nil]
    exact hbusy job hb
  · obtain rfl := Conn.active.inj he
    exact hretries

/-- What becomes of a request: a file is found for it, or a handler faults, or it is not complete, or none. -/
theorem httpParseRequest_cases (hhandle : hs.handle = none) (p : List (List UInt8)) :
    (∃ r, httpParseRequest E fsRoot p hs fs w = .ok (.ok, r) ∧ FindsFile E J fsRoot fs (hs.req ++ p) r) ∨
    (∃ f, httpParseRequest E fsRoot p hs fs w = .error f ∧ CgiFaults E f) ∨
    httpParseRequest E fsRoot p hs fs w = .ok (.inprogress, ⟨{ hs with req := hs.req ++ p }, fs, w⟩) ∨
    httpParseRequest E fsRoot p hs fs w = .ok (.arg, ⟨{ hs with req := hs.req ++ p }, fs, w⟩) := by
  unfold httpParseRequest
  rw [if_neg (by rw [hhandle]; exact Bool.false_ne_true)]
  dsimp only
  cases parseLine (requestData (hs.req ++ p)) with
  | get uri is09 =>
    dsimp only
    rcases httpFindFile_finds uri w with ⟨r, h, hfinds⟩ | ⟨f, h, hf⟩
    · rw [h]
      exact .inl ⟨r, rfl, hfinds⟩
    · rw [h]
      exact .inr (.inl ⟨f, rfl, hf⟩)
  | unsupported => exact .inr (.inr (.inr rfl))
  | incomplete =>
    dsimp only
    split
    · exact .inr (.inr (.inl rfl))
    · exact .inr (.inr (.inr rfl))

/-! ### The callbacks -/

section Callbacks

variable (hE : E.Keeps J) (hbody : ∀ f ∈ fsRoot, HasBody f) (hJ : J w) (hinv : ConnInv E J fsRoot fs hs queued)
include hE hbody hinv

include hJ in
/-- Sending with the counter of the polls set. -/
theorem httpSendData_returns (hhandle : hs.handle = some i) {retries : UInt8} (hlt : retries < httpdMaxRetries)
    {pcb : ℕ} {e : Event P} (he : e = .sent pcb ∨ e = .poll pcb ∧ retries = hs.retries + 1) :
    ∃ d, httpSendData E { hs with retries } fs w = .ok d ∧ Returns E J fsRoot fs hs queued w pcb e [] d := by
  obtain ⟨job, hb⟩ := hinv.busy hhandle
  obtain ⟨d, hd, hsends⟩ := httpSendData_sends hE hbody hJ (hb.setRetries retries)
  have hall : ∀ job', Busy E J fsRoot fs hs job' queued →
      Sends E J fsRoot fs { hs with retries } job' queued w d := by
    intro job' hb'
    obtain ⟨d', hd', hsends'⟩ := httpSendData_sends hE hbody hJ (hb'.setRetries retries)
    rw [hd] at hd'
    obtain rfl := Except.ok.inj hd'
    exact hsends'
  have hkeep : ∀ hs', d.conn = .active hs' → hs'.handle = hs.handle ∧ hs'.req = hs.req ∧ hs'.retries = retries := by
    intro hs' hc
    have hf := (hsends.conn hs' hc).1
    exact ⟨congrArg Prod.fst hf, congrArg (fun f => f.2.2.1) hf, congrArg (fun f => f.2.2.2.2.1) hf⟩
  have hreq' : d.conn.req = [] := by
    cases hc : d.conn with
    | active hs' => exact (hkeep hs' hc).2.1.trans hb.req
    | closing => rfl
    | closed => rfl
  have hlost : e.taken = [] ∧ lostBuffers hs e = [] := by
    rcases he with rfl | ⟨rfl, -⟩
    · exact ⟨rfl, hb.req⟩
    · refine ⟨rfl, ?_⟩
      show (if _ then hs.req else []) = []
      rw [hb.req, ite_self]
  refine ⟨d, hd, hsends.world, hsends.moves,
    fun hs' hc => ⟨?_, .inr ⟨job, (hsends.conn hs' hc).2.1⟩⟩, fun job' hb' => ?_,
    fun hw => absurd hb hw.not_busy, ?_, fun hs' hc hne _ => ?_, fun hs' hc _ => (hsends.conn hs' hc).2.2⟩
  · rw [(hkeep hs' hc).2.2]
    exact hlt
  · rcases (hall job' hb').cause with ⟨hs', hc⟩ | hdone
    · exact .inl ⟨hs', hc, (hkeep hs' hc).1, ((hall job' hb').conn hs' hc).2.1⟩
    · exact .inr ⟨hdone.1, .inr hdone.2⟩
  · rw [hb.req, hreq', hlost.1, hlost.2]
    exact .refl _
  · obtain ⟨rfl, hr⟩ := he.resolve_left hne
    exact (hkeep hs' hc).2.2.trans hr

include hJ in
theorem httpSent_returns (pcb : ℕ) :
    ∃ d, httpSent E hs fs w = .ok d ∧ Returns E J fsRoot fs hs queued w pcb (.sent pcb) [] d := by
  unfold httpSent
  rcases Option.eq_none_or_eq_some hs.handle with hhandle | ⟨i, hhandle⟩
  · have hw := hinv.waiting hhandle
    refine ⟨_, httpSendData_none { hs with retries := 0 } hhandle hw.left,
      closing_returns hE hJ hs { hs with retries := 0 } rfl (.inr ⟨hw, hw.queued⟩) ?_⟩
    show (hs.req ++ []).Perm ([] ++ hs.req)
    rw [List.append_nil]
    exact .refl _
  · exact httpSendData_returns hE hbody hJ hinv hhandle zero_lt_retries (.inl rfl)

include hJ in
theorem httpPoll_returns (pcb : ℕ) :
    ∃ d, httpPoll E hs fs w = .ok d ∧ Returns E J fsRoot fs hs queued w pcb (.poll pcb) [] d := by
  unfold httpPoll
  dsimp only
  by_cases hmax : hs.retries + 1 = httpdMaxRetries
  · rw [if_pos hmax]
    refine ⟨_, rfl, closing_returns hE hJ hs { hs with retries := hs.retries + 1 } rfl (.inl hmax) ?_⟩
    show (hs.req ++ []).Perm ([] ++ if _ then hs.req else [])
    rw [if_pos hmax, List.append_nil]
    exact .refl _
  · rw [if_neg hmax]
    have hlt := succ_lt_retries hinv.retries hmax
    rcases Option.eq_none_or_eq_some hs.handle with hhandle | ⟨i, hhandle⟩
    · have hw := hinv.waiting hhandle
      rw [if_neg (by rw [hhandle]; exact Bool.false_ne_true)]
      have hstay : ConnInv E J fsRoot fs { hs with retries := hs.retries + 1 } queued :=
        ⟨hlt, .inl ⟨hhandle, hw.left, hw.queued⟩⟩
      have hbuf : (hs.req ++ []).Perm ([] ++ (hs.req ++ if hs.retries + 1 = httpdMaxRetries then hs.req else [])) := by
        rw [if_neg hmax]
        exact .refl _
      have hne : Event.poll pcb ≠ (Event.sent pcb : Event P) := nofun
      exact ⟨_, rfl, staying_returns hJ hs hstay rfl (fun job hb => hb.setRetries _) hne rfl hbuf⟩
    · rw [if_pos (by rw [hhandle]; rfl)]
      exact httpSendData_returns hE hbody hJ hinv hhandle hlt (.inr ⟨rfl, rfl⟩)

/-- A file was found for a request: it is sent, and the buffers of the request are freed. -/
theorem httpSendData_found (hnone : hs.handle = none) {r : Found P} (hJ : J r.world) {p : List (List UInt8)}
    (hfinds : FindsFile E J fsRoot fs (hs.req ++ p) r) (hstarts : Starts E J fsRoot fs r job) (pcb : ℕ) :
    ∃ d, httpSendData E { r.hs with req := [] } r.fs r.world = .ok d ∧
      Returns E J fsRoot fs hs queued w pcb (.recv pcb (some p) .ok) (hs.req ++ p) d ∧
      ((∃ hs', d.conn = .active hs' ∧ Busy E J fsRoot d.fs hs' job (queued ++ d.io.sent)) ∨
        d.conn.Ended ∧ job.Delivered E J (queued ++ d.io.sent)) := by
  have hw := hinv.waiting hnone
  obtain ⟨i, ⟨hroot, hfree, hfs⟩, hhandle, hserves⟩ := hstarts
  have hin : r.fs i = slot job.file := by rw [hfs, Function.update_self]
  have hbusy : Busy E J fsRoot r.fs { r.hs with req := [] } job queued := by
    rw [hw.queued]
    exact ⟨⟨i, hhandle, hin⟩, hroot, rfl, hserves.aside [] r.hs.retries⟩
  obtain ⟨d, hd, hsends⟩ := httpSendData_sends hE hbody hJ hbusy
  have hkeep : ∀ hs', d.conn = .active hs' → hs'.handle = some i ∧ hs'.req = [] ∧ hs'.retries = 0 := by
    intro hs' hc
    have hf := (hsends.conn hs' hc).1
    exact ⟨(congrArg Prod.fst hf).trans hhandle, congrArg (fun f => f.2.2.1) hf,
      (congrArg (fun f => f.2.2.2.2.1) hf).trans hfinds.retries⟩
  have hreq : d.conn.req = [] := by
    cases hc : d.conn with
    | active hs' => exact (hkeep hs' hc).2.1
    | closing => rfl
    | closed => rfl
  have hmoves : Moves r.fs d.fs (some i) d.conn.handle := hhandle ▸ hsends.moves
  refine ⟨d, hd, ⟨hsends.world, ?_, fun hs' hc => ⟨?_, .inr ⟨job, (hsends.conn hs' hc).2.1⟩⟩,
    fun job' hb => absurd hb hw.not_busy, fun _ => hsends.cause.imp_right fun hdone =>
      .inr (.inr ⟨job, hroot, hserves.skips, hdone.2⟩), ?_, fun hs' hc _ he => ?_, nofun⟩,
    hsends.cause.imp_left fun ⟨hs', hc⟩ => ⟨hs', hc, (hsends.conn hs' hc).2.1⟩⟩
  · rw [hnone]
    exact .behind_take hfree (by rw [hin]; rfl) (fun k hk => by rw [hfs, Function.update_of_ne hk]) hmoves
  · rw [(hkeep hs' hc).2.2]
    exact zero_lt_retries
  · show (hs.req ++ p).Perm (hs.req ++ p ++ (d.conn.req ++ if hs.handle.isSome then p else []))
    rw [hreq, hnone]
    simp
  · rw [(hkeep hs' hc).1, hnone] at he
    cases he

include hJ in
/-- **Receiving**: the invariant is kept, unless the handler of a URI faults. -/
theorem httpRecv_returns (p : Option (List (List UInt8))) (err : Err) (pcb : ℕ)
    (hkeep : ∀ q ∈ p, ∀ r, httpParseRequest E fsRoot q hs fs w = .ok (.ok, r) → J r.world) :
    (∃ r, httpRecv E fsRoot p err hs fs w = .ok r ∧
      Returns E J fsRoot fs hs queued w pcb (.recv pcb p err) r.2 r.1) ∨
    ∃ f, httpRecv E fsRoot p err hs fs w = .error f ∧ CgiFaults E f := by
  have hclose : p = none ∨ err ≠ .ok → Returns E J fsRoot fs hs queued w pcb (.recv pcb p err) (p.getD [])
      (closeAndReturn E hs fs ⟨w, []⟩ false) := by
    intro h
    refine closing_returns hE hJ hs hs rfl (.inl h) ?_
    have hlost : lostBuffers hs (Event.recv pcb p err : Event P) = hs.req := by
      cases p with
      | none => rfl
      | some p => cases err with
        | ok => exact absurd rfl (h.resolve_left nofun)
        | mem => rfl
        | other => rfl
    rw [hlost]
    exact List.perm_append_comm
  cases p with
  | none => exact .inl ⟨_, rfl, hclose (.inl rfl)⟩
  | some p =>
    cases err with
    | mem => exact .inl ⟨_, rfl, hclose (.inr nofun)⟩
    | other => exact .inl ⟨_, rfl, hclose (.inr nofun)⟩
    | ok =>
      have hne : Event.recv pcb (some p) .ok ≠ (Event.sent pcb : Event P) := nofun
      unfold httpRecv
      dsimp only
      rcases Option.eq_none_or_eq_some hs.handle with hhandle | ⟨i, hhandle⟩
      · have hwait := hinv.waiting hhandle
        rw [if_pos (by rw [hhandle]; rfl)]
        have hkept : ∀ xs ys : List (List UInt8), xs ++ ys = hs.req ++ p →
            (hs.req ++ p).Perm (xs ++ (ys ++ if hs.handle.isSome then p else [])) := by
          intro xs ys he
          rw [hhandle, ← he]
          simp
        rcases httpParseRequest_cases hhandle p with ⟨r, h, hfinds⟩ | ⟨f, h, hf⟩ | h | h
        · have hw := hkeep p rfl r h
          rw [h]
          dsimp only
          rw [hfinds.req]
          rcases hfinds.found with ⟨job, hstarts⟩ | ⟨hfs, hnone, hzero⟩
          · obtain ⟨d, hd, hret, -⟩ := httpSendData_found hE hbody hinv hhandle hw hfinds hstarts pcb
            rw [hd]
            exact .inl ⟨_, rfl, hret⟩
          · rw [httpSendData_none { r.hs with req := [] } hnone hzero, hfs]
            exact .inl ⟨_, rfl, closing_returns hE hw hs _ (hnone.trans hhandle.symm) (.inr ⟨hwait, hwait.queued⟩)
              (hkept (hs.req ++ p) [] (List.append_nil _))⟩
        · rw [h]
          exact .inr ⟨f, rfl, hf⟩
        · rw [h]
          have hstay : ConnInv E J fsRoot fs { hs with req := hs.req ++ p } queued :=
            ⟨hinv.retries, .inl ⟨hhandle, hwait.left, hwait.queued⟩⟩
          exact .inl ⟨_, rfl, staying_returns hJ hs hstay rfl (fun job hb => absurd hb hwait.not_busy) hne
            (add_zero hs.retries).symm (hkept [] (hs.req ++ p) rfl)⟩
        · rw [h]
          exact .inl ⟨_, rfl, closing_returns hE hJ hs _ rfl (.inr ⟨hwait, hwait.queued⟩)
            (hkept (hs.req ++ p) [] (List.append_nil _))⟩
      · rw [if_neg (by rw [hhandle]; exact Bool.false_ne_true)]
        obtain ⟨job, hb⟩ := hinv.busy hhandle
        have hsame : ({ hs with req := [] } : HttpState) = hs := by rw [← hb.req]
        rw [hsame, hb.req]
        have hbuf : (hs.req ++ p).Perm ([] ++ (hs.req ++ if hs.handle.isSome then p else [])) := by
          rw [hhandle]
          exact .refl _
        exact .inl ⟨_, rfl, staying_returns hJ hs hinv rfl (fun _ => id) hne (add_zero hs.retries).symm hbuf⟩

end Callbacks

end Callback

end Httpd
end Serial2Ethernet
