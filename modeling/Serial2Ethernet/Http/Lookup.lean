/-
# The file for a URI

`served` says which file a URI stands for: the first default file of the image
for the root, the file of the name, or the page for what is not found. As long
as a slot is free, `http_find_file` opens that file, for a URI as for the one
that a handler answers with (`httpFindFile_opens`, `httpFindFile_cgi`).
-/
import Serial2Ethernet.Http.Callback

namespace Serial2Ethernet
namespace Httpd

open Lib Fs Ssi

def fileNamed (fsRoot : List FsdataFile) (name : List UInt8) : Option FsdataFile :=
  fsRoot.find? fun f => f.name = name

/-- The first of the names that has a file. -/
def firstFile (fsRoot : List FsdataFile) (names : List (List UInt8)) : Option (FsdataFile × List UInt8) :=
  names.findSome? fun name => (fileNamed fsRoot name).map fun f => (f, name)

def notFoundNames : List (List UInt8) := [text "/404.html", text "/404.htm", text "/404.shtml"]

/-- The file of the name, or the page for what is not found, and whether it is searched for tags. -/
def servedUri (fsRoot : List FsdataFile) (uri : List UInt8) : Option (FsdataFile × Bool) :=
  (firstFile fsRoot (uri :: notFoundNames)).map fun p => (p.1, isSsi p.2)

/-- What a URI stands for. -/
def served (fsRoot : List FsdataFile) (uri : List UInt8) : Option (FsdataFile × Bool) :=
  if uri = text "/" then
    match firstFile fsRoot (gPsDefaultFilenames.map Prod.fst) with
    | some (f, name) => some (f, (gPsDefaultFilenames.lookup name).getD false)
    | none => (firstFile fsRoot notFoundNames).map fun p => (p.1, false)
  else servedUri fsRoot uri

section Open

variable {P : Type} {E : Env P} {J : P → Prop} {fsRoot : List FsdataFile} {fs : FsMemory} {hs : HttpState}
  {is09 : Bool} {w : P}

/-- With a free slot, an open fails only for want of a file. -/
theorem fsOpen_free (fsRoot : List FsdataFile) (hfree : ¬ Full fs) (name : List UInt8) :
    (∃ i f, fileNamed fsRoot name = some f ∧ fsOpen fsRoot fs name = (some i, Function.update fs i (slot f)) ∧
      Opened fsRoot fs (Function.update fs i (slot f)) i f) ∨
    fileNamed fsRoot name = none ∧ fsOpen fsRoot fs name = (none, fs) := by
  rcases h : fsOpen fsRoot fs name with ⟨r, m⟩
  cases r with
  | some i =>
    obtain ⟨f, hf, hin, rfl⟩ := fsOpen_some h
    exact .inl ⟨i, f, hf, rfl, List.mem_of_find?_eq_some hf, hin, rfl⟩
  | none =>
    obtain ⟨hnone, rfl⟩ := fsOpen_none h
    exact .inr ⟨hnone.resolve_left hfree, rfl⟩

theorem openFirst_free (fsRoot : List FsdataFile) (hfree : ¬ Full fs) (names : List (List UInt8)) :
    (∃ i f name, firstFile fsRoot names = some (f, name) ∧
      openFirst fsRoot fs names = (some (i, name), Function.update fs i (slot f)) ∧
      Opened fsRoot fs (Function.update fs i (slot f)) i f) ∨
    firstFile fsRoot names = none ∧ openFirst fsRoot fs names = (none, fs) := by
  induction names with
  | nil => exact .inr ⟨rfl, rfl⟩
  | cons name names ih =>
    unfold firstFile openFirst
    rcases fsOpen_free fsRoot hfree name with ⟨i, f, hf, ho, hopen⟩ | ⟨hf, ho⟩
    · rw [ho]
      exact .inl ⟨i, f, name, by rw [List.findSome?_cons, hf]; rfl, rfl, hopen⟩
    · rw [ho, List.findSome?_cons, hf]
      exact ih

/-- What was found is the file, and it is served from its beginning; or nothing was to be found. -/
def Finds (E : Env P) (J : P → Prop) (fsRoot : List FsdataFile) (fs : FsMemory) (is09 : Bool) (r : Found P) :
    Option (FsdataFile × Bool) → Prop
  | some (f, tagCheck) => Starts E J fsRoot fs r ⟨f, headerLen f is09, tagCheck⟩
  | none => r.fs = fs ∧ r.hs.handle = none ∧ r.hs.left = 0

theorem opened_served {f : FsdataFile} {i : Fin lwipMaxOpenFiles} {fs' : FsMemory} (hs : HttpState) (tagCheck : Bool)
    (ho : Opened fsRoot fs fs' i f) (w : P) :
    Finds E J fsRoot fs is09 ⟨httpInitFile { hs with tagCheck } fs' (some i) is09, fs', w⟩ (some (f, tagCheck)) :=
  (opened_starts { hs with tagCheck } ho w).2

theorem openUri_opens (hfree : ¬ Full fs) (hs : HttpState) (uri : List UInt8) (w : P) :
    Finds E J fsRoot fs is09 (openUri fsRoot hs uri is09 fs w) (servedUri fsRoot uri) := by
  unfold openUri servedUri firstFile
  rcases fsOpen_free fsRoot hfree uri with ⟨i, f, hf, ho, hopen⟩ | ⟨hf, ho⟩
  · rw [ho, List.findSome?_cons, hf]
    exact opened_served hs (isSsi uri) hopen w
  · rw [ho, List.findSome?_cons, hf]
    dsimp only [Option.map_none]
    unfold httpGet404File
    rcases openFirst_free fsRoot hfree notFoundNames with ⟨i, f, name, hn, hof, hopen⟩ | ⟨hn, hof⟩
    · unfold firstFile at hn
      unfold notFoundNames at hof
      rw [hn, hof]
      exact opened_served hs (isSsi name) hopen w
    · unfold firstFile at hn
      unfold notFoundNames at hof
      rw [hn, hof]
      exact ⟨rfl, rfl, rfl⟩

/-- **Finding the file for a URI** that no handler is for. -/
theorem httpFindFile_opens (hfree : ¬ Full fs) (hs : HttpState) (uri : List UInt8) (w : P)
    (hcgi : uri = text "/" ∨ E.gPCGIs.find? (fun cgi => cgi.pcCGIName = (splitUri uri).1) = none) :
    ∃ r, httpFindFile E fsRoot hs uri is09 fs w = .ok r ∧ r.world = w ∧
      Finds E J fsRoot fs is09 r (served fsRoot uri) := by
  unfold httpFindFile served
  by_cases hroot : uri = text "/"
  · rw [if_pos hroot, if_pos hroot]
    rcases openFirst_free fsRoot hfree (gPsDefaultFilenames.map Prod.fst) with
      ⟨i, f, name, hn, hof, hopen⟩ | ⟨hn, hof⟩
    · rw [hn, hof]
      exact ⟨_, rfl, rfl, opened_served hs ((gPsDefaultFilenames.lookup name).getD false) hopen w⟩
    · rw [hn, hof]
      dsimp only
      unfold httpGet404File
      rcases openFirst_free fsRoot hfree notFoundNames with ⟨i, f, name, hn', hof', hopen⟩ | ⟨hn', hof'⟩
      · rw [hn']
        unfold notFoundNames at hof'
        rw [hof']
        exact ⟨_, rfl, rfl, opened_served hs false hopen w⟩
      · rw [hn']
        unfold notFoundNames at hof'
        rw [hof']
        exact ⟨_, rfl, rfl, rfl, rfl, rfl⟩
  · rw [if_neg hroot, if_neg hroot, hcgi.resolve_left hroot]
    exact ⟨_, rfl, openUri_world uri w, openUri_opens hfree { hs with tagCheck := false } uri w⟩

/-- The same for a URI with a handler: it is given the parameters, and the file is the one for its answer. -/
theorem httpFindFile_cgi (hfree : ¬ Full fs) (hs : HttpState) {uri uri' : List UInt8} {w w' : P}
    (hroot : uri ≠ text "/")
    {cgi : Cgi P} (hcgi : E.gPCGIs.find? (fun cgi => cgi.pcCGIName = (splitUri uri).1) = some cgi)
    (hret : cgi.pfnCGIHandler w (extractUriParameters ((splitUri uri).2.map chars)) = .ok (uri', w')) :
    ∃ r, httpFindFile E fsRoot hs uri is09 fs w = .ok r ∧ r.world = w' ∧
      Finds E J fsRoot fs is09 r (servedUri fsRoot uri') := by
  unfold httpFindFile
  rw [if_neg hroot, hcgi]
  dsimp only
  rw [hret]
  exact ⟨_, rfl, openUri_world uri' w', openUri_opens hfree { hs with tagCheck := false } uri' w'⟩

/-- **A request for a file**: the connection is busy with it afterwards, or all of it has been sent. -/
theorem httpRecv_job (hE : E.Keeps J) (hbody : ∀ f ∈ fsRoot, HasBody f)
    {queued : List UInt8} (hinv : ConnInv E J fsRoot fs hs queued) (hnone : hs.handle = none) {p : List (List UInt8)}
    {uri : List UInt8} {is09 : Bool} (hget : parseLine (requestData (hs.req ++ p)) = .get uri is09)
    {r : Found P} {job : Job}
    (hfind : httpFindFile E fsRoot { hs with req := hs.req ++ p } uri is09 fs w = .ok r) (hJ : J r.world)
    (hstarts : Starts E J fsRoot fs r job) (pcb : ℕ) :
    ∃ d, httpRecv E fsRoot (some p) .ok hs fs w = .ok (d, hs.req ++ p) ∧
      Returns E J fsRoot fs hs queued w pcb (.recv pcb (some p) .ok) (hs.req ++ p) d ∧
      ((∃ hs', d.conn = .active hs' ∧ Busy E J fsRoot d.fs hs' job (queued ++ d.io.sent)) ∨
        d.conn.Ended ∧ job.Delivered E J (queued ++ d.io.sent)) := by
  have hfinds : FindsFile E J fsRoot fs (hs.req ++ p) r := httpFindFile_ok hfind
  have hparse : httpParseRequest E fsRoot p hs fs w = .ok (.ok, r) := by
    unfold httpParseRequest
    rw [if_neg (by rw [hnone]; exact Bool.false_ne_true)]
    dsimp only
    rw [hget]
    dsimp only
    rw [hfind]
    rfl
  obtain ⟨d, hd, hret, hjob⟩ := httpSendData_found hE hbody hinv hnone hJ hfinds hstarts pcb
  refine ⟨d, ?_, hret, hjob⟩
  unfold httpRecv
  dsimp only
  rw [if_pos (by rw [hnone]; rfl), hparse]
  dsimp only
  rw [hfinds.req, hd]
  rfl

end Open

end Httpd
end Serial2Ethernet
