/-
# The request line

`http_parse_request` collects what comes in until the first end of a line is
there, and looks for the URI. `http_find_file` finds the file to send: the
first default file for the root, the answer of the handler for the URI of one,
the file of the name otherwise, and a page for what is not found.
-/
import Serial2Ethernet.Http.SendData

namespace Serial2Ethernet
namespace Httpd

open Fs Ssi

/-- `"\r\n"` -/
def crlf : List UInt8 := [0x0D, 0x0A]

/-- `MIN_REQ_LEN` -/
def minReqLen : ℕ := 7

/-- `LWIP_HTTPD_MAX_REQ_LENGTH`, also `LWIP_HTTPD_REQ_BUFSIZE` -/
def lwipHttpdMaxReqLength : ℕ := 1023

/-- `LWIP_HTTPD_REQ_QUEUELEN` -/
def lwipHttpdReqQueuelen : ℕ := 10

def gPsDefaultFilenames : List (List UInt8 × Bool) :=
  [(text "/index.shtml", true), (text "/index.ssi", true), (text "/index.shtm", true),
    (text "/index.html", false), (text "/index.htm", false)]

def gPcSSIExtensions : List (List UInt8) := [text ".shtml", text ".shtm", text ".ssi", text ".xml"]

/-- Like `strstr`, in the first `n` characters of a buffer: where the token is. -/
def strnstr (token : List UInt8) : (buffer : List UInt8) → (n : ℕ) → Option ℕ
  | [], _ => none
  | b :: buffer, n =>
    if b ≠ 0 ∧ token.length ≤ n then
      if token <+: b :: buffer then some 0 else (strnstr token buffer (n - 1)).map (· + 1)
    else none

/-- What is found is the token, and within the `n` characters. -/
theorem strnstr_some {token : List UInt8} (hne : 0 < token.length) : ∀ {buffer : List UInt8} {n k : ℕ},
    strnstr token buffer n = some k → k + token.length ≤ n ∧ token <+: buffer.drop k
  | [], _, _, h => by cases h
  | b :: buffer, n, k, h => by
    unfold strnstr at h
    split at h
    · next hgo =>
      split at h
      · next hpre =>
        obtain rfl := Option.some.inj h
        exact ⟨by omega, hpre⟩
      · obtain ⟨j, hj, rfl⟩ := Option.map_eq_some_iff.mp h
        obtain ⟨hle, hpre⟩ := strnstr_some hne hj
        refine ⟨by omega, ?_⟩
        rwa [List.drop_succ_cons]
    · cases h

/-! ### The file to send -/

/-- The first file of the names that opens. -/
def openFirst (fsRoot : List FsdataFile) (m : FsMemory) :
    (names : List (List UInt8)) → Option (Fin lwipMaxOpenFiles × List UInt8) × FsMemory
  | [] => (none, m)
  | name :: names =>
    match fsOpen fsRoot m name with
    | (some file, m) => (some (file, name), m)
    | (none, m) => openFirst fsRoot m names

/-- The page for what is not found, and its URI. -/
def httpGet404File (fsRoot : List FsdataFile) (m : FsMemory) :
    Option (Fin lwipMaxOpenFiles × List UInt8) × FsMemory :=
  openFirst fsRoot m [text "/404.html", text "/404.htm", text "/404.shtml"]

/-- Initialize a connection with a file to send, or without one. A response to HTTP/0.9 is sent
without the header that is in the file. -/
def httpInitFile (hs : HttpState) (m : FsMemory) (file : Option (Fin lwipMaxOpenFiles)) (is09 : Bool) : HttpState :=
  match file with
  | some file =>
    let f := (m file).file
    let hs := { hs with
      tagIndex := 0, tagState := .none, parsed := 0, parseLeft := f.data.length, tagEnd := 0
      handle := some file, block := f.data, file := 0, left := f.data.length, retries := 0 }
    if f.httpHeaderIncluded ∧ is09 then
      match strnstr (crlf ++ crlf) hs.block hs.left with
      | some fileStart => hs.sentFile (fileStart + 4)
      | none => hs
    else hs
  | none => { hs with handle := none, left := 0, retries := 0 }

/-- The file has an SSI extension, or something like one, in its name. -/
def isSsi (uri : List UInt8) : Bool := gPcSSIExtensions.any fun ext => ext <:+: uri

section Request

variable {P : Type} (E : Env P) (fsRoot : List FsdataFile)

/-- What is found: the state of the connection, the open files, and the state of the rest. -/
structure Found (P : Type) where
  hs : HttpState
  fs : FsMemory
  world : P

/-- Open the file of the URI, or the page for what is not found. -/
def openUri (hs : HttpState) (uri : List UInt8) (is09 : Bool) (fs : FsMemory) (w : P) : Found P :=
  match fsOpen fsRoot fs uri with
  | (some file, fs) => ⟨httpInitFile { hs with tagCheck := isSsi uri } fs (some file) is09, fs, w⟩
  | (none, fs) =>
    match httpGet404File fsRoot fs with
    | (some (file, uri), fs) => ⟨httpInitFile { hs with tagCheck := isSsi uri } fs (some file) is09, fs, w⟩
    | (none, fs) => ⟨httpInitFile hs fs none is09, fs, w⟩

/-- The characters of a URI. -/
def chars (uri : List UInt8) : List Char := uri.map fun b => Char.ofNat b.toNat

/-- The base of a URI, and the parameters if there is a question mark. -/
def splitUri (uri : List UInt8) : List UInt8 × Option (List UInt8) :=
  match uri.dropWhile (· ≠ 0x3F) with
  | [] => (uri, none)
  | _ :: params => (uri.takeWhile (· ≠ 0x3F), some params)

/-- Find the file for a URI. -/
def httpFindFile (hs : HttpState) (uri : List UInt8) (is09 : Bool) (fs : FsMemory) (w : P) :
    Except Fault (Found P) :=
  let hs := { hs with tagCheck := false }
  if uri = text "/" then
    match openFirst fsRoot fs (gPsDefaultFilenames.map Prod.fst) with
    | (some (file, name), fs) =>
      let shtml := (gPsDefaultFilenames.lookup name).getD false
      .ok ⟨httpInitFile { hs with tagCheck := shtml } fs (some file) is09, fs, w⟩
    | (none, fs) =>
      match httpGet404File fsRoot fs with
      | (file, fs) => .ok ⟨httpInitFile hs fs (file.map Prod.fst) is09, fs, w⟩
  else
    match E.gPCGIs.find? fun cgi => cgi.pcCGIName = (splitUri uri).1 with
    | some cgi =>
      match cgi.pfnCGIHandler w (extractUriParameters ((splitUri uri).2.map chars)) with
      | .error e => .error e
      | .ok (uri, w) => .ok (openUri fsRoot hs uri is09 fs w)
    | none => .ok (openUri fsRoot hs uri is09 fs w)

/-! ### The request -/

/-- What is made of the data that is there. -/
inductive Line
  /-- It is too short, there is no end of a line, or the URI is invalid. -/
  | incomplete
  | unsupported
  | get (uri : List UInt8) (is09 : Bool)
  deriving DecidableEq, Repr

/-- Look for the URI. -/
def parseLine (data : List UInt8) : Line :=
  if minReqLen ≤ data.length ∧ (strnstr crlf data data.length).isSome then
    if text "GET " <+: data then
      match strnstr (text " ") (data.drop 4) (data.length - 4) with
      | some uriLen => .get ((data.drop 4).take uriLen) false
      | none =>
        match strnstr crlf (data.drop 4) (data.length - 4) with
        | some uriLen => .get ((data.drop 4).take uriLen) true
        | none => .incomplete
    else .unsupported
  else .incomplete

/-- The data of the queue: of several buffers, no more than fits `httpd_req_buf`. -/
def requestData : (req : List (List UInt8)) → List UInt8
  | [p] => p
  | req => req.flatten.take lwipHttpdMaxReqLength

/-- What `http_parse_request` returns. -/
inductive Parsed
  | ok
  | inprogress
  | arg
  | use
  deriving DecidableEq, Repr

/-- Parse the request with the buffers of `p`. -/
def httpParseRequest (p : List (List UInt8)) (hs : HttpState) (fs : FsMemory) (w : P) :
    Except Fault (Parsed × Found P) :=
  if hs.handle.isSome then .ok (.use, ⟨hs, fs, w⟩)
  else
    let hs := { hs with req := hs.req ++ p }
    match parseLine (requestData hs.req) with
    | .get uri is09 => (httpFindFile E fsRoot hs uri is09 fs w).map fun r => (.ok, r)
    | .unsupported => .ok (.arg, ⟨hs, fs, w⟩)
    | .incomplete =>
      if hs.req.flatten.length ≤ lwipHttpdMaxReqLength ∧ hs.req.length ≤ lwipHttpdReqQueuelen then
        .ok (.inprogress, ⟨hs, fs, w⟩)
      else .ok (.arg, ⟨hs, fs, w⟩)

end Request

end Httpd
end Serial2Ethernet
