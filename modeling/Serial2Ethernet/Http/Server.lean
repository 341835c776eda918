/-
# The connections of the server

TCP calls the server back: a connection is accepted, data has come in, data was
acknowledged, time has passed, the connection is gone. Each connection has a
state of its own, and they share the table of open files. `step` is one
callback on one connection, or a change in the rest of the system; a run of the
server is any list of these.
-/
import Serial2Ethernet.Lib.Run
import Serial2Ethernet.Http.ParseRequest

namespace Serial2Ethernet
namespace Httpd

open Lib Lib.Scanner Fs Ssi

/-- `HTTPD_MAX_RETRIES` -/
def httpdMaxRetries : UInt8 := 4

/-- `http_state_alloc` clears the state. -/
def HttpState.init : HttpState :=
  ⟨none, [], 0, [], none, 0, 0, 0, 0, 0, 0, false, fun _ => 0, [], .none⟩

def Conn.handle : Conn → Option (Fin lwipMaxOpenFiles)
  | .active hs => hs.handle
  | _ => none

section Callbacks

variable {P : Type} (E : Env P) (fsRoot : List FsdataFile)

/-- Data has been received, the other side has closed (`none`), or something went wrong. The
second part of the answer are the buffers that are freed. -/
def httpRecv (p : Option (List (List UInt8))) (err : Err) (hs : HttpState) (fs : FsMemory) (w : P) :
    Except Fault (Done P × List (List UInt8)) :=
  match p, err with
  | some p, .ok =>
    if hs.handle.isNone then
      match httpParseRequest E fsRoot p hs fs w with
      | .error e => .error e
      | .ok (.inprogress, r) => .ok (⟨.active r.hs, r.fs, ⟨r.world, []⟩, false⟩, [])
      | .ok (parsed, r) =>
        let freed := r.hs.req
        let hs := { r.hs with req := [] }
        match parsed with
        | .ok => (httpSendData E hs r.fs r.world).map fun d => (d, freed)
        | .arg => .ok (closeAndReturn E hs r.fs ⟨r.world, []⟩ false, freed)
        | _ => .ok (⟨.active hs, r.fs, ⟨r.world, []⟩, false⟩, freed)
    else .ok (⟨.active { hs with req := [] }, fs, ⟨w, []⟩, false⟩, hs.req)
  | p, _ => .ok (closeAndReturn E hs fs ⟨w, []⟩ false, p.getD [])

/-- Data has been sent and acknowledged by the remote host. -/
def httpSent (hs : HttpState) (fs : FsMemory) (w : P) : Except Fault (Done P) :=
  httpSendData E { hs with retries := 0 } fs w

/-- The poll function is called every 2nd second. -/
def httpPoll (hs : HttpState) (fs : FsMemory) (w : P) : Except Fault (Done P) :=
  let hs := { hs with retries := hs.retries + 1 }
  if hs.retries = httpdMaxRetries then .ok (closeAndReturn E hs fs ⟨w, []⟩ false)
  else if hs.handle.isSome then httpSendData E hs fs w
  else .ok ⟨.active hs, fs, ⟨w, []⟩, false⟩

/-- The pcb had an error and is already deallocated. -/
def httpErr (hs : HttpState) (fs : FsMemory) (w : P) : Done P :=
  let fs := match hs.handle with
    | some file => fsClose fs file
    | none => fs
  ⟨.closed, fs, ⟨w, []⟩, false⟩

end Callbacks

/-! ### The server -/

/-- What happens: a callback on a connection, or something in the rest of the system. -/
inductive Event (P : Type)
  | accept (pcb : ℕ)
  | recv (pcb : ℕ) (p : Option (List (List UInt8))) (err : Err)
  | sent (pcb : ℕ)
  | poll (pcb : ℕ)
  | err (pcb : ℕ)
  | world (w : P)

/-- A buffer of a connection is handed to `http_recv`, or given back by `pbuf_free`. -/
inductive Buffer
  | taken (pcb : ℕ) (p : List UInt8)
  | freed (pcb : ℕ) (p : List UInt8)
  deriving DecidableEq, Repr

/-- The connections, what TCP has taken on each since it was accepted, and the open files. -/
structure Server (P : Type) where
  world : P
  fs : FsMemory
  conns : ℕ → Conn
  queued : ℕ → List UInt8

section Server

variable {P : Type} (E : (pcb : ℕ) → Env P) (fsRoot : List FsdataFile)

/-- A callback on a connection has returned. -/
def Server.put (s : Server P) (pcb : ℕ) (d : Done P) : Server P :=
  ⟨d.io.world, d.fs, Function.update s.conns pcb d.conn,
    Function.update s.queued pcb (s.queued pcb ++ d.io.sent)⟩

/-- A new incoming connection has been accepted. -/
def httpAccept (s : Server P) (pcb : ℕ) : Server P :=
  match (E pcb).memMalloc s.world (E pcb).httpStateSize with
  | (true, w) => ⟨w, s.fs, Function.update s.conns pcb (.active .init), Function.update s.queued pcb []⟩
  | (false, w) => { s with world := w }

/-- One event; the outputs are the buffers that are taken and freed. There are no callbacks on a
connection that is closed, and on one that is still to be closed only the poll. -/
def step (s : Server P) : Event P → Except Fault (Server P × List Buffer)
  | .world w => .ok ({ s with world := w }, [])
  | .accept pcb =>
    match s.conns pcb with
    | .closed => .ok (httpAccept E s pcb, [])
    | _ => .ok (s, [])
  | .recv pcb p err =>
    match s.conns pcb with
    | .active hs => (httpRecv (E pcb) fsRoot p err hs s.fs s.world).map fun r =>
      (s.put pcb r.1, (p.getD []).map (.taken pcb) ++ r.2.map (.freed pcb))
    | _ => .ok (s, [])
  | .sent pcb =>
    match s.conns pcb with
    | .active hs => (httpSent (E pcb) hs s.fs s.world).map fun d => (s.put pcb d, [])
    | _ => .ok (s, [])
  | .poll pcb =>
    match s.conns pcb with
    | .active hs => (httpPoll (E pcb) hs s.fs s.world).map fun d => (s.put pcb d, [])
    | .closing =>
      let r := httpCloseConn (E pcb) none s.fs ⟨s.world, []⟩
      .ok (s.put pcb ⟨r.1, r.2.1, r.2.2, false⟩, [])
    | .closed => .ok (s, [])
  | .err pcb =>
    match s.conns pcb with
    | .active hs => .ok (s.put pcb (httpErr hs s.fs s.world), [])
    | .closing => .ok (s.put pcb ⟨.closed, s.fs, ⟨s.world, []⟩, false⟩, [])
    | .closed => .ok (s, [])

/-- After `httpd_init`: no connection, and no open file. -/
def Server.init (w : P) (fs : FsMemory) : Server P := ⟨w, fs, fun _ => .closed, fun _ => []⟩

end Server

/-! ### A small server -/

/-- TCP that takes all it is given, and an application without tags and handlers. -/
def Env.roomy : Env Unit where
  tcpSndbuf _ := 2920
  tcpMss _ := 1460
  queueFull _ := false
  tcpWrite _ _ _ := (.ok, ())
  tcpClose _ := (.ok, ())
  memMalloc _ _ := (true, ())
  gPpcTags := []
  gPfnSSIHandler _ _ := []
  gPCGIs := []
  httpStateSize := 0

/-- TCP that has room for as many bytes as its state says. -/
def Env.tight : Env ℕ where
  tcpSndbuf w := w
  tcpMss _ := 1460
  queueFull _ := false
  tcpWrite w ptr _ := if ptr.length ≤ w then (.ok, w - ptr.length) else (.mem, w)
  tcpClose w := (.ok, w)
  memMalloc w _ := (true, w)
  gPpcTags := []
  gPfnSSIHandler _ _ := []
  gPCGIs := []
  httpStateSize := 0

/-- No file is open. -/
def noFiles : FsMemory := fun _ => ⟨⟨[], 0, false⟩, false⟩

/-- A page with one tag. -/
def indexFile : FsdataFile := ⟨text "/index.shtml", text "<p><!--#x-->!", false⟩

/-- A page with a header and without tags. -/
def plainFile : FsdataFile := ⟨text "/index.html", text "HTTP/1.0 200 OK\r\n\r\nHi", true⟩

/-- A server with the first page. -/
def smallStep : Server Unit → Event Unit → Except Fault (Server Unit × List Buffer) :=
  step (fun _ => Env.roomy) [indexFile]

/-- The request for it. -/
def indexRequest : List (List UInt8) := [text "GET / HTTP/1.0\r\n"]

/-- Two clients, and the page is requested by one. -/
def twoClients : List (Event Unit) := [.accept 0, .accept 1, .recv 1 (some indexRequest) .ok]

end Httpd
end Serial2Ethernet
