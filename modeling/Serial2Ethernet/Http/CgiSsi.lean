/-
# The configuration page

The handlers behind the web form: `SSIHandler` renders the inputs of the page
from the configuration, `Config_Handler` reads the submitted parameters into
a local `n_cfg` and sets it. The blocks of `Config_Handler` do one thing with
different names, formats, members and error codes, so a block is a
`Parameter`, and the handler goes through the list of them in the order of
the source.

Every conversion stores four bytes at the address of its member, whatever the
size of the member; the ones past the end of `n_cfg` are dropped here, and
the addresses of all the stores are kept, so that what they reach can be
asked. The first contents of `n_cfg` are a parameter.
-/
import Serial2Ethernet.Lib.Format
import Serial2Ethernet.Hardware.Board
import Serial2Ethernet.Hardware.Config
import Serial2Ethernet.Http.Httpd

namespace Serial2Ethernet
namespace CgiSsi

open Lib Config Flash Httpd

instance instNeZeroStatus : NeZero 11 := ⟨by decide⟩

/-- Status info. -/
def statusInfo : Fin 11 → String :=
  ![ "", "本地IP配置错误", "子网掩码配置错误", "监听端口配置错误", "上报IP配置错误",
    "上报端口配置错误", "波特率配置错误", "校验配置错误", "轮询周期配置错误",
    "配置成功，重启后生效", "正在重启..." ]

/-- SSI tags. -/
def ppcTAGs : Fin 40 → String :=
  ![ "lip", "lmask", "lgate", "lport", "rip", "rport",
    "bt01", "bt02", "bt03", "bt04", "bt05", "bt06", "bt07", "bt08",
    "bt09", "bt10", "bt11", "bt12", "bt13", "bt14", "bt15", "bt16",
    "p01", "p02", "p03", "p04", "p05", "p06", "p07", "p08",
    "p09", "p10", "p11", "p12", "p13", "p14", "p15", "p16",
    "cycle", "status" ]

/-- What the handlers keep: the configuration with its record, and `status_index`. -/
structure Web where
  store : Store
  statusIndex : Fin 11

/-- Get CGI parameter: the first of the name. -/
def findCGIParameter (pcToFind : String) (ps : List Param) : Option (Fin ps.length) :=
  ps.findFinIdx? fun p => p.name = pcToFind.toList

/-- The value of the first parameter of a name. -/
def supplied (name : String) (ps : List Param) : Option (Option (List Char)) :=
  (findCGIParameter name ps).map fun i => ps[i].value

/-! ### The page -/

/-- The arguments of a dotted quad. -/
def quad (a : Fin 4 → UInt8) : List Arg :=
  [.word (a 0).toUInt32, .word (a 1).toUInt32, .word (a 2).toUInt32, .word (a 3).toUInt32]

/-- SSI handler: the text that is inserted for a tag. -/
def ssiHandler (iIndex : Fin 40) (w : Web) : List Char :=
  let cfg := getConfig w.store
  if iIndex.val = 0 then
    sprintf "<input type=\"text\" name=\"local_ip\" style=\"width:200pt;\" value=\"%d.%d.%d.%d\"/>".toList
      (quad cfg.ipAddr)
  else if iIndex.val = 1 then
    sprintf "<input type=\"text\" name=\"mask\" value=\"%d.%d.%d.%d\" style=\"width:200pt;\"/>".toList
      (quad cfg.ipMask)
  else if iIndex.val = 2 then
    sprintf "<input type=\"text\" name=\"gate\" value=\"%d.%d.%d.%d\" style=\"width:200pt;\"/>".toList
      (quad cfg.ipGate)
  else if iIndex.val = 3 then
    sprintf "<input type=\"text\" name=\"lport\" value=\"%d\" style=\"width:200pt;\"/>".toList
      [.word cfg.listenPort.toUInt32]
  else if iIndex.val = 4 then
    sprintf "<input type=\"text\" name=\"rip\" value=\"%d.%d.%d.%d\" style=\"width:200pt;\"/>".toList
      (quad cfg.remoteIp)
  else if iIndex.val = 5 then
    sprintf "<input type=\"text\" name=\"rport\" value=\"%d\" style=\"width:200pt;\"/>".toList
      [.word cfg.remotePort.toUInt32]
  else if h : iIndex.val < 22 then
    sprintf "<input type=\"text\" name=\"%s\" value=\"%d\" style=\"width:200pt;\"/>".toList
      [.str (ppcTAGs iIndex).toList, .word (cfg.baudRates ⟨iIndex - 6, by omega⟩)]
  else if h : iIndex.val < 38 then
    sprintf "<input type=\"text\" name=\"%s\" value=\"%d\" style=\"width:200pt;\"/>".toList
      [.str (ppcTAGs iIndex).toList, .word (cfg.parities ⟨iIndex - 22, by omega⟩).toUInt32]
  else if iIndex.val = 38 then
    sprintf "<input type=\"text\" name=\"cycle\" value=\"%d\" style=\"width:200pt;\"/>".toList
      [.word cfg.queryCycleS.toUInt32]
  else sprintf "%s".toList [.str (statusInfo w.statusIndex).toList]

/-! ### The request -/

/-- What is done about a value that does not convert. -/
inductive Malformed
  | reject (status : Fin 11)
  | localGate
  deriving DecidableEq, Repr

/-- One block of the handler: the parameter it looks for, and the members of
`n_cfg` the conversions of the format store to. -/
structure Parameter where
  name : String
  fmt : String
  off : ℕ
  width : ℕ
  count : ℕ
  malformed : Malformed
  deriving DecidableEq, Repr

/-- The addresses of the members. -/
def Parameter.args (p : Parameter) : List ℕ := (List.range p.count).map fun i => p.off + p.width * i

def localIp : Parameter := ⟨"local_ip", "%d.%d.%d.%d", 2, 1, 4, .reject 1⟩
def mask : Parameter := ⟨"mask", "%d.%d.%d.%d", 6, 1, 4, .reject 2⟩
def gate : Parameter := ⟨"gate", "%d.%d.%d.%d", 10, 1, 4, .localGate⟩
def lport : Parameter := ⟨"lport", "%d", 14, 2, 1, .reject 3⟩
def rip : Parameter := ⟨"rip", "%d.%d.%d.%d", 16, 1, 4, .reject 4⟩
def rport : Parameter := ⟨"rport", "%d", 20, 2, 1, .reject 5⟩
def baudRate (chl : Fin 16) : Parameter :=
  ⟨ppcTAGs ⟨6 + chl, by omega⟩, "%u", 22 + 4 * chl, 4, 1, .reject 6⟩
def parity (chl : Fin 16) : Parameter :=
  ⟨ppcTAGs ⟨22 + chl, by omega⟩, "%u", 86 + chl, 1, 1, .reject 7⟩
def cycle : Parameter := ⟨"cycle", "%d", 102, 1, 1, .reject 8⟩

/-- The parameters of the form, in the order of the blocks. -/
def parameters : List Parameter :=
  [localIp, mask, gate, lport, rip, rport] ++ (List.finRange 16).map baudRate ++
    (List.finRange 16).map parity ++ [cycle]

/-- `n_cfg`, and the addresses stored to so far. -/
structure Local where
  nCfg : SysConfig
  stored : List ℕ

/-- The conversions store their words. -/
def Local.store (l : Local) (ws : List (ℕ × UInt32)) : Local :=
  ⟨storeAll ws l.nCfg, l.stored ++ ws.map Prod.fst⟩

/-- The gate becomes the local IP with a last octet of 1. -/
def localGate (c : SysConfig) : SysConfig :=
  let c : SysConfig := Function.update c 10 (c.ipAddr 0)
  let c : SysConfig := Function.update c 11 (c.ipAddr 1)
  let c : SysConfig := Function.update c 12 (c.ipAddr 2)
  Function.update c 13 1

/-- How the blocks end: behind the last, in the return of one, or with a null
pointer given to `sscanf`. -/
inductive End
  | done
  | reject (status : Fin 11)
  | null
  deriving DecidableEq, Repr

section Handler

variable (ovf : Overflow) (ps : List Param)

/-- The blocks, one after the other. -/
def configLoop : List Parameter → Local → End × Local
  | [], l => (.done, l)
  | p :: blocks, l =>
    match supplied p.name ps with
    | none => configLoop blocks l
    | some none => (.null, l)
    | some (some value) =>
      let vals := sscanf ovf p.fmt.toList value
      let l := l.store (p.args.zip vals)
      if vals.length ≠ p.count then
        match p.malformed with
        | .reject status => (.reject status, l)
        | .localGate => configLoop blocks { l with nCfg := localGate l.nCfg }
      else configLoop blocks l

def configShtml : String := "/CONFIG.shtml"

/-- Handler to config. `nCfg` is what the local structure holds at first. As
in `setConfig`, `none` says that the write to flash has not ended. -/
def configHandler (out : Outcomes) (nCfg : SysConfig) (w : Web) :
    Except Fault (Option (String × Web)) :=
  match configLoop ovf ps parameters ⟨nCfg, []⟩ with
  | (.null, _) => .error .null
  | (.reject status, _) => .ok (some (configShtml, { w with statusIndex := status }))
  | (.done, l) => .ok ((setConfig out l.nCfg w.store).map fun st => (configShtml, ⟨st, 9⟩))

end Handler

end CgiSsi
end Serial2Ethernet
