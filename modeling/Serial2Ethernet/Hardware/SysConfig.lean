/-
# The packed configuration record

`SYS_CONFIG` is a packed structure of 103 bytes, and the code treats it as
bytes as often as it names its fields: the loader and `writeFlash` copy it
byte by byte, and the web form's `sscanf` stores four bytes at a field's
address. So a configuration is its 103 bytes, and the fields are read from
them at the offsets the packed declaration gives.
-/
import Serial2Ethernet.Lib.Bytes

namespace Serial2Ethernet

/-- Channel number of the FSMC-driven UART. -/
def uartFsmcNum : ℕ := 16

/-- The system configuration, as the bytes of the packed structure. -/
abbrev SysConfig := Lib.Mem 103

/-! Offsets into the record and octets of an address are written as numerals. -/

instance instNeZeroRecord : NeZero 103 := ⟨by decide⟩
instance instNeZeroQuad : NeZero 4 := ⟨by decide⟩

namespace SysConfig

variable (c : SysConfig)

/-- Header: 0xaa. -/
def header (i : Fin 2) : UInt8 := c ⟨i, by omega⟩

/-- Local IP address. -/
def ipAddr (i : Fin 4) : UInt8 := c ⟨2 + i, by omega⟩

/-- Local IP mask. -/
def ipMask (i : Fin 4) : UInt8 := c ⟨6 + i, by omega⟩

/-- Gate IP. -/
def ipGate (i : Fin 4) : UInt8 := c ⟨10 + i, by omega⟩

/-- Listening port. -/
def listenPort : UInt16 := Lib.u16 (c 14) (c 15)

/-- Remote IP address. -/
def remoteIp (i : Fin 4) : UInt8 := c ⟨16 + i, by omega⟩

/-- Remote port. -/
def remotePort : UInt16 := Lib.u16 (c 20) (c 21)

/-- Baud rates. -/
def baudRates (chl : Fin 16) : UInt32 :=
  Lib.u32 (c ⟨22 + 4 * chl, by omega⟩) (c ⟨23 + 4 * chl, by omega⟩) (c ⟨24 + 4 * chl, by omega⟩)
    (c ⟨25 + 4 * chl, by omega⟩)

/-- Parities. -/
def parities (chl : Fin 16) : UInt8 := c ⟨86 + chl, by omega⟩

/-- Query cycle in s. -/
def queryCycleS : UInt8 := c 102

/-- The fields of the structure, as the code assigns them by name. -/
structure Fields where
  header : Fin 2 → UInt8
  ipAddr : Fin 4 → UInt8
  ipMask : Fin 4 → UInt8
  ipGate : Fin 4 → UInt8
  listenPort : UInt16
  remoteIp : Fin 4 → UInt8
  remotePort : UInt16
  baudRates : Fin 16 → UInt32
  parities : Fin 16 → UInt8
  queryCycleS : UInt8

/-- The packed bytes of the fields. -/
def ofFields (f : Fields) : SysConfig := fun k =>
  if h₁ : k.val < 2 then f.header ⟨k, h₁⟩
  else if h₂ : k.val < 6 then f.ipAddr ⟨k - 2, by omega⟩
  else if h₃ : k.val < 10 then f.ipMask ⟨k - 6, by omega⟩
  else if h₄ : k.val < 14 then f.ipGate ⟨k - 10, by omega⟩
  else if k.val < 16 then Lib.byte f.listenPort.toUInt32 (k - 14)
  else if h₅ : k.val < 20 then f.remoteIp ⟨k - 16, by omega⟩
  else if k.val < 22 then Lib.byte f.remotePort.toUInt32 (k - 20)
  else if h₆ : k.val < 86 then Lib.byte (f.baudRates ⟨(k - 22) / 4, by omega⟩) ((k - 22) % 4)
  else if h₇ : k.val < 102 then f.parities ⟨k - 86, by omega⟩
  else f.queryCycleS

/-! ### The bytes of the fields -/

section OfBytes

variable {k : Fin 103} {j : ℕ}

theorem listenPort_byte (hj : j < 2) (hk : k.val = 14 + j) : Lib.byte c.listenPort.toUInt32 j = c k := by
  have hb := Lib.byte_u16 (c 14) (c 15)
  interval_cases j
  · obtain rfl : k = 14 := Fin.ext hk
    exact hb.1
  · obtain rfl : k = 15 := Fin.ext hk
    exact hb.2

theorem remotePort_byte (hj : j < 2) (hk : k.val = 20 + j) : Lib.byte c.remotePort.toUInt32 j = c k := by
  have hb := Lib.byte_u16 (c 20) (c 21)
  interval_cases j
  · obtain rfl : k = 20 := Fin.ext hk
    exact hb.1
  · obtain rfl : k = 21 := Fin.ext hk
    exact hb.2

theorem baudRates_byte (chl : Fin 16) (hj : j < 4) (hk : k.val = 22 + 4 * chl + j) :
    Lib.byte (c.baudRates chl) j = c k := by
  have hb := Lib.byte_u32 (c ⟨22 + 4 * chl, by omega⟩) (c ⟨23 + 4 * chl, by omega⟩)
    (c ⟨24 + 4 * chl, by omega⟩) (c ⟨25 + 4 * chl, by omega⟩)
  interval_cases j
  · exact hb.1.trans (congrArg c (Fin.ext (by dsimp only; omega)))
  · exact hb.2.1.trans (congrArg c (Fin.ext (by dsimp only; omega)))
  · exact hb.2.2.1.trans (congrArg c (Fin.ext (by dsimp only; omega)))
  · exact hb.2.2.2.trans (congrArg c (Fin.ext (by dsimp only; omega)))

end OfBytes

section OfFields

variable (f : Fields) {k : Fin 103}

theorem ofFields_header (i : Fin 2) (hk : k.val = i) : ofFields f k = f.header i := by
  rw [ofFields, dif_pos (by omega)]
  exact congrArg f.header (Fin.ext hk)

theorem ofFields_ipAddr (i : Fin 4) (hk : k.val = 2 + i) : ofFields f k = f.ipAddr i := by
  rw [ofFields, dif_neg (by omega), dif_pos (by omega)]
  exact congrArg f.ipAddr (Fin.ext (by dsimp only; omega))

theorem ofFields_ipMask (i : Fin 4) (hk : k.val = 6 + i) : ofFields f k = f.ipMask i := by
  rw [ofFields, dif_neg (by omega), dif_neg (by omega), dif_pos (by omega)]
  exact congrArg f.ipMask (Fin.ext (by dsimp only; omega))

theorem ofFields_ipGate (i : Fin 4) (hk : k.val = 10 + i) : ofFields f k = f.ipGate i := by
  rw [ofFields, dif_neg (by omega), dif_neg (by omega), dif_neg (by omega), dif_pos (by omega)]
  exact congrArg f.ipGate (Fin.ext (by dsimp only; omega))

theorem ofFields_listenPort {j : ℕ} (hj : j < 2) (hk : k.val = 14 + j) :
    ofFields f k = Lib.byte f.listenPort.toUInt32 j := by
  rw [ofFields, dif_neg (by omega), dif_neg (by omega), dif_neg (by omega), dif_neg (by omega),
    if_pos (by omega), hk, Nat.add_sub_cancel_left]

theorem ofFields_remoteIp (i : Fin 4) (hk : k.val = 16 + i) : ofFields f k = f.remoteIp i := by
  rw [ofFields, dif_neg (by omega), dif_neg (by omega), dif_neg (by omega), dif_neg (by omega),
    if_neg (by omega), dif_pos (by omega)]
  exact congrArg f.remoteIp (Fin.ext (by dsimp only; omega))

theorem ofFields_remotePort {j : ℕ} (hj : j < 2) (hk : k.val = 20 + j) :
    ofFields f k = Lib.byte f.remotePort.toUInt32 j := by
  rw [ofFields, dif_neg (by omega), dif_neg (by omega), dif_neg (by omega), dif_neg (by omega),
    if_neg (by omega), dif_neg (by omega), if_pos (by omega), hk, Nat.add_sub_cancel_left]

theorem ofFields_baudRates (chl : Fin 16) {j : ℕ} (hj : j < 4) (hk : k.val = 22 + 4 * chl + j) :
    ofFields f k = Lib.byte (f.baudRates chl) j := by
  rw [ofFields, dif_neg (by omega), dif_neg (by omega), dif_neg (by omega), dif_neg (by omega),
    if_neg (by omega), dif_neg (by omega), if_neg (by omega), dif_pos (by omega)]
  have hc : (⟨(k.val - 22) / 4, by omega⟩ : Fin 16) = chl := Fin.ext (by dsimp only; omega)
  rw [hc, show (k.val - 22) % 4 = j by omega]

theorem ofFields_parities (chl : Fin 16) (hk : k.val = 86 + chl) : ofFields f k = f.parities chl := by
  rw [ofFields, dif_neg (by omega), dif_neg (by omega), dif_neg (by omega), dif_neg (by omega),
    if_neg (by omega), dif_neg (by omega), if_neg (by omega), dif_neg (by omega), dif_pos (by omega)]
  exact congrArg f.parities (Fin.ext (by dsimp only; omega))

theorem ofFields_queryCycleS (hk : k.val = 102) : ofFields f k = f.queryCycleS := by
  rw [ofFields, dif_neg (by omega), dif_neg (by omega), dif_neg (by omega), dif_neg (by omega),
    if_neg (by omega), dif_neg (by omega), if_neg (by omega), dif_neg (by omega), dif_neg (by omega)]

end OfFields

end SysConfig

end Serial2Ethernet
