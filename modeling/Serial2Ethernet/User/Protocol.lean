/-
# Messages

A pointer to a message is the list of bytes from that address on. The
structures are packed, so a field is read at its offset; reading does not
depend on how long the received frame was.
-/
import Serial2Ethernet.Lib.Bytes

namespace Serial2Ethernet

/-- The byte at an offset from a pointer. -/
def u8At (ptr : List UInt8) (i : ℕ) : UInt8 := ptr.getD i 0

/-- The little-endian 16-bit word at an offset from a pointer. -/
def u16At (ptr : List UInt8) (i : ℕ) : UInt16 := Lib.u16 (u8At ptr i) (u8At ptr (i + 1))

/-- `MESSAGE_HEAD`: the length counts the message without the two header bytes. -/
structure MessageHead where
  len : UInt16
  code : UInt16

/-- `sizeof(MESSAGE_HEAD)`. -/
def messageHeadSize : ℕ := 4

def maxUartDataSize : ℕ := 255

/-- `COM_DEV_UART_DATA`. -/
structure ComDevUartData where
  head : MessageHead
  uartChl : UInt8
  num : UInt8
  data : List UInt8

/-- The pointer, seen as a `MESSAGE_HEAD`. -/
def messageHead (ptr : List UInt8) : MessageHead := ⟨u16At ptr 0, u16At ptr 2⟩

/-- The pointer, seen as a `COM_DEV_UART_DATA`. -/
def comDevUartData (ptr : List UInt8) : ComDevUartData :=
  ⟨messageHead ptr, u8At ptr 4, u8At ptr 5, (ptr.drop 6).take maxUartDataSize⟩

/-- `sizeof(DEV_COM_UART_REPORT)`, laid out like `COM_DEV_UART_DATA`. -/
def devComUartReportSize : ℕ := messageHeadSize + 2 + maxUartDataSize

/-! ### Reading a message from a prefix -/

section Prefix

variable {ptr body : List UInt8} {i : ℕ}

theorem u8At_take {n : ℕ} (h : i < n) : u8At (ptr.take n) i = u8At ptr i := by
  simp [u8At, List.getD_eq_getElem?_getD, h]

theorem u16At_take {n : ℕ} (h : i + 1 < n) : u16At (ptr.take n) i = u16At ptr i := by
  simp only [u16At, u8At_take h, u8At_take (by omega : i < n)]

/-- Inside the body that a buffer begins with, a field is the body's. -/
theorem u8At_body (hptr : ptr.take body.length = body) (h : i < body.length) :
    u8At ptr i = u8At body i := by
  rw [← hptr, u8At_take h]

theorem u16At_body (hptr : ptr.take body.length = body) (h : i + 1 < body.length) :
    u16At ptr i = u16At body i := by
  rw [← hptr, u16At_take h]

end Prefix

end Serial2Ethernet
