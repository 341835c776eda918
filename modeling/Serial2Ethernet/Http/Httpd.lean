/-
# The parameters of a request

`extract_uri_parameters` cuts the part of the URI behind the question mark
into names and values. A C string is its characters; the ends that the code
writes into the buffer are the cuts.
-/
import Mathlib

namespace Serial2Ethernet
namespace Httpd

def lwipHttpdMaxCgiParameters : ℕ := 48

/-- One parameter: its name, and its value, which is a null pointer if there is no '='. -/
structure Param where
  name : List Char
  value : Option (List Char)
  deriving DecidableEq, Repr

/-- The text before the first `c`, and the text behind it if there is one (`strchr`). -/
def cut (c : Char) : List Char → List Char × Option (List Char)
  | [] => ([], none)
  | a :: s =>
    if a = c then ([], some s)
    else ((a :: (cut c s).1), (cut c s).2)

/-- A pair, cut at its first '='. -/
def param (pair : List Char) : Param := ⟨(cut '=' pair).1, (cut '=' pair).2⟩

/-- The loop: at most `loop` more parameters. Only the last pair is cut at a blank. -/
def extractLoop : (loop : ℕ) → (pair : List Char) → List Param
  | 0, _ => []
  | loop + 1, pair =>
    match cut '&' pair with
    | (this, some next) => param this :: extractLoop loop next
    | (this, none) => [param (cut ' ' this).1]

/-- `extract_uri_parameters`; `none` is a null pointer. -/
def extractUriParameters : Option (List Char) → List Param
  | none => []
  | some [] => []
  | some params => extractLoop lwipHttpdMaxCgiParameters params

end Httpd
end Serial2Ethernet
