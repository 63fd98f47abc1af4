import Mathlib.Data.BitVec

/-!
# Words and error codes

The unsigned types of the C code, and the values of `esp_err.h` that the component
returns. A notify function of the application may return any integer through the same
result, so an error code is an integer.
-/
namespace EspAmp

abbrev U8 := BitVec 8
abbrev U16 := BitVec 16
abbrev U32 := BitVec 32
abbrev U64 := BitVec 64

def espOk : Int := 0
def espFail : Int := -1
def espErrNoMem : Int := 0x101
def espErrInvalidArg : Int := 0x102
def espErrNotFound : Int := 0x105
def espErrNotSupported : Int := 0x106
def espErrNotFinished : Int := 0x10C
def espErrNotAllowed : Int := 0x10D

@[simp] theorem espErrNoMem_ne_ok : espErrNoMem ≠ espOk := by decide
@[simp] theorem espErrNotFound_ne_ok : espErrNotFound ≠ espOk := by decide
@[simp] theorem espErrNotSupported_ne_ok : espErrNotSupported ≠ espOk := by decide
@[simp] theorem espErrNotAllowed_ne_ok : espErrNotAllowed ≠ espOk := by decide

end EspAmp
