import OmtClient.Lib.Utf8

/-!
# Bounded files

`read_bounded` and `read_text` of `crates/omt-common/src/fsio.rs`. A file is absent or has its
bytes; it is a regular file that is not replaced while it is read.
-/

namespace OmtClient.Common

open OmtClient.Lib

/-- `read_bounded`: a file of at most `maximum` bytes. -/
def readBounded (file : Option Bytes) (maximum : Nat) : Except String (Option Bytes) :=
  match file with
  | none => .ok none
  | some data => if maximum < data.length then .error "file exceeds its size limit" else .ok (some data)

/-- `read_text`. -/
def readText (file : Option Bytes) (maximum : Nat) : Except String (Option String) := do
  match ← readBounded file maximum with
  | none => .ok none
  | some bytes => (ofUtf8 bytes).elim (.error "file is not valid UTF-8") fun s => .ok (some s)

end OmtClient.Common
