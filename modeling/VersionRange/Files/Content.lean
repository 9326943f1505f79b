import VersionRange.Fault

/-!
# The text of a file

A file holds UTF-8.  Its line ends are unified before anything else looks at it.
-/

namespace VersionRange

/-- The characters that the bytes of a file stand for. -/
def contentChars (bytes : List UInt8) : Except Fault (List Char) :=
  match decodeUtf8 bytes with
  | .ok chars => .ok (unifyLineEnds chars)
  | .error fault => .error (.encoding fault)

end VersionRange
