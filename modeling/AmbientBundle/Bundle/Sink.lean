import AmbientBundle.Bundle.Entry

/-!
# Writing a bundle

A sink takes the entries of a bundle one after the other. It may have room for a limited number of
bytes; an entry that does not fit is not written at all, and a later one that does is.
-/

namespace AmbientBundle

/-- A bundle being written. -/
structure Sink where
  layout : Layout
  /-- The number of bytes that fit, if that is limited. -/
  limit : Option Nat
  text : String
deriving Repr, DecidableEq, Inhabited

namespace Sink

/-- Whether the sink has room for a text. -/
def hasRoom (s : Sink) (text : String) : Bool :=
  text.isEmpty || s.limit.all (s.text.utf8ByteSize + text.utf8ByteSize ≤ ·)

/-- **Writes an entry**, or gives `none` if it does not fit. -/
def write? (s : Sink) (entry : Entry) : Option Sink :=
  let text := entry.text s.layout
  if s.hasRoom text then some { s with text := s.text ++ text } else none

end Sink

end AmbientBundle
