/-
This file tells what the bytes of a file hold: `Content.ofBytes` reads them as
a text, as an archive of texts, or as neither.
-/

import BytecodeFlow.Archive.Zip
import BytecodeFlow.Files.Tree

namespace BytecodeFlow

/-- A bundle if the bytes are an archive, and a text if they are one. -/
def Content.ofBytes (bytes : ByteArray) : Content :=
  match Zip.entries? bytes with
  | some entries => .bundle (entries.map fun (name, content) => (name, String.fromUTF8? content))
  | none =>
    match String.fromUTF8? bytes with
    | some content => .text content
    | none => .binary

end BytecodeFlow
