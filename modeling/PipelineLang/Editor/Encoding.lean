import PipelineLang.Editor.Completion
import PipelineLang.Editor.Hover
import PipelineLang.Editor.Outline
import PipelineLang.Text.JsonValue

/-!
# Answers as JSON

The form in which editors read positions, locations, edits and diagnostics. Kinds and severities
are the numbers that the protocol of language servers gives them.
-/

namespace PipelineLang

def Position.toJson (p : Position) : JsonValue :=
  .obj [("line", .nat p.line), ("character", .nat p.character)]

def Range.toJson (r : Range) : JsonValue := .obj [("start", r.start.toJson), ("end", r.stop.toJson)]

namespace Editor

def Location.toJson (l : Location) : JsonValue := .obj [("uri", .str l.uri), ("range", l.range.toJson)]

def Highlight.toJson (h : Highlight) : JsonValue :=
  .obj [("range", h.range.toJson), ("kind", .nat (if h.isWrite then 3 else 2))]

def TextEdit.toJson (e : TextEdit) : JsonValue :=
  .obj [("range", e.range.toJson), ("newText", .str e.newText)]

def RenameTarget.toJson (t : RenameTarget) : JsonValue :=
  .obj [("range", t.range.toJson), ("placeholder", .str t.placeholder)]

def WorkspaceEdit.toJson (w : WorkspaceEdit) : JsonValue :=
  .obj [("changes", .obj [(w.uri, .ofList TextEdit.toJson w.edits)])]

def Hover.toJson (h : Hover) : JsonValue :=
  .obj [("contents", .obj [("kind", .str "markdown"), ("value", .str h.markdown)]),
    ("range", h.range.toJson)]

def ItemKind.number : ItemKind → Nat
  | .function => 3
  | .value => 6
  | .module => 9
  | .keyword => 14

def Completion.toJson (c : Completion) : JsonValue :=
  .obj [("label", .str c.label), ("kind", .nat c.kind.number), ("detail", .str c.detail)]

def EntryKind.number : EntryKind → Nat
  | .module => 2
  | .namespaced => 3
  | .method => 6
  | .function => 12
  | .value => 13

def Entry.toJson (e : Entry) : JsonValue :=
  .obj ([("name", .str e.name), ("kind", .nat e.kind.number), ("range", e.range.toJson),
    ("selectionRange", e.selection.toJson)] ++ (e.detail.map fun d => ("detail", .str d)).toList)

def severityNumber : Severity → Nat
  | .error => 1
  | .warning => 2
  | .info => 3

def RangedDiagnostic.toJson (d : RangedDiagnostic) : JsonValue :=
  .obj [("range", d.range.toJson), ("severity", .nat (severityNumber d.severity)),
    ("code", .str d.code), ("source", .str "webpipe"), ("message", .str d.message)]

end Editor
end PipelineLang
