import PipelineLang.Server.Capabilities
import PipelineLang.Server.Message

/-!
# Parameters

The parameters of a message are decoded before anything is done. A request that cannot be decoded
is answered with an error, a notification is ignored. The parameters of most requests are objects
over which the fields of a place are spread, and those of what the editor may be told on the way;
they are decoded after the fields of the request itself.
-/

namespace PipelineLang.Server

open Editor

namespace Decode

/-- The identifier of a document. -/
def documentRecord : Record String :=
  ⟨"TextDocumentIdentifier", [.required "uri" uri fun _ uri => uri], ""⟩

def positionRecord : Record Position :=
  ⟨"Position",
    [.required "line" natural32 fun p line => { p with line },
      .required "character" natural32 fun p character => { p with character }],
    ⟨0, 0⟩⟩

def placeRecord (layout : Layout) : Record Place :=
  ⟨"TextDocumentPositionParams",
    [.required "textDocument" (documentRecord.decode layout) fun p uri => { p with uri },
      .required "position" (positionRecord.decode layout) fun p position => { p with position }],
    ⟨"", ⟨0, 0⟩⟩⟩

/-! ## Requests -/

/-- What the editor may be told while it waits for an answer: how far the work is, or parts of the
answer. -/
inductive Interim where
  | progress
  | partialResults

/-- The field with the token for what the editor may be told. -/
def Interim.record : Interim → Record Unit
  | .progress => ⟨"WorkDoneProgressParams", [Form.may "workDoneToken" identifier], ()⟩
  | .partialResults => ⟨"PartialResultParams", [Form.may "partialResultToken" identifier], ()⟩

/-- Checks the tokens for what the editor may be told. -/
def tokens (interims : List Interim) (given : List (String × JsonValue)) : Decoded Unit :=
  interims.forM fun interim => interim.record.ofFields given

/-- Decodes parameters with fields of their own alone, and with tokens. -/
def params {α : Type} (own : Record α) (interims : List Interim) (j : JsonValue) : Decoded α := do
  let given ← object own.name j
  let a ← own.ofFields given
  tokens interims given
  return a

/-- Decodes parameters with a place, and with fields of their own. -/
def placed {α : Type} (own : Record α) (interims : List Interim) (j : JsonValue) :
    Decoded (Place × α) := do
  let given ← object own.name j
  let a ← own.ofFields given
  let place ← (placeRecord .spread).ofFields given
  tokens interims given
  return (place, a)

/-- Decodes parameters with a place alone. -/
def placeAlone (name : String) (interims : List Interim) (j : JsonValue) : Decoded Place :=
  (placed ⟨name, [], ()⟩ interims j).map (·.1)

/-- What an editor tells when it starts the server. -/
def startRecord : Record Unit := ⟨"InitializeParams", Form.clientFields, ()⟩

/-- How a completion came to be asked for, of which no use is made. -/
def completionContext : Form :=
  Form.record "CompletionContext"
    [Form.must "triggerKind" integer32, Form.may "triggerCharacter" text]

def completionRecord : Record Unit :=
  ⟨"CompletionParams", [Form.may "context" completionContext], ()⟩

/-- Whether references are asked for with the declaration. -/
def referenceContext : Record Bool :=
  ⟨"ReferenceContext", [.required "includeDeclaration" boolean fun _ b => b], false⟩

def referenceRecord : Record Bool :=
  ⟨"ReferenceParams", [.required "context" (referenceContext.decode .whole) fun _ b => b], false⟩

def outlineRecord : Record String :=
  ⟨"DocumentSymbolParams",
    [.required "textDocument" (documentRecord.decode .whole) fun _ uri => uri], ""⟩

def renameRecord : Record String :=
  ⟨"RenameParams", [.required "newName" text fun _ newName => newName], ""⟩

/-- Decodes the parameters of a request of the given method, if it is known. -/
def request (method : String) (j : JsonValue) : Option (Decoded Request) :=
  let all := [.progress, .partialResults]
  match method with
  | "initialize" => some ((params startRecord [.progress] j).map fun _ => .start)
  | "shutdown" => some (.ok .shutdown)
  | "textDocument/completion" =>
    some ((placed completionRecord all j).map fun (place, _) => .completion place)
  | "textDocument/definition" =>
    some ((placeAlone "GotoDefinitionParams" all j).map .definition)
  | "textDocument/references" =>
    some ((placed referenceRecord all j).map fun (place, withDeclaration) =>
      .references place withDeclaration)
  | "textDocument/hover" => some ((placeAlone "HoverParams" [.progress] j).map .hover)
  | "textDocument/documentSymbol" => some ((params outlineRecord all j).map .outline)
  | "textDocument/documentHighlight" =>
    some ((placeAlone "DocumentHighlightParams" all j).map .highlight)
  | "textDocument/prepareRename" =>
    some (((placeRecord .whole).decode .whole j).map .prepareRename)
  | "textDocument/rename" =>
    some ((placed renameRecord [.progress] j).map fun (place, newName) => .rename place newName)
  | _ => none

/-! ## Notifications -/

/-- A document as it is opened; the name of its language is not used. -/
structure OpenedDocument where
  uri : String
  version : Int
  text : String

def openedRecord : Record OpenedDocument :=
  ⟨"TextDocumentItem",
    [.required "uri" uri fun d uri => { d with uri },
      .required "languageId" text fun d _ => d,
      .required "version" integer32 fun d version => { d with version },
      .required "text" text fun d text => { d with text }],
    ⟨"", 0, ""⟩⟩

/-- The identifier of a document, with its version. -/
def versionedRecord : Record (String × Int) :=
  ⟨"VersionedTextDocumentIdentifier",
    [.required "uri" uri fun d uri => (uri, d.2),
      .required "version" integer32 fun d version => (d.1, version)],
    ("", 0)⟩

/-- A range, of which no use is made. -/
def range : Form :=
  Form.record "Range"
    [Form.must "start" (positionRecord.decode .whole),
      Form.must "end" (positionRecord.decode .whole)]

/-- The text of one part of a change. -/
def changeRecord : Record String :=
  ⟨"TextDocumentContentChangeEvent",
    [.optional "range" range fun t _ => t,
      .optional "rangeLength" natural32 fun t _ => t,
      .required "text" text fun _ text => text],
    ""⟩

def openedParams : Record OpenedDocument :=
  ⟨"DidOpenTextDocumentParams",
    [.required "textDocument" (openedRecord.decode .whole) fun _ d => d], openedRecord.init⟩

/-- The parameters of a change: the document with its version, and the texts of the parts. -/
def changedParams : Record ((String × Int) × List String) :=
  ⟨"DidChangeTextDocumentParams",
    [.required "textDocument" (versionedRecord.decode .whole) fun c d => (d, c.2),
      .required "contentChanges" (list (changeRecord.decode .whole)) fun c texts => (c.1, texts)],
    (versionedRecord.init, [])⟩

def closedParams : Record String :=
  ⟨"DidCloseTextDocumentParams",
    [.required "textDocument" (documentRecord.decode .whole) fun _ uri => uri], ""⟩

/-- Decodes a notification, if its method is known and its parameters are in order. -/
def notification (method : String) (j : JsonValue) : Option Notification :=
  match method with
  | "textDocument/didOpen" =>
    (openedParams.decode .whole j).toOption.map fun d => .opened d.uri d.text.toList d.version
  | "textDocument/didChange" =>
    (changedParams.decode .whole j).toOption.map fun ((uri, version), texts) =>
      .changed uri (texts.getLast?.map String.toList) version
  | "textDocument/didClose" => (closedParams.decode .whole j).toOption.map .closed
  | "exit" => some .exit
  | _ => none

end Decode
end PipelineLang.Server
