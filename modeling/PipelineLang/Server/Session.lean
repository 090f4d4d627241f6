import PipelineLang.Server.Cache
import PipelineLang.Server.DocumentStore
import PipelineLang.Server.Params
import PipelineLang.Server.Settings

/-!
# Sessions

A session handles one message at a time, as a function from its state to the next one and the
messages that it sends. Documents are analyzed through the cache, at most once for a message;
after a shutdown every other request is refused.
-/

namespace PipelineLang.Server

open Editor

/-- What a session remembers. -/
structure Session where
  settings : Settings
  documents : DocumentStore
  cache : Cache Analysis
  shutdownRequested : Bool
  exitRequested : Bool

/-- The result of the handshake: what the server offers, and its name. -/
def offer : JsonValue :=
  .obj [("capabilities", .obj [
      ("textDocumentSync", .nat 1),
      ("completionProvider", .obj [("triggerCharacters", .ofList .str [":", " ", ".", ">"])]),
      ("definitionProvider", .bool true), ("referencesProvider", .bool true),
      ("documentHighlightProvider", .bool true), ("hoverProvider", .bool true),
      ("documentSymbolProvider", .bool true),
      ("renameProvider", .obj [("prepareProvider", .bool true)])]),
    ("serverInfo", .obj [("name", .str "wp-lsp"), ("version", .str "0.3.0")])]

/-- The document that a request is about. -/
def Request.uri? : Request → Option String
  | .start | .shutdown => none
  | .completion p | .definition p | .references p _ | .hover p | .highlight p | .prepareRename p
  | .rename p _ => some p.uri
  | .outline uri => some uri

/-- The answer to a request about a document. -/
def Request.answer (d : Document) : Request → Except RequestError JsonValue
  | .start => .ok offer
  | .shutdown => .ok .null
  | .completion p =>
    .ok (.ofOption (JsonValue.ofList Completion.toJson) (d.completions p.position))
  | .definition p => .ok (.ofOption Location.toJson (d.definition p.position))
  | .references p withDeclaration =>
    .ok (.ofOption (JsonValue.ofList Location.toJson) (d.references p.position withDeclaration))
  | .hover p => .ok (.ofOption Hover.toJson (d.hover p.position))
  | .outline _ => .ok (.ofOption (JsonValue.ofList Entry.toJson) d.outline)
  | .highlight p => .ok (.ofOption (JsonValue.ofList Highlight.toJson) (d.highlights p.position))
  | .prepareRename p => .ok (.ofOption RenameTarget.toJson (d.prepareRename p.position))
  | .rename p newName =>
    match d.rename p.position newName with
    | .ok edit => .ok (.ofOption WorkspaceEdit.toJson edit)
    | .error e => .error (.rename e)

/-- The message that answers a request. -/
def reply (id : JsonValue) : Except RequestError JsonValue → Outgoing
  | .ok result => .answer id result
  | .error error => .failure id error

namespace Session

/-- The limits of the cache; the clock of a session counts milliseconds. -/
def limits (settings : Settings) : CacheLimits :=
  ⟨settings.cache.maxEntries, settings.cache.maxAgeSecs * 1000⟩

/-- A session before its first message. -/
def start (settings : Settings) : Session :=
  ⟨settings, .empty, .empty (limits settings), false, false⟩

def engine (s : Session) : String := s.settings.templateEngine

/-- The analysis of a version of a document, through the cache. -/
def analysisOf (now : Nat) (uri : String) (snapshot : Snapshot) (s : Session) :
    Session × Option Analysis :=
  let (cache, result) :=
    s.cache.get (fun text => some (analyze s.engine text)) now uri snapshot.version snapshot.text
  let analysis := match result with
    | .ok a => some a
    | .error failure => failure.previous
  ({ s with cache }, analysis)

/-- An open document with its analysis. -/
def document (now : Nat) (uri : String) (s : Session) : Session × Option Document :=
  match s.documents.snapshot? uri with
  | none => (s, none)
  | some snapshot =>
    let (s, analysis) := s.analysisOf now uri snapshot
    (s, analysis.map fun a => ⟨uri, s.engine, snapshot.text, a⟩)

/-- Answers a request that was decoded. -/
def answer (now : Nat) (request : Request) (s : Session) :
    Session × Except RequestError JsonValue :=
  match request with
  | .start => (s, .ok offer)
  | .shutdown => ({ s with shutdownRequested := true }, .ok .null)
  | request =>
    match request.uri? with
    | none => (s, .ok .null)
    | some uri =>
      match s.document now uri with
      | (s, some d) => (s, request.answer d)
      | (s, none) => (s, .ok .null)

/-- Handles a request. -/
def onRequest (now : Nat) (method : String) (params : JsonValue) (s : Session) :
    Session × Except RequestError JsonValue :=
  if s.shutdownRequested && method != "shutdown" then (s, .error .shuttingDown)
  else
    match Decode.request method params with
    | none => (s, .error (.unknownMethod method))
    | some (.error fault) => (s, .error (.invalidParams fault))
    | some (.ok request) => s.answer now request

/-- Publishes the diagnostics of a version of a document, if that is wanted. -/
def publish (now : Nat) (uri : String) (snapshot : Snapshot) (s : Session) :
    Session × List Outgoing :=
  if s.settings.publishes then
    let (cache, result) :=
      s.cache.get (fun text => some (analyze s.engine text)) now uri snapshot.version snapshot.text
    let diagnostics := match result with
      | .ok a => Document.diagnostics ⟨uri, s.engine, snapshot.text, a⟩
      | .error _ => []
    ({ s with cache }, [.published uri (some snapshot.version) diagnostics])
  else (s, [])

/-- Keeps a version of a document and publishes its diagnostics. -/
def store (now : Nat) (uri : String) (snapshot : Snapshot) (s : Session) : Session × List Outgoing :=
  { s with documents := s.documents.put uri snapshot.text snapshot.version }.publish now uri snapshot

/-- Handles a notification. -/
def onNotification (now : Nat) (s : Session) : Notification → Session × List Outgoing
  | .opened uri text version => s.store now uri ⟨text, version⟩
  | .changed uri (some text) version => s.store now uri ⟨text, version⟩
  | .changed _ none _ => (s, [])
  | .closed uri =>
    ({ s with documents := s.documents.close uri, cache := s.cache.invalidate uri },
      [.published uri none []])
  | .exit => ({ s with exitRequested := true }, [])

/-- Handles a message that arrives at the time `now`. -/
def handle (now : Nat) (s : Session) : Message → Session × List Outgoing
  | .request id method params =>
    let (s, result) := s.onRequest now method params
    (s, [reply id result])
  | .notification method params =>
    match Decode.notification method params with
    | some n => s.onNotification now n
    | none => (s, [])
  | .response => (s, [])

/-- Handles messages, each with its time of arrival, up to the request to exit. -/
def run (s : Session) : List (Nat × Message) → List Outgoing
  | [] => []
  | (now, message) :: rest =>
    let (s, sent) := s.handle now message
    if s.exitRequested then sent else sent ++ s.run rest

/-- A session with an editor that sent the given options; options in disorder count as none. -/
def ofOptions (options : JsonValue) : Session :=
  match Settings.ofOptions options with
  | .ok settings => start settings
  | .error _ => start .default

end Session
end PipelineLang.Server
