import PipelineLang.Editor.Encoding
import PipelineLang.Server.Decode

/-!
# Messages

A request has an answer, a notification has none. What cannot be done is answered with an error.
-/

namespace PipelineLang.Server

open Editor

/-- A position in a document. -/
structure Place where
  uri : String
  position : Position
  deriving DecidableEq

/-- What an editor asks for. -/
inductive Request where
  | start
  | shutdown
  | completion (place : Place)
  | definition (place : Place)
  | references (place : Place) (withDeclaration : Bool)
  | hover (place : Place)
  | outline (uri : String)
  | highlight (place : Place)
  | prepareRename (place : Place)
  | rename (place : Place) (newName : String)
  deriving DecidableEq

/-- What an editor tells. -/
inductive Notification where
  | opened (uri : String) (text : List Char) (version : Int)
  /-- A change gives the whole text, which is that of the last of its parts, if it has any. -/
  | changed (uri : String) (text : Option (List Char)) (version : Int)
  | closed (uri : String)
  | exit
  deriving DecidableEq

/-- Why a request is answered with an error. -/
inductive RequestError where
  | unknownMethod (method : String)
  | shuttingDown
  | invalidParams (fault : DecodeFault)
  | rename (error : RenameError)

namespace RequestError

/-- What the message about an unknown method starts with. -/
def unhandled : String := "Unhandled request"

def message : RequestError → String
  | .unknownMethod method => unhandled ++ ": " ++ method
  | .shuttingDown => "Server is shutting down"
  | .invalidParams fault => fault.message
  | .rename error => error.message

/-- The number of an unknown method in the protocol. -/
def methodNotFound : Int := -32601

/-- The number of any other failure. -/
def internalError : Int := -32603

/-- The number of the error, which is read off its message. -/
def code (e : RequestError) : Int :=
  if unhandled.toList.isPrefixOf e.message.toList then methodNotFound else internalError

end RequestError

/-- A message that comes in. -/
inductive Message where
  | request (id : JsonValue) (method : String) (params : JsonValue)
  | notification (method : String) (params : JsonValue)
  | response

namespace Message

/-- What a message has in common with others: its identifier, its method and its parameters. -/
structure Parts where
  id : JsonValue
  method : String
  params : JsonValue

/-- A message without any of its parts. -/
def noParts : Parts := ⟨.null, "", .null⟩

def idField : Field Parts := .required "id" Decode.identifier fun m id => { m with id }

def methodField : Field Parts := .required "method" Decode.text fun m method => { m with method }

def paramsField : Field Parts := .defaulted "params" .ok fun m params => { m with params }

def requestRecord : Record Parts := ⟨"Request", [idField, methodField, paramsField], noParts⟩

def notificationRecord : Record Parts := ⟨"Notification", [methodField, paramsField], noParts⟩

/-- A message with an identifier and a method is a request, another one with a method a
notification, and any other the response to a request. -/
def ofJson (j : JsonValue) : Message :=
  match requestRecord.decode .spread j, notificationRecord.decode .spread j with
  | .ok m, _ => .request m.id m.method m.params
  | .error _, .ok m => .notification m.method m.params
  | .error _, .error _ => .response

end Message

/-! ## What is sent -/

/-- A message that goes out. -/
inductive Outgoing where
  | answer (id result : JsonValue)
  | failure (id : JsonValue) (error : RequestError)
  /-- The diagnostics of a version of a document; without a version they are those of a closed one. -/
  | published (uri : String) (version : Option Int) (diagnostics : List RangedDiagnostic)

def Outgoing.toJson : Outgoing → JsonValue
  | .answer id result => .obj [("id", id), ("result", result)]
  | .failure id error =>
    .obj [("id", id), ("error", .obj [("code", .int error.code), ("message", .str error.message)])]
  | .published uri version diagnostics =>
    .obj [("method", .str "textDocument/publishDiagnostics"), ("params", .obj ([("uri", .str uri),
      ("diagnostics", .ofList RangedDiagnostic.toJson diagnostics)]
      ++ (version.map fun v => ("version", .int v)).toList))]

end PipelineLang.Server
