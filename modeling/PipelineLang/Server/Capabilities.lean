import PipelineLang.Server.Decode

/-!
# What an editor can do

An editor that starts the server says what it can do and which folders it has open. The server makes
no use of it, but refuses what is not in the form of the protocol.
-/

namespace PipelineLang.Server

open Decode

/-- The form that a value has to have, as a decoder of which only the faults count. -/
abbrev Form := JsonValue → Decoded Unit

namespace Form

/-- Checks a record. -/
def record (name : String) (fields : List (Field Unit)) : Form :=
  (⟨name, fields, ()⟩ : Record Unit).decode .whole

/-- A field that has to be given. -/
def must {α : Type} (name : String) (decode : JsonValue → Decoded α) : Field Unit :=
  .required name decode fun _ _ => ()

/-- A field that may be left out. -/
def may {α : Type} (name : String) (decode : JsonValue → Decoded α) : Field Unit :=
  .optional name decode fun _ _ => ()

/-- A field that may be left out, or be true or false. -/
def flag (name : String) : Field Unit := may name boolean

/-- A record of flags. -/
def flags (name : String) (names : List String) : Form := record name (names.map flag)

/-- The record of a feature that may be registered later, and nothing else. -/
def registration : Form := flags "DynamicRegistrationClientCapabilities" ["dynamicRegistration"]

/-- The record of a feature of the workspace whose results may be asked for again. -/
def refreshable (name : String) : Form := flags name ["refreshSupport"]

/-- The record of the properties that may be sent later. -/
def resolvable (name : String) : Form := record name [must "properties" (list text)]

/-- The record of a list of values, which may be left out. -/
def valueSet {α : Type} (name : String) (decode : JsonValue → Decoded α) : Form :=
  record name [may "valueSet" (list decode)]

/-- The tags that are known; true and false are allowed as well. -/
def tags : Field Unit :=
  .defaulted "tagSupport" decode fun _ _ => ()
where
  /-- Checks the tags. -/
  decode : Form
    | .bool _ => .ok ()
    | j => (Decode.optional (record "TagSupport" [must "valueSet" (list integer32)]) j).map
        fun _ => ()

/-- The ways to write a text that is shown. -/
def markups : JsonValue → Decoded (List Unit) := list (oneOf ["plaintext", "markdown"])

def symbolKinds : Form := valueSet "SymbolKindCapability" integer32

/-! ## The workspace -/

def workspaceEdit : Form :=
  record "WorkspaceEditClientCapabilities"
    [flag "documentChanges",
      may "resourceOperations" (list (oneOf ["create", "rename", "delete"])),
      may "failureHandling" (oneOf ["abort", "transactional", "textOnlyTransactional", "undo"]),
      flag "normalizesLineEndings",
      may "changeAnnotationSupport"
        (flags "ChangeAnnotationWorkspaceEditClientCapabilities" ["groupsOnLabel"])]

def workspaceSymbol : Form :=
  record "WorkspaceSymbolClientCapabilities"
    [flag "dynamicRegistration", may "symbolKind" symbolKinds, tags,
      may "resolveSupport" (resolvable "WorkspaceSymbolResolveSupportCapability")]

def workspace : Form :=
  record "WorkspaceClientCapabilities"
    [flag "applyEdit",
      may "workspaceEdit" workspaceEdit,
      may "didChangeConfiguration" registration,
      may "didChangeWatchedFiles" (flags "DidChangeWatchedFilesClientCapabilities"
        ["dynamicRegistration", "relativePatternSupport"]),
      may "symbol" workspaceSymbol,
      may "executeCommand" registration,
      flag "workspaceFolders",
      flag "configuration",
      may "semanticTokens" (refreshable "SemanticTokensWorkspaceClientCapabilities"),
      may "codeLens" (refreshable "CodeLensWorkspaceClientCapabilities"),
      may "fileOperations" (flags "WorkspaceFileOperationsClientCapabilities"
        ["dynamicRegistration", "didCreate", "willCreate", "didRename", "willRename", "didDelete",
          "willDelete"]),
      may "inlineValue" (refreshable "InlineValueWorkspaceClientCapabilities"),
      may "inlayHint" (refreshable "InlayHintWorkspaceClientCapabilities"),
      may "diagnostic" (refreshable "DiagnosticWorkspaceClientCapabilities")]

/-! ## Documents -/

def completionItem : Form :=
  record "CompletionItemCapability"
    [flag "snippetSupport", flag "commitCharactersSupport", may "documentationFormat" markups,
      flag "deprecatedSupport", flag "preselectSupport", tags, flag "insertReplaceSupport",
      may "resolveSupport" (resolvable "CompletionItemCapabilityResolveSupport"),
      may "insertTextModeSupport"
        (record "InsertTextModeSupport" [must "valueSet" (list integer32)]),
      flag "labelDetailsSupport"]

def completion : Form :=
  record "CompletionClientCapabilities"
    [flag "dynamicRegistration",
      may "completionItem" completionItem,
      may "completionItemKind" (valueSet "CompletionItemKindCapability" integer32),
      flag "contextSupport",
      may "insertTextMode" integer32,
      may "completionList"
        (record "CompletionListCapability" [may "itemDefaults" (list text)])]

def hover : Form :=
  record "HoverClientCapabilities" [flag "dynamicRegistration", may "contentFormat" markups]

def signatureHelp : Form :=
  record "SignatureHelpClientCapabilities"
    [flag "dynamicRegistration",
      may "signatureInformation" (record "SignatureInformationSettings"
        [may "documentationFormat" markups,
          may "parameterInformation" (flags "ParameterInformationSettings" ["labelOffsetSupport"]),
          flag "activeParameterSupport"]),
      flag "contextSupport"]

def documentSymbol : Form :=
  record "DocumentSymbolClientCapabilities"
    [flag "dynamicRegistration", may "symbolKind" symbolKinds,
      flag "hierarchicalDocumentSymbolSupport", tags]

/-- A feature that leads to another place. -/
def goto : Form := flags "GotoCapability" ["dynamicRegistration", "linkSupport"]

def codeAction : Form :=
  record "CodeActionClientCapabilities"
    [flag "dynamicRegistration",
      may "codeActionLiteralSupport" (record "CodeActionLiteralSupport"
        [must "codeActionKind" (record "CodeActionKindLiteralSupport"
          [must "valueSet" (list text)])]),
      flag "isPreferredSupport",
      flag "disabledSupport",
      flag "dataSupport",
      may "resolveSupport" (resolvable "CodeActionCapabilityResolveSupport"),
      flag "honorsChangeAnnotations"]

def rename : Form :=
  record "RenameClientCapabilities"
    [flag "dynamicRegistration", flag "prepareSupport",
      may "prepareSupportDefaultBehavior" integer32, flag "honorsChangeAnnotations"]

def publishDiagnostics : Form :=
  record "PublishDiagnosticsClientCapabilities"
    [flag "relatedInformation", tags, flag "versionSupport", flag "codeDescriptionSupport",
      flag "dataSupport"]

def foldingRange : Form :=
  record "FoldingRangeClientCapabilities"
    [flag "dynamicRegistration",
      may "rangeLimit" natural32,
      flag "lineFoldingOnly",
      may "foldingRangeKind"
        (valueSet "FoldingRangeKindCapability" (oneOf ["comment", "imports", "region"])),
      may "foldingRange" (flags "FoldingRangeCapability" ["collapsedText"])]

/-- Whether tokens of a whole document are asked for, and whether changes of them are. -/
def fullTokens : Form
  | .bool _ => .ok ()
  | .obj fields =>
    match (⟨"", [flag "delta"], ()⟩ : Record Unit).ofFields fields with
    | .ok () => .ok ()
    | .error _ => .error (.noAlternative "SemanticTokensFullOptions")
  | _ => .error (.noAlternative "SemanticTokensFullOptions")

def semanticTokens : Form :=
  record "SemanticTokensClientCapabilities"
    [flag "dynamicRegistration",
      must "requests" (record "SemanticTokensClientCapabilitiesRequests"
        [flag "range", may "full" fullTokens]),
      must "tokenTypes" (list text),
      must "tokenModifiers" (list text),
      must "formats" (list text),
      flag "overlappingTokenSupport",
      flag "multilineTokenSupport",
      flag "serverCancelSupport",
      flag "augmentsSyntaxTokens"]

def inlayHint : Form :=
  record "InlayHintClientCapabilities"
    [flag "dynamicRegistration",
      may "resolveSupport" (resolvable "InlayHintResolveClientCapabilities")]

def textDocument : Form :=
  record "TextDocumentClientCapabilities"
    [may "synchronization" (flags "TextDocumentSyncClientCapabilities"
        ["dynamicRegistration", "willSave", "willSaveWaitUntil", "didSave"]),
      may "completion" completion,
      may "hover" hover,
      may "signatureHelp" signatureHelp,
      may "references" registration,
      may "documentHighlight" registration,
      may "documentSymbol" documentSymbol,
      may "formatting" registration,
      may "rangeFormatting" registration,
      may "onTypeFormatting" registration,
      may "declaration" goto,
      may "definition" goto,
      may "typeDefinition" goto,
      may "implementation" goto,
      may "codeAction" codeAction,
      may "codeLens" registration,
      may "documentLink" (flags "DocumentLinkClientCapabilities"
        ["dynamicRegistration", "tooltipSupport"]),
      may "colorProvider" registration,
      may "rename" rename,
      may "publishDiagnostics" publishDiagnostics,
      may "foldingRange" foldingRange,
      may "selectionRange" (flags "SelectionRangeClientCapabilities" ["dynamicRegistration"]),
      may "linkedEditingRange" registration,
      may "callHierarchy" registration,
      may "semanticTokens" semanticTokens,
      may "moniker" registration,
      may "typeHierarchy" registration,
      may "inlineValue" registration,
      may "inlayHint" inlayHint,
      may "diagnostic" (flags "DiagnosticClientCapabilities"
        ["dynamicRegistration", "relatedDocumentSupport"])]

/-! ## The editor -/

def notebookDocument : Form :=
  record "NotebookDocumentClientCapabilities"
    [must "synchronization" (flags "NotebookDocumentSyncClientCapabilities"
      ["dynamicRegistration", "executionSummaryReport"])]

def window : Form :=
  record "WindowClientCapabilities"
    [flag "workDoneProgress",
      may "showMessage" (record "ShowMessageRequestClientCapabilities"
        [may "messageActionItem"
          (flags "MessageActionItemCapabilities" ["additionalPropertiesSupport"])]),
      may "showDocument" (record "ShowDocumentClientCapabilities" [must "support" boolean])]

def general : Form :=
  record "GeneralClientCapabilities"
    [may "regularExpressions" (record "RegularExpressionsClientCapabilities"
        [must "engine" text, may "version" text]),
      may "markdown" (record "MarkdownClientCapabilities"
        [must "parser" text, may "version" text, may "allowedTags" (list text)]),
      may "staleRequestSupport" (record "StaleRequestSupportClientCapabilities"
        [must "cancel" boolean, must "retryOnContentModified" (list text)]),
      may "positionEncodings" (list text)]

/-- All that an editor can do. -/
def clientCapabilities : Form :=
  record "ClientCapabilities"
    [may "workspace" workspace, may "textDocument" textDocument,
      may "notebookDocument" notebookDocument, may "window" window, may "general" general,
      may "experimental" anything]

/-- A folder that is open. -/
def workspaceFolder : Form := record "WorkspaceFolder" [must "uri" uri, must "name" text]

/-- The name of an editor, with its version. -/
def clientInfo : Form := record "ClientInfo" [must "name" text, may "version" text]

/-- What an editor sends about itself. -/
def clientFields : List (Field Unit) :=
  [may "processId" natural32,
    may "rootPath" text,
    may "rootUri" uri,
    may "initializationOptions" anything,
    must "capabilities" clientCapabilities,
    may "trace" (oneOf ["off", "messages", "verbose"]),
    may "workspaceFolders" (list workspaceFolder),
    may "clientInfo" clientInfo,
    may "locale" text]

end Form
end PipelineLang.Server
