import PipelineLang.Text.Table

/-!
# Open documents

The store holds the last text of every open document with the version that its editor gave it.
-/

namespace PipelineLang.Server

/-- A version of a document. -/
structure Snapshot where
  text : List Char
  version : Int
  deriving DecidableEq

/-- The open documents by their URI. -/
abbrev DocumentStore := Table Snapshot

namespace DocumentStore

/-- The store with the document at the given version, whether it was open or not. -/
def put (s : DocumentStore) (uri : String) (text : List Char) (version : Int) : DocumentStore :=
  s.insert uri ⟨text, version⟩

/-- The store without the document. -/
def close (s : DocumentStore) (uri : String) : DocumentStore := s.erase uri

def snapshot? (s : DocumentStore) (uri : String) : Option Snapshot := s.find? uri

end DocumentStore
end PipelineLang.Server
