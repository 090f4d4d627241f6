/-!
# Keys of symbols

A pipeline is known by its name, a variable by its type and name. Where both kinds share one
table, a variable stands under `type::name`; `split` finds the first separator, so a type that
holds one itself does not come back.
-/

namespace PipelineLang

/-- What a reference can name: a pipeline, or a variable of some type. -/
inductive SymbolKey where
  | pipeline (name : String)
  | typed (kind name : String)
  deriving DecidableEq

namespace SymbolKey

/-- The text under which a variable stands in a table. -/
def joinVariable (kind name : String) : String := kind ++ "::" ++ name

/-- What stands before and behind the first `::`. -/
def splitChars : List Char → Option (List Char × List Char)
  | ':' :: ':' :: rest => some ([], rest)
  | c :: rest => (splitChars rest).map fun (front, back) => (c :: front, back)
  | [] => none

/-- The type and the name in the text of a variable. -/
def splitVariable (text : String) : Option (String × String) :=
  (splitChars text.toList).map fun (front, back) => (String.ofList front, String.ofList back)

/-- A text with a separator names a variable, any other a pipeline. -/
def ofText (text : String) : SymbolKey :=
  match splitVariable text with
  | some (kind, name) => .typed kind name
  | none => .pipeline text

/-- The text under which the symbol stands in a table. -/
def text : SymbolKey → String
  | .pipeline name => name
  | .typed kind name => joinVariable kind name

def name : SymbolKey → String
  | .pipeline name => name
  | .typed _ name => name

/-- The symbol as a reader of messages sees it. -/
def render : SymbolKey → String
  | .pipeline name => "pipeline " ++ name
  | .typed kind name => kind ++ " " ++ name

end SymbolKey
end PipelineLang
