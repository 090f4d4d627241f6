import PipelineLang.Index.Analysis
import PipelineLang.Server.Decode

/-!
# Settings of the server

An editor may send settings when it starts the server; what it leaves out keeps its default. The
name of the template engine must not be blank.
-/

namespace PipelineLang.Server

/-- How many analyses are kept, and for how many seconds an unused one is. -/
structure CacheSettings where
  maxEntries : Nat
  maxAgeSecs : Nat
  deriving DecidableEq

structure Settings where
  templateEngine : String
  cache : CacheSettings
  /-- Whether diagnostics are published when a document is opened or changed. -/
  publishes : Bool
  deriving DecidableEq

/-- Why settings are refused. -/
inductive SettingsError where
  | invalid (fault : DecodeFault)
  | emptyTemplateEngine

def SettingsError.message : SettingsError → String
  | .invalid fault => "invalid initialization options: " ++ fault.message
  | .emptyTemplateEngine => "templateEngine must not be empty"

namespace Settings

def default : Settings := ⟨defaultEngine, ⟨50, 300⟩, true⟩

/-- The record of the limits of the cache; what is not given is that of `init`. -/
def cacheRecord (init : CacheSettings) : Record CacheSettings :=
  ⟨"CacheSettings",
    [.defaulted "maxEntries" (Decode.natural64 "usize") fun s n => { s with maxEntries := n },
      .defaulted "maxAgeSecs" (Decode.natural64 "u64") fun s n => { s with maxAgeSecs := n }],
    init⟩

/-- The record that tells whether diagnostics are published. -/
def publishesRecord (init : Bool) : Record Bool :=
  ⟨"DiagnosticsSettings", [.defaulted "enabled" Decode.boolean fun _ b => b], init⟩

/-- The record of all settings. -/
def record : Record Settings :=
  ⟨"ServerConfig",
    [.defaulted "templateEngine" Decode.text fun s engine => { s with templateEngine := engine },
      .defaulted "cache" ((cacheRecord default.cache).decode .whole) fun s cache =>
        { s with cache := cache },
      .defaulted "diagnostics" ((publishesRecord default.publishes).decode .whole) fun s b =>
        { s with publishes := b }],
    default⟩

/-- The settings that the options stand for; null stands for the defaults. -/
def ofOptions (options : JsonValue) : Except SettingsError Settings :=
  let decoded : Decoded Settings := match options with
    | .null => .ok default
    | j => record.decode .whole j
  match decoded with
  | .error fault => .error (.invalid fault)
  | .ok s =>
    if (Blank.trim s.templateEngine.toList).isEmpty then .error .emptyTemplateEngine else .ok s

end Settings
end PipelineLang.Server
