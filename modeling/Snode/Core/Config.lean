import Snode.Core.RegFactory

/-!
# The configuration

`config_reader.cpp`: the property tree that was read from the file, and the streams and
services it describes.  How a string is converted to a number is up to the library.
-/

namespace Snode.Core

open Http

/-- `boost::property_tree::ptree`. -/
inductive Ptree where
  | node (data : Bytes) (children : List (Bytes × Ptree))

/-- What the library throws, and what the reader throws itself. -/
inductive ConfigError where
  | badPath (path : Bytes)
  | badData (path : Bytes)
  | badLexicalCast
  | runtimeError (what : Bytes)
  | xmlParserError (what : Bytes)
  deriving DecidableEq

/-- The conversions of the library; a number that is too large for its type is refused. -/
structure Translators where
  /-- `stream_translator<int>`. -/
  int : Bytes → Option Int
  /-- `stream_translator<unsigned>`. -/
  unsigned : Bytes → Option (Fin (2 ^ 32))
  /-- `lexical_cast<unsigned>`. -/
  lexicalCast : Bytes → Option (Fin (2 ^ 32))

namespace Ptree

def data : Ptree → Bytes
  | node data _ => data

def children : Ptree → List (Bytes × Ptree)
  | node _ children => children

/-- The first child with a key. -/
def find (tree : Ptree) (key : Bytes) : Option Ptree :=
  (tree.children.find? fun child => child.1 = key).map Prod.snd

def getChild (tree : Ptree) (path : Bytes) : Except ConfigError Ptree :=
  match tree.find path with
  | some child => .ok child
  | none => .error (.badPath path)

/-- `get<std::string>(path)`. -/
def getString (tree : Ptree) (path : Bytes) : Except ConfigError Bytes :=
  (tree.getChild path).map data

/-- `get<std::string>(path, default_value)`. -/
def getStringOr (tree : Ptree) (path defaultValue : Bytes) : Bytes :=
  ((tree.find path).map data).getD defaultValue

/-- `get<unsigned>(path)`. -/
def getUnsigned (translators : Translators) (tree : Ptree) (path : Bytes) :
    Except ConfigError (Fin (2 ^ 32)) := do
  let child ← tree.getChild path
  match translators.unsigned child.data with
  | some value => return value
  | none => throw (.badData path)

/-- `get<int>(path, default_value)`. -/
def getIntOr (translators : Translators) (tree : Ptree) (path : Bytes) (defaultValue : Int) :
    Int :=
  ((tree.find path).bind fun child => translators.int child.data).getD defaultValue

end Ptree

/-! ### What a file describes -/

abbrev OptionsMap := OrderedMap stringRank Bytes

/-- `insert`: an option that is there already stays. -/
def OptionsMap.insert (options : OptionsMap) (name value : Bytes) : OptionsMap :=
  options.alter name fun current => current.getD value

structure NetServiceConfig where
  name : Bytes
  host : Bytes
  listenPort : Fin (2 ^ 32)
  options : OptionsMap

/-- `media_config`; its name is not read. -/
structure MediaConfig where
  location : Bytes
  options : OptionsMap

structure SnodeConfig where
  /-- `ptree_`. -/
  ptree : Ptree
  streams : List MediaConfig
  services : List NetServiceConfig
  /-- `err_`, if it is set. -/
  err : Option ConfigError

namespace Sections

def threads : Bytes := ascii "threads"
def options : Bytes := ascii "options"
def streams : Bytes := ascii "streams"
def streamsLocation : Bytes := ascii "location"
def streamsLive : Bytes := ascii "live"
def streamsSource : Bytes := ascii "source"
def streamsFilter : Bytes := ascii "filter"
def services : Bytes := ascii "services"
def serviceName : Bytes := ascii "name"
def serviceHostport : Bytes := ascii "listen"
def errMissingSource : Bytes := ascii "missing source"
def errMissingStreams : Bytes := ascii "No streams defined"

end Sections

namespace SnodeConfig

def new : SnodeConfig where
  ptree := .node [] []
  streams := []
  services := []
  err := none

def getOptions (tree : Ptree) (outOptions : OptionsMap) : OptionsMap :=
  match tree.find Sections.options with
  | none => outOptions
  | some options =>
      options.children.foldl (fun outOptions option => outOptions.insert option.1 option.2.data)
        outOptions

section Reading

variable (translators : Translators)

/-- One turn of the loop of `read_streams`. -/
def readStream (tree : Ptree) : Except ConfigError MediaConfig := do
  let val := tree.getIntOr translators Sections.streamsLive 0
  let options : OptionsMap :=
    if val ≠ 0 then OrderedMap.empty.assign Sections.streamsLive (ascii "1") else .empty
  let location ← tree.getString Sections.streamsLocation
  let sourceClass := tree.getStringOr Sections.streamsSource []
  if sourceClass.isEmpty then
    throw (.runtimeError Sections.errMissingSource)
  let options := options.assign Sections.streamsSource sourceClass
  let filterClass := tree.getStringOr Sections.streamsFilter []
  let options :=
    if filterClass.isEmpty then options else options.assign Sections.streamsFilter filterClass
  return ⟨location, getOptions tree options⟩

/-- One turn of the loop of `read_services`. -/
def readService (tree : Ptree) : Except ConfigError NetServiceConfig := do
  let name ← tree.getString Sections.serviceName
  let serviceHostport ← tree.getString Sections.serviceHostport
  let pos := serviceHostport.idxOf 58
  let (host, listenPort) ←
    if pos < serviceHostport.length then
      match translators.lexicalCast (serviceHostport.drop (pos + 1)) with
      | some listenPort => pure (serviceHostport.take pos, listenPort)
      | none => throw .badLexicalCast
    else
      let listenPort ← tree.getUnsigned translators Sections.serviceHostport
      pure ([], listenPort)
  return ⟨name, host, listenPort, getOptions tree .empty⟩

/-- A loop over the children of a section, which what is thrown ends; what was read stays. -/
def readEach {α : Type} (read : Ptree → Except ConfigError α) :
    List α → List (Bytes × Ptree) → List α × Option ConfigError
  | found, [] => (found, none)
  | found, child :: children =>
      match read child.2 with
      | .ok value => readEach read (found ++ [value]) children
      | .error err => (found, some err)

def readStreams (config : SnodeConfig) : SnodeConfig :=
  match config.ptree.getChild Sections.streams with
  | .error err => { config with err := some err }
  | .ok section_ =>
      match readEach (readStream translators) config.streams section_.children with
      | (streams, some err) => { config with streams := streams, err := some err }
      | (streams, none) =>
          { config with
            streams := streams
            err :=
              if streams.isEmpty then some (.runtimeError Sections.errMissingStreams)
              else config.err }

def readServices (config : SnodeConfig) : SnodeConfig :=
  match config.ptree.getChild Sections.services with
  | .error err => { config with err := some err }
  | .ok section_ =>
      match readEach (readService translators) config.services section_.children with
      | (services, some err) => { config with services := services, err := some err }
      | (services, none) => { config with services := services }

/-- `init`, with what `read_xml` makes of the file. -/
def init (config : SnodeConfig) (file : Except ConfigError Ptree) : SnodeConfig :=
  match file with
  | .error err => { config with err := some err }
  | .ok ptree => readServices translators (readStreams translators { config with ptree := ptree })

/-- `threads`: the number of type `int` is converted. -/
def threads (config : SnodeConfig) : ℕ :=
  (config.ptree.getIntOr translators Sections.threads 1 % 2 ^ 32).toNat

end Reading

end SnodeConfig

end Snode.Core
