import Durable.Store.Target

/-!
# Store locations

Where a store keeps its records: in memory, or where a path or a URL with the
scheme `sqlite:` says.  Opening is a function of the files that are there: a
path has its directories and its file made, and a URL takes them as they are
unless its mode asks for the file.
-/

namespace Durable

/-- What the parameters of a URL ask for. -/
structure OpenOptions where
  inMemory : Bool
  readOnly : Bool
  create : Bool
  immutable : Bool
  isShared : Bool
  system : Option String
  deriving DecidableEq, Repr

namespace OpenOptions

def standard : OpenOptions :=
  { inMemory := false, readOnly := false, create := false, immutable := false,
    isShared := false, system := none }

/-- Take one parameter into account; unknown ones are refused. -/
def withParameter? (options : OpenOptions) (key value : String) : Option OpenOptions :=
  match key, value with
  | "mode", "ro" => some { options with readOnly := true }
  | "mode", "rw" => some options
  | "mode", "rwc" => some { options with create := true }
  | "mode", "memory" => some { options with inMemory := true, isShared := true }
  | "cache", "private" => some { options with isShared := false }
  | "cache", "shared" => some { options with isShared := true }
  | "immutable", "true" | "immutable", "1" => some { options with immutable := true }
  | "immutable", "false" | "immutable", "0" => some { options with immutable := false }
  | "vfs", name => some { options with system := some name }
  | _, _ => none

def flags (options : OpenOptions) : OpenFlags where
  access := if options.readOnly then .readOnly else if options.create then .create else .readWrite
  inMemory := options.inMemory
  isShared := options.isShared

/-- The file system of a name; the bytes of a name end at a zero byte. -/
def system? (options : OpenOptions) : Option FileSystem :=
  match options.system with
  | none => some .disk
  | some name => FileSystem.ofName? (FileUri.beforeZero (Text.bytes name))

end OpenOptions

/-- The database of a URL: one in memory that no other URL names, or a name. -/
inductive Database where
  | anonymous
  | named (name : String)
  deriving DecidableEq, Repr

/-- Where the records are. -/
structure StoreLocation where
  database : Database
  options : OpenOptions
  deriving DecidableEq, Repr

namespace StoreLocation

/-- The rest of a text after all repetitions of `head` at its start. -/
def dropRepeated (head : List Char) (text : List Char) : List Char :=
  go text.length text
where
  go : Nat → List Char → List Char
    | 0, text => text
    | fuel + 1, text => if head.isPrefixOf text then go fuel (text.drop head.length) else text

/-- The parts of a text before and after the first separator. -/
def splitFirst (separator : Char) (text : List Char) : List Char × Option (List Char) :=
  match text.dropWhile (· != separator) with
  | [] => (text, none)
  | _ :: rest => (text.takeWhile (· != separator), some rest)

/-- A name or value of a parameter, in which a plus sign stands for a blank.
Bytes that are not UTF-8 make it differ from every name. -/
def decodeParameter (text : List Char) : String :=
  let text := String.ofList (text.map fun c => if c = '+' then ' ' else c)
  (Text.percentDecode? text).getD text

/-- The named values after the question mark of a URL. -/
def parameters (text : List Char) : List (String × String) :=
  ((text.splitBy fun a b => a != '&' && b != '&').filter (· != ['&'])).map fun pair =>
    let (key, value) := splitFirst '=' pair
    (decodeParameter key, decodeParameter (value.getD []))

def scheme : String := "sqlite:"

/-- The location that a URL names. -/
def ofUrl? (url : String) : Option StoreLocation := do
  let text := dropRepeated scheme.toList (dropRepeated "sqlite://".toList url.toList)
  let (name, query) := splitFirst '?' text
  let readOptions (options : OpenOptions) :=
    (parameters (query.getD [])).foldlM
      (fun options (key, value) => options.withParameter? key value) options
  if String.ofList name = ":memory:" then
    let options ← readOptions { OpenOptions.standard with inMemory := true, isShared := true }
    some ⟨.anonymous, options⟩
  else
    let name ← Text.percentDecode? (String.ofList name)
    let options ← readOptions .standard
    some ⟨.named name, options⟩

/-- The target of a named database.  With a file system of its own or as an
immutable one it is opened by its plain name; otherwise the name may be a URI. -/
def target? (name : String) (options : OpenOptions) : Option StoreTarget :=
  let name := Text.bytes name
  if options.immutable ∨ options.system.isSome then
    options.system?.map fun system =>
      { name := FileUri.beforeZero name, isUri := true, flags := options.flags,
        isImmutable := options.immutable, modeOf := none, system := system }
  else if name.contains 0 then none
  else StoreTarget.ofName? name options.flags

/-- Open a location over a file tree. -/
def openIn? (location : StoreLocation) (tree : FileTree) : Option (Persistence × FileTree) :=
  match location.database with
  | .anonymous =>
    if location.options.readOnly ∨ location.options.system?.isNone then none
    else some (.connection, tree)
  | .named name => (target? name location.options).bind (·.openIn? tree)

/-- Does a text name a location by a URL? -/
def isUrl (text : String) : Bool :=
  scheme.toList.isPrefixOf text.toList

/-- The location that a text names: a URL, or a path whose file may be made. -/
def ofText? (text : String) : Option StoreLocation :=
  ofUrl? (if isUrl text then text else scheme ++ text ++ "?mode=rwc")

/-- Open the store that a configured text names; nothing is memory.  The
directories on the way to a path are made. -/
def openNamed? (name : Option String) (tree : FileTree) : Option (Persistence × FileTree) :=
  match name with
  | none => some (.connection, tree)
  | some text =>
    if isUrl text then (ofText? text).bind (·.openIn? tree)
    else
      let path := Text.bytes text
      match tree.makeDirectories? (tree.startOf path) (FileTree.components path).dropLast with
      | none => none
      | some tree => (ofText? text).bind (·.openIn? tree)

/-- The path of a location that is a file on disk. -/
def filePath? (location : StoreLocation) : Option String :=
  match location.database with
  | .anonymous => none
  | .named name => (target? name location.options).bind (·.filePath?)

end StoreLocation

end Durable
