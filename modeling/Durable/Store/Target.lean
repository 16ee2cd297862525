import Durable.Store.FileTree
import Durable.Store.FileUri

/-!
# Store targets

What is opened in the end: a name with flags, on a file system.  Depending on
them the records live in memory, for one connection or for the whole process, or
in a file.
-/

namespace Durable

/-- What may be done with the records; `unspecified` comes with memory only. -/
inductive Access where
  | unspecified
  | readOnly
  | readWrite
  | create
  deriving DecidableEq, Repr

namespace Access

/-- The order in which accesses include each other. -/
def rank : Access → Nat
  | unspecified => 0
  | readOnly => 1
  | readWrite => 2
  | create => 3

end Access

structure OpenFlags where
  access : Access
  inMemory : Bool
  isShared : Bool
  deriving DecidableEq, Repr

namespace OpenFlags

/-- The flags with another access.  It must not exceed the one they have, except
that memory allows every access. -/
def withAccess? (flags : OpenFlags) (access : Access) : Option OpenFlags :=
  if flags.inMemory ∨ access.rank ≤ flags.access.rank then
    some { flags with access := access, inMemory := false }
  else none

/-- The flags after a parameter `mode`. -/
def withMode? (flags : OpenFlags) (mode : List UInt8) : Option OpenFlags :=
  if mode = Text.bytes "ro" then flags.withAccess? .readOnly
  else if mode = Text.bytes "rw" then flags.withAccess? .readWrite
  else if mode = Text.bytes "rwc" then flags.withAccess? .create
  else if mode = Text.bytes "memory" then
    some { flags with access := .unspecified, inMemory := true }
  else none

/-- The flags after a parameter `cache`. -/
def withCache? (flags : OpenFlags) (cache : List UInt8) : Option OpenFlags :=
  if cache = Text.bytes "shared" then some { flags with isShared := true }
  else if cache = Text.bytes "private" then some { flags with isShared := false }
  else none

end OpenFlags

/-- How a file system keeps what is written to it. -/
inductive FileSystem where
  | disk
  | memory
  deriving DecidableEq, Repr

namespace FileSystem

def diskNames : List String :=
  ["unix", "unix-none", "unix-dotfile", "unix-excl"]

def ofName? (name : List UInt8) : Option FileSystem :=
  if (diskNames.map Text.bytes).contains name then some disk
  else if name = Text.bytes "memdb" then some memory
  else none

end FileSystem

/-- `modeOf` is a path whose permissions a file takes over. -/
structure StoreTarget where
  name : List UInt8
  isUri : Bool
  flags : OpenFlags
  isImmutable : Bool
  modeOf : Option (List UInt8)
  system : FileSystem
  deriving DecidableEq, Repr

/-- How long an opened store keeps its records: until it is closed, as long as
any store of the process has them open, or for good. -/
inductive Persistence where
  | connection
  | process
  | file
  deriving DecidableEq, Repr

namespace StoreTarget

def isDigit (c : UInt8) : Bool :=
  Text.byte '0' ≤ c && c ≤ Text.byte '9'

/-- The value of digits of some base. -/
def numberOf (base : Nat) (digits : List UInt8) : Nat :=
  digits.foldl (fun value digit => value * base + ((Text.hexValue? digit).getD 0).toNat) 0

/-- The number at the head of a text, hexadecimal after `0x`. -/
def leadingNumber (text : List UInt8) : Nat :=
  let decimal := numberOf 10 (text.takeWhile isDigit)
  match text with
  | zero :: mark :: rest =>
    let digits := rest.takeWhile fun c => (Text.hexValue? c).isSome
    if zero = Text.byte '0' ∧ (mark = Text.byte 'x' ∨ mark = Text.byte 'X') ∧ !digits.isEmpty then
      numberOf 16 digits
    else decimal
  | _ => decimal

/-- A truth value: a number of 31 bits whose low byte is not zero, or a word in
any case. -/
def isTrue (value : List UInt8) : Bool :=
  let lower := value.map fun c => if Text.byte 'A' ≤ c ∧ c ≤ Text.byte 'Z' then c + 32 else c
  let number := leadingNumber value
  (["on", "yes", "true"].map Text.bytes).contains lower
    || (decide (number < Nat.pow 2 31) && number % 256 != 0)

/-- The target of a URI: its parameters are taken into account in their order. -/
def ofUri? (uri : FileUri) (flags : OpenFlags) : Option StoreTarget := do
  let (system, flags) ← uri.parameters.foldlM
    (fun (system, flags) (name, value) =>
      if name = Text.bytes "vfs" then some (value, flags)
      else if name = Text.bytes "mode" then (flags.withMode? value).map fun flags => (system, flags)
      else if name = Text.bytes "cache" then (flags.withCache? value).map fun flags => (system, flags)
      else some (system, flags))
    (Text.bytes "unix", flags)
  let system ← FileSystem.ofName? system
  some { name := uri.path, isUri := true, flags := flags, system := system
         isImmutable := ((uri.parameter? "immutable").map isTrue).getD false
         modeOf := uri.parameter? "modeof" }

/-- The target of a name, which may be a URI. -/
def ofName? (name : List UInt8) (flags : OpenFlags) : Option StoreTarget :=
  if FileUri.scheme.isPrefixOf name then
    (FileUri.ofBytes? (name.drop FileUri.scheme.length)).bind (ofUri? · flags)
  else some ⟨name, false, flags, false, none, .disk⟩

def isWritable (target : StoreTarget) : Bool :=
  target.flags.access != .readOnly

def isInMemory (target : StoreTarget) : Bool :=
  target.flags.inMemory || target.name == Text.bytes ":memory:"

/-- Records in memory are found again by their name if the name is a URI and the
flags share it. -/
def memoryPersistence (target : StoreTarget) : Persistence :=
  if target.isUri ∧ target.flags.isShared then .process else .connection

/-- A file system in memory finds absolute names again, and shared ones. -/
def systemPersistence (target : StoreTarget) : Persistence :=
  let isAbsolute := 1 < target.name.length
    ∧ (target.name.head? = some (Text.byte '/') ∨ target.name.head? = some (Text.byte '\\'))
  if isAbsolute ∨ target.flags.isShared then .process else .connection

/-- The longest name of a file system in memory. -/
def longestMemoryName : Nat := 1016

/-- Open a target for writing over a file tree.  A target without a name is a
temporary one. -/
def openIn? (target : StoreTarget) (tree : FileTree) : Option (Persistence × FileTree) :=
  if target.name.isEmpty then
    if target.isWritable then some (.connection, tree) else none
  else if target.isInMemory then
    if target.isWritable then some (target.memoryPersistence, tree) else none
  else if !target.isWritable ∨ target.isImmutable then none
  else
    match target.system with
    | .memory =>
      if target.name.length ≤ longestMemoryName then some (target.systemPersistence, tree)
      else none
    | .disk =>
      if target.modeOf.all tree.isFound then
        (tree.openFile? target.name (target.flags.access == .create)).map fun tree => (.file, tree)
      else none

/-- The path of a target that is a file on disk. -/
def filePath? (target : StoreTarget) : Option String :=
  if target.name.isEmpty ∨ target.isInMemory ∨ target.system = .memory then none
  else String.fromUTF8? (ByteArray.mk target.name.toArray)

end StoreTarget

end Durable
