import LightPeer.Bytes
import LightPeer.Settings.Basic

/-! Settings in files. A tree of directories answers for a path as a file system
does, and what it cannot read is reported with the system's number and words. -/

namespace LightPeer

/-- A file with its bytes, or a directory with named entries. -/
inductive FileNode where
  | file (content : Bytes)
  | directory (entries : List (String × FileNode))

inductive ReadFault where
  | notFound
  | notADirectory
  | isADirectory
  | nameTooLong
  /-- The path holds a zero byte, which no file name can. -/
  | zeroByte
  | notUtf8
deriving DecidableEq, Repr

/-- A fault that the system reports by number. -/
def ReadFault.ofSystem (code : Nat) (kind message : String) : String :=
  s!"Os \x7b code: {code}, kind: {kind}, message: \"{message}\" \x7d"

def ReadFault.ofReader (kind message : String) : String :=
  s!"Error \x7b kind: {kind}, message: \"{message}\" \x7d"

def ReadFault.text : ReadFault → String
  | notFound => ofSystem 2 "NotFound" "No such file or directory"
  | notADirectory => ofSystem 20 "NotADirectory" "Not a directory"
  | isADirectory => ofSystem 21 "IsADirectory" "Is a directory"
  | nameTooLong => ofSystem 36 "InvalidFilename" "File name too long"
  | zeroByte => ofReader "InvalidInput" "file name contained an unexpected NUL byte"
  | notUtf8 => ofReader "InvalidData" "stream did not contain valid UTF-8"

namespace FileNode

/-- The node that a name leads to from the innermost of nested directories,
together with the directories around it. -/
def enter (name : String) : List FileNode → Except ReadFault (List FileNode)
  | directory entries :: around =>
    if name = "" ∨ name = "." then .ok (directory entries :: around)
    else if name = ".." then .ok (if around.isEmpty then [directory entries] else around)
    else if 255 < name.utf8ByteSize then .error .nameTooLong
    else
      match entries.lookup name with
      | some node => .ok (node :: directory entries :: around)
      | none => .error .notFound
  | file _ :: _ => .error .notADirectory
  | [] => .error .notFound

/-- The content of the file at a path, which starts at the root or, without a
leading slash, in the working directory. Both are given with the directories
around them. -/
def read (root working : List FileNode) (path : String) : Except ReadFault Bytes := do
  if path.contains '\x00' then throw .zeroByte
  if path = "" then throw .notFound
  if 4096 ≤ path.utf8ByteSize then throw .nameTooLong
  let start := if path.startsWith "/" then root else working
  match ← (path.splitOn "/").foldlM (fun place name => enter name place) start with
  | file content :: _ => return content
  | directory _ :: _ => throw .isADirectory
  | [] => throw .notFound

end FileNode

namespace Settings

/-- The settings in the bytes of a file, or in what kept them from being read. -/
def ofContent (content : Except ReadFault Bytes) : Except SettingsError Settings :=
  let text : Except ReadFault String := do
    match String.fromUTF8? ⟨(← content).toArray⟩ with
    | some text => return text
    | none => throw .notUtf8
  match text with
  | .ok text => ofText text
  | .error fault => .error (.unreadable s!"failed to read config file: {fault.text}")

/-- The settings in the file at a path. -/
def ofFile (root working : List FileNode) (path : String) : Except SettingsError Settings :=
  ofContent (FileNode.read root working path)

end Settings

end LightPeer
