import YamlOutline.CommandLine.Run
import YamlOutline.Screen.Draw
import YamlOutline.Session.Keys

/-!
The program. It reads the folder where it runs and what its arguments lead to, prints what the run
leaves behind, and in a session draws the screen and reads keys line by line until the session ends.
-/

namespace YamlOutline

private partial def readEntry (e : IO.FS.DirEntry) : IO Files.Entry := do
  if ← e.path.isDir then
    let entries ← (← e.path.readDir).mapM readEntry
    return .mk e.fileName (.folder entries.toList)
  else
    let content ← try
        let bytes ← IO.FS.readBinFile e.path
        pure <| match String.fromUTF8? bytes with
          | some text => Files.Content.text text
          | none => .binary
      catch _ => pure .binary
    return .mk e.fileName (.file content)

/-- The paths that the program is to read. -/
private def pathsIn (arguments : List String) : List String :=
  match CommandLine.Arguments.read arguments with
  | .ok (.outlines a) => a.paths ++ a.summary.toList
  | _ => []

/-- The disk with what is at a path, where the path leads out of what was read. -/
private def readPath (disk : Files.Disk) (path : String) : IO Files.Disk := do
  if (disk.resolve path).toOption.isSome then return disk
  let real ← try IO.FS.realPath path catch _ => return disk
  unless ← real.pathExists do return disk
  let names := real.components.filter (!·.isEmpty)
  match real.parent, real.fileName with
  | some folder, some name =>
    let entry ← readEntry ⟨folder, name⟩
    let root := disk.root.put names entry.item
    if here_isFolder : root.isFolderAt disk.here = true then
      return { disk with root, here_isFolder }
    else return disk
  | _, _ => return disk

/-- The folder where the program runs and what the arguments lead to, at their places. -/
private def readDisk (arguments : List String) : IO Files.Disk := do
  let folder ← IO.currentDir
  let entries ← (← folder.readDir).mapM readEntry
  let disk := Files.Disk.ofFolder (folder.components.filter (!·.isEmpty)) entries.toList
  (pathsIn arguments).foldlM readPath disk

/-- A line is the name of a key or several characters; an empty line is the enter key. -/
private def keysOf (line : String) : List Key :=
  match line with
  | "" => [.enter]
  | "Up" => [.up]
  | "Down" => [.down]
  | "Left" => [.left]
  | "Right" => [.right]
  | "Esc" => [.escape]
  | "Tab" => [.tab]
  | "Backspace" => [.backspace]
  | "Home" => [.home]
  | _ => line.toList.map .char

private def pressAll (s : Session) (keys : List Key) : Bool × Session :=
  keys.foldl (fun (ended, s) key =>
    if ended then (ended, s) else s.press key) (false, s)

/-- Writes the open documents that a step saved. -/
private def writeSaved (before after : Session) : IO Unit :=
  after.workspace.documents.forM fun d => do
    match before.disk.read d.uri, after.disk.read d.uri with
    | .ok old, .ok new => if old != new then IO.FS.writeFile d.uri new
    | .error _, .ok new => IO.FS.writeFile d.uri new
    | _, _ => pure ()

private partial def converse (settings : Settings) (s : Session) : IO Unit := do
  let (picture, s) := Screen.draw settings 80 24 s
  for row in picture do
    IO.println row.text
  let line ← (← IO.getStdin).getLine
  unless line.isEmpty do
    let (ended, after) := pressAll s (keysOf (line.dropEndWhile (· == '\n')).toString)
    writeSaved s after
    unless ended do
      converse settings after

private def makeLogFile (arguments : List String) : IO Unit := do
  match CommandLine.Arguments.read arguments with
  | .ok (.outlines { logFile := some path, .. }) =>
    try IO.FS.writeFile path "" catch _ => pure ()
  | _ => pure ()

end YamlOutline

def main (arguments : List String) : IO UInt32 := do
  let disk ← YamlOutline.readDisk arguments
  YamlOutline.makeLogFile arguments
  match YamlOutline.CommandLine.run arguments disk with
  | .report r =>
    IO.print r.output
    IO.eprint r.errors
    return r.code.toUInt32
  | .interactive session settings =>
    YamlOutline.converse settings session
    return 0
