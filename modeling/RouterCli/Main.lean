import RouterCli.Files.Tree
import RouterCli.Settings.Tool

/-!
  RouterCli.Main

  The command line of the settings tool. What it does is `SettingsTool.run`;
  here the file is read, salts are drawn and the report is printed.
-/

namespace RouterCli.SettingsTool

/-- The file at a path, alone in a tree; an empty tree where it cannot be
    read. -/
def fileAt (path : String) : IO FileTree := do
  try
    let bytes ← IO.FS.readBinFile path
    return FileTree.empty.withFile path bytes.toList
  catch _ =>
    return FileTree.empty

/-- Room for the salts of both passwords. -/
def drawSalts : IO SaltSupply := do
  let bytes ← IO.getRandomBytes (2 * saltLength).toUSize
  return SaltSupply.ofBytes bytes.toList

/-- Run the tool on the files and the salts of the machine. -/
def runHere (args : List String) : IO Report := do
  let files ← fileAt (args.headD "")
  let salts ← drawSalts
  return run args ({ files, salts } : World FileTree)

end RouterCli.SettingsTool

def main (args : List String) : IO UInt32 := do
  let report ← RouterCli.SettingsTool.runHere args
  IO.print report.stdout
  IO.eprint report.stderr
  return report.code.toUInt32
