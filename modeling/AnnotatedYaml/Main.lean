import AnnotatedYaml.Cli.Run

/-! The command-line tool: it reads the files that its arguments name, runs, prints both streams and
exits with the run's status. -/

open AnnotatedYaml.Cli

/-- The bytes of every argument that names a readable file. -/
def readFiles (args : List String) : IO (List (String × ByteArray)) := do
  let mut found := []
  for a in args do
    try
      let bytes ← IO.FS.readBinFile a
      found := found ++ [(a, bytes)]
    catch _ => pure ()
  return found

def main (args : List String) : IO UInt32 := do
  let files ← readFiles args
  let o := run (fun path => files.lookup path) args
  IO.print o.stdout
  IO.eprint o.stderr
  return o.status.toUInt32
