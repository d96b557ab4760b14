import CanvasPage.Batch.Run

namespace CanvasPage.Main

def ofError : IO.Error → Fault
  | .noFileOrDirectory _ _ _ => .missing
  | .alreadyExists _ _ _ => .alreadyExists
  | .inappropriateType _ code _ => if code == 20 then .notDirectory else .isDirectory
  | e => .other (toString e)

def attempt {α : Type} (action : IO α) : IO (Except Fault α) := do
  match ← action.toBaseIO with
  | .ok a => return .ok a
  | .error e => return .error (ofError e)

def decode (bytes : ByteArray) : Except Fault Text :=
  match String.fromUTF8? bytes with
  | some s => .ok s.toList
  | none => .error .notUtf8

def typeIs (type : IO.FS.FileType) (path : Text) : IO Bool := do
  match ← attempt do (← IO.FS.realPath (String.ofList path)).metadata with
  | .ok m => return m.type == type
  | .error _ => return false

partial def filesOf (outer : List Text) (entry : IO.FS.DirEntry) : IO (List (List Text)) := do
  let place := outer ++ [entry.fileName.toList]
  match ← attempt entry.path.symlinkMetadata with
  | .error _ => return []
  | .ok m =>
      match m.type with
      | .file => return [place]
      | .dir =>
          match ← attempt entry.path.readDir with
          | .ok entries => return (← entries.toList.mapM (filesOf place)).flatten
          | .error _ => return []
      | _ => return []

def filesBelow (path : Text) : IO (List (List Text)) := do
  match ← attempt do (← IO.FS.realPath (String.ofList path)).readDir with
  | .ok entries =>
      let places ← entries.toList.mapM (filesOf [])
      return places.flatten.mergeSort fun p q => !Path.precedes q p
  | .error _ => return []

def storage : Storage IO where
  workingDirectory := return (← IO.currentDir).toString.toList
  isFile := typeIs .file
  isDirectory := typeIs .dir
  read path := do
    match ← attempt (IO.FS.readBinFile (String.ofList path)) with
    | .ok bytes => return decode bytes
    | .error fault => return .error fault
  filesBelow := filesBelow
  createDirectory path := attempt (IO.FS.createDir (String.ofList path))
  write path text := attempt (IO.FS.writeFile (String.ofList path) (String.ofList text))
  readInput := do
    match ← attempt (do (← IO.getStdin).readBinToEnd) with
    | .ok bytes => return decode bytes
    | .error fault => return .error fault
  print text := IO.print (String.ofList text)

def help : List String := [
  "Turn canvas animation components into standalone HTML and JavaScript",
  "",
  "Usage: standalone-canvas [OPTIONS] [INPUTS]...",
  "",
  "Arguments:",
  "  [INPUTS]...  Component or markup files, or directories to search",
  "",
  "Options:",
  "      --stdin                Read one input from standard input",
  "      --sample               Convert the bundled ribbon sample component",
  "      --out-dir <OUT_DIR>    Write generated files here instead of printing them",
  "      --output <OUTPUT>      Output format: human, json or machine",
  "      --fallback <FALLBACK>  What to generate without a class: inert or synthesized",
  "      --url-overrides        Let ?bg= and ?transparent= override the background",
  "      --explain              Show where each field value came from",
  "      --ignore <IGNORE>      Glob patterns to ignore",
  "      --config <CONFIG>      Path to a JSON config file",
  "  -v, --verbose              Log extraction details",
  "  -q, --quiet                Only log errors",
  "  -h, --help                 Print help",
  "  -V, --version              Print version"]

def explainArguments : ArgumentError → String
  | .unknownArgument => "unexpected argument"
  | .invalidValue => "invalid or missing value for an option"
  | .conflict => "an argument was given twice or conflicts with another"
  | .tooManyValues => "a value was given to a flag"
  | .help => "help"
  | .version => "version"

end CanvasPage.Main

open CanvasPage in
def main (args : List String) : IO UInt32 := do
  match Arguments.ofList (args.map String.toList) with
  | .error .help =>
      Main.help.forM IO.println
      return 0
  | .error .version =>
      IO.println "standalone-canvas 0.3.0"
      return 0
  | .error e =>
      IO.eprintln ("error: " ++ Main.explainArguments e)
      return 2
  | .ok a =>
      match ← (Batch.run Main.storage a).run with
      | .ok summary => return if summary.failed == 0 then 0 else 1
      | .error e =>
          IO.eprintln ("Error: " ++ String.ofList e.message)
          return 1
