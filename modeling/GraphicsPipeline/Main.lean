import GraphicsPipeline.Demo.CommandLine
import GraphicsPipeline.Demo.Png

/-!
# The program

Draws a demonstration scene and writes it to a file.
-/

open GraphicsPipeline.Demo

/-- Reads the command line, draws, and writes the picture if a file is named. The exit code is 2
for a command line that makes no sense, and 1 for a picture that cannot be drawn or written. -/
def main (words : List String) : IO UInt32 := do
  match Options.parse words with
  | .error .usage =>
    IO.eprintln "usage: [gradient|depth|checker] [-o FILE] [-t THREADS] [-N COUNT] [-s SIZE]"
    return 2
  | .error .information =>
    IO.println "Renders built-in scenes: gradient, depth or checker"
    return 0
  | .ok options =>
    match options.render with
    | .error (.refused e) =>
      IO.eprintln s!"Error: {e.message}"
      return 1
    | .error .aborted =>
      IO.eprintln "the program stopped short"
      return 101
    | .ok picture =>
      match options.out with
      | none => return 0
      | some file =>
        try
          IO.FS.writeBinFile file (Png.encode picture)
          return 0
        catch e =>
          IO.eprintln s!"Error: failed to write {file}: {e}"
          return 1
