import SignedFlash.Command.Arguments

/-!
# The program

Runs the command of a command line and says how the program ends: what it writes to each of its two
outputs, and its exit status. Log lines go to the standard output.
-/

namespace SignedFlash

inductive ProgramError where
  | usage (error : UsageError)
  | command (error : CommandError)
  | noCommand
  deriving DecidableEq

structure ProgramOutput where
  output : String
  -- What goes wrong, for the standard error output.
  error : Option ProgramError
  status : Nat

def ProgramError.message : ProgramError → String
  | .usage error => "error: " ++ error.message ++ "\n"
  | .command error => "Error: " ++ error.message ++ "\n"
  | .noCommand => "error: no command\n"

def helpText : String := printedLines [
  "GSC firmware imaging tools",
  "",
  "Usage: [-v] COMMAND [OPTIONS]",
  "",
  "Commands:",
  "  verify      --image FILE [--config FILE] [--skip-hash-checking] [--debug-buf] [--strict-keys]",
  "              [--seed N]  Locate and verify every signed image in a flash image",
  "  headerinfo  --image FILE [--section NAME]  Print the decoded signed headers and manifests",
  "  dump        --image FILE",
  "              Print the keys, signatures and fuse maps of every signed header as TOML"]

/-- A random source that a seed determines: the first words of the digests of seed and count. -/
def RandomSource.ofSeed (seed : Bytes) : RandomSource :=
  ⟨fun i => (Sha256.digest (seed ++ Word.bytes (UInt32.ofNat i))).getD 0⟩

def seedBytes (seed : UInt64) : Bytes := Shape.double.encode seed

namespace Command

/-- Runs a command. A seed on the command line takes the place of the random source, and a dump has
a seed of its own. -/
def run (command : Command) (build : Build) (files : Files) (source : RandomSource) : Outcome :=
  match command with
  | .verify request =>
    let source := match request.seed with
      | some seed => RandomSource.ofSeed (seedBytes seed)
      | none => source
    request.run build files source
  | .headerInfo request => request.run files
  | .dump request => request.run files (RandomSource.ofSeed (seedBytes 0))

end Command

def shownLevel (verbose : Bool) : LogLevel := if verbose then .debug else .warn

namespace Outcome

/-- What an outcome writes to the standard output: the log lines shown, and what was printed. -/
def text (outcome : Outcome) (verbose : Bool) : String :=
  let shown := outcome.log.filter (LogLine.isShown (shownLevel verbose))
  printedLines (shown.map LogLine.text) ++ outcome.output

/-- How the program ends with this outcome: with status 0, or 1 if the command did not find what it
was asked for, or 2 if it failed. -/
def toProgramOutput (outcome : Outcome) (verbose : Bool) : ProgramOutput :=
  match outcome.result with
  | .ok found => ⟨outcome.text verbose, none, if found then 0 else 1⟩
  | .error error => ⟨outcome.text verbose, some (.command error), 2⟩

end Outcome

def runProgram (build : Build) (arguments : List String) (files : Files) (source : RandomSource) :
    ProgramOutput :=
  match Arguments.parse arguments with
  | .error error => ⟨"", some (.usage error), 2⟩
  | .ok .help => ⟨helpText, none, 0⟩
  | .ok .noCommand => ⟨"", some .noCommand, 101⟩
  | .ok (.run verbose command) => (command.run build files source).toProgramOutput verbose

end SignedFlash
