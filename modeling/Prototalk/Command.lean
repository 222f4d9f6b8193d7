/-
  Prototalk.Command
  ────────────────────────────────
  **THE COMMAND LINE.**

      run <file>      evaluate a program
      parse <file>    print the messages back as source text
      lex <file>      print the tokens
      help            print the usage

  A command is read from the arguments, needs at most one file, and gives an
  exit code and two texts.  `execute` is given what the file holds; `runIn`
  looks it up in a folder.
-/
import Prototalk.Evaluation.Program
import Prototalk.Folder
import Prototalk.Number.Radix
import Prototalk.Source.Stream

namespace Prototalk

/-- What a command leaves. -/
structure Outcome where
  /-- The exit code. -/
  code : UInt32
  /-- The text for the standard output. -/
  stdout : String
  /-- The text for the standard error output. -/
  stderr : String

/-- A command that was understood, or what to say about one that was not. -/
inductive Command where
  /-- Print the tokens of a file. -/
  | lex (path : String)
  /-- Print the messages of a file. -/
  | parse (path : String)
  /-- Run a file. -/
  | run (path : String) (mode : LexMode) (maxDepth : Option Nat)
  /-- Print a fixed text. -/
  | say (outcome : Outcome)

namespace Outcome

/-- Success with some text. -/
def success (stdout : String) : Outcome := ⟨0, stdout, ""⟩

/-- Failure with some text. -/
def failure (stdout stderr : String) : Outcome := ⟨1, stdout, stderr⟩

end Outcome

namespace Command

/-! ## §1. Reading the arguments. -/

/-- How to use the command line. -/
def usage : String :=
  String.join (List.map (· ++ "\n")
    ["Io interpreter core",
     "",
     "Usage: ioc <command> [options]",
     "",
     "Commands:",
     "  run <file.io>     Evaluate a program",
     "  parse <file.io>   Print the parsed message tree as source",
     "  lex <file.io>     Print the token stream",
     "  help              Show this message",
     "",
     "Run options:",
     "  -p, --pipelined     Lex on a separate thread while parsing",
     "  --max-depth=<n>     Activation depth limit",
     "",
     "Set RUST_LOG (e.g. RUST_LOG=io_eval=trace) for diagnostics."])

/-- The options of a run, as far as they are read. -/
structure RunOptions where
  /-- The first argument that is no option. -/
  path : Option String
  /-- How the file is lexed. -/
  mode : LexMode
  /-- The limit of activations inside each other. -/
  maxDepth : Option Nat

/-- The option that sets the depth. -/
def depthOption : List Char := "--max-depth=".toList

/-- Read the arguments of a run; a limit that is no number is an error. -/
def runOptions (o : RunOptions) : List String → Except String RunOptions
  | [] => .ok o
  | arg :: rest =>
      if arg == "--pipelined" || arg == "-p" then runOptions { o with mode := .pipelined } rest
      else if depthOption.isPrefixOf arg.toList then
        let depth := arg.toList.drop depthOption.length
        match Radix.unsigned 10 64 depth with
        | .ok n => runOptions { o with maxDepth := some n } rest
        | .error _ => .error (String.ofList depth)
      else if arg.toList.head? != some '-' && o.path.isNone then
        runOptions { o with path := some arg } rest
      else runOptions o rest

/-- The command that runs a file. -/
def ofRunArgs (args : List String) : Command :=
  match runOptions ⟨none, .inline, none⟩ args with
  | .error depth =>
      .say (.failure "" ("error: invalid --max-depth value '" ++ depth ++ "'\n"))
  | .ok ⟨none, _, _⟩ =>
      .say (.failure "" ("error: missing file path\n"
        ++ "Usage: ioc run <file.io> [--pipelined] [--max-depth=<n>]\n"))
  | .ok ⟨some path, mode, maxDepth⟩ => .run path mode maxDepth

/-- The command that the arguments ask for. -/
def ofArgs : List String → Command
  | [] => .say (.success usage)
  | "lex" :: path :: _ => .lex path
  | ["lex"] => .say (.failure "" "Usage: ioc lex <file.io>\n")
  | "parse" :: path :: _ => .parse path
  | ["parse"] => .say (.failure "" "Usage: ioc parse <file.io>\n")
  | "run" :: args => ofRunArgs args
  | command :: _ =>
      if command == "help" || command == "--help" || command == "-h" then .say (.success usage)
      else .say (.failure usage ("Unknown command: " ++ command ++ "\n\n"))

/-- The file that a command needs. -/
def path? : Command → Option String
  | .lex path => some path
  | .parse path => some path
  | .run path _ _ => some path
  | .say _ => none

/-! ## §2. Executing it. -/

/-- The word for a class of tokens. -/
def kindText : TokenKind → String
  | .separator => "Separator"
  | .identifier => "Identifier"
  | .opening => "Open"
  | .closing => "Close"
  | .comma => "Comma"
  | .number => "Number"
  | .hexNumber => "HexNumber"
  | .string => "String"
  | .triQuote => "TriQuote"
  | .malformed => "Malformed"

/-- A token as a line of a listing. -/
def tokenLine (t : Token) : String :=
  let reason := match t.error with
    | some e => " (" ++ e.fault.message ++ ")"
    | none => ""
  "  " ++ kindText t.kind ++ " " ++ Visible.string t.value ++ " @ " ++ t.span.text ++ reason ++ "\n"

/-- The listing of a file's tokens. -/
def lexText (path text : String) : Outcome :=
  let tokens := tokenize text
  .success ("Tokens for '" ++ path ++ "' (" ++ toString tokens.length ++ " tokens):\n"
    ++ String.join (tokens.map tokenLine))

/-- The messages of a file as source text. -/
def parseText (path text : String) : Outcome :=
  let parsed := Prototalk.parse .new text
  match parsed.result with
  | .ok (some chain) => .success (Chain.toSource parsed.names chain ++ "\n")
  | .ok none => .success "(empty program)\n"
  | .error e => .failure "" ("parse error in '" ++ path ++ "': " ++ e.message ++ "\n")

/-- The end of a run. -/
def runOutcome (path : String) : Option Ran → Outcome
  | none => .failure "" ("error in '" ++ path ++ "': unfinished\n")
  | some ran =>
      let written := ran.image.output.written
      match ran.result with
      | .ok _ => .success written
      | .error e => .failure written ("error in '" ++ path ++ "': " ++ e.message ++ "\n")

/-- The image in which a file is run. -/
def imageFor (mode : LexMode) (maxDepth : Option Nat) : Image :=
  let config : Config := { lexMode := mode }
  .new { config with maxDepth := maxDepth.getD config.maxDepth }

/-- Run the bytes of a file, decoded as they are read. -/
def runBytes (fuel : Nat) (path : String) (maxDepth : Option Nat) (bytes : List UInt8) : Outcome :=
  runOutcome path ((imageFor .pipelined maxDepth).doSource fuel (.ofBytes bytes))

/-- Run the text of a file. -/
def runText (fuel : Nat) (path : String) (maxDepth : Option Nat) (text : String) : Outcome :=
  runOutcome path ((imageFor .inline maxDepth).doString fuel text)

/-- What is said about a file that is not there. -/
def missingFile (path : String) : Outcome := .failure "" ("cannot find file '" ++ path ++ "'\n")

/-- Do something with the text of a file, if it is one. -/
def withText (path : String) (bytes : List UInt8) (use : String → Outcome) : Outcome :=
  match (Source.ofBytes bytes).text? with
  | some text => use (String.ofList text)
  | none => .failure "" ("'" ++ path ++ "' contains invalid UTF-8 data\n")

/-- Execute a command with what its file holds. -/
def execute (fuel : Nat) (command : Command) (file : FileContent) : Outcome :=
  match command, file with
  | .say outcome, _ => outcome
  | .lex path, .missing | .parse path, .missing | .run path _ _, .missing => missingFile path
  | .lex path, .bytes bs => withText path bs (lexText path)
  | .parse path, .bytes bs => withText path bs (parseText path)
  | .run path .inline maxDepth, .bytes bs => withText path bs (runText fuel path maxDepth)
  | .run path .pipelined maxDepth, .bytes bs => runBytes fuel path maxDepth bs

/-- Do what the arguments ask for inside a folder. -/
def runIn (fuel : Nat) (folder : Folder) (args : List String) : Outcome :=
  let command := ofArgs args
  match command.path? with
  | some path => command.execute fuel (folder.read path)
  | none => command.execute fuel .missing

end Command

end Prototalk
