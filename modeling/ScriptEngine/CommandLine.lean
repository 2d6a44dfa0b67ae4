import ScriptEngine.Repl
import ScriptEngine.Tree.Printer

/-! # The command line

A command with its options, and what it writes and answers. The option for the call depth may stand
before or behind the name of the command; the inner one counts. -/

namespace ScriptEngine.CommandLine

inductive Command where
  | run (script : String)
  | repl
  | eval (source : String)
  | parse (script : String)
  deriving DecidableEq, Repr

/-- A command and the call depth that it may use. -/
structure Request where
  command : Command
  maxDepth : Nat
  deriving DecidableEq, Repr

/-- Why arguments are no request. -/
inductive Refusal where
  | help
  | version
  | usage
  deriving DecidableEq, Repr

/-! ### Arguments -/

/-- A number that fits a machine word. -/
def depthOf? (text : String) : Option Nat :=
  let digits := match text.toList with
    | '+' :: rest => rest
    | cs => cs
  if digits.isEmpty || !digits.all Char.isDigit then none
  else
    let n := digits.foldl (fun n c => n * 10 + (c.toNat - '0'.toNat)) 0
    if n < 0x10000000000000000 then some n else none

/-- The value of an argument that names the option and gives its value at once. -/
def inlineDepth? (arg : String) : Option String :=
  let option := "--max-depth=".toList
  if option.isPrefixOf arg.toList then some (String.ofList (arg.toList.drop option.length))
  else none

def isOption (arg : String) : Bool :=
  arg != "-" && arg.toList.head? == some '-'

/-- Sets the call depth, which one level of the arguments may do once. -/
def setDepth (depth : Option Nat) (text : String) : Except Refusal (Option Nat) :=
  match depth, depthOf? text with
  | none, some n => .ok (some n)
  | _, _ => .error .usage

/-- What the arguments of one level hold: the call depth, the words, and what follows the level. -/
structure Level where
  depth : Option Nat
  words : List String
  rest : List String

/-- Reads options and words. The outer level ends behind its first word. -/
def readLevel (outer : Bool) : List String → Option Nat → List String → Except Refusal Level
  | [], depth, words => .ok ⟨depth, words, []⟩
  | "--max-depth" :: text :: rest, depth, words =>
    match setDepth depth text with
    | .ok depth => readLevel outer rest depth words
    | .error r => .error r
  | "--" :: rest, depth, words =>
    if outer && !rest.isEmpty then .error .usage else .ok ⟨depth, words ++ rest, []⟩
  | arg :: rest, depth, words =>
    match inlineDepth? arg with
    | some text =>
      match setDepth depth text with
      | .ok depth => readLevel outer rest depth words
      | .error r => .error r
    | none =>
      if arg = "--help" ∨ arg = "-h" then .error .help
      else if outer ∧ (arg = "--version" ∨ arg = "-V") then .error .version
      else if isOption arg then .error .usage
      else if outer then .ok ⟨depth, words ++ [arg], rest⟩
      else readLevel outer rest depth (words ++ [arg])

/-- A path must not be empty. -/
def pathOf (path : String) : Except Refusal String :=
  if path = "" then .error .usage else .ok path

def commandOf : String → List String → Except Refusal Command
  | "run", [path] => (pathOf path).map .run
  | "parse", [path] => (pathOf path).map .parse
  | "eval", [source] => .ok (.eval source)
  | "repl", [] => .ok .repl
  | "help", _ => .error .help
  | _, _ => .error .usage

def isCommand (name : String) : Bool :=
  ["run", "repl", "eval", "parse", "help"].contains name

def defaultDepth : Nat := 200

/-- Reads the arguments; without a command there is a conversation. -/
def parseArgs (args : List String) : Except Refusal Request := do
  let outer ← readLevel true args none []
  match outer.words with
  | [] => return { command := .repl, maxDepth := outer.depth.getD defaultDepth }
  | name :: _ =>
    if isCommand name then
      let inner ← readLevel false outer.rest none []
      let command ← commandOf name inner.words
      return { command := command, maxDepth := (inner.depth.or outer.depth).getD defaultDepth }
    else .error .usage

/-! ### Commands -/

/-- What a command leaves behind: its exit status, what it wrote, and the files. -/
structure Result where
  code : Nat
  output : String
  errors : String
  files : FileTree
  /-- Milliseconds that the program asked to wait. -/
  waited : Nat

/-- What surrounds a command: the files, the standard input and the start of its random numbers. -/
structure Surroundings where
  files : FileTree
  input : List UInt8
  seed : Nat

/-- A command that failed without running a program. -/
def failure (s : Surroundings) (message : String) : Result :=
  { code := 1, output := "", errors := message ++ "\n", files := s.files, waited := 0 }

def fileFailure (s : Surroundings) (error : FileError) : Result :=
  failure s ("I/O error: " ++ error.message)

def worldOf (s : Surroundings) (source : Option String) (maxDepth : Nat) : World :=
  let c : Config :=
    { source := source, maxDepth := maxDepth, files := s.files, input := s.input }
  { World.initial c with seed := s.seed }

def resultOf (code : Nat) (errors : String) (w : World) : Result :=
  { code := code, output := w.output, errors := errors, files := w.files, waited := w.waited }

/-- Runs a program; `finish` is what happens to its value. -/
def runProgram (self : Machine) (s : Surroundings) (source : String) (w : World)
    (finish : Value → World → World) : Result :=
  match Engine.evalSource self source w with
  | .done v w => resultOf 0 "" (finish v w)
  | .failed d w => resultOf 1 (d.render ++ "\n") w
  | .jumped _ w => resultOf 1 "" w
  | .exhausted _ => failure s "out of fuel"

def execute (self : Machine) (s : Surroundings) (r : Request) : Result :=
  match r.command with
  | .run script =>
    match s.files.readText script with
    | .ok source =>
      runProgram self s source (worldOf s (some script) r.maxDepth) fun _ w => w
    | .error e => fileFailure s e
  | .eval source => runProgram self s source (worldOf s none r.maxDepth) Repl.showResult
  | .repl =>
    let ending := Repl.run self (worldOf s none r.maxDepth)
    if ending.readable then resultOf 0 ending.errors ending.world
    else
      resultOf 1 (ending.errors ++ "I/O error: " ++ FileError.notText.message ++ "\n") ending.world
  | .parse script =>
    match s.files.readText script with
    | .ok source =>
      match parseProgram source (some script) with
      | .ok root =>
        { code := 0, output := root.toSource ++ "\n", errors := "", files := s.files, waited := 0 }
      | .error d => failure s d.render
    | .error e => fileFailure s e

/-! ### The whole program -/

def usage : String :=
  "Usage: script-engine [--max-depth <N>] [run <SCRIPT> | repl | eval <SOURCE> | parse <SCRIPT>]\n"

/-- Arguments that are no request are refused with the status 2. -/
def refuse (s : Surroundings) : Refusal → Result
  | .help => { code := 0, output := usage, errors := "", files := s.files, waited := 0 }
  | .version => { code := 0, output := "script-engine\n", errors := "", files := s.files, waited := 0 }
  | .usage => { code := 2, output := "", errors := usage, files := s.files, waited := 0 }

/-- The answer to the arguments. -/
def runArgs (self : Machine) (s : Surroundings) (args : List String) : Result :=
  match parseArgs args with
  | .ok request => execute self s request
  | .error refusal => refuse s refusal

end ScriptEngine.CommandLine
