import ScriptEngine.Engine

/-! # Conversation

A conversation reads programs from the input line by line and runs each in the same globals. -/

namespace ScriptEngine.Repl

/-- What a line of the input asks for. -/
inductive Line where
  | leave
  | nothing
  | program (source : String)

def Line.of (text : String) : Line :=
  let source := Text.trim text
  if source = "exit" ∨ source = ":quit" ∨ source = ":exit" then leave
  else if source = "" then nothing
  else program source

/-- How a conversation ended: the world, what was reported as errors, and whether all of the input
that was read was text. -/
structure Ending where
  world : World
  errors : String
  readable : Bool

/-- What a finished program shows: its value, unless that is null. -/
def showResult (v : Value) (w : World) : World :=
  if v.isNull then w else { w with output := w.output ++ w.heap.display v ++ "\n" }

/-- Goes through at most `rounds` lines. -/
def converse (self : Machine) : Nat → World → String → Ending
  | 0, w, errors => { world := w, errors := errors, readable := true }
  | rounds + 1, w, errors =>
    match Text.takeLine w.input with
    | ([], _) => { world := w, errors := errors, readable := true }
    | (bytes, rest) =>
      let w := { w with input := rest }
      match Text.decode? bytes with
      | none => { world := w, errors := errors, readable := false }
      | some text =>
        match Line.of text with
        | .leave => { world := w, errors := errors, readable := true }
        | .nothing => converse self rounds w errors
        | .program source =>
          match Engine.evalSource self source w with
          | .done v w => converse self rounds (showResult v w) errors
          | .failed d w => converse self rounds w (errors ++ d.render ++ "\n")
          | .jumped _ w => converse self rounds w errors
          | .exhausted _ => { world := w, errors := errors, readable := true }

/-- The conversation over the whole input, which has no more lines than bytes. -/
def run (self : Machine) (w : World) : Ending :=
  converse self (w.input.length + 1) w ""

end ScriptEngine.Repl
