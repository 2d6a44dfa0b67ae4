import ScriptEngine.Evaluation.Builtins

/-! # Calls -/

namespace ScriptEngine

namespace Evaluation

open Run

/-- Calls a function of the language: its body runs in a scope inside the one that it was defined
in. Only an inline body or a return gives a value. -/
def callFunction (self : Machine) (f : Lambda) (closure : ScopeRef) (args : List Value) :
    Run Value := do
  checkArity f.title f.params args
  let scope ← newScope
    ((Scope.fresh f.title (some closure) none).defineAll (f.params.zip args))
  match ← withFrame (self.evaluate f.body scope).catchJump with
  | .ok value => return if f.braced then .null else value
  | .error (.return_ value) => return value
  | .error .break_ | .error .continue_ => raise (.loopControlLeavesFunction f.title)

def runNative (self : Machine) (n : Native) (args : List Value) (scope : ScopeRef) : Run Value :=
  match n with
  | .builtin b => Builtins.run self b args scope
  | .textMethod m receiver => Methods.textMethod m receiver args
  | .listMethod m receiver => Methods.listMethod self m receiver args scope
  | .fileMethod m path => Methods.fileMethod m path args
  | .superCall parent child target => buildParent self parent child target args
  | .host _ _ behavior => Builtins.runHost self behavior args scope

/-- Calls a function that is not written in the language, in a scope inside `e`. -/
def callNative (self : Machine) (n : Native) (args : List Value) (e : ScopeRef) : Run Value := do
  checkArity n.name n.params args
  let scope ← newScope ((Scope.fresh n.name (some e) none).defineAll (n.params.zip args))
  withFrame (runNative self n args scope)

/-- Calls a value from the scope `e`; a value that cannot be called is its own result. -/
def callValue (self : Machine) (callee : Value) (args : List Value) (e : ScopeRef) : Run Value :=
  match callee with
  | .function _ f closure => callFunction self f closure args
  | .native _ n => callNative self n args e
  | .cls c => do return .instance_ (← instantiate self c args e)
  | v => Run.done v

end Evaluation

end ScriptEngine
