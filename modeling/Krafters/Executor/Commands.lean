import Krafters.Lib.Text

/-!
# test_executor: exceptions and the commands a parsed line stands for

`Call` is the inner `partial(function, *arguments)` of `Parser.parse`, `Command`
the outer `partial(attach_line, partial(function, *arguments), index + 1)`.
-/

namespace Executor

open Py

/-! ## Exceptions -/

/-- `SYNTAX_ERROR`, `ID_ERROR`, `LOCAL_EXECUTION_ERROR`, `NETEM_ERROR` -/
inductive ErrorType
  | syntaxError
  | idError
  | localExecutionError
  | netemError
deriving DecidableEq, Repr

structure TestException where
  type : ErrorType
  message : Text
  line : Int := -1
deriving DecidableEq, Repr

def TestException.setLine (e : TestException) (line : Nat) : TestException := { e with line := line }

def TestException.isLineDefined (e : TestException) : Bool := decide (0 < e.line)

/-- The exceptions of other classes that reach `attach_line` or `parse`. -/
inductive OtherError
  | typeError
  | attributeError
  | keyError
  | indexError
  | valueError
  | rpcFault
  /-- `Exception` itself -/
  | exception
deriving DecidableEq, Repr

inductive PyExc
  | test (e : TestException)
  | other (e : OtherError)
deriving DecidableEq, Repr

/-! ## Commands -/

/-- A bound method of `CommandUnwrapper` with its arguments. -/
inductive Call
  | modifyLinkFromTo (sources targets : List Text) (netemCommand : Text) (bidirectional : Bool)
  | modifyRandomLink (connectionNumber : Nat) (netemCommand : Text) (bidirectional : Bool)
  | reset
  | runCommand (nOp : Nat) (label : Text)
deriving DecidableEq, Repr

/-- A call with the 1-based number of its line. -/
structure Command where
  call : Call
  line : Nat
deriving DecidableEq, Repr

end Executor
