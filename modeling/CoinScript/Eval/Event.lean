import CoinScript.Eval.Error
import CoinScript.Script.Template

/-!
# Events

What an evaluation reports of its course.
-/

namespace CoinScript

inductive Event where
  /-- A command of a script is next, with so many elements on the main stack. -/
  | step (command : Command) (depth : Nat)
  /-- An element of the witness is next, with so many elements on the main stack. -/
  | witness (data : Bytes) (depth : Nat)
  /-- The script with this hash has been scheduled. -/
  | redeemed (hash : Digest 20) (script : Script)
  /-- The program for a key is replaced by the witness and the script that checks a signature. -/
  | expandedKey (hash : Digest 20) (elements : List Bytes)
  /-- The program for a script is replaced by the rest of the witness and the script at its end. -/
  | expandedScript (hash : Digest 32) (elements : List Bytes) (script : Script)
  | succeeded
  | failed (error : EvalError)
  deriving DecidableEq, Repr

/-- The log entry of an event. -/
def Event.logEntry : Event → Log.Entry
  | .step command depth =>
    ⟨.trace, "step", [("command", .text command.text), ("depth", .number depth)]⟩
  | .witness data depth =>
    ⟨.trace, "witness", [("data", .text (Hex.encode data)), ("depth", .number depth)]⟩
  | .redeemed hash script =>
    ⟨.debug, "redeeming P2SH script",
      [("hash", .text (Hex.encode hash.bytes)), ("commands", .number script.length)]⟩
  | .expandedKey hash elements =>
    ⟨.debug, "expanding P2WPKH program",
      [("hash", .text (Hex.encode hash.bytes)), ("witness", .number elements.length)]⟩
  | .expandedScript hash elements script =>
    ⟨.debug, "expanding P2WSH program",
      [("hash", .text (Hex.encode hash.bytes)), ("witness", .number elements.length),
       ("commands", .number script.length)]⟩
  | .succeeded => ⟨.debug, "script evaluated successfully", []⟩
  | .failed error => ⟨.debug, "script evaluation failed", [("error", .text error.message)]⟩

end CoinScript
