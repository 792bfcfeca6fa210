import LineBasic.Interpreter

/-!
Histories of an interpreter: what a host does with it, one operation after
another. `Interpreter.Reachable` holds of the interpreters that a new one can
become.
-/

namespace LineBasic

inductive Operation where
  | load (program : Program)
  | start (program : Option Program)
  | step (requests : List Request)
  | resume (answer : String)
  | requestBreak
  | stop
deriving DecidableEq

namespace Interpreter

/-- Does an operation. Only a resume can be refused or fault. -/
def operate (i : Interpreter) : Operation → Logged (Option ResumeError × Interpreter)
  | .load program => return (none, i.load program)
  | .start program => do
    let i ← (program.elim i i.load).start
    return (none, i)
  | .step requests => do
    let i ← i.step requests
    return (none, i)
  | .resume answer => i.resume answer
  | .requestBreak => return (none, i.requestBreak)
  | .stop => do
    let i ← i.stop
    return (none, i)

/-- Whether an operation belongs to an orderly history: no program is replaced
under a started machine, and no answer leads to a fault. -/
def Accepts (i : Interpreter) : Operation → Prop
  | .load _ => i.status = .idle
  | .resume answer => ∀ f, (i.resume answer).value.1 ≠ some (.fault f)
  | _ => True

inductive Reachable : Interpreter → Prop
  | new (detail : Nat) (generator : Generator) :
      Reachable { detail := detail, generator := generator }
  | next {i : Interpreter} (o : Operation) (hi : Reachable i) (ho : i.Accepts o) :
      Reachable (i.operate o).value.2

end Interpreter

end LineBasic
