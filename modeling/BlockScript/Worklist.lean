/-!
# Worklists

A loop over a deep tree keeps what it still has to do in a list: it takes the first task
off and puts the parts of that task in its place. Such a loop ends because the tasks
together weigh less after every round.
-/
namespace BlockScript.Worklist

def total {α : Type} (weight : α → Nat) : List α → Nat
  | [] => 0
  | first :: rest => weight first + total weight rest

end BlockScript.Worklist
