import ConstFold.Diagnostic

/-!
# The diagnostic queue

A queue collects diagnostics up to a limit and keeps one per code and location; diagnostics without
a location are all kept. Flushing hands them over in the order of location and code, those that tie
in the order in which they came, and starts the queue afresh.
-/

set_option autoImplicit false

namespace ConstFold

/-- Collected diagnostics, oldest first, and the codes and locations they occupy. A limit of 0 means
that there is none. -/
structure Queue where
  limit : Nat
  held : Array Diagnostic
  seen : List (Code × Span)
  deriving DecidableEq, Repr

namespace Queue

/-- The empty queue with a given limit. -/
def withLimit (limit : Nat) : Queue where
  limit := limit
  held := #[]
  seen := []

/-- The limit of a queue for which none was chosen. -/
def defaultLimit : Nat := 100

/-- The empty queue with the default limit. -/
def empty : Queue := withLimit defaultLimit

instance : Inhabited Queue := ⟨empty⟩

/-- How many diagnostics are held. -/
def size (queue : Queue) : Nat := queue.held.size

/-- Whether no diagnostic is held. -/
def isEmpty (queue : Queue) : Bool := queue.held.isEmpty

/-- The held diagnostics, oldest first. -/
def toList (queue : Queue) : List Diagnostic := queue.held.toList

/-- Whether the limit is reached. -/
def isFull (queue : Queue) : Bool :=
  0 < queue.limit && queue.limit ≤ queue.held.size

/-- What a diagnostic occupies: its code and location, when it has a location. -/
def key? (diagnostic : Diagnostic) : Option (Code × Span) :=
  if diagnostic.span.isNowhere then none else some (diagnostic.code, diagnostic.span)

/-- Whether a diagnostic of the same code and location was accepted before. -/
def hasSeen (queue : Queue) (diagnostic : Diagnostic) : Bool :=
  match key? diagnostic with
  | none => false
  | some key => queue.seen.contains key

/-- Accept a diagnostic, unless the queue is full or has seen its like. Tells whether it was
accepted. -/
def add (queue : Queue) (diagnostic : Diagnostic) : Bool × Queue :=
  if queue.isFull || queue.hasSeen diagnostic then (false, queue)
  else
    (true, { queue with
      held := queue.held.push diagnostic
      seen := (key? diagnostic).toList ++ queue.seen })

/-- The order in which diagnostics are handed over: by start, then end, then code. -/
def comesBefore (left right : Diagnostic) : Bool :=
  (compare left.span.start right.span.start
    |>.then (compare left.span.stop right.span.stop)
    |>.then (compare left.code.rank right.code.rank)).isLE

/-- Hand over the held diagnostics in order and start afresh. -/
def flush (queue : Queue) : List Diagnostic × Queue :=
  (queue.toList.mergeSort comesBefore, withLimit queue.limit)

/-- Add diagnostics in order, and count those accepted. -/
def addAll (queue : Queue) (diagnostics : List Diagnostic) : Nat × Queue :=
  diagnostics.foldl
    (fun (count, queue) diagnostic =>
      let (accepted, queue) := queue.add diagnostic
      (if accepted then count + 1 else count, queue))
    (0, queue)

end Queue

end ConstFold
