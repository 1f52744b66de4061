import NativeInterface.Record.Basic

/-!
# Indexing result clauses

Every clause has a label and no two values of one name, and its labels name its accessor. No two
clauses of a function have the same accessor.
-/

namespace NativeInterface

namespace RawClause

def labels (c : RawClause) : List String := c.items.filterMap (·.label)

/-- The names of the values in order. -/
def valueNames (c : RawClause) : List String :=
  (c.items.filter fun i => !i.isLabel).map (·.name)

/-- `function_result_label_label...` -/
def accessor (function : String) (c : RawClause) : String :=
  function ++ "_result_" ++ Text.join "_" c.labels

/-- `send_label_label...` -/
def sendAccessor (c : RawClause) : String := "send_" ++ Text.join "_" c.labels

/-- The first name that stands in the list for a second time, or is among those seen before. -/
def firstRepeated (seen : List String) : List String → Option String
  | [] => none
  | name :: rest => if seen.contains name then some name else firstRepeated (name :: seen) rest

/-- A clause by itself: it has a label, and its values have different names. -/
def check (function : String) (index : Nat) (c : RawClause) : Except Fault Unit :=
  if c.labels.isEmpty then .error (.emptyLabelSet function index c.span)
  else match firstRepeated [] c.valueNames with
    | some name => .error (.duplicateResultName function name c.span)
    | none => .ok ()

/-- Index the clauses from a place on, whose accessors must be none of those seen. -/
def indexFrom (function : String) (index : Nat) (seen : List String) :
    List RawClause → Except Fault (List Clause)
  | [] => .ok []
  | c :: cs => do
    c.check function index
    let name := c.accessor function
    if seen.contains name then .error (.duplicateAccessor function name c.span)
    else
      let rest ← indexFrom function (index + 1) (name :: seen) cs
      .ok (⟨c.items, name⟩ :: rest)

/-- The clauses of a function with their accessors. -/
def index (function : String) (cs : List RawClause) : Except Fault (List Clause) :=
  indexFrom function 0 [] cs

/-- The function that faults of a `sends` declaration name. -/
def sendsName : String := "sends"

/-- The message of a `sends` declaration with its accessor. -/
def indexSend (c : RawClause) : Except Fault Clause := do
  c.check sendsName 0
  .ok ⟨c.items, c.sendAccessor⟩

end RawClause

end NativeInterface
