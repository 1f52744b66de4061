import NativeInterface.Toml.Basic

/-!
# TOML documents

A document is a list of statements: headers that open a table, and entries of the table opened last.
No key is set twice and no table is opened twice. A table that only the header of an inner one
implies may still be opened; one that dotted keys made may only be extended by dotted keys.
-/

namespace NativeInterface.Toml

/-- A dotted key: the tables it leads through, and its last part. -/
structure KeyPath where
  tables : List String
  last : String
  deriving DecidableEq, Repr, Inhabited

/-- How a table came to be. -/
inductive Origin where
  /-- Opened by a header of its own. -/
  | header
  /-- Implied by the header of a table inside it. -/
  | implied
  /-- Made by a dotted key. -/
  | dotted
  deriving DecidableEq, Repr, Inhabited

/-- What stands under a key while a document is read. -/
inductive Item where
  | value (v : Toml)
  | table (origin : Origin) (entries : List (String × Item))
  | tables (elements : List (List (String × Item)))
  deriving Repr, Inhabited

abbrev Entries := List (String × Item)

/-- Replace what stands under a key. -/
def replace (key : String) (item : Item) : Entries → Entries
  | [] => []
  | e :: es => if e.1 = key then (key, item) :: es else e :: replace key item es

/-- Change the table that a path leads to. Tables missing on the way are made, and of an array of
tables the last one counts. A dotted key does not lead into a table that has a header. -/
def alter (made : Origin) (change : Origin → Entries → Option Entries) :
    List String → Origin → Entries → Option Entries
  | [], origin, es => change origin es
  | key :: path, _, es =>
    match es.lookup key with
    | none => do some (es ++ [(key, .table made (← alter made change path made []))])
    | some (.value _) => none
    | some (.table origin inner) =>
      if made = .dotted ∧ origin = .header then none
      else do some (replace key (.table origin (← alter made change path origin inner)) es)
    | some (.tables elements) => do
      let inner ← alter made change path .header (← elements.getLast?)
      some (replace key (.tables (elements.dropLast ++ [inner])) es)

/-- Set a key. The table that it is set in is the one at hand, or one that dotted keys made. -/
def setKey (key : KeyPath) (v : Toml) (es : Entries) : Option Entries :=
  alter .dotted (fun origin inner =>
    if key.tables ≠ [] ∧ origin ≠ .dotted then none
    else if (inner.lookup key.last).isSome then none
    else some (inner ++ [(key.last, .value v)])) key.tables .header es

/-- Open a table. -/
def openTable (key : KeyPath) (es : Entries) : Option Entries :=
  alter .implied (fun _ inner =>
    match inner.lookup key.last with
    | none => some (inner ++ [(key.last, .table .header [])])
    | some (.table .implied entries) => some (replace key.last (.table .header entries) inner)
    | some _ => none) key.tables .header es

/-- Open the next table of an array of tables. -/
def openElement (key : KeyPath) (es : Entries) : Option Entries :=
  alter .implied (fun _ inner =>
    match inner.lookup key.last with
    | none => some (inner ++ [(key.last, .tables [[]])])
    | some (.tables elements) => some (replace key.last (.tables (elements ++ [[]])) inner)
    | some _ => none) key.tables .header es

mutual

/-- What was read, without how it came to be. -/
def Item.toml : Item → Toml
  | .value v => v
  | .table _ entries => .table (tomlEntries entries)
  | .tables elements => .arr (tomlTables elements)

def tomlEntries : List (String × Item) → List (String × Toml)
  | [] => []
  | (key, item) :: rest => (key, item.toml) :: tomlEntries rest

def tomlTables : List (List (String × Item)) → List Toml
  | [] => []
  | entries :: rest => .table (tomlEntries entries) :: tomlTables rest

end

/-- A table written in one line. -/
def ofPairs? (pairs : List (KeyPath × Toml)) : Option Toml := do
  let es ← pairs.foldlM (fun es (key, v) => setKey key v es) []
  some (.table (tomlEntries es))

/-- A statement of a document. -/
inductive Statement where
  /-- `[key]` -/
  | header (key : KeyPath)
  /-- `[[key]]` -/
  | element (key : KeyPath)
  /-- `key = value` -/
  | entry (key : KeyPath) (value : Toml)
  deriving Repr, Inhabited

/-- The statements taken so far. -/
structure Document where
  entries : Entries := []
  /-- The path of the table opened last. -/
  opened : List String := []
  deriving Repr, Inhabited

namespace Document

/-- Take one statement. -/
def add (d : Document) : Statement → Option Document
  | .header key => do some ⟨← openTable key d.entries, key.tables ++ [key.last]⟩
  | .element key => do some ⟨← openElement key d.entries, key.tables ++ [key.last]⟩
  | .entry key v => do
    let entries ← alter .implied (fun _ es => setKey key v es) d.opened .header d.entries
    some { d with entries }

/-- The table that statements describe. -/
def ofStatements? (statements : List Statement) : Option Toml := do
  let d ← statements.foldlM add {}
  some (.table (tomlEntries d.entries))

end Document

end NativeInterface.Toml
