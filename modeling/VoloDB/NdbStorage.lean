import VoloDB.Contract
import VoloDB.KeyedTable
import VoloDB.Ndb

/-!
# NDB as a database

`Call` and `Answer` say nothing about what the answers mean. Here is what NDB
makes of the calls: it remembers what each operation has been told, and which
operations belong to a transaction (`NdbState`); when a transaction is
committed, what its operations write is applied to the contents of the stores,
one after another and all together; and the records of what a transaction has
read are those of the rows its operations ask for.

The descriptions of the stores are those of a `Catalog` and stay as they are:
what MySQL does to them on a definition query is not described here. Nothing
is expected of what a transaction reads that also writes, nor of a read by a
key that no row has. A scan that breaks off is left out as well, since the
program takes it for one that has come to its end.
-/

namespace VoloDB

open Interaction

/-! ## Catalogs -/

/-- The names of the columns of the primary key. -/
def Table.keyNames (table : Table) : List Bytes :=
  (table.columns.filter (·.primaryKey)).map (·.name)

theorem Table.keyNames_nodup (table : Table) : table.keyNames.Nodup :=
  table.names_nodup.sublist (List.filter_sublist.map _)

theorem Table.length_keyNames (table : Table) :
    table.keyNames.length = table.getNoOfPrimaryKeys := by
  rw [keyNames, List.length_map, getNoOfPrimaryKeys, List.countP_eq_length_filter]

/-- **The stores there are**, with their descriptions, and what the values of
their columns are compared by. -/
structure Catalog where
  table : Bytes → Option Table
  code : Bytes → Bytes → Bytes → Bytes

namespace Catalog

/-- The key columns of a store. -/
def keys (C : Catalog) (storeName : Bytes) : List Bytes :=
  ((C.table storeName).map Table.keyNames).getD []

theorem keys_of_table {C : Catalog} {storeName : Bytes} {table : Table}
    (h : C.table storeName = some table) : C.keys storeName = table.keyNames := by
  rw [keys, h]
  rfl

theorem keys_nodup (C : Catalog) (storeName : Bytes) : (C.keys storeName).Nodup := by
  unfold keys
  cases C.table storeName with
  | none => exact List.nodup_nil
  | some table => exact table.keyNames_nodup

/-- What the stores hold. -/
abbrev Contents (C : Catalog) : Type := Keyed.Database C.code C.keys

end Catalog

/-! ## What an operation has been told -/

/-- **What NDB knows of an operation**: what the calls about it have said. -/
structure Told where
  storeName : Bytes
  access : Option Access
  equals : List (Bytes × Bytes)
  values : List (Bytes × Bytes)
  filter : List (Nat × Bytes)
  /-- The records it has been asked for, each with the number of its
  column. -/
  records : List (RecAttr × Nat)
deriving DecidableEq

namespace Told

/-- An operation that has just been made. -/
def new (storeName : Bytes) : Told := ⟨storeName, none, [], [], [], []⟩

/-- What the operation is to write. -/
def write (o : Told) : Option (Keyed.Write Bytes Bytes Bytes) :=
  match o.access with
  | some .writeTuple => some (.put o.storeName o.equals o.values)
  | some .deleteTuple => some (.remove o.storeName o.equals)
  | _ => none

/-- The conditions on the rows it reads. -/
def conditions (table : Table) (o : Told) : List (Bytes × Bytes) :=
  match o.access with
  | some .scan => o.filter.filterMap (fun comparison =>
      table.columns[comparison.1]?.map (fun column => (column.name, comparison.2)))
  | _ => o.equals

/-- **The records hold the row**, each the value of its column. -/
def Holds (o : Told) (table : Table) (row : Keyed.Row Bytes Bytes) (records : Snapshot) : Prop :=
  ∀ record columnNo, (record, columnNo) ∈ o.records →
    ∀ column, table.columns[columnNo]? = some column →
      (records record).name = column.name
        ∧ ∀ value, row column.name = some value → (records record).value = value

end Told

/-! ## The state of NDB -/

/-- **What NDB knows and holds.** -/
structure NdbState (C : Catalog) where
  contents : C.Contents
  /-- What it has been told about an operation. -/
  told : Nat → Told
  /-- The operations of a transaction. -/
  members : Nat → List Nat
  /-- The operations whose records are those of the contents. -/
  readable : List Nat

namespace NdbState

variable {C : Catalog}

/-- What the operations of a transaction are to write. -/
def writes (s : NdbState C) (transaction : Nat) : List (Keyed.Write Bytes Bytes Bytes) :=
  (s.members transaction).filterMap (fun pointer => (s.told pointer).write)

/-- An operation is told something. -/
def tell (s : NdbState C) (pointer : Nat) (o : Told) : NdbState C :=
  { s with told := Function.update s.told pointer o }

/-- An operation is made, or is not. -/
def make (s : NdbState C) (transaction : Nat) (storeName : Bytes) : Option Nat → NdbState C
  | none => s
  | some pointer =>
    { s.tell pointer (.new storeName) with
      members := Function.update s.members transaction (s.members transaction ++ [pointer]) }

/-- **The state after a call.** -/
def next (s : NdbState C) : (c : Call) → Answer c → NdbState C
  | .startTransaction _ _, some transaction =>
    { s with members := Function.update s.members transaction [] }
  | .getNdbOperation transaction storeName, pointer => s.make transaction storeName pointer
  | .getNdbIndexScanOperation transaction _ storeName, pointer =>
    s.make transaction storeName pointer
  | .getNdbScanOperation transaction storeName, pointer =>
    s.make transaction storeName pointer
  | .define pointer access, _ => s.tell pointer { s.told pointer with access := some access }
  | .equal pointer name value, .ok =>
    s.tell pointer { s.told pointer with equals := (s.told pointer).equals ++ [(name, value)] }
  | .setValue pointer name value, .ok =>
    s.tell pointer { s.told pointer with values := (s.told pointer).values ++ [(name, value)] }
  | .filterCmp pointer columnNo value, .ok =>
    s.tell pointer { s.told pointer with filter := (s.told pointer).filter ++ [(columnNo, value)] }
  | .getValue pointer columnNo, some record =>
    s.tell pointer
      { s.told pointer with records := (s.told pointer).records ++ [(record, columnNo)] }
  | .callback state, .ok =>
    { s with
      contents := (s.contents.applyAll (s.writes state.transaction)).getD s.contents
      readable := if (s.writes state.transaction).isEmpty then s.members state.transaction
        else [] }
  | _, _ => s

/-- An operation that is made is one on a store there is, and a new one. -/
def MayMake (s : NdbState C) (transaction : Nat) (storeName : Bytes) (pointer : Option Nat) :
    Prop :=
  ∀ p ∈ pointer, (C.table storeName).isSome ∧ p ∉ s.members transaction

/-- **What NDB may answer.** -/
def admits (s : NdbState C) : (c : Call) → Answer c → Prop
  | .cacheGet storeName, some table => C.table (cStr storeName) = some table
  | .getTable storeName, some table => C.table storeName = some table
  | .getNdbOperation transaction storeName, pointer => s.MayMake transaction storeName pointer
  | .getNdbIndexScanOperation transaction _ storeName, pointer =>
    s.MayMake transaction storeName pointer
  | .getNdbScanOperation transaction storeName, pointer =>
    s.MayMake transaction storeName pointer
  | .getValue pointer _, some record => record ∉ (s.told pointer).records.map Prod.fst
  | .callback state, .ok => (s.contents.applyAll (s.writes state.transaction)).isSome
  | .records pointer, records =>
    pointer ∈ s.readable → ∀ table, C.table (s.told pointer).storeName = some table →
      ∀ row, (s.contents (s.told pointer).storeName).select ((s.told pointer).conditions table)
          = {row} → (s.told pointer).Holds table row records
  | .nextResult pointer, cursor =>
    pointer ∈ s.readable → ∀ table, C.table (s.told pointer).storeName = some table →
      ∃ rows : List (Keyed.Row Bytes Bytes),
        (s.contents (s.told pointer).storeName).select ((s.told pointer).conditions table) = rows
          ∧ List.Forall₂ ((s.told pointer).Holds table) rows cursor.rows
          ∧ cursor.ending = .endOfData
  | _, _ => True

end NdbState

/-- **The contract with NDB**: it is called in any way, and answers as a
database. -/
def ndbContract (C : Catalog) : Contract Call Answer (NdbState C) where
  allows _ _ := True
  next := NdbState.next
  admits := NdbState.admits

end VoloDB
