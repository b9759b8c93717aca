import RelationalDb.Catalog.Catalog
import RelationalDb.Model.DynamicCodec

set_option autoImplicit false

namespace RelationalDb

/-- `UserTable`, with the heap file of its `Relation`. -/
structure UserTable where
  hf : HeapFile
  schema : Schema
  tableId : Uuid

namespace UserTable

variable {N : Nat}

/-- `Insert`. The table comes back with its heap file. -/
def insert (table : UserTable) (values : List Value) : Heap N (Option Rid × UserTable) := do
  let bytes ← Program.ofOption (DynamicCodec.encode values table.schema)
  let (rid, hf) ← table.hf.insert bytes
  return (rid, { table with hf })

/-- `Decode` of the bytes of a record. -/
def decode (table : UserTable) (bytes : List UInt8) : Option Tuple := do
  let values ← DynamicCodec.decode bytes table.schema
  return { values, schema := table.schema }

end UserTable

/-- `TableManager`, with the catalog it points to. A shared pointer is the entry of
the cache. -/
structure TableManager (N : Nat) where
  catalog : Catalog N
  cache : List UInt8 → Option UserTable

namespace TableManager

variable {N : Nat}

def setCatalog (manager : TableManager N) (catalog : Catalog N) : TableManager N :=
  { manager with catalog := catalog }

def onCatalog {α : Type} (program : CatalogProgram N α) : Program (TableManager N) Error α :=
  Program.within TableManager.catalog setCatalog program

/-- `_cache[name] = table`. -/
def store (name : List UInt8) (table : UserTable) : Program (TableManager N) Error Unit :=
  modify fun manager => { manager with cache := Function.update manager.cache name (some table) }

/-- `OpenTable` of a name that is not in the cache. -/
def loadTable (name : List UInt8) : Program (TableManager N) Error UserTable := do
  match ← onCatalog (Catalog.lookup name) with
  | none => Program.throw (.runtimeError "Invalid table name.")
  | some tableInfo =>
      let cols ← onCatalog (Catalog.getColumns tableInfo.tableId)
      let hf := HeapFile.openHeap tableInfo.heapFileId tableInfo.firstPageId
      let rel : UserTable := { hf, schema := cols, tableId := tableInfo.tableId }
      store name rel
      return rel

def openTable (name : List UInt8) : Program (TableManager N) Error UserTable := do
  match (← get).cache name with
  | some table => return table
  | none => loadTable name

/-- `Insert` through the shared pointer of a name. -/
def insertInto (name : List UInt8) (table : UserTable) (values : List Value) :
    Program (TableManager N) Error (Option Rid) := do
  let (rid, table) ← onCatalog (Catalog.onPool (table.insert values))
  store name table
  return rid

/-- `OpenTable(name)->Insert(values)`. -/
def insert (name : List UInt8) (values : List Value) :
    Program (TableManager N) Error (Option Rid) := do
  let table ← openTable name
  insertInto name table values

/-- The state of the heap files that clients made. -/
def onWorld {α : Type} (program : Program (World N) Error α) :
    Program (TableManager N) Error α :=
  Program.within (fun manager => manager.catalog.world)
    (fun manager world => manager.setCatalog { manager.catalog with world := world }) program

/-- What a client can call. `restart` throws the pool and the disk manager away and
opens the file again; `raw` and `buf` are the bytes that memory happens to hold. -/
inductive Op (N : Nat) where
  | createTable (tableRandom fileRandom : Uuid) (name : List UInt8) (columns : List RawColumnInfo)
  | lookupTable (name : List UInt8)
  | getTableColumns (tableId : Uuid)
  | openTable (name : List UInt8)
  | insert (name : List UInt8) (values : List Value)
  | heap (op : HeapOp)
  | flushAll
  | restart (raw : Fin N → Page) (buf : Page)

inductive Answer where
  | created (tableId : Uuid)
  | found (table : Option TableInfo)
  | columns (cols : List ColumnInfo)
  | opened (table : UserTable)
  | placed (rid : Option Rid)
  | heap (answer : HeapAnswer)
  | done

/-- A table manager on a catalog that was not set up, over a database file. -/
def new [NeZero N] (raw : Fin N → Page) (file : File) (heaps : List HeapFile) : TableManager N :=
  { catalog :=
      { world := ⟨BufferManager.new raw (DiskManager.openFile file), heaps⟩
        relations := fun _ => none }
    cache := fun _ => none }

/-- Fresh objects over the file; clients open their heap files again. -/
def restart [NeZero N] (raw : Fin N → Page) (buf : Page) : Program (TableManager N) Error Unit := do
  let world := (← get).catalog.world
  set (new raw world.bm.disk.dbIo world.heaps)
  onCatalog (Catalog.init buf)

namespace Op

def run [NeZero N] : Op N → Program (TableManager N) Error Answer
  | createTable tableRandom fileRandom name columns => do
      return .created (← onCatalog (Catalog.createTable tableRandom fileRandom name columns))
  | lookupTable name => do return .found (← onCatalog (Catalog.lookupTable name))
  | getTableColumns tableId => do return .columns (← onCatalog (Catalog.getTableColumns tableId))
  | openTable name => do return .opened (← TableManager.openTable name)
  | insert name values => do return .placed (← TableManager.insert name values)
  | heap op => do return .heap (← onWorld op.run)
  | flushAll => do
      onCatalog (Catalog.onPool BufferManager.flushAll)
      return .done
  | restart raw buf => do
      TableManager.restart raw buf
      return .done

end Op

end TableManager

end RelationalDb
