import RelationalDb.Access.HeapCode
import RelationalDb.Model.TableManager

set_option autoImplicit false

namespace RelationalDb

variable {N : Nat}

namespace Catalog

def bm (catalog : Catalog N) : BufferManager N DiskManager := catalog.world.bm

def onPoolCode {α : Type} {program : Heap N α} (code : PoolCode id program) :
    PoolCode bm (onPool program) :=
  code.within _ _

def relationCode (table : CatalogTable) : PoolCode bm (relation table : CatalogProgram N HeapFile) :=
  .bind .get fun catalog => match catalog.relations table with
    | some _ => .pure _
    | none => .throw _

def emplaceCode (table : CatalogTable) (hf : HeapFile) :
    PoolCode bm (emplace table hf : CatalogProgram N Unit) :=
  .aside _ fun _ => rfl

def insertRawCode (table : CatalogTable) (bytes : List UInt8) :
    PoolCode bm (insertRaw table bytes : CatalogProgram N (Option Rid)) :=
  .bind (relationCode table) fun hf => .bind (onPoolCode (hf.insertCode bytes)) fun placed =>
    match placed with
    | (_, hf) => .bind (emplaceCode table hf) fun _ => .pure _

def lookupCode (tableName : List UInt8) :
    PoolCode bm (lookup tableName : CatalogProgram N (Option TableInfo)) :=
  .bind (relationCode _) fun hf => .bind (onPoolCode (hf.forRecordsCode _ _ _)) fun found =>
    match found with
    | .inl _ => .pure _
    | .inr _ => .pure _

def getColumnsCode (tableId : Uuid) :
    PoolCode bm (getColumns tableId : CatalogProgram N (List ColumnInfo)) :=
  .bind (relationCode _) fun hf => .bind (onPoolCode (hf.forRecordsCode _ _ _)) fun found =>
    match found with
    | .inl _ => .pure _

def getTypesCode : PoolCode bm (getTypes : CatalogProgram N (List TypeInfo)) :=
  .bind (relationCode _) fun hf => .bind (onPoolCode (hf.forRecordsCode _ _ _)) fun found =>
    match found with
    | .inl _ => .pure _

def isInitialisedCode (buf : Page) : PoolCode bm (isInitialised buf : CatalogProgram N Bool) :=
  .bind .get fun _ => .branch (.pure _) (.pure _)

def loadCatalogsCode : PoolCode bm (loadCatalogs : CatalogProgram N Unit) :=
  .bind (emplaceCode _ _) fun _ => .bind (emplaceCode _ _) fun _ => emplaceCode _ _

def bootstrapHeaderCode : PoolCode bm (bootstrapHeader : CatalogProgram N Unit) :=
  .bind (onPoolCode HeapFile.allocatePageCode) fun pid => .bind (.assert _) fun _ =>
    onPoolCode (PoolCall.writePage pid headerPage).code

def bootstrapPageCode (expected : Int) : PoolCode bm (bootstrapPage expected : CatalogProgram N Unit) :=
  .bind (onPoolCode HeapFile.allocatePageCode) fun pid => .bind (.assert _) fun _ =>
    .bind (onPoolCode (BufferManager.requestCode pid)) fun frame =>
      .bind (onPoolCode (PoolCall.modifyData frame HeapFile.initHeapPage).code) fun _ =>
        .bind (onPoolCode (PoolCall.markDirty frame).code) fun _ =>
          onPoolCode (PoolCall.unpin frame).code

def insertBuiltinTypesCode : PoolCode bm (insertBuiltinTypes : CatalogProgram N Unit) :=
  .bind (insertRawCode _ _) fun _ => .bind (insertRawCode _ _) fun _ => .pure _

def insertColumnsCode : (columns : List ColumnInfo) →
    PoolCode bm (insertColumns columns : CatalogProgram N Unit)
  | [] => .pure _
  | _ :: rest => .bind (insertRawCode _ _) fun _ => insertColumnsCode rest

def insertCatalogMetadataCode : PoolCode bm (insertCatalogMetadata : CatalogProgram N Unit) :=
  .bind (insertRawCode _ _) fun _ => .bind (insertColumnsCode _) fun _ =>
    .bind (insertRawCode _ _) fun _ => .bind (insertColumnsCode _) fun _ =>
      .bind (insertRawCode _ _) fun _ => insertColumnsCode _

def bootstrapCatalogsCode : PoolCode bm (bootstrapCatalogs : CatalogProgram N Unit) :=
  .bind bootstrapHeaderCode fun _ => .bind (bootstrapPageCode _) fun _ =>
    .bind (bootstrapPageCode _) fun _ => .bind (bootstrapPageCode _) fun _ =>
      .bind loadCatalogsCode fun _ => .bind insertBuiltinTypesCode fun _ =>
        .bind insertCatalogMetadataCode fun _ => onPoolCode BufferManager.flushAllCode

def initCode (buf : Page) : PoolCode bm (init buf : CatalogProgram N Unit) :=
  .bind (isInitialisedCode buf) fun _ => .branch loadCatalogsCode bootstrapCatalogsCode

def makeHeapCode (fileId : Uuid) : PoolCode bm (makeHeap fileId : CatalogProgram N HeapFile) :=
  .bind (onPoolCode (HeapFile.createCode fileId)) fun _ => .bind (.aside _ fun _ => rfl) fun _ => .pure _

def createTableCode (tableRandom fileRandom : Uuid) (tableName : List UInt8)
    (columns : List RawColumnInfo) :
    PoolCode bm (createTable tableRandom fileRandom tableName columns : CatalogProgram N Uuid) :=
  .bind (makeHeapCode _) fun _ => .bind (insertRawCode _ _) fun _ => .bind (insertColumnsCode _) fun _ =>
    .pure _

end Catalog

namespace UserTable

def insertCode (table : UserTable) (values : List Value) : PoolCode (N := N) id (table.insert values) :=
  .bind (.ofOption _) fun bytes => .bind (table.hf.insertCode bytes) fun placed => match placed with
    | (_, _) => .pure _

end UserTable

namespace TableManager

def bm (manager : TableManager N) : BufferManager N DiskManager := manager.catalog.bm

def onCatalogCode {α : Type} {program : CatalogProgram N α} (code : PoolCode Catalog.bm program) :
    PoolCode bm (onCatalog program) :=
  code.within _ _

def loadTableCode (name : List UInt8) :
    PoolCode bm (loadTable name : Program (TableManager N) Error UserTable) :=
  .bind (onCatalogCode (Catalog.lookupCode name)) fun found => match found with
    | none => .throw _
    | some tableInfo => .bind (onCatalogCode (Catalog.getColumnsCode tableInfo.tableId)) fun _ =>
        .bind (.aside _ fun _ => rfl) fun _ => .pure _

def openTableCode (name : List UInt8) :
    PoolCode bm (openTable name : Program (TableManager N) Error UserTable) :=
  .bind .get fun manager => match manager.cache name with
    | some _ => .pure _
    | none => loadTableCode name

def insertCode (name : List UInt8) (values : List Value) :
    PoolCode bm (insert name values : Program (TableManager N) Error (Option Rid)) :=
  .bind (openTableCode name) fun table =>
    .bind (onCatalogCode (Catalog.onPoolCode (table.insertCode values))) fun placed => match placed with
      | (_, _) => .bind (.aside _ fun _ => rfl) fun _ => .pure _

end TableManager

/-- The operations over one pool. Heap files, iterators and tables are arguments, in
whatever state they are. -/
inductive AccessOp (N : Nat) where
  | create (fileId : Uuid)
  | get (rid : Rid)
  | insert (heap : HeapFile) (data : List UInt8)
  | update (data : List UInt8) (rid : Rid)
  | delete (rid : Rid)
  | begin (heap : HeapFile) (address : Nat)
  | iterator (heap : Nat) (page : Int) (slot : Nat) (hasNext : Bool)
  | next (it : HeapIterator)
  | deref (it : HeapIterator)
  | increment (it : HeapIterator)
  | init (buf : Page)
  | bootstrapCatalogs
  | insertTable (row : TableInfo)
  | insertColumn (row : ColumnInfo)
  | insertType (row : TypeInfo)
  | lookup (name : List UInt8)
  | getColumns (tableId : Uuid)
  | getTypes
  | createTable (tableRandom fileRandom : Uuid) (name : List UInt8) (columns : List RawColumnInfo)
  | openTable (name : List UInt8)
  | openInsert (name : List UInt8) (values : List Value)
  | tableInsert (table : UserTable) (values : List Value)

namespace AccessOp

def Answer : AccessOp N → Type
  | create _ => HeapFile
  | get _ => Option (Record N)
  | insert _ _ => Option Rid × HeapFile
  | update _ _ => Bool
  | delete _ => Bool
  | begin _ _ => HeapIterator
  | iterator _ _ _ _ => HeapIterator
  | next _ => Record N × HeapIterator
  | deref _ => Record N
  | increment _ => HeapIterator
  | init _ => Unit
  | bootstrapCatalogs => Unit
  | insertTable _ => Option Rid
  | insertColumn _ => Option Rid
  | insertType _ => Option Rid
  | lookup _ => Option TableInfo
  | getColumns _ => List ColumnInfo
  | getTypes => List TypeInfo
  | createTable _ _ _ _ => Uuid
  | openTable _ => UserTable
  | openInsert _ _ => Option Rid
  | tableInsert _ _ => Option Rid × UserTable

open TableManager (onCatalog onCatalogCode)
open Catalog (onPool onPoolCode)

def run : (op : AccessOp N) → Program (TableManager N) Error op.Answer
  | create fileId => onCatalog (onPool (HeapFile.create fileId))
  | get rid => onCatalog (onPool (HeapFile.get rid))
  | insert heap data => onCatalog (onPool (heap.insert data))
  | update data rid => onCatalog (onPool (HeapFile.update data rid))
  | delete rid => onCatalog (onPool (HeapFile.delete rid))
  | begin heap address => onCatalog (onPool (heap.begin address))
  | iterator heap page slot hasNext => onCatalog (onPool (HeapIterator.new heap page slot hasNext))
  | next it => onCatalog (onPool it.next)
  | deref it => onCatalog (onPool it.deref)
  | increment it => onCatalog (onPool it.increment)
  | init buf => onCatalog (Catalog.init buf)
  | bootstrapCatalogs => onCatalog Catalog.bootstrapCatalogs
  | insertTable row => onCatalog (Catalog.insertTable row)
  | insertColumn row => onCatalog (Catalog.insertColumn row)
  | insertType row => onCatalog (Catalog.insertType row)
  | lookup name => onCatalog (Catalog.lookup name)
  | getColumns tableId => onCatalog (Catalog.getColumns tableId)
  | getTypes => onCatalog Catalog.getTypes
  | createTable tableRandom fileRandom name columns =>
      onCatalog (Catalog.createTable tableRandom fileRandom name columns)
  | openTable name => TableManager.openTable name
  | openInsert name values => TableManager.insert name values
  | tableInsert table values => onCatalog (onPool (table.insert values))

/-- The operation written out in calls of its pool. -/
def code : (op : AccessOp N) → PoolCode TableManager.bm op.run
  | create fileId => onCatalogCode (onPoolCode (HeapFile.createCode fileId))
  | get rid => onCatalogCode (onPoolCode (HeapFile.getCode rid))
  | insert heap data => onCatalogCode (onPoolCode (heap.insertCode data))
  | update data rid => onCatalogCode (onPoolCode (HeapFile.updateCode data rid))
  | delete rid => onCatalogCode (onPoolCode (HeapFile.deleteCode rid))
  | begin heap address => onCatalogCode (onPoolCode (heap.beginCode address))
  | iterator heap page slot hasNext =>
      onCatalogCode (onPoolCode (HeapIterator.newCode heap page slot hasNext))
  | next it => onCatalogCode (onPoolCode it.nextCode)
  | deref it => onCatalogCode (onPoolCode it.derefCode)
  | increment it => onCatalogCode (onPoolCode it.incrementCode)
  | init buf => onCatalogCode (Catalog.initCode buf)
  | bootstrapCatalogs => onCatalogCode Catalog.bootstrapCatalogsCode
  | insertTable row => onCatalogCode (Catalog.insertRawCode .tables (TableInfoCodec.encode row))
  | insertColumn row => onCatalogCode (Catalog.insertRawCode .attributes (ColumnInfoCodec.encode row))
  | insertType row => onCatalogCode (Catalog.insertRawCode .types (TypeInfoCodec.encode row))
  | lookup name => onCatalogCode (Catalog.lookupCode name)
  | getColumns tableId => onCatalogCode (Catalog.getColumnsCode tableId)
  | getTypes => onCatalogCode Catalog.getTypesCode
  | createTable tableRandom fileRandom name columns =>
      onCatalogCode (Catalog.createTableCode tableRandom fileRandom name columns)
  | openTable name => TableManager.openTableCode name
  | openInsert name values => TableManager.insertCode name values
  | tableInsert table values => onCatalogCode (onPoolCode (table.insertCode values))

end AccessOp

end RelationalDb
