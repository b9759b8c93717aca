import RelationalDb.Catalog.CatalogBootstrap
import RelationalDb.FileSystem
import RelationalDb.Program

set_option autoImplicit false

namespace RelationalDb

/-- `config::DATA_PATH`. -/
def dataPath : List UInt8 := ascii "data/"

/-- `.db`. -/
def dbExtension : List UInt8 := ascii ".db"

/-- A `DiskManager` as its server sees it: the file its stream is open on, if any. -/
structure DatabaseFile where
  stream : Option Location

/-- `DbServer` and the file system it works on. -/
structure DbServer where
  files : FileSystem
  cache : Name → Option DatabaseFile

/-- `std::filesystem::filesystem_error`. -/
inductive FilesystemError where
  | filesystemError

abbrev ServerProgram (α : Type) : Type := Program DbServer FilesystemError α

namespace DbServer

/-- The constructor of `DiskManager`. A stream that cannot be opened stays closed. -/
def openDiskManager (dbFile : List UInt8) : ServerProgram DatabaseFile := do
  match (← get).files.openFile dbFile with
  | some location => return ⟨some location⟩
  | none =>
      -- create file if not exists
      modify fun server => { server with files := server.files.createFile dbFile }
      return ⟨(← get).files.openFile dbFile⟩

def store (dbName : Name) (dm : DatabaseFile) : ServerProgram Unit :=
  modify fun server => { server with cache := Function.update server.cache dbName (some dm) }

def makePath (dbName : Name) : List UInt8 := dataPath ++ ascii "/" ++ dbName ++ dbExtension

/-- The loop of `Init` over the entries of the data directory. -/
def loadEntries : List Name → ServerProgram Unit
  | [] => return ⟨⟩
  | entry :: rest => do
      let path := dataPath ++ entry
      if (← get).files.isRegularFile path = false then loadEntries rest
      else if FileSystem.extension entry ≠ dbExtension then loadEntries rest
      else
        store (FileSystem.stem entry) (← openDiskManager path)
        loadEntries rest

def init : ServerProgram Unit := do
  match (← get).files.listDirectory dataPath with
  | none => Program.throw .filesystemError
  | some entries => loadEntries entries

/-- `OpenDatabase`. The null pointer is `none`. -/
def openDatabase (dbName : Name) : ServerProgram (Option DatabaseFile) := do
  match (← get).cache dbName with
  | some dm => return some dm
  | none =>
      if (← get).files.pathExists (makePath dbName) = false then return none
      else
        let dm ← openDiskManager (makePath dbName)
        store dbName dm
        return some dm

def createDatabase (dbName : Name) : ServerProgram Bool := do
  if ((← get).cache dbName).isSome then return false
  else if (← get).files.pathExists (makePath dbName) then return false
  else
    store dbName (← openDiskManager (makePath dbName))
    return true

def deleteDatabase (dbName : Name) : ServerProgram Bool := do
  match (← get).cache dbName with
  | none => return false
  | some _ =>
      modify fun server => { server with cache := Function.update server.cache dbName none }
      match (← get).files.remove (makePath dbName) with
      | none => Program.throw .filesystemError
      | some (_, files) =>
          modify fun server => { server with files := files }
          return true

/-- A new process: a new server over the same files, and `Init`. -/
def start : ServerProgram Unit := do
  modify fun server => { server with cache := fun _ => none }
  init

end DbServer

end RelationalDb
