import Mathlib.Data.Fintype.Basic
import RelationalDb.Config

set_option autoImplicit false

namespace RelationalDb

/-- `TableInfo`. A string is its bytes. -/
structure TableInfo where
  tableId : Uuid
  tableName : List UInt8
  heapFileId : Uuid
  firstPageId : Int

structure RawColumnInfo where
  colName : List UInt8
  typeId : UInt32
  ordinalPosition : UInt16

structure ColumnInfo where
  tableId : Uuid
  colName : List UInt8
  typeId : UInt32
  ordinalPosition : UInt16
  deriving DecidableEq

structure TypeInfo where
  typeId : UInt32
  size : UInt16
  typeName : List UInt8

inductive Value where
  | int (value : UInt32)
  | text (value : List UInt8)
  | uuid (value : Uuid)
  | pageId (value : Int)
  deriving DecidableEq

abbrev Schema : Type := List ColumnInfo

structure Tuple where
  values : List Value
  schema : Schema
  deriving DecidableEq

end RelationalDb
