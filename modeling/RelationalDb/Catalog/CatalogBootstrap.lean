import RelationalDb.Common.Tuple
import RelationalDb.Util.Uuid

set_option autoImplicit false

namespace RelationalDb

def ascii (literal : String) : List UInt8 := literal.toList.map fun c => UInt8.ofNat c.toNat

def dbTablesFileId : Uuid := makeUuid 2

def dbAttributesFileId : Uuid := makeUuid 3

def dbTypesFileId : Uuid := makeUuid 4

def dbTablesTable : List UInt8 := ascii "db_tables"

def dbAttributesTable : List UInt8 := ascii "db_attributes"

def dbTypesTable : List UInt8 := ascii "db_types"

def dbTablesTableId : Uuid := makeUuid 2

def dbAttributesTableId : Uuid := makeUuid 3

def dbTypesTableId : Uuid := makeUuid 4

def rootPageId : Int := 0

def dbTablesRootPageId : Int := 1

def dbAttributesRootPageId : Int := 2

def dbTypesRootPageId : Int := 3

def intType : UInt32 := 1

def intSize : UInt16 := 4

def textType : UInt32 := 2

/-- -1 as a `uint16_t`. -/
def textSize : UInt16 := 65535

def intAlignment : Nat := 4

def textAlignment : Nat := 4

def tablesCatalogSchema : List ColumnInfo :=
  [⟨dbTablesTableId, ascii "table_id", intType, 1⟩,
    ⟨dbTablesTableId, ascii "table_name", textType, 2⟩,
    ⟨dbTablesTableId, ascii "heap_file_id", intType, 3⟩,
    ⟨dbTablesTableId, ascii "first_page_id", intType, 4⟩]

def attrCatalogSchema : List ColumnInfo :=
  [⟨dbAttributesTableId, ascii "table_id", intType, 1⟩,
    ⟨dbAttributesTableId, ascii "col_name", textType, 2⟩,
    ⟨dbAttributesTableId, ascii "type_id", intType, 3⟩,
    ⟨dbAttributesTableId, ascii "ordinal_position", intType, 4⟩]

def typesCatalogSchema : List ColumnInfo :=
  [⟨dbTypesTableId, ascii "type_id", intType, 1⟩,
    ⟨dbTypesTableId, ascii "size", intType, 2⟩,
    ⟨dbTypesTableId, ascii "type_name", textType, 3⟩]

end RelationalDb
