import RelationalDb.Memory

set_option autoImplicit false

namespace RelationalDb

/-- `config::PAGE_SIZE`. -/
def pageSize : Nat := 8192

/-- `config::BUFFER_POOL_SIZE`. -/
def bufferPoolSize : Nat := 100

instance : NeZero bufferPoolSize := ⟨by decide⟩

/-- `config::DB_MAGIC`. -/
def dbMagic : Nat := 0xDBDBDBDB

/-- `INVALID_PAGE_ID`. A `page_id_t` is a 32-bit signed integer. -/
def invalidPageId : Int := -1

abbrev Page : Type := Region pageSize

/-- `config::uuid_t`. -/
abbrev Uuid : Type := Region 16

/-- The exceptions of the source. -/
inductive Error where
  | runtimeError (what : String)
  | badOptionalAccess
  deriving DecidableEq, Repr

end RelationalDb
