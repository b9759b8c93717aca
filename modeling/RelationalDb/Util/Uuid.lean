import RelationalDb.Config

set_option autoImplicit false

namespace RelationalDb

/-- `MakeUUID` of fifteen zeros and a last byte. -/
def makeUuid (b15 : UInt8) : Uuid := fun index => if index.val = 15 then b15 else 0

/-- `GenerateUUID`, given the bytes of the random generator. -/
def generateUuid (random : Uuid) : Uuid := fun index =>
  if index.val = 6 then random index &&& 0x0F ||| 0x40
  else if index.val = 8 then random index &&& 0x3F ||| 0x80
  else random index

theorem generateUuid_ne_makeUuid (random : Uuid) (b15 : UInt8) :
    generateUuid random ≠ makeUuid b15 := by
  intro same
  have version : random 6 &&& 0x0F ||| 0x40 = 0 := congrFun same 6
  rw [UInt8.or_eq_zero_iff] at version
  exact absurd version.2 (by decide)

end RelationalDb
