import RelationalDb.Catalog.CatalogBootstrap
import RelationalDb.Util.Data

set_option autoImplicit false

namespace RelationalDb

def getAlignment (typeId : UInt32) : Nat :=
  if typeId = intType then intAlignment
  else if typeId = textType then textAlignment
  else 0

/-- The bytes up to the next multiple of the alignment. A remainder by zero has no
result. -/
def paddingNeeded (size : Nat) (typeId : UInt32) : Option Nat :=
  let alignment := getAlignment typeId
  if alignment = 0 then none
  else if size % alignment = 0 then some 0
  else some (alignment - size % alignment)

def applyPadding (buffer : List UInt8) (typeId : UInt32) : Option (List UInt8) :=
  (paddingNeeded buffer.length typeId).map fun padding => buffer ++ List.replicate padding 0

def skipPadding (offset : Nat) (typeId : UInt32) : Option Nat :=
  (paddingNeeded offset typeId).map fun padding => offset + padding

/-- `WriteData` of the value a variant holds. -/
def writeValue (buffer : List UInt8) : Value → List UInt8
  | .int value => writeUInt32 buffer value
  | .text value => writeString buffer value
  | .uuid value => writeUuid buffer value
  | .pageId value => writePageId buffer value

namespace DynamicCodec

/-- The loop of `Encode` over values and columns. -/
def encodeFrom (buffer : List UInt8) : List Value → Schema → Option (List UInt8)
  | value :: values, column :: schema => do
      let buffer ← applyPadding buffer column.typeId
      encodeFrom (writeValue buffer value) values schema
  | _, _ => some buffer

/-- `Encode`. The assertion fails on another number of values. -/
def encode (values : List Value) (schema : Schema) : Option (List UInt8) :=
  if values.length = schema.length then encodeFrom [] values schema else none

/-- The loop of `Decode` over the columns. -/
def decodeFrom (bytes : List UInt8) (offset : Nat) : Schema → Option (List Value)
  | [] => some []
  | column :: schema => do
      let offset ← skipPadding offset column.typeId
      if column.typeId = intType then
        let (value, offset) ← readUInt32 bytes offset
        return .int value :: (← decodeFrom bytes offset schema)
      else if column.typeId = textType then
        let (value, offset) ← readString bytes offset
        return .text value :: (← decodeFrom bytes offset schema)
      else decodeFrom bytes offset schema

def decode (bytes : List UInt8) (schema : Schema) : Option (List Value) :=
  decodeFrom bytes 0 schema

end DynamicCodec

end RelationalDb
