import EventSchema.Text.Utf8
import EventSchema.Text.Numeral

/-!
The CRC-32 checksum (polynomial 0x04C11DB7, bits reflected), one bit at a time. It names templates
and files; nothing depends on it being free of collisions.
-/

namespace EventSchema.Checksum

/-- Moves the remainder one bit on. -/
def shift (c : UInt32) : UInt32 :=
  if c &&& 1 = 1 then (c >>> 1) ^^^ 0xEDB88320 else c >>> 1

/-- Takes one byte into the remainder. -/
def feed (c : UInt32) (b : UInt8) : UInt32 :=
  shift (shift (shift (shift (shift (shift (shift (shift (c ^^^ b.toUInt32))))))))

/-- The checksum of a byte string. -/
def crc32 (t : Bytes) : UInt32 := t.foldl feed 0xFFFFFFFF ^^^ 0xFFFFFFFF

/-- Eight hexadecimal digits of the checksum. -/
def crc32Text (t : Bytes) : String := Text.Numeral.paddedHex 8 (crc32 t).toNat

/-- A file is known by its checksum and its length. -/
def fileHash (t : Bytes) : String := crc32Text t ++ ":" ++ Text.Numeral.decimal t.length

end EventSchema.Checksum
