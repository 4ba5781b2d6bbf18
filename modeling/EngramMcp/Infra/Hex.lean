import EngramMcp.Infra.Json

/-!
# Hexadecimal text

Two lower-case digits for each byte.

* `hex` — the text
-/

namespace Infra

/-- The digits of a byte, `{:02x}`. -/
def hexByte (b : UInt8) : List Char := [Json.hexDigit (b.toNat / 16), Json.hexDigit (b.toNat % 16)]

/-- The digits of all bytes. -/
def hex (bytes : Bytes) : String := String.ofList (bytes.flatMap hexByte)

example : hex [0x00, 0x9F, 0xE7] = "009fe7" := by decide

end Infra
