/-!
# Numbers in messages

`to_hex_string` of `Common/Conversions.h` for a 64-bit number. The formatter prints addresses this
way and other numbers in decimal.
-/

namespace UltraOS

def hexDigit (digit : Nat) : Char := "0123456789ABCDEF".toList.getD digit '0'

/-- The lowest `count` hexadecimal digits, the highest of them first. -/
def hexDigits (number : Nat) : Nat → List Char
  | 0 => []
  | count + 1 => hexDigits (number / 16) count ++ [hexDigit (number % 16)]

def toHexString (number : Nat) : String := "0x" ++ String.ofList (hexDigits number 16)

example : toHexString 0xBEEF = "0x000000000000BEEF" := by decide

end UltraOS
