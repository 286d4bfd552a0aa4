/-!
# The bits of a double

The highest of the 64 bits of a double is its sign. The others are its size, in the order of the
magnitudes: an exponent of eleven bits, then a fraction of 52 bits. The size of infinity has all
bits of the exponent and none of the fraction; every greater size is no number.
-/

namespace Shortcodes.Double

/-- The value of the sign bit, and the number of sizes. -/
def signBit : Nat := 0x8000000000000000

/-- The value of the lowest bit of the exponent, and the number of fractions. -/
def exponentBit : Nat := 0x10000000000000

/-- The number of exponents. -/
def exponents : Nat := 0x800

/-- The size of infinity. -/
def infinity : Nat := 0x7ff0000000000000

/-- Whether the sign bit of a double is set. -/
def isNegative (x : Float) : Bool := signBit ≤ x.toBits.toNat

/-- The size of a double. -/
def size (x : Float) : Nat := x.toBits.toNat % signBit

/-- The exponent of a size. -/
def exponentOf (size : Nat) : Nat := size / exponentBit % exponents

/-- The fraction of a size. -/
def fractionOf (size : Nat) : Nat := size % exponentBit

end Shortcodes.Double
