import Dxgmx.Kstdlib.String

namespace Dxgmx

def digitChar (digit : Int) : Byte := BitVec.ofInt 8 (if digit < 10 then digit + 48 else digit + 55)

/-- The digits of `n`, the most significant one first. Every division by a base of 2 or more loses a
    bit, so 64 rounds are enough. -/
def lltoaDigits (base : Int) : (rounds : Nat) → Int → List Byte
  | 0, _ => []
  | rounds + 1, n =>
    if n = 0 then [] else lltoaDigits base rounds (n.tdiv base) ++ [digitChar (n.tmod base)]

/-- The negation wraps at the smallest value. -/
def llabs (n : BitVec 64) : BitVec 64 := if n.toInt < 0 then -n else n

def lltoa (n : BitVec 64) (base : Int) : List Byte :=
  if n = 0 then [0x30]
  else if n.toInt < 0 then 0x2D :: lltoaDigits base 64 (llabs n).toInt
  else lltoaDigits base 64 n.toInt

def ltoa (n : BitVec 32) (base : Int) : List Byte := lltoa (n.signExtend 64) base

def itoa (n : BitVec 32) (base : Int) : List Byte := ltoa n base

def ulltoa (n : BitVec 64) (base : Int) : List Byte :=
  if n = 0 then [0x30] else lltoaDigits base 64 n.toNat

def ultoa (n : BitVec 32) (base : Int) : List Byte := ulltoa (n.setWidth 64) base

def utoa (n : BitVec 32) (base : Int) : List Byte := ultoa n base

end Dxgmx
