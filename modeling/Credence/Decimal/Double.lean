
namespace Credence.Decimal

def leadingOne : Nat :=
  0x10000000000000

def exponentCount : Nat :=
  2048

def signBit : Nat :=
  0x8000000000000000

def infinityBits : Nat :=
  0x7FF0000000000000

end Credence.Decimal
