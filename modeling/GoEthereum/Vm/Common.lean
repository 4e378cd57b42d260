import GoEthereum.Data.BigEndian
import Mathlib.Data.Int.Bitwise

/-!
The word and byte helpers the EVM instructions share (`core/vm/common.go`,
`core/vm/gas.go`, `common/big.go`, `common/bytes.go`, `common/types.go`).

A stack word is a `*big.Int`; every instruction keeps it non-negative, so
it is a natural number here, and the intermediate results that can be
negative (a difference, a complement, a signed operand) are integers until
`U256` truncates them back. Byte strings are lists of bytes.
-/

namespace GoEthereum.Vm

/-- `OpCode`: an instruction byte. -/
abbrev OpCode := UInt8

namespace OpCode

def BALANCE : OpCode := 0x31
def JUMPDEST : OpCode := 0x5b
def PUSH1 : OpCode := 0x60
def PUSH32 : OpCode := 0x7f
def DELEGATECALL : OpCode := 0xf4

end OpCode

/-- `common.U256`: the low 256 bits, two's complement for a negative value. -/
def U256 (x : Int) : Nat := (x % 2 ^ 256).toNat

/-- `common.S256`: a word read as a signed 256-bit number. -/
def S256 (x : Int) : Int := if x < 2 ^ 255 then x else x - 2 ^ 256

/-- `common.BigToAddress`: the low 20 bytes. -/
def BigToAddress (x : Nat) : Nat := x % 2 ^ 160

/-- `common.BigToHash`: the low 32 bytes. -/
def BigToHash (x : Nat) : Nat := x % 2 ^ 256

/-- `(*big.Int).Bytes`: the minimal big-endian bytes, none for zero. -/
def bigBytes (x : Nat) : List UInt8 := BigEndian.minimal x

/-- `common.BytesToBig` (also `Bytes2Big` and `BigD`). -/
def BytesToBig (data : List UInt8) : Nat := BigEndian.value data

def LeftPadBytes (slice : List UInt8) (l : Nat) : List UInt8 :=
  if l < slice.length then slice else List.replicate (l - slice.length) 0 ++ slice

def RightPadBytes (slice : List UInt8) (l : Nat) : List UInt8 :=
  if l < slice.length then slice else slice ++ List.replicate (l - slice.length) 0

/-- `common.BigToBytes`: `base / 8` bytes, or all of them if there are more. -/
def BigToBytes (num : Nat) (base : Nat) : List UInt8 :=
  if (bigBytes num).length > base / 8 then bigBytes num
  else List.replicate (base / 8 - (bigBytes num).length) 0 ++ bigBytes num

/-- `getData`: `size` bytes of `data` from `start`, padded with zeros past
its end. -/
def getData (data : List UInt8) (start size : Nat) : List UInt8 :=
  let s := min start data.length
  let e := min (s + size) data.length
  RightPadBytes ((data.drop s).take (e - s)) size

/-- `toWordSize`: the number of 32-byte words that hold `size` bytes. -/
def toWordSize (size : Nat) : Nat := (size + 31) / 32

/-- `calcMemSize`: the memory an access of `l` bytes at `off` needs; an
empty access needs none, wherever it is. -/
def calcMemSize (off l : Nat) : Nat := if l = 0 then 0 else off + l

/-- `common.BigMax`. -/
def BigMax (x y : Nat) : Nat := if x < y then y else x

@[simp] theorem length_RightPadBytes (slice : List UInt8) (l : Nat) :
    (RightPadBytes slice l).length = max l slice.length := by
  unfold RightPadBytes
  split <;> simp <;> omega

end GoEthereum.Vm
