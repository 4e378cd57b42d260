import Mathlib

/-!
A stream cipher in counter mode, seen through its key stream. Byte `i` of the
stream is a fixed function of the key and the IV, so the only state a
`cipher.Stream` keeps is how many bytes it has used; `xor ks n d` XORs the
stream from byte `n` on into `d`, and XORing twice from the same position
gives the text back (`xor_xor`).
-/

namespace GoEthereum.KeyStream

variable (ks : Nat → UInt8)

/-- `XORKeyStream(dst, src)` on a stream that has used `n` bytes. -/
def xor : Nat → List UInt8 → List UInt8
  | _, [] => []
  | n, b :: bs => (b ^^^ ks n) :: xor (n + 1) bs

@[simp] theorem length_xor (n : Nat) (d : List UInt8) : (xor ks n d).length = d.length := by
  induction d generalizing n with
  | nil => rfl
  | cons b bs ih => simp [xor, ih]

@[simp] theorem xor_xor (n : Nat) (d : List UInt8) : xor ks n (xor ks n d) = d := by
  induction d generalizing n with
  | nil => rfl
  | cons b bs ih => simp [xor, ih]

end GoEthereum.KeyStream
