import GoEthereum.Rlp.Value

/-!
The decoding `Stream` of `rlp/decode.go` over a `bytes.Reader`, and the
decoders `DecodeBytes` uses for an `interface{}`, a `uint64` and a
`*big.Int`. A `Stream` is a mutable object: a failing call has already
changed it, and `Kind` keeps its error for the next caller, so every
operation returns an `EStateM.Result`, which carries the stream on errors
too. The `listpos` stack is a list with the innermost list first; Go's
`s.kind = -1` is `kind = none`. `decodeInterface` recurses through
`decodeListSlice` and `decodeSliceElems`, both bounded by `fuel`;
`DecodeBytes` gives more fuel than the input has bytes.
-/

namespace GoEthereum.Rlp

inductive Kind where
  | byte
  | string
  | list
  deriving Repr, DecidableEq

inductive Error where
  | eol
  | expectedString
  | expectedList
  | canonInt
  | canonSize
  | elemTooLarge
  | valueTooLarge
  | moreThanOneValue
  | notInList
  | notAtEOL
  | uintOverflow
  | eof
  | unexpectedEOF
  | outOfFuel
  deriving Repr, DecidableEq

structure ListPos where
  pos : Nat
  size : Nat
  deriving Repr, DecidableEq

structure Stream where
  /-- the bytes the `bytes.Reader` has not handed out yet -/
  r : List UInt8
  remaining : Nat
  limited : Bool
  kind : Option Kind
  size : Nat
  byteval : UInt8
  kinderr : Option Error
  stack : List ListPos
  deriving Repr, DecidableEq

abbrev StreamM := EStateM Error Stream

namespace Stream

/-- `NewStream(bytes.NewReader(b), inputLimit)`: a zero limit falls back to
the reader's length. -/
def newStream (b : List UInt8) (inputLimit : Nat) : Stream :=
  { r := b, remaining := if inputLimit > 0 then inputLimit else b.length, limited := true,
    kind := none, size := 0, byteval := 0, kinderr := none, stack := [] }

/-- The input-limit half of `willRead`. -/
def checkLimit (n : Nat) : StreamM Unit := fun s =>
  if s.limited then
    if n > s.remaining then .error .valueTooLarge s
    else .ok () { s with remaining := s.remaining - n }
  else .ok () s

def willRead (n : Nat) : StreamM Unit := fun s =>
  let s := { s with kind := none }
  match s.stack with
  | tos :: outer =>
      if n > tos.size - tos.pos then .error .elemTooLarge s
      else checkLimit n { s with stack := { tos with pos := tos.pos + n } :: outer }
  | [] => checkLimit n s

def readByte : StreamM UInt8 := fun s =>
  match willRead 1 s with
  | .error e s => .error e s
  | .ok () s =>
      match s.r with
      | b :: rest => .ok b { s with r := rest }
      | [] => .error .unexpectedEOF s

def readFull (n : Nat) : StreamM (List UInt8) := fun s =>
  match willRead n s with
  | .error e s => .error e s
  | .ok () s =>
      if n ≤ s.r.length then .ok (s.r.take n) { s with r := s.r.drop n }
      else .error .unexpectedEOF { s with r := [] }

/-- `readUint` of a length or integer of `size` bytes; the callers pass at
most eight. -/
def readUint (size : Nat) : StreamM Nat := fun s =>
  match size with
  | 0 => .ok 0 { s with kind := none }
  | 1 =>
      match readByte s with
      | .ok b s => .ok b.toNat s
      | .error e s => .error e s
  | size + 2 =>
      match readFull (size + 2) s with
      | .error e s => .error e s
      | .ok buf s =>
          if buf.head? = some 0 then .error .canonSize s else .ok (BigEndian.value buf) s

/-- `readKind`: the kind and size the type tag announces, and the error it
meets; a long size below 56 is not canonical. -/
def readKind : StreamM (Kind × Nat × Option Error) := fun s =>
  match readByte s with
  | .error e s =>
      let e := if s.stack = [] ∧ (e = .unexpectedEOF ∨ e = .valueTooLarge) then .eof else e
      .ok (.byte, 0, some e) s
  | .ok b s =>
      let s := { s with byteval := 0 }
      if b < 0x80 then .ok (.byte, 0, none) { s with byteval := b }
      else if b < 0xB8 then .ok (.string, (b - 0x80).toNat, none) s
      else if b < 0xC0 then
        match readUint (b - 0xB7).toNat s with
        | .ok size s => .ok (.string, size, if size < 56 then some .canonSize else none) s
        | .error e s => .ok (.string, 0, some e) s
      else if b < 0xF8 then .ok (.list, (b - 0xC0).toNat, none) s
      else
        match readUint (b - 0xF7).toNat s with
        | .ok size s => .ok (.list, size, if size < 56 then some .canonSize else none) s
        | .error e s => .ok (.list, 0, some e) s

/-- The checks `Kind` adds to a fresh `readKind`: the value must fit the
remaining input at toplevel and the enclosing list inside one. -/
def kindCheck (s : Stream) (size : Nat) : Option Error :=
  match s.stack with
  | [] => if s.limited ∧ size > s.remaining then some .valueTooLarge else none
  | tos :: _ => if size > tos.size - tos.pos then some .elemTooLarge else none

/-- `Stream.Kind`: the kind and size of the next value, read once and then
cached, with the error of that read kept. -/
def nextKind : StreamM (Kind × Nat) := fun s =>
  match s.kind with
  | some k =>
      match s.kinderr with
      | none => .ok (k, s.size) s
      | some e => .error e s
  | none =>
      let s := { s with kinderr := none }
      if s.stack.head?.any (fun tos => tos.pos = tos.size) then .error .eol s
      else
        match readKind s with
        | .ok (k, size, err) s =>
            let err := err.or (kindCheck s size)
            let s := { s with kind := some k, size := size, kinderr := err }
            match err with
            | none => .ok (k, size) s
            | some e => .error e s
        | .error e s => .error e s

/-- `Stream.Bytes`. -/
def bytes : StreamM (List UInt8) := fun s =>
  match nextKind s with
  | .error e s => .error e s
  | .ok (.byte, _) s => .ok [s.byteval] { s with kind := none }
  | .ok (.string, size) s =>
      match readFull size s with
      | .error e s => .error e s
      | .ok b s => if size = 1 ∧ b.headD 0 < 128 then .error .canonSize s else .ok b s
  | .ok (.list, _) s => .error .expectedString s

/-- `Stream.uint` for integers of at most `maxbits` bits. -/
def uint (maxbits : Nat) : StreamM Nat := fun s =>
  match nextKind s with
  | .error e s => .error e s
  | .ok (.byte, _) s =>
      if s.byteval = 0 then .error .canonInt s else .ok s.byteval.toNat { s with kind := none }
  | .ok (.string, size) s =>
      if size > maxbits / 8 then .error .uintOverflow s
      else
        match readUint size s with
        | .error .canonSize s => .error .canonInt s
        | .error e s => .error e s
        | .ok v s => if size > 0 ∧ v < 128 then .error .canonSize s else .ok v s
  | .ok (.list, _) s => .error .expectedString s

/-- `Stream.List`. -/
def list : StreamM Nat := fun s =>
  match nextKind s with
  | .error e s => .error e s
  | .ok (k, size) s =>
      if k ≠ .list then .error .expectedList s
      else .ok size { s with stack := ⟨0, size⟩ :: s.stack, kind := none, size := 0 }

/-- `Stream.ListEnd`. -/
def listEnd : StreamM Unit := fun s =>
  match s.stack with
  | [] => .error .notInList s
  | tos :: outer =>
      if tos.pos ≠ tos.size then .error .notAtEOL s
      else
        let outer := match outer with
          | p :: rest => { p with pos := p.pos + tos.size } :: rest
          | [] => []
        .ok () { s with stack := outer, kind := none, size := 0 }

end Stream

open GoEthereum.Rlp.Stream

/-- The loop of `decodeSliceElems`: elements until the first `EOL`, at most
`fuel` of them. -/
def decodeSliceElems {α : Type} (elemdec : StreamM α) : Nat → StreamM (List α)
  | 0 => fun s => .error .outOfFuel s
  | fuel + 1 => fun s =>
      match elemdec s with
      | .error .eol s => .ok [] s
      | .error e s => .error e s
      | .ok v s =>
          match decodeSliceElems elemdec fuel s with
          | .ok vs s => .ok (v :: vs) s
          | .error e s => .error e s

def decodeListSlice {α : Type} (elemdec : StreamM α) (fuel : Nat) : StreamM (List α) := fun s =>
  match list s with
  | .error e s => .error e s
  | .ok size s =>
      match (if size = 0 then .ok [] s else decodeSliceElems elemdec fuel s) with
      | .error e s => .error e s
      | .ok items s =>
          match listEnd s with
          | .ok () s => .ok items s
          | .error e s => .error e s

/-- `decodeInterface`: a list becomes a `[]interface{}` of decoded items and
anything else the `[]byte` of `Bytes`. -/
def decodeInterface : Nat → StreamM Value
  | 0 => fun s => .error .outOfFuel s
  | fuel + 1 => fun s =>
      match nextKind s with
      | .error e s => .error e s
      | .ok (k, _) s =>
          if k = .list then
            match decodeListSlice (decodeInterface fuel) fuel s with
            | .ok items s => .ok (.list items) s
            | .error e s => .error e s
          else
            match bytes s with
            | .ok b s => .ok (.bytes b) s
            | .error e s => .error e s

/-- `decodeBigInt` into a fresh `*big.Int`: leading zero bytes are not
canonical. -/
def decodeBigInt : StreamM Nat := fun s =>
  match bytes s with
  | .error e s => .error e s
  | .ok b s => if b.headD 1 = 0 ∧ b ≠ [] then .error .canonInt s else .ok (BigEndian.value b) s

/-- `DecodeBytes(b, val)` with the decoder of `val`'s type: the input must
hold exactly one value. -/
def decodeBytesWith {α : Type} (dec : StreamM α) (b : List UInt8) : Except Error α :=
  match dec (newStream b b.length) with
  | .ok v s => if s.r.length > 0 then .error .moreThanOneValue else .ok v
  | .error e _ => .error e

/-- `DecodeBytes` into an `interface{}`. -/
def decodeBytes (b : List UInt8) : Except Error Value :=
  decodeBytesWith (decodeInterface (b.length + 1)) b

/-- `DecodeBytes` into a `uint64` (`decodeUint`). -/
def decodeBytesUint (b : List UInt8) : Except Error Nat :=
  decodeBytesWith (uint 64) b

/-- `DecodeBytes` into a `*big.Int`. -/
def decodeBytesBigInt (b : List UInt8) : Except Error Nat :=
  decodeBytesWith decodeBigInt b

end GoEthereum.Rlp
