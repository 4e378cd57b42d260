import GoEthereum.Rlp.Value
import GoEthereum.Data.Splice

/-!
The encoder of `rlp/encode.go`. An `encbuf` holds the string data `str`
(everything but list headers), the list headers `lheads` with the offset in
`str` each belongs at, and `lhsize`, the total size of the headers closed so
far. A list header is created by `list` before the list's items are written
and its size is filled in by `listEnd` after them; the three output paths
`toBytes`, `toWriter` and the `encReader` then interleave `str` with the
headers by offset. The `*listhead` pointer that `list` returns is its index
in `lheads`.
-/

namespace GoEthereum.Rlp

open GoEthereum.Splice

/-- `putint`: the bytes written for `i`, as many as the least power of 256
above `i` asks for, and eight for every larger `uint64`. -/
def putint (i : Nat) : List UInt8 :=
  if i < 2 ^ 8 then BigEndian.bytes 1 i
  else if i < 2 ^ 16 then BigEndian.bytes 2 i
  else if i < 2 ^ 24 then BigEndian.bytes 3 i
  else if i < 2 ^ 32 then BigEndian.bytes 4 i
  else if i < 2 ^ 40 then BigEndian.bytes 5 i
  else if i < 2 ^ 48 then BigEndian.bytes 6 i
  else if i < 2 ^ 56 then BigEndian.bytes 7 i
  else BigEndian.bytes 8 i

/-- `intsize`: the loop shifts `i` right by one byte until it is zero. -/
def intsize (i : Nat) : Nat :=
  if i / 256 = 0 then 1 else intsize (i / 256) + 1
decreasing_by omega

def headsize (size : Nat) : Nat :=
  if size < 56 then 1 else 1 + intsize size

/-- `puthead`: the header bytes written for a payload of `size` bytes. -/
def puthead (smalltag largetag : UInt8) (size : Nat) : List UInt8 :=
  if size < 56 then [smalltag + size.toUInt8]
  else (largetag + (putint size).length.toUInt8) :: putint size

structure ListHead where
  /-- index of this header in the string data -/
  offset : Nat
  /-- total size of the encoded list payload once `listEnd` has run; while
  the list is open it holds `lhsize` at the time the list was started -/
  size : Nat
  deriving Repr, DecidableEq

def ListHead.encode (head : ListHead) : List UInt8 :=
  puthead 0xC0 0xF7 head.size

structure Encbuf where
  str : List UInt8
  lheads : List ListHead
  lhsize : Nat
  deriving Repr, DecidableEq

namespace Encbuf

/-- The buffer after `reset`, as `EncodeToBytes`, `Encode` and
`EncodeToReader` take it from the pool. -/
def reset : Encbuf := ⟨[], [], 0⟩

def size (w : Encbuf) : Nat := w.str.length + w.lhsize

def encodeStringHeader (w : Encbuf) (size : Nat) : Encbuf :=
  if size < 56 then { w with str := w.str ++ [0x80 + size.toUInt8] }
  else
    let sizesize := (putint size).length
    { w with str := w.str ++ ((0xB7 + sizesize.toUInt8) :: putint size) }

def encodeString (w : Encbuf) (b : List UInt8) : Encbuf :=
  let withHeader := w.encodeStringHeader b.length
  match b with
  | [b0] => if b0 ≤ 0x7F then { w with str := w.str ++ [b0] }
      else { withHeader with str := withHeader.str ++ b }
  | _ => { withHeader with str := withHeader.str ++ b }

/-- `list` opens a header at the current end of the string data and returns
it (its index). -/
def list (w : Encbuf) : Nat × Encbuf :=
  (w.lheads.length, { w with lheads := w.lheads ++ [⟨w.str.length, w.lhsize⟩] })

def listEnd (w : Encbuf) (lh : Nat) : Encbuf :=
  match w.lheads[lh]? with
  | none => w
  | some head =>
      let size := w.size - head.offset - head.size
      { w with
        lheads := w.lheads.set lh { head with size := size }
        lhsize := if size < 56 then w.lhsize + 1 else w.lhsize + (1 + intsize size) }

def toBytesLoop (str : List UInt8) :
    List ListHead → List UInt8 → Nat → Nat → List UInt8
  | [], out, strpos, pos => (copyAt out pos (str.drop strpos)).1
  | head :: heads, out, strpos, pos =>
      let (out, n) := copyAt out pos ((str.drop strpos).take (head.offset - strpos))
      let enc := head.encode
      toBytesLoop str heads (copyAt out (pos + n) enc).1 (strpos + n) (pos + n + enc.length)

def toBytes (w : Encbuf) : List UInt8 :=
  toBytesLoop w.str w.lheads (List.replicate w.size 0) 0 0

def toWriterLoop (str : List UInt8) : List ListHead → Nat → List UInt8 → List UInt8
  | [], strpos, out => if strpos < str.length then out ++ str.drop strpos else out
  | head :: heads, strpos, out =>
      let seg := (str.drop strpos).take (head.offset - strpos)
      let (out, strpos) :=
        if head.offset - strpos > 0 then (out ++ seg, strpos + seg.length) else (out, strpos)
      toWriterLoop str heads strpos (out ++ head.encode)

/-- `toWriter` into a writer that already holds `out`. -/
def toWriter (w : Encbuf) (out : List UInt8) : List UInt8 :=
  toWriterLoop w.str w.lheads 0 out

end Encbuf

/-- The `io.Reader` returned by `EncodeToReader`. `buf` is `none` once the
reader has seen the end. -/
structure EncReader where
  buf : Option Encbuf
  lhpos : Nat
  strpos : Nat
  piece : List UInt8
  deriving Repr, DecidableEq

namespace EncReader

/-- `next` returns the next piece of data to be read, `none` at the end. -/
def next (r : EncReader) : Option (List UInt8) × EncReader :=
  match r.buf with
  | none => (none, r)
  | some buf =>
      if r.piece ≠ [] then (some r.piece, r)
      else match buf.lheads[r.lhpos]? with
        | some head =>
            let sizebefore := head.offset - r.strpos
            if sizebefore > 0 then
              (some ((buf.str.drop r.strpos).take sizebefore),
                { r with strpos := r.strpos + sizebefore })
            else (some head.encode, { r with lhpos := r.lhpos + 1 })
        | none =>
            if r.strpos < buf.str.length then
              (some (buf.str.drop r.strpos), { r with strpos := buf.str.length })
            else (none, r)

/-- The loop of `Read` into a buffer of `k` bytes, of which `got` are
filled. Every round copies a whole nonempty piece, so `k + 1` rounds reach
the return. The flag is `true` when `Read` returns `io.EOF`. -/
def readLoop (k : Nat) : Nat → List UInt8 → EncReader → (List UInt8 × Bool) × EncReader
  | 0, got, r => ((got, false), r)
  | fuel + 1, got, r =>
      match r.next with
      | (none, r) => ((got, true), { r with buf := none, piece := [] })
      | (some piece, r) =>
          let nn := min (k - got.length) piece.length
          let got := got ++ piece.take nn
          if nn < piece.length then ((got, false), { r with piece := piece.drop nn })
          else readLoop k fuel got { r with piece := [] }

/-- `Read` into a buffer of `k` bytes: the bytes read and whether `io.EOF`
was returned. -/
def read (k : Nat) (r : EncReader) : (List UInt8 × Bool) × EncReader :=
  readLoop k (k + 1) [] r

end EncReader

mutual
/-- The writer of a value held in an `interface{}`: `writeBytes` for a
`[]byte`, and for a `[]interface{}` the slice writer of `makeSliceWriter`,
which opens the list header, writes the items and closes it
(`defer w.listEnd(w.list())`). -/
def writeValue : Value → Encbuf → Encbuf
  | .bytes b, w => w.encodeString b
  | .list items, w =>
      let (lh, w) := w.list
      (writeItems items w).listEnd lh

def writeItems : List Value → Encbuf → Encbuf
  | [], w => w
  | v :: vs, w => writeItems vs (writeValue v w)
end

def writeUint (i : Nat) (w : Encbuf) : Encbuf :=
  if i = 0 then { w with str := w.str ++ [0x80] }
  else if i < 128 then { w with str := w.str ++ [i.toUInt8] }
  else
    let s := (putint i).length
    { w with str := w.str ++ ((0x80 + s.toUInt8) :: putint i) }

/-- `writeBigInt`; `Bytes()` of a `big.Int` is the minimal big-endian
encoding of its absolute value. -/
def writeBigInt (i : Int) (w : Encbuf) : Except String Encbuf :=
  if i < 0 then .error "rlp: cannot encode negative *big.Int"
  else if i = 0 then .ok { w with str := w.str ++ [0x80] }
  else .ok (w.encodeString (BigEndian.minimal i.natAbs))

def encodeToBytes (v : Value) : List UInt8 :=
  (writeValue v Encbuf.reset).toBytes

/-- `Encode(w, val)` for a writer that holds `out`. -/
def encode (out : List UInt8) (v : Value) : List UInt8 :=
  (writeValue v Encbuf.reset).toWriter out

/-- `EncodeToReader`: the reported size and the reader. -/
def encodeToReader (v : Value) : Nat × EncReader :=
  let eb := writeValue v Encbuf.reset
  (eb.size, ⟨some eb, 0, 0, []⟩)

end GoEthereum.Rlp
