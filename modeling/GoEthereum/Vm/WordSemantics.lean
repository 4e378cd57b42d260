import GoEthereum.Vm.Instructions
import GoEthereum.Data.Word

/-!
The arithmetic, comparison and bitwise instructions against the Yellow
Paper. `WordInstr` names the instructions of `instructions.go` that pop one
to three words and push one word computed from them, and `WordInstr.eval` is
their meaning on 256-bit vectors: unsigned operations modulo `2 ^ 256`,
signed ones on the two's-complement reading, zero for a zero divisor.
`execute_word_instr` says that the execution function the jump table names
for each leaves exactly that word on the stack in place of its operands.
Each instruction is first written as a shape (`unaryOp`, `binaryOp`,
`ternaryOp`), so that its stack effect is proved once per shape.
-/

namespace GoEthereum.Vm

open Word

variable {σ : Type} {m : Machine σ} {x y z : Nat} {rest : List Nat}

section Words

theorem U256_eq_toNat (t : Int) : U256 t = (BitVec.ofInt 256 t).toNat := by
  simp [U256, BitVec.toNat_ofInt]

theorem U256_natCast (n : Nat) : U256 n = n % 2 ^ 256 := by
  rw [U256]
  omega

theorem S256_eq_toInt (hx : x < 2 ^ 256) : S256 x = (BitVec.ofNat 256 x).toInt := by
  rw [BitVec.toInt_eq_toNat_cond, BitVec.toNat_ofNat, Nat.mod_eq_of_lt hx, S256]
  split_ifs <;> omega

/-- A signed reading is below `2 ^ 255`, so reading it again changes nothing. -/
theorem S256_S256 (hx : x < 2 ^ 256) : S256 (S256 x) = S256 x := by
  unfold S256
  split_ifs <;> omega

theorem S256_eq_zero_iff (hx : x < 2 ^ 256) : S256 x = 0 ↔ x = 0 := by
  unfold S256
  split_ifs <;> omega

theorem toNat_ofNat_of_lt (hx : x < 2 ^ 256) : (BitVec.ofNat 256 x).toNat = x := by
  rw [BitVec.toNat_ofNat, Nat.mod_eq_of_lt hx]

theorem ofNat_eq_zero_iff (hx : x < 2 ^ 256) : BitVec.ofNat 256 x = 0 ↔ x = 0 := by
  constructor
  · intro h
    have h' := congrArg BitVec.toNat h
    rwa [toNat_ofNat_of_lt hx] at h'
  · rintro rfl
    rfl

theorem ofNat_inj (hx : x < 2 ^ 256) (hy : y < 2 ^ 256) :
    BitVec.ofNat 256 x = BitVec.ofNat 256 y ↔ x = y := by
  constructor
  · intro h
    have h' := congrArg BitVec.toNat h
    rwa [toNat_ofNat_of_lt hx, toNat_ofNat_of_lt hy] at h'
  · rintro rfl
    rfl

end Words

section Shapes

/-- An instruction that pops one word and pushes `f` of it. -/
def unaryOp (f : Nat → Nat) : VmM σ (List UInt8) := do
  let x ← pop
  push (f x)
  return []

/-- An instruction that pops two words and pushes `f` of them. -/
def binaryOp (f : Nat → Nat → Nat) : VmM σ (List UInt8) := do
  let x ← pop
  let y ← pop
  push (f x y)
  return []

/-- An instruction that pops three words and pushes `f` of them. -/
def ternaryOp (f : Nat → Nat → Nat → Nat) : VmM σ (List UInt8) := do
  let x ← pop
  let y ← pop
  let z ← pop
  push (f x y z)
  return []

theorem unaryOp_run {v : Nat} (f : Nat → Nat) (hs : m.stack = x :: rest) (hv : f x = v) :
    (unaryOp f : VmM σ _) m = .ok [] { m with stack := v :: rest } := by
  simp [unaryOp, bind, EStateM.bind, pop, hs, push, pure, EStateM.pure, hv]

theorem binaryOp_run {v : Nat} (f : Nat → Nat → Nat) (hs : m.stack = x :: y :: rest)
    (hv : f x y = v) :
    (binaryOp f : VmM σ _) m = .ok [] { m with stack := v :: rest } := by
  simp [binaryOp, bind, EStateM.bind, pop, hs, push, pure, EStateM.pure, hv]

theorem ternaryOp_run {v : Nat} (f : Nat → Nat → Nat → Nat) (hs : m.stack = x :: y :: z :: rest)
    (hv : f x y z = v) :
    (ternaryOp f : VmM σ _) m = .ok [] { m with stack := v :: rest } := by
  simp [ternaryOp, bind, EStateM.bind, pop, hs, push, pure, EStateM.pure, hv]

/-- Two branches that push and go on alike push the choice. -/
theorem push_ite (c : Prop) [Decidable c] (a b : Nat) (k : VmM σ (List UInt8)) :
    (if c then (do push a; k) else (do push b; k)) = (do push (if c then a else b); k) := by
  split <;> rfl

theorem withPc_of_ok {pc : Nat} {act : VmM σ (List UInt8)} {res : List UInt8} {m' : Machine σ}
    (h : act m = .ok res m') : withPc pc act m = .ok (pc, res) m' := by
  simp [withPc, bind, EStateM.bind, h, pure, EStateM.pure]

end Shapes

/-- The word instructions of `instructions.go`, by their Yellow Paper names. -/
inductive WordInstr where
  | ADD | SUB | MUL | DIV | SDIV | MOD | SMOD | EXP | SIGNEXTEND
  | NOT | LT | GT | SLT | SGT | EQ | ISZERO | AND | OR | XOR | BYTE
  | ADDMOD | MULMOD
deriving DecidableEq, Repr

namespace WordInstr

/-- The execution function the jump table gives the instruction. -/
def func : WordInstr → ExecutionFunc
  | ADD => .opAdd | SUB => .opSub | MUL => .opMul | DIV => .opDiv | SDIV => .opSdiv
  | MOD => .opMod | SMOD => .opSmod | EXP => .opExp | SIGNEXTEND => .opSignExtend
  | NOT => .opNot | LT => .opLt | GT => .opGt | SLT => .opSlt | SGT => .opSgt | EQ => .opEq
  | ISZERO => .opIszero | AND => .opAnd | OR => .opOr | XOR => .opXor | BYTE => .opByte
  | ADDMOD => .opAddmod | MULMOD => .opMulmod

/-- The number of words the instruction takes. -/
def arity : WordInstr → Nat
  | NOT | ISZERO => 1
  | ADDMOD | MULMOD => 3
  | _ => 2

/-- A truth value as a word. -/
def flag (c : Bool) : BitVec 256 := if c then 1 else 0

/-- The Yellow Paper's result for the operands `x`, `y`, `z`, from the top of
the stack down; an instruction ignores the operands beyond its arity. -/
def eval : WordInstr → BitVec 256 → BitVec 256 → BitVec 256 → BitVec 256
  | ADD, x, y, _ => x + y
  | SUB, x, y, _ => x - y
  | MUL, x, y, _ => x * y
  | DIV, x, y, _ => if y = 0 then 0 else x / y
  | SDIV, x, y, _ =>
    if y = 0 then 0
    else if x = BitVec.intMin 256 ∧ y = -1 then BitVec.intMin 256
    else BitVec.ofInt 256 (x.toInt.tdiv y.toInt)
  | MOD, x, y, _ => if y = 0 then 0 else x % y
  | SMOD, x, y, _ => if y = 0 then 0 else BitVec.ofInt 256 (x.toInt.tmod y.toInt)
  | EXP, x, y, _ => BitVec.ofNat 256 (x.toNat ^ y.toNat)
  | SIGNEXTEND, b, x, _ =>
    if b.toNat < 31 then BitVec.ofInt 256 (x.setWidth (8 * (b.toNat + 1))).toInt else x
  | NOT, x, _, _ => ~~~x
  | LT, x, y, _ => flag (x.ult y)
  | GT, x, y, _ => flag (y.ult x)
  | SLT, x, y, _ => flag (x.slt y)
  | SGT, x, y, _ => flag (y.slt x)
  | EQ, x, y, _ => flag (x == y)
  | ISZERO, x, _, _ => flag (x == 0)
  | AND, x, y, _ => x &&& y
  | OR, x, y, _ => x ||| y
  | XOR, x, y, _ => x ^^^ y
  | BYTE, i, x, _ => if i.toNat < 32 then (x >>> (8 * (31 - i.toNat))) &&& 0xff else 0
  | ADDMOD, x, y, z => if z = 0 then 0 else BitVec.ofNat 256 ((x.toNat + y.toNat) % z.toNat)
  | MULMOD, x, y, z => if z = 0 then 0 else BitVec.ofNat 256 ((x.toNat * y.toNat) % z.toNat)

end WordInstr

section Instructions

/-! Each instruction leaves the word `WordInstr.eval` gives; `c` stands for
the operands an instruction does not take. -/

variable (c : BitVec 256)

theorem opAdd_word (hs : m.stack = x :: y :: rest) :
    (opAdd : VmM σ _) m =
      .ok [] { m with stack := (WordInstr.ADD.eval (.ofNat 256 x) (.ofNat 256 y) c).toNat :: rest } :=
  binaryOp_run (fun x y => U256 (x + y)) hs (by
    rw [U256_eq_toNat, BitVec.ofInt_add, BitVec.ofInt_natCast, BitVec.ofInt_natCast]
    rfl)

theorem opSub_word (hs : m.stack = x :: y :: rest) :
    (opSub : VmM σ _) m =
      .ok [] { m with stack := (WordInstr.SUB.eval (.ofNat 256 x) (.ofNat 256 y) c).toNat :: rest } :=
  binaryOp_run (fun x y => U256 ((x : Int) - y)) hs (by
    simp only [WordInstr.eval]
    rw [U256, BitVec.toNat_sub, BitVec.toNat_ofNat, BitVec.toNat_ofNat]
    omega)

theorem opMul_word (hs : m.stack = x :: y :: rest) :
    (opMul : VmM σ _) m =
      .ok [] { m with stack := (WordInstr.MUL.eval (.ofNat 256 x) (.ofNat 256 y) c).toNat :: rest } :=
  binaryOp_run (fun x y => U256 (x * y)) hs (by
    rw [U256_eq_toNat, BitVec.ofInt_mul, BitVec.ofInt_natCast, BitVec.ofInt_natCast]
    rfl)

theorem opDiv_word (hs : m.stack = x :: y :: rest) (hx : x < 2 ^ 256) (hy : y < 2 ^ 256) :
    (opDiv : VmM σ _) m =
      .ok [] { m with stack := (WordInstr.DIV.eval (.ofNat 256 x) (.ofNat 256 y) c).toNat :: rest } := by
  have hshape : (opDiv : VmM σ _) = binaryOp fun x y => if y ≠ 0 then U256 (x / y) else 0 := by
    simp only [opDiv, binaryOp, push_ite]
  rw [hshape]
  refine binaryOp_run _ hs ?_
  simp only [WordInstr.eval]
  by_cases hy0 : y = 0
  · subst hy0
    rfl
  · rw [if_pos hy0, if_neg (mt (ofNat_eq_zero_iff hy).mp hy0), BitVec.toNat_udiv,
      toNat_ofNat_of_lt hx, toNat_ofNat_of_lt hy, Int.ofNat_ediv_ofNat, U256_natCast,
      Nat.mod_eq_of_lt (lt_of_le_of_lt (Nat.div_le_self x y) hx)]

theorem opMod_word (hs : m.stack = x :: y :: rest) (hx : x < 2 ^ 256) (hy : y < 2 ^ 256) :
    (opMod : VmM σ _) m =
      .ok [] { m with stack := (WordInstr.MOD.eval (.ofNat 256 x) (.ofNat 256 y) c).toNat :: rest } := by
  have hshape : (opMod : VmM σ _) = binaryOp fun x y => if y = 0 then 0 else U256 (x % y) := by
    simp only [opMod, binaryOp, push_ite]
  rw [hshape]
  refine binaryOp_run _ hs ?_
  simp only [WordInstr.eval]
  by_cases hy0 : y = 0
  · subst hy0
    rfl
  · rw [if_neg hy0, if_neg (mt (ofNat_eq_zero_iff hy).mp hy0), BitVec.toNat_umod,
      toNat_ofNat_of_lt hx, toNat_ofNat_of_lt hy, ← Int.natCast_mod, U256_natCast,
      Nat.mod_eq_of_lt (lt_trans (Nat.mod_lt x (by omega)) hy)]

/-- SDIV(-2^255, -1): the quotient 2^255 wraps to -2^255 itself. -/
theorem ofInt_tdiv_intMin :
    BitVec.ofInt 256 ((BitVec.intMin 256).toInt.tdiv (-1 : BitVec 256).toInt) = BitVec.intMin 256 := by
  apply BitVec.eq_of_toNat_eq
  simp [BitVec.toInt_intMin, BitVec.toNat_intMin]

theorem opSdiv_word (hs : m.stack = x :: y :: rest) (hx : x < 2 ^ 256) (hy : y < 2 ^ 256) :
    (opSdiv : VmM σ _) m =
      .ok [] { m with stack := (WordInstr.SDIV.eval (.ofNat 256 x) (.ofNat 256 y) c).toNat :: rest } := by
  have hshape : (opSdiv : VmM σ _) = binaryOp fun x y =>
      if S256 y = 0 then 0
      else U256 (((S256 x).natAbs / (S256 y).natAbs : Nat) * (if S256 x * S256 y < 0 then -1 else 1)) := by
    simp only [opSdiv, binaryOp, push_ite]
  rw [hshape]
  refine binaryOp_run _ hs ?_
  simp only [WordInstr.eval]
  by_cases hy0 : y = 0
  · subst hy0
    rfl
  · rw [if_neg (mt (S256_eq_zero_iff hy).mp hy0), if_neg (mt (ofNat_eq_zero_iff hy).mp hy0),
      natAbs_div_mul_sign, S256_eq_toInt hx, S256_eq_toInt hy, U256_eq_toNat]
    -- the Yellow Paper names the one overflowing quotient; tdiv wraps to the same word
    split
    · rename_i hmin
      rw [hmin.1, hmin.2, ofInt_tdiv_intMin]
    · rfl

theorem opSmod_word (hs : m.stack = x :: y :: rest) (hx : x < 2 ^ 256) (hy : y < 2 ^ 256) :
    (opSmod : VmM σ _) m =
      .ok [] { m with stack := (WordInstr.SMOD.eval (.ofNat 256 x) (.ofNat 256 y) c).toNat :: rest } := by
  have hshape : (opSmod : VmM σ _) = binaryOp fun x y =>
      if S256 y = 0 then 0
      else U256 (((S256 x).natAbs % (S256 y).natAbs : Nat) * (if S256 x < 0 then -1 else 1)) := by
    simp only [opSmod, binaryOp, push_ite]
  rw [hshape]
  refine binaryOp_run _ hs ?_
  simp only [WordInstr.eval]
  by_cases hy0 : y = 0
  · subst hy0
    rfl
  · rw [if_neg (mt (S256_eq_zero_iff hy).mp hy0), if_neg (mt (ofNat_eq_zero_iff hy).mp hy0),
      natAbs_mod_mul_sign, S256_eq_toInt hx, S256_eq_toInt hy, U256_eq_toNat]

/-- `math.Exp` is exponentiation modulo `2 ^ 256`: its loop runs over every
bit of the exponent's 64-bit words. -/
theorem Exp_eq (b e : Nat) : Exp b e = b ^ e % 2 ^ 256 := by
  have hstep : (fun (acc : Nat × Nat) i =>
      (if e.testBit i then U256 (acc.1 * acc.2) else acc.1, U256 (acc.2 * acc.2))) =
      sqMul (2 ^ 256) e := by
    funext acc i
    simp only [sqMul, ← Int.natCast_mul, U256_natCast]
  have hbits : e < 2 ^ (64 * ((Nat.size e + 63) / 64)) :=
    lt_of_lt_of_le (Nat.lt_size_self e) (Nat.pow_le_pow_right (by decide) (by omega))
  rw [Exp, hstep, (foldl_sqMul _ e b _ (by decide)).1, Nat.mod_eq_of_lt hbits]

theorem opExp_word (hs : m.stack = x :: y :: rest) (hx : x < 2 ^ 256) (hy : y < 2 ^ 256) :
    (opExp : VmM σ _) m =
      .ok [] { m with stack := (WordInstr.EXP.eval (.ofNat 256 x) (.ofNat 256 y) c).toNat :: rest } :=
  binaryOp_run (fun x y => Exp x y) hs (by
    simp only [WordInstr.eval]
    rw [Exp_eq, BitVec.toNat_ofNat, toNat_ofNat_of_lt hx, toNat_ofNat_of_lt hy])

/-- SIGNEXTEND pops its second operand only for a byte index below 31; for
a larger one the value stays on the stack as it is, which is the Yellow
Paper's result. -/
theorem opSignExtend_word (hs : m.stack = x :: y :: rest) (hx : x < 2 ^ 256) (hy : y < 2 ^ 256) :
    (opSignExtend : VmM σ _) m =
      .ok [] { m with
        stack := (WordInstr.SIGNEXTEND.eval (.ofNat 256 x) (.ofNat 256 y) c).toNat :: rest } := by
  simp only [WordInstr.eval]
  rw [toNat_ofNat_of_lt hx]
  by_cases hb : x < 31
  · have hwidth : 8 * (x + 1) = x * 8 + 7 + 1 := by omega
    rw [if_pos hb, hwidth, toInt_setWidth_succ y (x * 8 + 7) (by omega), ← U256_eq_toNat]
    simp only [opSignExtend, bind, EStateM.bind, pop, hs, if_pos hb, pure]
    -- bit 8x+7 decides between or-ing the high mask and and-ing the low one
    split
    · rw [lor_lnot_mask]
      rfl
    · rw [land_mask]
      rfl
  · rw [if_neg hb, toNat_ofNat_of_lt hy]
    simp only [opSignExtend, bind, EStateM.bind, pop, hs, if_neg hb, pure, EStateM.pure]

theorem opNot_word (hs : m.stack = x :: rest) (hx : x < 2 ^ 256) (c' : BitVec 256) :
    (opNot : VmM σ _) m =
      .ok [] { m with stack := (WordInstr.NOT.eval (.ofNat 256 x) c' c).toNat :: rest } :=
  unaryOp_run (fun x => U256 (Int.lnot x)) hs (by
    simp only [WordInstr.eval]
    rw [U256, BitVec.toNat_not, toNat_ofNat_of_lt hx]
    show ((Int.negSucc x) % 2 ^ 256).toNat = _
    rw [Int.negSucc_eq]
    omega)

theorem toNat_flag (b : Bool) : (WordInstr.flag b).toNat = if b then 1 else 0 := by
  cases b <;> rfl

theorem opLt_word (hs : m.stack = x :: y :: rest) (hx : x < 2 ^ 256) (hy : y < 2 ^ 256) :
    (opLt : VmM σ _) m =
      .ok [] { m with stack := (WordInstr.LT.eval (.ofNat 256 x) (.ofNat 256 y) c).toNat :: rest } :=
  binaryOp_run (fun x y => if x < y then 1 else 0) hs (by
    simp only [WordInstr.eval, toNat_flag, BitVec.ult_eq_decide, toNat_ofNat_of_lt hx,
      toNat_ofNat_of_lt hy, decide_eq_true_eq])

theorem opGt_word (hs : m.stack = x :: y :: rest) (hx : x < 2 ^ 256) (hy : y < 2 ^ 256) :
    (opGt : VmM σ _) m =
      .ok [] { m with stack := (WordInstr.GT.eval (.ofNat 256 x) (.ofNat 256 y) c).toNat :: rest } :=
  binaryOp_run (fun x y => if x > y then 1 else 0) hs (by
    simp only [WordInstr.eval, toNat_flag, BitVec.ult_eq_decide, toNat_ofNat_of_lt hx,
      toNat_ofNat_of_lt hy, decide_eq_true_eq, gt_iff_lt])

/-- SLT reads its second operand with `S256` twice, as the Go code does;
the second reading changes nothing (`S256_S256`). -/
theorem opSlt_word (hs : m.stack = x :: y :: rest) (hx : x < 2 ^ 256) (hy : y < 2 ^ 256) :
    (opSlt : VmM σ _) m =
      .ok [] { m with stack := (WordInstr.SLT.eval (.ofNat 256 x) (.ofNat 256 y) c).toNat :: rest } :=
  binaryOp_run (fun x y => if S256 x < S256 (S256 y) then 1 else 0) hs (by
    simp only [WordInstr.eval, toNat_flag, BitVec.slt_eq_decide, decide_eq_true_eq]
    rw [S256_S256 hy, S256_eq_toInt hx, S256_eq_toInt hy])

theorem opSgt_word (hs : m.stack = x :: y :: rest) (hx : x < 2 ^ 256) (hy : y < 2 ^ 256) :
    (opSgt : VmM σ _) m =
      .ok [] { m with stack := (WordInstr.SGT.eval (.ofNat 256 x) (.ofNat 256 y) c).toNat :: rest } :=
  binaryOp_run (fun x y => if S256 x > S256 y then 1 else 0) hs (by
    simp only [WordInstr.eval, toNat_flag, BitVec.slt_eq_decide, decide_eq_true_eq, gt_iff_lt]
    rw [S256_eq_toInt hx, S256_eq_toInt hy])

theorem opEq_word (hs : m.stack = x :: y :: rest) (hx : x < 2 ^ 256) (hy : y < 2 ^ 256) :
    (opEq : VmM σ _) m =
      .ok [] { m with stack := (WordInstr.EQ.eval (.ofNat 256 x) (.ofNat 256 y) c).toNat :: rest } :=
  binaryOp_run (fun x y => if x = y then 1 else 0) hs (by
    simp only [WordInstr.eval, toNat_flag, beq_iff_eq, ofNat_inj hx hy])

theorem opIszero_word (hs : m.stack = x :: rest) (hx : x < 2 ^ 256) (c' : BitVec 256) :
    (opIszero : VmM σ _) m =
      .ok [] { m with stack := (WordInstr.ISZERO.eval (.ofNat 256 x) c' c).toNat :: rest } :=
  unaryOp_run (fun x => if x > 0 then 0 else 1) hs (by
    simp only [WordInstr.eval, toNat_flag, beq_iff_eq, ofNat_eq_zero_iff hx]
    split_ifs <;> omega)

theorem opAnd_word (hs : m.stack = x :: y :: rest) (hx : x < 2 ^ 256) (hy : y < 2 ^ 256) :
    (opAnd : VmM σ _) m =
      .ok [] { m with stack := (WordInstr.AND.eval (.ofNat 256 x) (.ofNat 256 y) c).toNat :: rest } :=
  binaryOp_run (fun x y => x &&& y) hs (by
    simp only [WordInstr.eval, BitVec.toNat_and, toNat_ofNat_of_lt hx, toNat_ofNat_of_lt hy])

theorem opOr_word (hs : m.stack = x :: y :: rest) (hx : x < 2 ^ 256) (hy : y < 2 ^ 256) :
    (opOr : VmM σ _) m =
      .ok [] { m with stack := (WordInstr.OR.eval (.ofNat 256 x) (.ofNat 256 y) c).toNat :: rest } :=
  binaryOp_run (fun x y => x ||| y) hs (by
    simp only [WordInstr.eval, BitVec.toNat_or, toNat_ofNat_of_lt hx, toNat_ofNat_of_lt hy])

theorem opXor_word (hs : m.stack = x :: y :: rest) (hx : x < 2 ^ 256) (hy : y < 2 ^ 256) :
    (opXor : VmM σ _) m =
      .ok [] { m with stack := (WordInstr.XOR.eval (.ofNat 256 x) (.ofNat 256 y) c).toNat :: rest } :=
  binaryOp_run (fun x y => x ^^^ y) hs (by
    simp only [WordInstr.eval, BitVec.toNat_xor, toNat_ofNat_of_lt hx, toNat_ofNat_of_lt hy])

/-- BYTE reads byte `i` of the 32-byte big-endian encoding, which is the
byte a right shift by `8 * (31 - i)` brings to the bottom. -/
theorem opByte_word (hs : m.stack = x :: y :: rest) (hx : x < 2 ^ 256) (hy : y < 2 ^ 256) :
    (opByte : VmM σ _) m =
      .ok [] { m with stack := (WordInstr.BYTE.eval (.ofNat 256 x) (.ofNat 256 y) c).toNat :: rest } := by
  have hshape : (opByte : VmM σ _) = binaryOp fun th val =>
      if th < 32 then ((LeftPadBytes (bigBytes val) 32).getD th 0).toNat else 0 := by
    simp only [opByte, binaryOp, push_ite]
  rw [hshape]
  refine binaryOp_run _ hs ?_
  simp only [WordInstr.eval, toNat_ofNat_of_lt hx]
  by_cases hi : x < 32
  · have hy' : y < 256 ^ 32 := by simpa using hy
    have hpad : LeftPadBytes (bigBytes y) 32 = BigEndian.bytes 32 y := by
      rw [LeftPadBytes, bigBytes, if_neg (not_lt.mpr (BigEndian.length_minimal_le hy')),
        BigEndian.replicate_append_minimal hy']
    rw [if_pos hi, if_pos hi, hpad, BigEndian.getD_bytes 32 y x hi, toNat_byte _ _ (by decide),
      toNat_ofNat_of_lt hy, UInt8.toNat_ofNat_of_lt' (Nat.mod_lt _ (by decide)), pow_mul]
    -- 256 is 2 ^ 8 and a byte is below UInt8.size
    rfl
  · rw [if_neg hi, if_neg hi]
    rfl

theorem opAddmod_word (hs : m.stack = x :: y :: z :: rest) (hx : x < 2 ^ 256) (hy : y < 2 ^ 256)
    (hz : z < 2 ^ 256) :
    (opAddmod : VmM σ _) m =
      .ok [] { m with
        stack := (WordInstr.ADDMOD.eval (.ofNat 256 x) (.ofNat 256 y) (.ofNat 256 z)).toNat :: rest } := by
  have hshape : (opAddmod : VmM σ _) = ternaryOp fun x y z =>
      if z > 0 then U256 ((x + y) % z) else 0 := by
    simp only [opAddmod, ternaryOp, push_ite]
  rw [hshape]
  refine ternaryOp_run _ hs ?_
  simp only [WordInstr.eval, toNat_ofNat_of_lt hx, toNat_ofNat_of_lt hy, toNat_ofNat_of_lt hz]
  by_cases hz0 : z = 0
  · subst hz0
    rfl
  · -- the sum is reduced by z before any truncation to 256 bits
    rw [if_pos (Nat.pos_of_ne_zero hz0), if_neg (mt (ofNat_eq_zero_iff hz).mp hz0),
      ← Int.natCast_add, ← Int.natCast_mod, U256_natCast, BitVec.toNat_ofNat]

theorem opMulmod_word (hs : m.stack = x :: y :: z :: rest) (hx : x < 2 ^ 256) (hy : y < 2 ^ 256)
    (hz : z < 2 ^ 256) :
    (opMulmod : VmM σ _) m =
      .ok [] { m with
        stack := (WordInstr.MULMOD.eval (.ofNat 256 x) (.ofNat 256 y) (.ofNat 256 z)).toNat :: rest } := by
  have hshape : (opMulmod : VmM σ _) = ternaryOp fun x y z =>
      if z > 0 then U256 ((x * y) % z) else 0 := by
    simp only [opMulmod, ternaryOp, push_ite]
  rw [hshape]
  refine ternaryOp_run _ hs ?_
  simp only [WordInstr.eval, toNat_ofNat_of_lt hx, toNat_ofNat_of_lt hy, toNat_ofNat_of_lt hz]
  by_cases hz0 : z = 0
  · subst hz0
    rfl
  · rw [if_pos (Nat.pos_of_ne_zero hz0), if_neg (mt (ofNat_eq_zero_iff hz).mp hz0),
      ← Int.natCast_mul, ← Int.natCast_mod, U256_natCast, BitVec.toNat_ofNat]

end Instructions

/-- Every word instruction, run by the interpreter's `execute` on operands
below `2 ^ 256`, replaces its operands by the Yellow Paper's word and leaves
the program counter where it was; the word pushed is again below `2 ^ 256`. -/
theorem execute_word_instr (op : WordInstr) (evm : EVM σ) (contract : Contract) (pc : Nat)
    (m : Machine σ) (x y z : Nat) (rest : List Nat) (hx : x < 2 ^ 256) (hy : y < 2 ^ 256)
    (hz : z < 2 ^ 256) (hs : m.stack = [x, y, z].take op.arity ++ rest) :
    execute evm contract pc op.func m =
        .ok (pc, []) { m with
          stack := (op.eval (.ofNat 256 x) (.ofNat 256 y) (.ofNat 256 z)).toNat :: rest } ∧
      (op.eval (.ofNat 256 x) (.ofNat 256 y) (.ofNat 256 z)).toNat < 2 ^ 256 := by
  refine ⟨?_, BitVec.isLt _⟩
  -- the stack hypothesis reads as the operands of the instruction's arity
  cases op with
  | ADD => exact withPc_of_ok (opAdd_word _ hs)
  | SUB => exact withPc_of_ok (opSub_word _ hs)
  | MUL => exact withPc_of_ok (opMul_word _ hs)
  | DIV => exact withPc_of_ok (opDiv_word _ hs hx hy)
  | SDIV => exact withPc_of_ok (opSdiv_word _ hs hx hy)
  | MOD => exact withPc_of_ok (opMod_word _ hs hx hy)
  | SMOD => exact withPc_of_ok (opSmod_word _ hs hx hy)
  | EXP => exact withPc_of_ok (opExp_word _ hs hx hy)
  | SIGNEXTEND => exact withPc_of_ok (opSignExtend_word _ hs hx hy)
  | NOT => exact withPc_of_ok (opNot_word _ hs hx _)
  | LT => exact withPc_of_ok (opLt_word _ hs hx hy)
  | GT => exact withPc_of_ok (opGt_word _ hs hx hy)
  | SLT => exact withPc_of_ok (opSlt_word _ hs hx hy)
  | SGT => exact withPc_of_ok (opSgt_word _ hs hx hy)
  | EQ => exact withPc_of_ok (opEq_word _ hs hx hy)
  | ISZERO => exact withPc_of_ok (opIszero_word _ hs hx _)
  | AND => exact withPc_of_ok (opAnd_word _ hs hx hy)
  | OR => exact withPc_of_ok (opOr_word _ hs hx hy)
  | XOR => exact withPc_of_ok (opXor_word _ hs hx hy)
  | BYTE => exact withPc_of_ok (opByte_word _ hs hx hy)
  | ADDMOD => exact withPc_of_ok (opAddmod_word hs hx hy hz)
  | MULMOD => exact withPc_of_ok (opMulmod_word hs hx hy hz)

/-- SDIV of `-2 ^ 255` by `-1` overflows back to `-2 ^ 255`. -/
theorem execute_word_instr_sdivIntMin :
    (2 ^ 255 : Nat) < 2 ^ 256 ∧ (2 ^ 256 - 1 : Nat) < 2 ^ 256 ∧ (0 : Nat) < 2 ^ 256 ∧
      execute noRecursionEVM ⟨0, 0, 0, [], 0, none, []⟩ 0 WordInstr.SDIV.func
          ⟨[2 ^ 255, 2 ^ 256 - 1], [], 0, (), fun _ => none⟩ =
        .ok (0, []) ⟨[2 ^ 255], [], 0, (), fun _ => none⟩ := by
  refine ⟨by decide, by decide, by decide, ?_⟩
  have h := (execute_word_instr WordInstr.SDIV noRecursionEVM ⟨0, 0, 0, [], 0, none, []⟩ 0
    ⟨[2 ^ 255, 2 ^ 256 - 1], [], 0, (), fun _ => none⟩ (2 ^ 255) (2 ^ 256 - 1) 0 []
    (by decide) (by decide) (by decide) rfl).1
  rw [h]
  rfl

end GoEthereum.Vm
