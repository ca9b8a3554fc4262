import KitRpc.Cpp.Bytes
/-!
# 32-bit words in memory

`(char*)&word` on both ends of the connection: the four bytes of a `uint32_t`
in the byte order of the machine. The byte order is a parameter, since the
code never converts to network order.
-/

namespace KitRpc.Cpp

inductive ByteOrder
  | little
  | big
  deriving DecidableEq, Repr

/-- Value of bytes with the least significant one first. -/
def littleValue : Bytes → Nat
  | [] => 0
  | b :: bs => b.toNat + 256 * littleValue bs

def littleBytes : Nat → Nat → Bytes
  | 0, _ => []
  | width + 1, n => UInt8.ofNat n :: littleBytes width (n / 256)

@[simp] theorem length_littleBytes (width n : Nat) :
    (littleBytes width n).length = width := by
  induction width generalizing n with
  | zero => rfl
  | succ width ih => simp [littleBytes, ih]

theorem littleValue_littleBytes (width n : Nat) (h : n < 256 ^ width) :
    littleValue (littleBytes width n) = n := by
  induction width generalizing n with
  | zero =>
      rw [Nat.pow_zero] at h
      simp [littleBytes, littleValue]
      omega
  | succ width ih =>
      have hdiv : n / 256 < 256 ^ width := by
        rw [Nat.div_lt_iff_lt_mul (by omega), ← Nat.pow_succ]
        exact h
      calc
        littleValue (littleBytes (width + 1) n)
            = n % 256 + 256 * littleValue (littleBytes width (n / 256)) := by
          rw [littleBytes, littleValue, UInt8.toNat_ofNat']
        _ = n % 256 + 256 * (n / 256) := by rw [ih _ hdiv]
        _ = n := by omega

namespace ByteOrder

/-- Rearrange between memory order and least-significant-first order. -/
def arrange : ByteOrder → Bytes → Bytes
  | little, mem => mem
  | big, mem => mem.reverse

@[simp] theorem arrange_arrange (order : ByteOrder) (mem : Bytes) :
    order.arrange (order.arrange mem) = mem := by
  cases order <;> simp [arrange]

@[simp] theorem length_arrange (order : ByteOrder) (mem : Bytes) :
    (order.arrange mem).length = mem.length := by
  cases order <;> simp [arrange]

def readWord (order : ByteOrder) (mem : Bytes) : UInt32 :=
  UInt32.ofNat (littleValue (order.arrange mem))

def writeWord (order : ByteOrder) (word : UInt32) : Bytes :=
  order.arrange (littleBytes 4 word.toNat)

@[simp] theorem length_writeWord (order : ByteOrder) (word : UInt32) :
    (order.writeWord word).length = 4 := by
  simp [writeWord]

@[simp] theorem readWord_writeWord (order : ByteOrder) (word : UInt32) :
    order.readWord (order.writeWord word) = word := by
  have hlt : word.toNat < 256 ^ 4 := word.toNat_lt
  simp [readWord, writeWord, littleValue_littleBytes 4 word.toNat hlt]

example : little.readWord [0x34, 0x12, 0, 0] = 0x1234 := by decide

end ByteOrder

end KitRpc.Cpp
