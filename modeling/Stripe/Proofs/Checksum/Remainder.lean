import Mathlib
import Stripe.Checksum

/-!
# The checksum is the remainder of a division

A word stands for a polynomial over the field of two elements: its lowest
bit is the coefficient of the highest power. Taking a bit of the text is
then one step of a long division by the generator
(`exists_code_feedBit`), and `isCode_iff` says that the checksum of a text
is the remainder of the whole text, with the two complements of the code.

`value_start_add` says that a register that takes eight bits at once
computes just this checksum.
-/

namespace Stripe.Checksum

open Polynomial

/-! ## Eight bits at once -/

/-- The first `n` bits of a word, lowest first. -/
def lowBits (n : Nat) (x : UInt32) : List Bool :=
  (List.range n).map x.toNat.testBit

theorem lowBits_succ (n : Nat) (x : UInt32) :
    lowBits (n + 1) x = x.toNat.testBit 0 :: lowBits n (x >>> 1) := by
  unfold lowBits
  rw [List.range_succ_eq_map, List.map_cons, List.map_map]
  congr 1
  apply List.map_congr_left
  intro i _
  show x.toNat.testBit (i + 1) = (x >>> 1).toNat.testBit i
  rw [UInt32.toNat_shiftRight, Nat.testBit_shiftRight, Nat.add_comm i]
  rfl

theorem bitsOf_eq (b : UInt8) : bitsOf b = lowBits 8 b.toUInt32 := by
  unfold bitsOf lowBits
  rw [UInt8.toNat_toUInt32]

theorem and_one_eq_one_iff (r : UInt32) :
    r &&& 1 = 1 ↔ r.toNat.testBit 0 = true := by
  rw [← UInt32.toNat_inj, UInt32.toNat_and, Nat.testBit_zero]
  simp [Nat.and_one_is_mod]

theorem feedBit_eq (r : UInt32) (bit : Bool) : feedBit r bit =
    (r >>> 1) ^^^ (if r.toNat.testBit 0 ^^ bit then polynomial else 0) := by
  have hlow : (r &&& 1 == 1) = r.toNat.testBit 0 := by
    rw [Bool.eq_iff_iff, beq_iff_eq, and_one_eq_one_iff]
  unfold feedBit
  rw [hlow]
  cases r.toNat.testBit 0 <;> cases bit <;> simp

theorem shift_eq (r : UInt32) : shift r = feedBit r false := by
  rw [feedBit_eq, Bool.xor_false]
  unfold shift
  simp only [and_one_eq_one_iff]
  split <;> simp

/-- A bit that was added beforehand is taken when it is shifted out. -/
theorem shift_xor (r x : UInt32) :
    shift (r ^^^ x) = feedBit r (x.toNat.testBit 0) ^^^ (x >>> 1) := by
  rw [shift_eq, feedBit_eq, feedBit_eq, UInt32.shiftRight_xor,
    UInt32.toNat_xor, Nat.testBit_xor, Bool.xor_false, UInt32.xor_assoc,
    UInt32.xor_assoc, UInt32.xor_comm (x >>> 1)]

theorem repeat_succ {α : Type} (f : α → α) (n : Nat) (a : α) :
    Nat.repeat f (n + 1) a = Nat.repeat f n (f a) := by
  induction n with
  | zero => rfl
  | succ n ih => exact congrArg f ih

/-- **Bits that were added at once** are taken one after the other. -/
theorem repeat_shift {n : Nat} (r : UInt32) {x : UInt32}
    (hx : x.toNat < 2 ^ n) :
    Nat.repeat shift n (r ^^^ x) = (lowBits n x).foldl feedBit r := by
  induction n generalizing r x with
  | zero =>
    obtain rfl : x = 0 := UInt32.toNat_inj.1 (Nat.lt_one_iff.1 hx)
    exact UInt32.xor_zero
  | succ n ih =>
    have hrest : (x >>> 1).toNat < 2 ^ n := by
      rw [UInt32.toNat_shiftRight]
      show x.toNat >>> 1 < 2 ^ n
      rw [Nat.shiftRight_succ, Nat.shiftRight_zero]
      omega
    rw [repeat_succ, shift_xor, ih _ hrest, lowBits_succ, List.foldl_cons]

theorem addByte_eq (r : UInt32) (b : UInt8) :
    addByte r b = (bitsOf b).foldl feedBit r := by
  have hbyte : b.toUInt32.toNat < 2 ^ 8 := by
    rw [UInt8.toNat_toUInt32]
    exact b.toNat_lt
  rw [bitsOf_eq]
  exact repeat_shift r hbyte

/-- Bytes enter the register bit by bit. -/
theorem register_add (bytes : Bytes) (c : Checksum) :
    (c.add bytes).register =
      (bytes.flatMap bitsOf).foldl feedBit c.register := by
  show bytes.foldl addByte c.register = _
  generalize c.register = r
  induction bytes generalizing r with
  | nil => rfl
  | cons b bytes ih =>
    rw [List.foldl_cons, ih, addByte_eq, List.flatMap_cons,
      List.foldl_append]

/-- **What is kept between the parts of a text** is the checksum of all of
it. -/
theorem value_start_add (bytes : Bytes) :
    (start.add bytes).value = serial bytes :=
  congrArg (· ^^^ 0xFFFFFFFF) (register_add bytes start)

/-! ## Bits and polynomials -/

/-- The polynomial whose coefficients are some bits, the first one at the
highest power. -/
noncomputable def poly : List Bool → (ZMod 2)[X]
  | [] => 0
  | bit :: bits => (if bit then X ^ bits.length else 0) + poly bits

theorem poly_concat (bits : List Bool) (bit : Bool) :
    poly (bits ++ [bit]) = poly bits * X + if bit then 1 else 0 := by
  induction bits with
  | nil => simp [poly]
  | cons b bits ih =>
    rw [List.cons_append, poly, poly, ih, List.length_append, add_mul,
      add_assoc]
    congr 1
    cases b
    · simp
    · simp [pow_succ]

theorem degree_poly_lt (bits : List Bool) :
    (poly bits).degree < bits.length := by
  induction bits with
  | nil => simp [poly]
  | cons b bits ih =>
    have hle : (poly bits).degree < (bits.length + 1 : Nat) :=
      ih.trans (by exact_mod_cast Nat.lt_succ_self _)
    refine (degree_add_le _ _).trans_lt (max_lt ?_ hle)
    cases b
    · simp
    · exact (degree_X_pow_le _).trans_lt
        (by exact_mod_cast Nat.lt_succ_self _)

/-- Bits that are added one by one are added as polynomials. -/
theorem poly_map_xor {α : Type} (l : List α) (f g : α → Bool) :
    poly (l.map fun a => f a ^^ g a) = poly (l.map f) + poly (l.map g) := by
  induction l with
  | nil => simp [poly]
  | cons a l ih =>
    simp only [List.map_cons, poly, List.length_map, ih]
    rw [add_add_add_comm]
    congr 1
    cases f a <;> cases g a <;> simp [CharTwo.add_self_eq_zero]

/-- Only bits that are all clear stand for zero. -/
theorem eq_false_of_poly_eq_zero {bits : List Bool} (h : poly bits = 0) :
    ∀ b ∈ bits, b = false := by
  induction bits with
  | nil => simp
  | cons b bits ih =>
    cases b with
    | false =>
      have hrest : poly bits = 0 := by simpa [poly] using h
      simpa using ih hrest
    | true =>
      have htop : X ^ bits.length = poly bits := by
        rw [poly, if_pos rfl] at h
        exact CharTwo.add_eq_zero.1 h
      have hlt := degree_poly_lt bits
      rw [← htop, degree_X_pow] at hlt
      exact absurd hlt (lt_irrefl _)

/-- The polynomial of a word. -/
noncomputable def code (r : UInt32) : (ZMod 2)[X] := poly (lowBits 32 r)

theorem degree_code_lt (r : UInt32) : (code r).degree < 32 := by
  have h := degree_poly_lt (lowBits 32 r)
  rwa [lowBits, List.length_map, List.length_range] at h

theorem code_xor (x y : UInt32) : code (x ^^^ y) = code x + code y := by
  unfold code lowBits
  rw [UInt32.toNat_xor, ← poly_map_xor]
  congr 1
  apply List.map_congr_left
  intro i _
  exact Nat.testBit_xor x.toNat y.toNat i

theorem code_zero : code 0 = 0 :=
  (code_xor 0 0).trans (CharTwo.add_self_eq_zero _)

theorem eq_zero_of_code_eq_zero {r : UInt32} (h : code r = 0) : r = 0 := by
  have hclear := eq_false_of_poly_eq_zero h
  apply UInt32.toNat_inj.1
  apply Nat.eq_of_testBit_eq
  intro i
  rw [UInt32.toNat_zero, Nat.zero_testBit]
  by_cases hi : i < 32
  · exact hclear _ (List.mem_map_of_mem (List.mem_range.2 hi))
  · apply Nat.testBit_lt_two_pow
    exact lt_of_lt_of_le r.toNat_lt
      (Nat.pow_le_pow_right (by decide) (Nat.le_of_not_lt hi))

/-- Words that stand for the same polynomial are equal. -/
theorem code_injective : Function.Injective code := by
  intro x y h
  have hsum : code (x ^^^ y) = 0 := by
    rw [code_xor, h, CharTwo.add_self_eq_zero]
  exact UInt32.xor_eq_zero_iff.1 (eq_zero_of_code_eq_zero hsum)

/-- The bit that is shifted out is the one that the power 32 takes. -/
theorem code_mul_X (r : UInt32) : code r * X =
    (if r.toNat.testBit 0 then X ^ 32 else 0) + code (r >>> 1) := by
  have hlast : r.toNat.testBit 32 = false :=
    Nat.testBit_lt_two_pow r.toNat_lt
  have hbits : lowBits 33 r = lowBits 32 r ++ [false] := by
    rw [← hlast]
    unfold lowBits
    rw [List.range_succ, List.map_append, List.map_singleton]
  have hpoly := congrArg poly (hbits.symm.trans (lowBits_succ 32 r))
  rw [poly_concat, poly, lowBits, lowBits, List.length_map,
    List.length_range] at hpoly
  simpa [code, lowBits] using hpoly

/-! ## The division -/

/-- The generator of the code. -/
noncomputable def generator : (ZMod 2)[X] :=
  X ^ 32 + X ^ 26 + X ^ 23 + X ^ 22 + X ^ 16 + X ^ 12 + X ^ 11 + X ^ 10 +
    X ^ 8 + X ^ 7 + X ^ 5 + X ^ 4 + X ^ 2 + X + 1

theorem generator_eq : generator = X ^ 32 + code polynomial := by
  have hbits : lowBits 32 polynomial =
      [false, false, false, false, false, true, false, false,
       true, true, false, false, false, false, false, true,
       false, false, false, true, true, true, false, true,
       true, false, true, true, false, true, true, true] := by
    decide
  unfold generator code
  rw [hbits]
  simp [poly, add_assoc]

theorem generator_monic : generator.Monic := by
  rw [generator_eq]
  exact monic_X_pow_add (degree_code_lt polynomial)

theorem degree_generator : generator.degree = 32 := by
  have hlt : (code polynomial).degree < (X ^ 32 : (ZMod 2)[X]).degree := by
    rw [degree_X_pow]
    exact degree_code_lt polynomial
  rw [generator_eq, degree_add_eq_left_of_degree_lt hlt, degree_X_pow]
  rfl

/-- **One bit of the text** is one step of the division. -/
theorem exists_code_feedBit (r : UInt32) (bit : Bool) : ∃ k,
    code (feedBit r bit) + generator * k =
      code r * X + if bit then X ^ 32 else 0 := by
  refine ⟨if r.toNat.testBit 0 ^^ bit then 1 else 0, ?_⟩
  have htop : X ^ 32 = code polynomial + generator := by
    rw [generator_eq, add_left_comm, CharTwo.add_self_eq_zero, add_zero]
  rw [code_mul_X, feedBit_eq, code_xor]
  cases r.toNat.testBit 0 <;> cases bit
  case false.false | true.true =>
    simp [code_zero, add_right_comm, CharTwo.add_self_eq_zero]
  case false.true | true.false =>
    simp [htop, add_comm, add_assoc]

/-- Some bits of the text leave the remainder of what the register stood
for and of those bits. -/
theorem exists_code_foldl (r : UInt32) (bits : List Bool) : ∃ q,
    code (bits.foldl feedBit r) + generator * q =
      code r * X ^ bits.length + poly bits * X ^ 32 := by
  induction bits generalizing r with
  | nil => exact ⟨0, by simp [poly]⟩
  | cons bit bits ih =>
    obtain ⟨q, hq⟩ := ih (feedBit r bit)
    obtain ⟨k, hk⟩ := exists_code_feedBit r bit
    have htext : poly (bit :: bits) * X ^ 32 =
        (if bit then X ^ 32 else 0) * X ^ bits.length +
          poly bits * X ^ 32 := by
      rw [poly, add_mul]
      cases bit <;> simp [mul_comm]
    refine ⟨k * X ^ bits.length + q, ?_⟩
    rw [List.foldl_cons, List.length_cons, htext]
    linear_combination hq + X ^ bits.length * hk

theorem code_foldl (r : UInt32) (bits : List Bool) :
    code (bits.foldl feedBit r) =
      (code r * X ^ bits.length + poly bits * X ^ 32) %ₘ generator := by
  obtain ⟨q, hq⟩ := exists_code_foldl r bits
  have hdegree : (code (bits.foldl feedBit r)).degree < generator.degree := by
    rw [degree_generator]
    exact degree_code_lt _
  exact (div_modByMonic_unique q _ generator_monic ⟨hq, hdegree⟩).2.symm

/-- The cyclic redundancy code of a text is what is left of it when it is
divided by the generator. The first bits of the text, and the remainder,
are complemented; the text is followed by as many powers as a word has. -/
def IsCode (bytes : Bytes) (w : UInt32) : Prop :=
  let text := bytes.flatMap bitsOf
  let ones := code 0xFFFFFFFF
  code w =
    (ones * X ^ text.length + poly text * X ^ 32) %ₘ generator + ones

/-- **The checksum of a text**, as it is defined bit by bit, is the code of
the text, and nothing else is. -/
theorem isCode_iff {bytes : Bytes} {w : UInt32} :
    IsCode bytes w ↔ w = serial bytes := by
  have hserial : IsCode bytes (serial bytes) := by
    unfold IsCode serial
    rw [code_xor, code_foldl]
  constructor
  · intro h
    exact code_injective (h.trans hserial.symm)
  · rintro rfl
    exact hserial

/-- The checksum of the nine digits. -/
example : serial [0x31, 0x32, 0x33, 0x34, 0x35, 0x36, 0x37, 0x38, 0x39] =
    0xCBF43926 := by decide +kernel

end Stripe.Checksum
