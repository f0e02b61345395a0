/-!
# Words in network order

A word is written as a fixed number of bytes, the most significant first.
The main statements say that reading undoes writing (`ofBytes_bytes`) and
that every row of bytes is the written form of the number it reads as
(`bytes_ofBytes`), so a word has exactly one written form.
-/

namespace Stripe

/-- A row of octets: a payload, a header, or what is on a connection. -/
abbrev Bytes := List UInt8

namespace Word

/-- The `width` low-order bytes of `n`, most significant first. -/
def bytes : (width n : Nat) → Bytes
  | 0, _ => []
  | width + 1, n => bytes width (n / 256) ++ [UInt8.ofNat n]

/-- How many numbers can be written as `width` bytes. -/
def limit : (width : Nat) → Nat
  | 0 => 1
  | width + 1 => limit width * 256

/-- The number that a row of bytes stands for. -/
def ofBytes (bs : Bytes) : Nat :=
  bs.foldl (fun acc b => acc * 256 + b.toNat) 0

/-- Eight bytes hold the numbers of 64 bits. -/
theorem limit_eight : limit 8 = UInt64.size := rfl

@[simp] theorem length_bytes (width n : Nat) :
    (bytes width n).length = width := by
  induction width generalizing n with
  | zero => rfl
  | succ width ih => simp [bytes, ih]

@[simp] theorem ofBytes_nil : ofBytes [] = 0 := rfl

theorem ofBytes_concat (bs : Bytes) (b : UInt8) :
    ofBytes (bs ++ [b]) = ofBytes bs * 256 + b.toNat := by
  simp [ofBytes, List.foldl_append]

/-- Reading the written form gives the number back, modulo the width. -/
theorem ofBytes_bytes (width n : Nat) :
    ofBytes (bytes width n) = n % limit width := by
  induction width generalizing n with
  | zero => simp [bytes, limit, Nat.mod_one]
  | succ width ih =>
    have hb : (UInt8.ofNat n).toNat = n % 256 := by simp
    rw [bytes, ofBytes_concat, ih, hb, limit, Nat.mul_comm (limit width),
      Nat.mod_mul]
    omega

theorem foldl_lt (bs : Bytes) (acc : Nat) :
    bs.foldl (fun acc b => acc * 256 + b.toNat) acc <
      (acc + 1) * limit bs.length := by
  induction bs generalizing acc with
  | nil => simp [limit]
  | cons b bs ih =>
    have hb := b.toNat_lt
    calc (b :: bs).foldl (fun acc b => acc * 256 + b.toNat) acc
        < (acc * 256 + b.toNat + 1) * limit bs.length := ih _
      _ ≤ ((acc + 1) * 256) * limit bs.length :=
          Nat.mul_le_mul_right _ (by omega)
      _ = (acc + 1) * limit (b :: bs).length := by
          rw [List.length_cons, limit, Nat.mul_assoc, Nat.mul_comm 256]

theorem ofBytes_lt (bs : Bytes) : ofBytes bs < limit bs.length := by
  simpa [ofBytes] using foldl_lt bs 0

theorem bytes_foldl (bs : Bytes) (width acc : Nat) :
    bytes (width + bs.length)
        (bs.foldl (fun acc b => acc * 256 + b.toNat) acc) =
      bytes width acc ++ bs := by
  induction bs generalizing width acc with
  | nil => simp
  | cons b bs ih =>
    have hb := b.toNat_lt
    have hq : (acc * 256 + b.toNat) / 256 = acc := by omega
    have hr : UInt8.ofNat (acc * 256 + b.toNat) = b := by
      apply UInt8.toNat_inj.1
      simp only [UInt8.toNat_ofNat']
      omega
    have := ih (width + 1) (acc * 256 + b.toNat)
    have hw : width + (b :: bs).length = width + 1 + bs.length := by
      simp [Nat.add_comm, Nat.add_left_comm]
    rw [hw, List.foldl_cons, this, bytes, hq, hr, List.append_assoc]
    rfl

/-- Every row of bytes is the written form of the number it reads as. -/
theorem bytes_ofBytes (bs : Bytes) : bytes bs.length (ofBytes bs) = bs := by
  have := bytes_foldl bs 0 0
  rwa [Nat.zero_add] at this

end Word
end Stripe
