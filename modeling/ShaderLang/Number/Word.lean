/-!
# Machine words

Integers cut to eight and to 32 bits, and the bytes of words, the lowest first.

## Main definitions

* `Word.byte`, `Word.half` — the low bits of an integer
* `Word.limit` — how many numbers fit into a count of bytes
* `Word.wrap` — a number cut to 32 bits
* `Word.bytes32` — the bytes of a word
-/

namespace ShaderLang.Word

/-- The low eight bits of an integer. -/
def byte (n : Int) : UInt8 := UInt8.ofNat (n % 256).toNat

/-- The low 32 bits of an integer. -/
def half (n : Int) : UInt32 := UInt32.ofNat (n % 4294967296).toNat

/-- How many numbers fit into a count of bytes. -/
def limit : Nat → Nat
  | 0 => 1
  | count + 1 => 256 * limit count

/-- A number cut to 32 bits, as sums and products of words are. -/
def wrap (n : Nat) : Nat := n % limit 4

/-- The first bytes of a number, the lowest first. -/
def littleEndian : Nat → Nat → List UInt8
  | 0, _ => []
  | count + 1, n => UInt8.ofNat (n % 256) :: littleEndian count (n / 256)

/-- The bytes of a 32-bit word. -/
def bytes32 (w : UInt32) : List UInt8 := littleEndian 4 w.toNat

@[simp] theorem limit_four : limit 4 = 4294967296 := rfl

theorem wrap_of_lt {n : Nat} (h : n < limit 4) : wrap n = n := Nat.mod_eq_of_lt h

theorem wrap_add_wrap (m n : Nat) : wrap (wrap m + wrap n) = wrap (m + n) :=
  (Nat.add_mod m n _).symm

@[simp] theorem length_littleEndian (count n : Nat) : (littleEndian count n).length = count := by
  induction count generalizing n with
  | zero => rfl
  | succ count ih => simp [littleEndian, ih]

@[simp] theorem length_bytes32 (w : UInt32) : (bytes32 w).length = 4 := length_littleEndian 4 _

end ShaderLang.Word
