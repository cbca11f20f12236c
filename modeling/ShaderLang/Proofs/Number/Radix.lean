import Mathlib.Data.List.Forall2
import Mathlib.Data.Nat.Digits.Defs
import ShaderLang.Proofs.Number.Decimal
import ShaderLang.Proofs.Text.Trim
import ShaderLang.Source.Define
/-!
# Integers in two bases

Integers are written in decimal, or in hexadecimal behind `0x` or `0X`. A row of digits has the
value of its digits by their positions, whatever the case of its letters and however many zeros
stand in front. A minus sign stands in front of everything; where an expression is read, the sign
of a hexadecimal integer stands behind its mark instead.

## Main definitions

* `Number.IsDigit`, `Number.Row` — what digits and rows of digits stand for
* `Number.Spelling` — an integer as it is written
* `Number.Denotes` — the integer that an expression writes

## Main results

* `Number.natural?_eq_some_iff_row` — a row of digits is read as its value, and nothing else is read
* `Number.expression?_eq_some_iff` — an expression is read as the integer that it writes
* `Number.Spelling.expression?_text` — which spellings are expressions
-/

namespace ShaderLang.Number

section

variable {base v n : Nat} {c : Char} {cs : List Char} {lo hi k : Int}

/-! ## Digits -/

/-- The digits in ascending order, with small letters. -/
def smallDigits : List Char :=
  ['0', '1', '2', '3', '4', '5', '6', '7', '8', '9', 'a', 'b', 'c', 'd', 'e', 'f']

/-- The digits in ascending order, with capitals. -/
def capitalDigits : List Char :=
  ['0', '1', '2', '3', '4', '5', '6', '7', '8', '9', 'A', 'B', 'C', 'D', 'E', 'F']

/-- The character is the digit of this value, in either case. -/
def IsDigit (c : Char) (v : Nat) : Prop := smallDigits[v]? = some c ∨ capitalDigits[v]? = some c

/-- The characters are a row of digits of a base, the highest one first, and write this number. -/
structure Row (base : Nat) (cs : List Char) (n : Nat) : Prop where
  ne_nil : cs ≠ []
  value : ∃ vs, List.Forall₂ IsDigit cs vs ∧ (∀ v ∈ vs, v < base) ∧ Nat.ofDigits base vs.reverse = n

/-- What is true of the digits in the rows is true of every digit. -/
theorem IsDigit.of_all {p : Nat → Char → Bool} (h : IsDigit c v) (hall : ∀ v < 16,
    (smallDigits[v]?.toList ++ capitalDigits[v]?.toList).all (p v) = true) : p v c = true := by
  have hlt : v < 16 := by
    rcases h with h | h <;> exact (List.getElem?_eq_some_iff.1 h).1
  refine List.all_eq_true.1 (hall v hlt) c ?_
  rcases h with h | h <;> simp [h]

/-- The numbers of digits as characters. -/
theorem isDigit_iff :
    IsDigit c v ↔ v < 10 ∧ c.toNat = 48 + v ∨
      (10 ≤ v ∧ v < 16) ∧ (c.toNat = 87 + v ∨ c.toNat = 55 + v) := by
  have hchar {m : Nat} (h : c.toNat = m) : Char.ofNat m = c := h ▸ Char.ofNat_toNat c
  have hdecimal : ∀ v < 10, smallDigits[v]? = some (Char.ofNat (48 + v)) := by decide
  have hletters : ∀ v < 16, 10 ≤ v → smallDigits[v]? = some (Char.ofNat (87 + v)) ∧
      capitalDigits[v]? = some (Char.ofNat (55 + v)) := by decide
  constructor
  · intro h
    exact of_decide_eq_true (h.of_all (p := fun v c => decide (v < 10 ∧ c.toNat = 48 + v ∨
      (10 ≤ v ∧ v < 16) ∧ (c.toNat = 87 + v ∨ c.toNat = 55 + v))) (by decide))
  · rintro (⟨hlt, hcode⟩ | ⟨⟨hlow, hhigh⟩, hcode | hcode⟩)
    · exact .inl (hchar hcode ▸ hdecimal v hlt)
    · exact .inl (hchar hcode ▸ (hletters v hhigh hlow).1)
    · exact .inr (hchar hcode ▸ (hletters v hhigh hlow).2)

theorem digit?_eq_some_iff (hbase : base ≤ 16) :
    digit? base c = some v ↔ IsDigit c v ∧ v < base := by
  rw [isDigit_iff]
  unfold digit?
  dsimp only
  rw [Option.ite_none_right_eq_some, Option.some.injEq]
  split
  · omega
  · split
    · omega
    · split <;> omega

/-- A digit is neither a sign nor a blank, and it can stand in a number. -/
theorem IsDigit.isAlphanum (h : IsDigit c v) : c.isAlphanum = true :=
  h.of_all (p := fun _ c => c.isAlphanum) (by decide)

/-! ## Rows of digits -/

theorem digits?_eq_some_iff_forall₂ (hbase : base ≤ 16) {acc : Nat} :
    digits? base cs acc = some n ↔ ∃ vs, List.Forall₂ IsDigit cs vs ∧ (∀ v ∈ vs, v < base) ∧
      vs.foldl (fun a v => a * base + v) acc = n := by
  induction cs generalizing acc with
  | nil => simp [digits?, List.forall₂_nil_left_iff]
  | cons c cs ih =>
    rw [digits?, Option.bind_eq_some_iff]
    constructor
    · rintro ⟨v, hv, hrest⟩
      obtain ⟨hdigit, hlt⟩ := (digit?_eq_some_iff hbase).1 hv
      obtain ⟨vs, hdigits, hall, hvalue⟩ := ih.1 hrest
      exact ⟨v :: vs, .cons hdigit hdigits, List.forall_mem_cons.2 ⟨hlt, hall⟩, hvalue⟩
    · rintro ⟨vs, hdigits, hall, hvalue⟩
      cases hdigits with
      | @cons _ v _ vs hdigit hdigits =>
        obtain ⟨hlt, hall⟩ := List.forall_mem_cons.1 hall
        exact ⟨v, (digit?_eq_some_iff hbase).2 ⟨hdigit, hlt⟩, ih.2 ⟨vs, hdigits, hall, hvalue⟩⟩

/-- Reading digits from the front adds them up by their positions. -/
theorem ofDigits_reverse (base : Nat) (vs : List Nat) :
    Nat.ofDigits base vs.reverse = vs.foldl (fun a v => a * base + v) 0 := by
  rw [Nat.ofDigits_eq_foldr, List.foldr_reverse]
  simp only [Nat.cast_id, Nat.add_comm, Nat.mul_comm]

/-- A row of digits is read as the number that it writes, and nothing else is read. -/
theorem natural?_eq_some_iff_row (hbase : base ≤ 16) :
    natural? base cs = some n ↔ Row base cs n := by
  cases cs with
  | nil => simpa [natural?] using fun h : Row base [] n => h.ne_nil rfl
  | cons c cs =>
    rw [natural?, digits?_eq_some_iff_forall₂ hbase]
    · simp only [← ofDigits_reverse]
      exact ⟨fun h => ⟨List.cons_ne_nil c cs, h⟩, Row.value⟩
    · exact List.cons_ne_nil c cs

theorem Row.isAlphanum (h : Row base cs n) : ∀ c ∈ cs, c.isAlphanum = true := by
  obtain ⟨-, vs, hdigits, -, -⟩ := h
  induction hdigits with
  | nil => exact nofun
  | cons hdigit _ ih => exact List.forall_mem_cons.2 ⟨hdigit.isAlphanum, ih⟩

/-- A row of digits starts with no sign. -/
theorem Row.head (h : Row base cs n) : cs.head? ≠ some '-' ∧ cs.head? ≠ some '+' := by
  constructor <;>
  · intro hsign
    exact absurd (h.isAlphanum _ (List.mem_of_head? hsign)) (by decide)

/-! ## Signs -/

/-- A number with a sign in front. -/
def signed (sign : List Char) (n : Nat) : Int := if sign = ['-'] then -(n : Int) else n

theorem integer?_of_row {sign ds : List Char} (hbase : base ≤ 16) (hsign : sign ∈ signs)
    (h : Row base ds n) : integer? base lo hi (sign ++ ds) = within? lo hi (signed sign n) := by
  have hn := (natural?_eq_some_iff_row hbase).2 h
  simp only [signs, List.mem_cons, List.not_mem_nil, or_false] at hsign
  rcases hsign with rfl | rfl | rfl
  · rw [List.nil_append, integer?, hn]
    · rfl
    · exact fun _ hds => h.head.1 (hds ▸ rfl)
    · exact fun _ hds => h.head.2 (hds ▸ rfl)
  · rw [List.singleton_append, integer?, hn]
    rfl
  · rw [List.singleton_append, integer?, hn]
    rfl

/-- An integer is read from an optional sign and a row of digits that write an integer within the
bounds, and from nothing else. -/
theorem integer?_eq_some_iff (hbase : base ≤ 16) :
    integer? base lo hi cs = some k ↔ ∃ sign ∈ signs, ∃ ds n, cs = sign ++ ds ∧ Row base ds n ∧
      k = signed sign n ∧ lo ≤ k ∧ k ≤ hi := by
  -- The three ways to read a number differ in the sign alone.
  have hread {sign ds : List Char} (hsign : sign ∈ signs) {value : Nat → Int}
      (hvalue : ∀ n, value n = signed sign n)
      (hk : (natural? base ds).bind (fun n => within? lo hi (value n)) = some k) :
      ∃ sign' ∈ signs, ∃ ds' n, sign ++ ds = sign' ++ ds' ∧ Row base ds' n ∧
        k = signed sign' n ∧ lo ≤ k ∧ k ≤ hi := by
    obtain ⟨n, hn, hwithin⟩ := Option.bind_eq_some_iff.1 hk
    obtain ⟨rfl, hlow, hhigh⟩ := within?_eq_some_iff.1 hwithin
    exact ⟨sign, hsign, ds, n, rfl, (natural?_eq_some_iff_row hbase).1 hn, hvalue n, hlow, hhigh⟩
  constructor
  · intro h
    unfold integer? at h
    split at h
    · exact @hread ['-'] _ (by decide) _ (fun n => (if_pos rfl).symm) h
    · exact @hread ['+'] _ (by decide) _ (fun n => (if_neg (by decide)).symm) h
    · exact @hread [] _ (by decide) _ (fun n => (if_neg (by decide)).symm) h
  · rintro ⟨sign, hsign, ds, n, rfl, hrow, rfl, hlow, hhigh⟩
    rw [integer?_of_row hbase hsign hrow]
    exact within?_eq_some_iff.2 ⟨rfl, hlow, hhigh⟩

/-! ## Expressions -/

/-- The marks of hexadecimal integers. -/
def hexMarks : List (List Char) := [['0', 'x'], ['0', 'X']]

/-- An integer of 64 bits. -/
def Fits64 (k : Int) : Prop := -9223372036854775808 ≤ k ∧ k ≤ 9223372036854775807

/-- The integer that an expression writes: a sign or none and decimal digits, or a mark, a sign or
none and hexadecimal digits. It is one of 64 bits. -/
inductive Denotes : List Char → Int → Prop
  | decimal {sign ds : List Char} {n : Nat} (hsign : sign ∈ signs) (h : Row 10 ds n)
      (hfits : Fits64 (signed sign n)) : Denotes (sign ++ ds) (signed sign n)
  | hexadecimal {mark sign ds : List Char} {n : Nat} (hmark : mark ∈ hexMarks)
      (hsign : sign ∈ signs) (h : Row 16 ds n) (hfits : Fits64 (signed sign n)) :
      Denotes (mark ++ (sign ++ ds)) (signed sign n)

/-- No decimal integer starts with a mark. -/
theorem Row.append_ne {sign ds mark : List Char} (h : Row 10 ds n) (hsign : sign ∈ signs)
    (hmark : mark ∈ hexMarks) (rest : List Char) : sign ++ ds ≠ mark ++ rest := by
  obtain ⟨-, hdigits, -⟩ := natural?_eq_some_iff.1 ((natural?_eq_some_iff_row (by decide)).2 h)
  simp only [signs, hexMarks, List.mem_cons, List.not_mem_nil, or_false] at hsign hmark
  intro heq
  rcases hsign with rfl | rfl | rfl
  · have hletter : ∀ c ∈ mark, c.isDigit = true := by
      intro c hc
      refine hdigits c ?_
      rw [List.nil_append] at heq
      exact heq ▸ List.mem_append_left rest hc
    -- The second character of a mark is a letter.
    rcases hmark with rfl | rfl
    · exact absurd (hletter 'x' (by decide)) (by decide)
    · exact absurd (hletter 'X' (by decide)) (by decide)
  · rcases hmark with rfl | rfl <;> exact absurd (List.cons.inj heq).1 (by decide)
  · rcases hmark with rfl | rfl <;> exact absurd (List.cons.inj heq).1 (by decide)

theorem read64_eq_some_iff (hbase : base ≤ 16) :
    read64 base cs = some k ↔ ∃ sign ∈ signs, ∃ ds n, cs = sign ++ ds ∧ Row base ds n ∧
      k = signed sign n ∧ Fits64 k := integer?_eq_some_iff hbase

/-- Behind a mark there is a sign or none and hexadecimal digits. -/
theorem read64_eq_some_iff_denotes {mark ds : List Char} (hmark : mark ∈ hexMarks) :
    read64 16 ds = some k ↔ Denotes (mark ++ ds) k := by
  rw [read64_eq_some_iff (by decide)]
  constructor
  · rintro ⟨sign, hsign, ds', n, rfl, hrow, rfl, hfits⟩
    exact .hexadecimal hmark hsign hrow hfits
  · intro h
    generalize htext : mark ++ ds = text at h
    cases h with
    | decimal hsign hrow => exact absurd htext.symm (hrow.append_ne hsign hmark ds)
    | @hexadecimal mark' sign ds' n hmark' hsign hrow hfits =>
      obtain rfl : ds = sign ++ ds' := by
        have hlength : ∀ m ∈ hexMarks, m.length = 2 := by decide
        exact (List.append_inj htext ((hlength _ hmark).trans (hlength _ hmark').symm)).2
      exact ⟨sign, hsign, ds', n, rfl, hrow, rfl, hfits⟩

/-- An expression is read as the integer that it writes, without the blanks around it. -/
theorem expression?_eq_some_iff : expression? cs = some k ↔ Denotes (Text.trim cs) k := by
  unfold expression?
  split
  · next ds htext =>
    rw [htext]
    exact @read64_eq_some_iff_denotes _ ['0', 'x'] ds (by decide)
  · next ds htext =>
    rw [htext]
    exact @read64_eq_some_iff_denotes _ ['0', 'X'] ds (by decide)
  · next hsmall hcapital =>
    rw [read64_eq_some_iff (by decide)]
    constructor
    · rintro ⟨sign, hsign, ds, n, htext, hrow, rfl, hfits⟩
      rw [htext]
      exact .decimal hsign hrow hfits
    · intro h
      generalize Text.trim cs = text at h hsmall hcapital
      cases h with
      | @decimal sign ds n hsign hrow hfits => exact ⟨sign, hsign, ds, n, rfl, hrow, rfl, hfits⟩
      | hexadecimal hmark =>
        -- Such a text has been read already.
        simp only [hexMarks, List.mem_cons, List.not_mem_nil, or_false] at hmark
        rcases hmark with rfl | rfl
        · exact absurd rfl (hsmall _)
        · exact absurd rfl (hcapital _)

end

/-! ## Spellings -/

/-- How the digits of an integer are marked: not at all, or with `0x` or `0X`. -/
inductive Radix
  | decimal
  | hexadecimal (capital : Bool)
  deriving DecidableEq

namespace Radix

def base : Radix → Nat
  | decimal => 10
  | hexadecimal _ => 16

def mark : Radix → List Char
  | decimal => []
  | hexadecimal capital => ['0', if capital then 'X' else 'x']

theorem base_le (radix : Radix) : radix.base ≤ 16 := by
  cases radix <;> simp [base]

end Radix

/-- An integer as it is written: a minus sign or none, the mark of its base, and digits. -/
structure Spelling where
  negative : Bool
  radix : Radix
  digits : List Char
  magnitude : Nat
  row : Row radix.base digits magnitude

namespace Spelling

/-- The spelling of digits that are read as a number. -/
def ofRead (negative : Bool) (radix : Radix) (digits : List Char) (n : Nat)
    (h : natural? radix.base digits = some n) : Spelling :=
  ⟨negative, radix, digits, n, (natural?_eq_some_iff_row radix.base_le).1 h⟩

def sign (w : Spelling) : List Char := if w.negative then ['-'] else []

def text (w : Spelling) : List Char := w.sign ++ (w.radix.mark ++ w.digits)

def value (w : Spelling) : Int := if w.negative then -(w.magnitude : Int) else w.magnitude

variable (w : Spelling)

theorem sign_mem : w.sign ∈ signs := by
  unfold sign
  split <;> decide

theorem signed_sign : signed w.sign w.magnitude = w.value := by
  unfold signed sign value
  cases w.negative <;> rfl

/-- Behind its sign an integer has letters and digits only. -/
theorem isAlphanum_marked : ∀ c ∈ w.radix.mark ++ w.digits, c.isAlphanum = true := by
  have hmark : ∀ radix : Radix, ∀ c ∈ radix.mark, c.isAlphanum = true := by
    rintro (_ | _ | _) <;> exact List.all_eq_true.1 (by decide)
  exact List.forall_mem_append.2 ⟨hmark w.radix, w.row.isAlphanum⟩

/-- No blanks are part of an integer. -/
theorem trim_text : Text.trim w.text = w.text := by
  have hblank : ∀ c ∈ w.text, Text.isBlank c = false := by
    refine List.forall_mem_append.2 ⟨?_, fun c hc => ?_⟩
    · unfold sign
      split
      · exact List.forall_mem_singleton.2 (by decide)
      · exact nofun
    · exact Text.isBlank_of_isNameChar (by simp [Text.isNameChar, w.isAlphanum_marked c hc])
  exact Text.trim_eq_self (fun c hc => hblank c (List.mem_of_head? hc))
    fun c hc => hblank c (List.mem_of_getLast? hc)

/-- A spelling is an expression if it writes an integer of 64 bits, unless a minus sign stands in
front of a mark. -/
theorem expression?_text : expression? w.text =
    if w.negative = true ∧ w.radix ≠ .decimal then none
    else within? (-9223372036854775808) 9223372036854775807 w.value := by
  unfold expression?
  rw [w.trim_text]
  cases hradix : w.radix with
  | decimal =>
    have hrow : Row 10 w.digits w.magnitude := by simpa [hradix, Radix.base] using w.row
    have htext : w.text = w.sign ++ w.digits := by rw [text, hradix, Radix.mark, List.nil_append]
    have hsmall := hrow.append_ne w.sign_mem (show ['0', 'x'] ∈ hexMarks by decide)
    have hcapital := hrow.append_ne w.sign_mem (show ['0', 'X'] ∈ hexMarks by decide)
    rw [if_neg (fun h => h.2 rfl), ← w.signed_sign, htext]
    split
    · next heq => exact absurd heq (hsmall _)
    · next heq => exact absurd heq (hcapital _)
    · exact integer?_of_row (by decide) w.sign_mem hrow
  | hexadecimal capital =>
    have hrow : Row 16 w.digits w.magnitude := by simpa [hradix, Radix.base] using w.row
    have htext : w.text = w.sign ++ '0' :: (if capital then 'X' else 'x') :: w.digits := by
      rw [text, hradix, Radix.mark]
      rfl
    cases hnegative : w.negative with
    | false =>
      have hsign : w.sign = [] := by simp [sign, hnegative]
      have hread : read64 16 w.digits =
          within? (-9223372036854775808) 9223372036854775807 w.value := by
        rw [← w.signed_sign, hsign]
        exact integer?_of_row (by decide) (List.mem_cons_self) hrow
      rw [if_neg (fun h => Bool.false_ne_true h.1), ← hread, htext, hsign]
      cases capital <;> rfl
    | true =>
      -- The text starts with the sign, so that it is read in decimal, and a mark is no digit.
      have hsign : w.sign = ['-'] := by simp [sign, hnegative]
      rw [if_pos ⟨rfl, nofun⟩, htext, hsign]
      cases capital <;> rfl

end Spelling

end ShaderLang.Number
