import ShaderLang.Number.Word
import ShaderLang.Table
/-!
# Layouts

How values lie in a row of bytes. A layout writes a value, and reads one from the front of a row.
Numbers have a fixed width and their lowest byte first; a list is led by its length in eight bytes,
and one of several alternatives by its number in four. Nothing marks where a value ends: its layout
knows.

## Main definitions

* `Layout` — how the values of a type are written and read
* `Layout.Faithful` — what was written is read back, and no byte more
* `Layout.natural`, `Layout.text`, `Layout.pair`, `Layout.list`, `Layout.oneOf`, … — layouts, and
  layouts made of layouts

## Main results

* `Layout.faithful_pair`, `Layout.faithful_list`, … — layouts made of faithful layouts are faithful
* `Layout.holds_integer` — which numbers fit
-/

namespace ShaderLang

/-- How the values of a type are written and read. -/
structure Layout (α : Type) where
  write : α → List UInt8
  /-- The value at the front of a row, and the bytes behind it. -/
  read? : List UInt8 → Option (α × List UInt8)
  /-- The values that fit: a number may be too wide for its bytes. -/
  holds : α → Prop

namespace Layout

variable {α β : Type}

/-- A value that fits is read back, and the bytes behind it are left. -/
def Faithful (l : Layout α) : Prop :=
  ∀ a rest, l.holds a → l.read? (l.write a ++ rest) = some (a, rest)

/-- No value fits. -/
def void : Layout α := ⟨fun _ => [], fun _ => none, fun _ => False⟩

/-- Nothing to be told, in no bytes. -/
def empty : Layout Unit := ⟨fun _ => [], fun bytes => some ((), bytes), fun _ => True⟩

theorem faithful_empty : empty.Faithful := fun _ _ _ => rfl

/-- One layout behind another. -/
def pair (l : Layout α) (m : Layout β) : Layout (α × β) where
  write a := l.write a.1 ++ m.write a.2
  read? bytes := do
    let (a, bytes) ← l.read? bytes
    let (b, bytes) ← m.read? bytes
    return ((a, b), bytes)
  holds a := l.holds a.1 ∧ m.holds a.2

theorem faithful_pair {l : Layout α} {m : Layout β} (hl : l.Faithful) (hm : m.Faithful) :
    (l.pair m).Faithful := by
  rintro ⟨a, b⟩ rest ⟨ha, hb⟩
  simp only [pair, List.append_assoc, hl a _ ha, hm b rest hb, Option.bind_eq_bind,
    Option.bind_some]
  rfl

/-- A value laid out as another one that stands for it. -/
def via (l : Layout β) (encode : α → β) (decode : β → α) : Layout α where
  write a := l.write (encode a)
  read? bytes := (l.read? bytes).map fun r => (decode r.1, r.2)
  holds a := decode (encode a) = a ∧ l.holds (encode a)

theorem faithful_via {l : Layout β} {encode : α → β} {decode : β → α} (hl : l.Faithful) :
    (l.via encode decode).Faithful := by
  rintro a rest ⟨hback, ha⟩
  simp only [via, hl _ rest ha, Option.map_some, hback]

/-! ## Numbers -/

/-- One byte. -/
def byte : Layout UInt8 where
  write b := [b]
  read?
    | [] => none
    | b :: bytes => some (b, bytes)
  holds _ := True

theorem faithful_byte : byte.Faithful := fun _ _ _ => rfl

/-- A number in the first bytes of a row, the lowest first. -/
def readNatural? : Nat → List UInt8 → Option (Nat × List UInt8)
  | 0, bytes => some (0, bytes)
  | _ + 1, [] => none
  | count + 1, b :: bytes => (readNatural? count bytes).map fun r => (b.toNat + 256 * r.1, r.2)

/-- A number in a fixed count of bytes. -/
def natural (count : Nat) : Layout Nat where
  write n := Word.littleEndian count n
  read? := readNatural? count
  holds n := n < Word.limit count

theorem faithful_natural (count : Nat) : (natural count).Faithful := by
  intro n rest hn
  simp only [natural] at hn ⊢
  induction count generalizing n with
  | zero =>
    obtain rfl : n = 0 := Nat.lt_one_iff.1 hn
    rfl
  | succ count ih =>
    have hdiv : n / 256 < Word.limit count := Nat.div_lt_of_lt_mul hn
    simp only [Word.littleEndian, List.cons_append, readNatural?, ih (n / 256) hdiv,
      Option.map_some]
    have hbyte : (UInt8.ofNat (n % 256)).toNat = n % 256 := by simp
    rw [hbyte, Nat.mod_add_div]

/-- A truth value in a byte. -/
def bool : Layout Bool where
  write b := [if b then 1 else 0]
  read?
    | 0 :: bytes => some (false, bytes)
    | 1 :: bytes => some (true, bytes)
    | _ => none
  holds _ := True

theorem faithful_bool : bool.Faithful := by
  intro b rest _
  cases b <;> rfl

/-- A word of 32 bits. -/
def word : Layout UInt32 := (natural 4).via UInt32.toNat UInt32.ofNat

/-- A signed number of 32 bits. One below zero is laid out as what it lacks to the next power of
two. -/
def integer : Layout Int :=
  (natural 4).via (fun n => (n % 4294967296).toNat)
    fun n => if n < 2147483648 then n else (n : Int) - 4294967296

theorem faithful_integer : integer.Faithful := faithful_via (faithful_natural 4)

/-- The signed numbers of 32 bits are those that fit. -/
theorem holds_integer {n : Int} : integer.holds n ↔ -2147483648 ≤ n ∧ n ≤ 2147483647 := by
  simp only [integer, via, natural, Word.limit_four]
  constructor
  · rintro ⟨hof, -⟩
    split at hof <;> omega
  · rintro ⟨hlow, hhigh⟩
    refine ⟨?_, by omega⟩
    split <;> omega

/-! ## Rows -/

/-- Reads as many values as are asked for. -/
def readMany? (l : Layout α) : Nat → List UInt8 → Option (List α × List UInt8)
  | 0, bytes => some ([], bytes)
  | count + 1, bytes => do
    let (a, bytes) ← l.read? bytes
    let (as, bytes) ← readMany? l count bytes
    return (a :: as, bytes)

theorem readMany?_flatMap {l : Layout α} (hl : l.Faithful) (as : List α) (rest : List UInt8)
    (h : ∀ a ∈ as, l.holds a) :
    l.readMany? as.length (as.flatMap l.write ++ rest) = some (as, rest) := by
  induction as with
  | nil => rfl
  | cons a as ih =>
    simp only [List.flatMap_cons, List.append_assoc, List.length_cons, readMany?,
      hl a _ (h a List.mem_cons_self), ih fun b hb => h b (List.mem_cons_of_mem a hb),
      Option.bind_eq_bind, Option.bind_some]
    rfl

/-- A list, led by its length. -/
def list (l : Layout α) : Layout (List α) where
  write as := (natural 8).write as.length ++ as.flatMap l.write
  read? bytes := do
    let (count, bytes) ← (natural 8).read? bytes
    l.readMany? count bytes
  holds as := (natural 8).holds as.length ∧ ∀ a ∈ as, l.holds a

theorem faithful_list {l : Layout α} (hl : l.Faithful) : l.list.Faithful := by
  rintro as rest ⟨hlength, has⟩
  simp only [list, List.append_assoc, faithful_natural 8 as.length _ hlength,
    Option.bind_eq_bind, Option.bind_some]
  exact readMany?_flatMap hl as rest has

/-- As many values as the type says. -/
def vector (l : Layout α) (count : Nat) : Layout (Vector α count) where
  write as := as.toList.flatMap l.write
  read? bytes := do
    let (as, bytes) ← l.readMany? count bytes
    if h : as.length = count then some (⟨as.toArray, by simpa using h⟩, bytes) else none
  holds as := ∀ a ∈ as.toList, l.holds a

theorem faithful_vector {l : Layout α} (hl : l.Faithful) (count : Nat) :
    (l.vector count).Faithful := by
  intro as rest has
  have hmany := readMany?_flatMap hl as.toList rest has
  rw [Vector.length_toList] at hmany
  simp only [vector, hmany, Option.bind_eq_bind, Option.bind_some, Vector.length_toList,
    dite_true]
  rfl

/-- A value or none, led by a byte that tells. -/
def option (l : Layout α) : Layout (Option α) where
  write
    | none => bool.write false
    | some a => bool.write true ++ l.write a
  read? bytes := do
    let (there, bytes) ← bool.read? bytes
    if there then (l.read? bytes).map fun r => (some r.1, r.2) else some (none, bytes)
  holds a := ∀ b ∈ a, l.holds b

theorem faithful_option {l : Layout α} (hl : l.Faithful) : l.option.Faithful := by
  rintro (_ | a) rest ha
  · rfl
  · simp only [option, List.append_assoc, faithful_bool true _ trivial, Option.bind_eq_bind,
      Option.bind_some, hl a rest (ha a rfl), Option.map_some, if_true]

/-- A row of bytes, led by its length. -/
def bytes : Layout (List UInt8) := byte.list

theorem faithful_bytes : bytes.Faithful := faithful_list faithful_byte

/-- A text in its encoded bytes, led by their count. -/
def text : Layout String where
  write s := bytes.write s.toUTF8.data.toList
  read? row := do
    let (encoded, row) ← bytes.read? row
    (String.fromUTF8? ⟨encoded.toArray⟩).map (·, row)
  holds s := bytes.holds s.toUTF8.data.toList

theorem faithful_text : text.Faithful := by
  intro s rest hs
  simp only [text, faithful_bytes _ rest hs, Option.bind_eq_bind, Option.bind_some,
    Array.toArray_toList]
  exact congrArg (Option.map (·, rest))
    (dif_pos s.isValidUTF8 : String.fromUTF8? s.toUTF8 = some s)

/-- A table: its entries in ascending order of their names. -/
def table (l : Layout α) : Layout (Table α) := (text.pair l).list.via (·.entries) Table.ofList

/-! ## Alternatives -/

/-- One of the listed values, by its position in the list. -/
def oneOf [DecidableEq α] (all : List α) : Layout α where
  write a := (natural 4).write (all.idxOf a)
  read? bytes := do
    let (i, bytes) ← (natural 4).read? bytes
    all[i]?.map (·, bytes)
  holds a := a ∈ all ∧ (natural 4).holds (all.idxOf a)

theorem faithful_oneOf [DecidableEq α] (all : List α) : (oneOf all).Faithful := by
  rintro a rest ⟨ha, hi⟩
  simp only [oneOf, faithful_natural 4 _ rest hi, Option.bind_eq_bind, Option.bind_some]
  rw [List.getElem?_eq_getElem (List.idxOf_lt_length_of_mem ha), List.getElem_idxOf]
  rfl

/-- One of several alternatives, led by its number. -/
def tagged (tag : α → Nat) (alternative? : Nat → Option (Layout α)) : Layout α where
  write a := (natural 4).write (tag a) ++ ((alternative? (tag a)).getD void).write a
  read? bytes := do
    let (n, bytes) ← (natural 4).read? bytes
    ((alternative? n).getD void).read? bytes
  holds a := (natural 4).holds (tag a) ∧ ((alternative? (tag a)).getD void).holds a

end Layout
end ShaderLang
