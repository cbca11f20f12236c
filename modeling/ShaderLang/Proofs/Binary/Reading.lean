import ShaderLang.Binary.Layout
import Mathlib.Tactic.MkIffOfInductiveProp
/-!
# Values of a kind in bytes

Which values a layout reads back, told by a predicate of the reader's own and not by the one that
the layout was made with. A layout that is made of layouts reads back what its parts do.

## Main definitions

* `Signed32`, `Unsigned32`, `Spelled`, `Listed`, `Tabled` — numbers, texts, lists and tables whose
  machine words are wide enough
* `Layout.Reads` — the values of a kind are read back, and no byte more

## Main results

* `Layout.Reads.pair`, `Layout.Reads.list`, `Layout.Reads.via`, `Layout.Reads.tagged` — layouts made
  of layouts
-/

namespace ShaderLang

/-! ## Values that fit their words -/

/-- A signed number of 32 bits. -/
def Signed32 (n : Int) : Prop := -2147483648 ≤ n ∧ n ≤ 2147483647

/-- A number of 32 bits without a sign. -/
def Unsigned32 (n : Nat) : Prop := n < Word.limit 4

/-- A list of values of a kind, whose length is a number of 64 bits. -/
@[mk_iff]
structure Listed {α : Type} (P : α → Prop) (as : List α) : Prop where
  length_lt : as.length < Word.limit 8
  each : ∀ a ∈ as, P a

/-- A text whose encoded length is a number of 64 bits. -/
def Spelled (s : String) : Prop := s.utf8ByteSize < Word.limit 8

/-- A table of values of a kind. -/
def Tabled {α : Type} (P : α → Prop) (t : Table α) : Prop :=
  Listed (fun e => Spelled e.1 ∧ P e.2) t.entries

section Decisions

variable {α : Type} {P : α → Prop} [DecidablePred P]

instance : DecidablePred Signed32 := fun _ => inferInstanceAs (Decidable (_ ∧ _))

instance : DecidablePred Unsigned32 := fun _ => inferInstanceAs (Decidable (_ < Word.limit 4))

instance : DecidablePred Spelled := fun _ => inferInstanceAs (Decidable (_ < Word.limit 8))

instance : DecidablePred (Listed P) := fun as => decidable_of_iff _ (listed_iff P as).symm

instance : DecidablePred (Tabled P) := fun t =>
  inferInstanceAs (Decidable (Listed (fun e => Spelled e.1 ∧ P e.2) t.entries))

end Decisions

/-! ## Reading values of a kind -/

namespace Layout

variable {α β : Type} {l : Layout α} {m : Layout β} {P : α → Prop} {Q : β → Prop}

/-- The same bytes, for values of a kind. -/
def restrict (l : Layout α) (P : α → Prop) : Layout α := { l with holds := P }

@[simp] theorem read?_restrict : (l.restrict P).read? = l.read? := rfl

@[simp] theorem write_restrict : (l.restrict P).write = l.write := rfl

/-- The values of a kind are read back, and the bytes behind them are left. -/
def Reads (l : Layout α) (P : α → Prop) : Prop := (l.restrict P).Faithful

/-- All values are read back. -/
abbrev ReadsAll (l : Layout α) : Prop := l.Reads fun _ => True

theorem holds_natural {count n : Nat} : (natural count).holds n ↔ n < Word.limit count := Iff.rfl

theorem Reads.read?_write_append (h : l.Reads P) {a : α} (ha : P a) (rest : List UInt8) :
    l.read? (l.write a ++ rest) = some (a, rest) := h a rest ha

theorem Reads.pair (hl : l.Reads P) (hm : m.Reads Q) :
    (l.pair m).Reads fun a => P a.1 ∧ Q a.2 := faithful_pair hl hm

theorem readMany?_restrict (count : Nat) :
    (l.restrict P).readMany? count = l.readMany? count := by
  funext bytes
  induction count generalizing bytes with
  | zero => rfl
  | succ count ih => simp only [readMany?, ih, read?_restrict]

theorem Reads.list (h : l.Reads P) : l.list.Reads (Listed P) := by
  intro as rest has
  have hread := faithful_list h as rest ⟨holds_natural.2 has.length_lt, has.each⟩
  simp only [Layout.list, readMany?_restrict] at hread
  exact hread

theorem Reads.vector (h : l.Reads P) (count : Nat) :
    (l.vector count).Reads fun as => ∀ a ∈ as.toList, P a := by
  intro as rest has
  have hread := faithful_vector h count as rest has
  simp only [Layout.vector, readMany?_restrict] at hread
  exact hread

theorem Reads.option (h : l.Reads P) : l.option.Reads fun a => ∀ b ∈ a, P b := faithful_option h

/-- A value is read back through another one that stands for it. -/
theorem Reads.via {encode : β → α} {decode : α → β} (h : l.Reads P)
    (hback : ∀ b, Q b → decode (encode b) = b ∧ P (encode b)) :
    (l.via encode decode).Reads Q :=
  fun b rest hb => faithful_via h b rest (hback b hb)

theorem reads_empty : empty.ReadsAll := faithful_empty

theorem reads_natural (count : Nat) : (natural count).Reads (· < Word.limit count) :=
  faithful_natural count

theorem reads_integer : integer.Reads Signed32 :=
  fun n rest hn => faithful_integer n rest (holds_integer.2 hn)

theorem reads_bool : bool.ReadsAll := faithful_bool

theorem reads_byte : byte.ReadsAll := faithful_byte

theorem reads_bytes : bytes.Reads (·.length < Word.limit 8) :=
  fun bs rest hbs => faithful_bytes bs rest ⟨holds_natural.2 hbs, fun _ _ => trivial⟩

theorem reads_word : word.ReadsAll :=
  Reads.via (reads_natural 4) fun w _ => ⟨UInt32.ofNat_toNat, w.toNat_lt⟩

theorem reads_text : text.Reads Spelled :=
  fun s rest hs => faithful_text s rest ⟨holds_natural.2 hs, fun _ _ => trivial⟩

theorem Reads.table (h : l.Reads P) : l.table.Reads (Tabled P) :=
  Reads.via (reads_text.pair h).list fun t ht => ⟨t.ofList_entries, ht⟩

/-- Alternatives are read back if all are listed. -/
theorem reads_oneOf [DecidableEq α] {all : List α} (hall : ∀ a, a ∈ all)
    (hlength : all.length ≤ Word.limit 4) : (oneOf all).ReadsAll := by
  intro a rest _
  have hindex : all.idxOf a < Word.limit 4 :=
    Nat.lt_of_lt_of_le (List.idxOf_lt_length_of_mem (hall a)) hlength
  exact faithful_oneOf all a rest ⟨hall a, hindex⟩

/-- An alternative is read back if its number fits and its own layout reads it. -/
theorem Reads.tagged {tag : α → Nat} {alternative? : Nat → Option (Layout α)}
    (htag : ∀ a, P a → tag a < Word.limit 4)
    (h : ∀ a, P a → ∃ l, alternative? (tag a) = some l ∧ l.Reads (· = a)) :
    (tagged tag alternative?).Reads P := by
  intro a rest ha
  obtain ⟨l, hl, hread⟩ := h a ha
  have hnumber := reads_natural 4 (tag a) (((alternative? (tag a)).getD void).write a ++ rest)
    (htag a ha)
  simp only [read?_restrict, write_restrict] at hnumber
  simp only [read?_restrict, write_restrict, Layout.tagged, List.append_assoc, hnumber,
    Option.bind_eq_bind, Option.bind_some]
  rw [hl]
  exact hread a rest rfl

end Layout
end ShaderLang
