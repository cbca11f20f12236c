/-!
# Bytes of a text

Texts are lists of characters, but offsets into them count the bytes of their encoded form.

## Main definitions

* `Text.byteSize` — the number of bytes of a text
* `Text.dropBytes`, `Text.takeBytes` — the text behind a number of bytes, and the text up to there

## Main results

* `Text.dropBytes_byteSize_append`, `Text.takeBytes_byteSize_append` — a cut between two texts
-/

namespace ShaderLang.Text

/-- The number of bytes of a text. -/
def byteSize : List Char → Nat
  | [] => 0
  | c :: cs => c.utf8Size + byteSize cs

/-- The text behind a number of bytes. -/
def dropBytes : Nat → List Char → List Char
  | _, [] => []
  | 0, cs => cs
  | n, c :: cs => dropBytes (n - c.utf8Size) cs

/-- The text up to a number of bytes. -/
def takeBytes : Nat → List Char → List Char
  | _, [] => []
  | 0, _ => []
  | n, c :: cs => c :: takeBytes (n - c.utf8Size) cs

@[simp] theorem byteSize_append (cs ds : List Char) :
    byteSize (cs ++ ds) = byteSize cs + byteSize ds := by
  induction cs with
  | nil => simp [byteSize]
  | cons c cs ih => simp [byteSize, ih, Nat.add_assoc]

theorem dropBytes_zero (cs : List Char) : dropBytes 0 cs = cs := by cases cs <;> rfl

theorem takeBytes_zero (cs : List Char) : takeBytes 0 cs = [] := by cases cs <;> rfl

theorem dropBytes_byteSize_append (cs ds : List Char) :
    dropBytes (byteSize cs) (cs ++ ds) = ds := by
  induction cs with
  | nil => exact dropBytes_zero ds
  | cons c cs ih =>
    obtain ⟨n, hn⟩ := Nat.exists_eq_add_of_lt (Nat.add_pos_left c.utf8Size_pos (byteSize cs))
    rw [byteSize, hn, List.cons_append, dropBytes]
    · rw [← hn, Nat.add_sub_cancel_left, ih]
    · omega

theorem takeBytes_byteSize_append (cs ds : List Char) :
    takeBytes (byteSize cs) (cs ++ ds) = cs := by
  induction cs with
  | nil => exact takeBytes_zero ds
  | cons c cs ih =>
    obtain ⟨n, hn⟩ := Nat.exists_eq_add_of_lt (Nat.add_pos_left c.utf8Size_pos (byteSize cs))
    rw [byteSize, hn, List.cons_append, takeBytes]
    · rw [← hn, Nat.add_sub_cancel_left, ih]
    · omega

end ShaderLang.Text
