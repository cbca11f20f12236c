import Mathlib.Data.List.DropRight
import ShaderLang.Text.Letters
/-!
# Trimmed texts and first words

What is left of a text without its outer blanks is a piece of it that neither starts nor ends with
a blank, and such a text is its own rest. A word is cut off at the blank behind it.

## Main results

* `Text.trim_eq_self`, `Text.trim_trim` — texts without outer blanks stay as they are
* `Text.trim_isInfix`, `Text.splitWord_isInfix` — nothing is added
* `Text.takeWhile_append_of_head`, `Text.splitWord_cons` — a word in front of what is no part of it
-/

namespace ShaderLang.Text

variable {cs w : List Char} {c : Char}

theorem trimEnd_eq_rdropWhile (cs : List Char) : trimEnd cs = cs.rdropWhile isBlank := rfl

theorem trim_isInfix (cs : List Char) : trim cs <:+: cs := by
  have hend : trim cs <+: trimStart cs := List.rdropWhile_prefix isBlank _
  have hstart : trimStart cs <:+ cs := List.dropWhile_suffix isBlank
  exact hend.isInfix.trans hstart.isInfix

theorem head_trim (h : (trim cs).head? = some c) : isBlank c = false := by
  have hend : trim cs <+: trimStart cs := List.rdropWhile_prefix isBlank _
  obtain ⟨rest, hrest⟩ := hend
  have hhead : (cs.dropWhile isBlank).head? = some c := by
    have happend : (trim cs ++ rest).head? = some c := by simp [h]
    rwa [hrest] at happend
  have hnot := List.head?_dropWhile_not isBlank cs
  rw [hhead] at hnot
  simpa using hnot

theorem last_trim (h : (trim cs).getLast? = some c) : isBlank c = false := by
  have hhead : ((trimStart cs).reverse.dropWhile isBlank).head? = some c := by
    rwa [trim, trimEnd, List.getLast?_reverse] at h
  have hnot := List.head?_dropWhile_not isBlank (trimStart cs).reverse
  rw [hhead] at hnot
  simpa using hnot

/-- A text without outer blanks stays as it is. -/
theorem trim_eq_self (hhead : ∀ c, cs.head? = some c → isBlank c = false)
    (hlast : ∀ c, cs.getLast? = some c → isBlank c = false) : trim cs = cs := by
  have hstart : trimStart cs = cs := by
    cases cs with
    | nil => rfl
    | cons c cs => simp [trimStart, hhead c rfl]
  rw [trim, hstart, trimEnd_eq_rdropWhile, List.rdropWhile_eq_self_iff]
  intro hne
  rw [hlast _ (List.getLast?_eq_getLast_of_ne_nil hne)]
  exact Bool.false_ne_true

theorem trim_trim (cs : List Char) : trim (trim cs) = trim cs :=
  trim_eq_self (fun _ => head_trim) fun _ => last_trim

theorem trim_cons_of_isBlank (hc : isBlank c = true) : trim (c :: cs) = trim cs := by
  rw [trim, trimStart, List.dropWhile_cons_of_pos hc]
  rfl

/-- Blanks lie apart from the letters, the digits and the underscore. -/
theorem isBlank_of_isNameChar (h : isNameChar c = true) : isBlank c = false := by
  have hcode : 48 ≤ c.toNat ∧ c.toNat ≤ 122 := by
    simp only [isNameChar, Char.isAlphanum, Bool.or_eq_true] at h
    rcases h with (halpha | hdigit) | hunderscore
    · obtain ⟨hlow, hhigh⟩ := toNat_of_isAlpha halpha
      omega
    · obtain ⟨hlow, hhigh⟩ : 48 ≤ c.toNat ∧ c.toNat ≤ 57 := Char.isDigit_iff_toNat.1 hdigit
      omega
    · rw [beq_iff_eq.1 hunderscore]
      decide
  simp only [isBlank, Bool.or_eq_false_iff, Bool.and_eq_false_iff, decide_eq_false_iff_not,
    beq_eq_false_iff_ne]
  omega

/-! ## Words -/

/-- Characters of one kind end in front of one of another kind. -/
theorem takeWhile_append_of_head {p : Char → Bool} (hw : ∀ c ∈ w, p c = true)
    (hcs : ∀ c, cs.head? = some c → p c = false) : (w ++ cs).takeWhile p = w := by
  have hnone : cs.takeWhile p = [] := by
    cases cs with
    | nil => rfl
    | cons c cs => exact List.takeWhile_cons_of_neg (by simp [hcs c rfl])
  rw [List.takeWhile_append_of_pos hw, hnone, List.append_nil]

theorem dropWhile_append_of_head {p : Char → Bool} (hw : ∀ c ∈ w, p c = true)
    (hcs : ∀ c, cs.head? = some c → p c = false) : (w ++ cs).dropWhile p = cs := by
  rw [List.dropWhile_append_of_pos hw]
  cases cs with
  | nil => rfl
  | cons c cs => exact List.dropWhile_cons_of_neg (by simp [hcs c rfl])

theorem splitWord_isInfix (cs : List Char) :
    (splitWord cs).1 <:+: cs ∧ (splitWord cs).2 <:+: cs := by
  refine ⟨(List.takeWhile_prefix _).isInfix, ?_⟩
  exact (trim_isInfix _).trans (List.dropWhile_suffix _).isInfix

/-- A word ends in front of a blank. -/
theorem splitWord_cons (hw : ∀ c ∈ w, isBlank c = false) (hc : isBlank c = true) :
    splitWord (w ++ c :: cs) = (w, trim (c :: cs)) := by
  have hword : ∀ c ∈ w, (!isBlank c) = true := fun c hmem => by simp [hw c hmem]
  have hend : ∀ d, (c :: cs).head? = some d → (!isBlank d) = false := by simp [hc]
  rw [splitWord, takeWhile_append_of_head hword hend, dropWhile_append_of_head hword hend]

theorem splitWord_of_word (hw : ∀ c ∈ w, isBlank c = false) : splitWord w = (w, []) := by
  have hword : ∀ c ∈ w, (!isBlank c) = true := fun c hmem => by simp [hw c hmem]
  simp [splitWord, List.takeWhile_eq_self_iff.2 hword, List.dropWhile_eq_nil_iff.2 hword]

end ShaderLang.Text
