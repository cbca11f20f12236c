import Mathlib.Data.List.Forall2
import ShaderLang.Text.Letters
/-!
# Texts up to the case of letters

Two texts are the same up to the case of letters if they are so character by character: the two are
equal, or one is an ASCII capital and the other one its small letter. No other characters are
letters here, whatever other alphabets have capitals.

## Main definitions

* `Text.SameLetter`, `Text.SameUpToCase` — characters and texts that differ at most in case
* `Text.Uncapitalized` — a text without capitals

## Main results

* `Text.lower_eq_iff` — a text without capitals is another one in small letters just if the two are
  the same up to case
-/

namespace ShaderLang.Text

/-- A character is an ASCII capital. -/
def IsCapital (c : Char) : Prop := 'A'.toNat ≤ c.toNat ∧ c.toNat ≤ 'Z'.toNat

/-- The first character is an ASCII capital, and the second one its small letter, which comes 32
places further on. -/
def Capitalizes (c d : Char) : Prop := IsCapital c ∧ d.toNat = c.toNat + 32

/-- Two characters are equal, or one is a capital of the other. -/
def SameLetter (c d : Char) : Prop := c = d ∨ Capitalizes c d ∨ Capitalizes d c

/-- Two texts are the same letter by letter. -/
def SameUpToCase (s t : String) : Prop := List.Forall₂ SameLetter s.toList t.toList

/-- None of the characters is a capital. -/
def Uncapitalized (cs : List Char) : Prop := ∀ c ∈ cs, ¬ IsCapital c

instance (c : Char) : Decidable (IsCapital c) := inferInstanceAs (Decidable (_ ∧ _))

-- The characters of the text are gone through, not all that there are.
instance (cs : List Char) : Decidable (Uncapitalized cs) := List.decidableBAll _ _

/-- A capital becomes its small letter, and all else stays. -/
theorem toNat_toLower (c : Char) :
    c.toLower.toNat = if IsCapital c then c.toNat + 32 else c.toNat := by
  delta Char.toLower
  by_cases h : IsCapital c
  · have hcase : c.val ≥ 'A'.val ∧ c.val ≤ 'Z'.val := h
    rw [dif_pos hcase, if_pos h]
    change (c.val + ('a'.val - 'A'.val)).toNat = c.val.toNat + 32
    rw [UInt32.toNat_add]
    have hhigh : c.val.toNat ≤ 90 := h.2
    have hshift : ('a'.val - 'A'.val).toNat = 32 := by decide
    omega
  · have hcase : ¬ (c.val ≥ 'A'.val ∧ c.val ≤ 'Z'.val) := h
    rw [dif_neg hcase, if_neg h]

/-- A character that is no capital is another one in small just if the two are the same letter. -/
theorem toLower_eq_iff {c d : Char} (hd : ¬ IsCapital d) : c.toLower = d ↔ SameLetter c d := by
  have hnot : ¬ Capitalizes d c := fun h => hd h.1
  rw [SameLetter, or_iff_left hnot, ← Char.toNat_inj, ← Char.toNat_inj, toNat_toLower, Capitalizes]
  by_cases hc : IsCapital c
  -- A capital is not the small character itself.
  · have hne : c.toNat ≠ d.toNat := fun heq => hd (Char.toNat_inj.1 heq ▸ hc)
    simp [hc, hne, eq_comm]
  · simp [hc]

theorem map_toLower_eq_iff {us vs : List Char} (h : Uncapitalized vs) :
    us.map Char.toLower = vs ↔ List.Forall₂ SameLetter us vs := by
  induction us generalizing vs with
  | nil => rw [List.map_nil, List.forall₂_nil_left_iff, eq_comm]
  | cons c us ih =>
    cases vs with
    | nil => simp
    | cons d vs =>
      obtain ⟨hd, hvs⟩ := List.forall_mem_cons.1 h
      rw [List.map_cons, List.cons.injEq, toLower_eq_iff hd, ih hvs, List.forall₂_cons]

/-- A text without capitals is another one in small letters just if the two are the same up to
case. -/
theorem lower_eq_iff {s t : String} (h : Uncapitalized t.toList) :
    lower s = t ↔ SameUpToCase s t := by
  rw [lower, ← String.toList_inj, String.toList_ofList, map_toLower_eq_iff h, SameUpToCase]

end ShaderLang.Text
