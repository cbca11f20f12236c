import ShaderLang.Text.Blank
/-!
# Letters

Classes of ASCII characters that names and numbers are made of, and the cutting of a name out of a
text.

## Main definitions

* `Text.isNameStart`, `Text.isNameChar` — what a name starts with and goes on with
* `Text.isName` — a whole text that is a name
* `Text.lower` — ASCII letters written small, all else unchanged
* `Text.small`, `Text.capitals` — one case, where other letters may become ASCII ones
-/

namespace ShaderLang.Text

/-- A name starts with an ASCII letter or an underscore. -/
def isNameStart (c : Char) : Bool := c.isAlpha || c == '_'

/-- A name goes on with ASCII letters, digits and underscores. -/
def isNameChar (c : Char) : Bool := c.isAlphanum || c == '_'

/-- A name is a nonempty text of name characters that does not start with a digit. -/
def isName : List Char → Bool
  | [] => false
  | c :: cs => isNameStart c && cs.all isNameChar

/-- The text with its ASCII capitals written small. -/
def lower (s : String) : String := String.ofList (s.toList.map Char.toLower)

/-- A letter written small, as far as that gives an ASCII letter: the Kelvin sign is a `k`. -/
def smallLetter (c : Char) : Char := if c = '\u212a' then 'k' else c.toLower

/-- The text written in small letters, as far as that gives ASCII letters. -/
def small (s : String) : String := String.ofList (s.toList.map smallLetter)

/-- The capital form of a character, as far as that holds ASCII letters: some characters have
several letters in it. -/
def capitalForm (c : Char) : List Char :=
  match c with
  | '\u00df' => ['S', 'S']
  | '\u0131' => ['I']
  | '\u0149' => ['\u02bc', 'N']
  | '\u017f' => ['S']
  | '\u01f0' => ['J', '\u030c']
  | '\u1e96' => ['H', '\u0331']
  | '\u1e97' => ['T', '\u0308']
  | '\u1e98' => ['W', '\u030a']
  | '\u1e99' => ['Y', '\u030a']
  | '\u1e9a' => ['A', '\u02be']
  | '\ufb00' => ['F', 'F']
  | '\ufb01' => ['F', 'I']
  | '\ufb02' => ['F', 'L']
  | '\ufb03' => ['F', 'F', 'I']
  | '\ufb04' => ['F', 'F', 'L']
  | '\ufb05' => ['S', 'T']
  | '\ufb06' => ['S', 'T']
  | c => [c.toUpper]

/-- The text written in capitals, as far as that gives ASCII letters. -/
def capitals (cs : List Char) : List Char := cs.flatMap capitalForm

/-- `dropPrefix? p s` is what follows `p` in `s`, if `s` starts with `p`. -/
def dropPrefix? : List Char → List Char → Option (List Char)
  | [], s => some s
  | _ :: _, [] => none
  | p :: ps, c :: cs => if p == c then dropPrefix? ps cs else none

/-- `dropSuffix? p s` is what stands before `p` in `s`, if `s` ends in `p`. -/
def dropSuffix? (p s : List Char) : Option (List Char) :=
  (dropPrefix? p.reverse s.reverse).map List.reverse

/-- The numbers of letters. -/
theorem toNat_of_isAlpha {c : Char} (h : c.isAlpha = true) : 65 ≤ c.toNat ∧ c.toNat ≤ 122 := by
  have hval : c.val.toNat = c.toNat := rfl
  delta Char.isAlpha Char.isUpper Char.isLower at h
  simp only [Bool.or_eq_true, Bool.and_eq_true, decide_eq_true_eq, ge_iff_le,
    UInt32.le_iff_toNat_le] at h
  rcases h with ⟨hlow, hhigh⟩ | ⟨hlow, hhigh⟩
  · have hlow : 65 ≤ c.toNat := hlow
    have hhigh : c.toNat ≤ 90 := hhigh
    omega
  · have hlow : 97 ≤ c.toNat := hlow
    have hhigh : c.toNat ≤ 122 := hhigh
    omega

theorem isNameChar_of_isNameStart {c : Char} (h : isNameStart c = true) : isNameChar c = true := by
  simp only [isNameStart, isNameChar, Char.isAlphanum, Bool.or_eq_true] at *
  rcases h with h | h
  · exact Or.inl (Or.inl h)
  · exact Or.inr h

end ShaderLang.Text
