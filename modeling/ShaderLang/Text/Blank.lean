/-!
# Blanks

The blank characters of a source text and the cuts that are made at them. A blank is a character
with the Unicode property `White_Space`; there are 25 of them.

## Main definitions

* `Text.isBlank` — the property, as a test
* `Text.trim`, `Text.trimStart`, `Text.trimEnd` — a text without its outer blanks
* `Text.splitWord` — the first word of a text and what follows it
-/

namespace ShaderLang.Text

/-- A blank is one of the 25 characters with the property `White_Space`. -/
def isBlank (c : Char) : Bool :=
  let n := c.toNat
  (9 ≤ n && n ≤ 13) || n == 32 || n == 0x85 || n == 0xA0 || n == 0x1680 ||
    (0x2000 ≤ n && n ≤ 0x200A) || n == 0x2028 || n == 0x2029 || n == 0x202F || n == 0x205F ||
    n == 0x3000

/-- The text from its first character that is not blank. -/
def trimStart (cs : List Char) : List Char := cs.dropWhile isBlank

/-- The text up to its last character that is not blank. -/
def trimEnd (cs : List Char) : List Char := (cs.reverse.dropWhile isBlank).reverse

/-- The text without the blanks around it. -/
def trim (cs : List Char) : List Char := trimEnd (trimStart cs)

/-- The text without the blanks around it. -/
def trimmed (s : String) : String := String.ofList (trim s.toList)

/-- A text splits into the word before its first blank and the trimmed text after it. -/
def splitWord (cs : List Char) : List Char × List Char :=
  (cs.takeWhile (fun c => !isBlank c), trim (cs.dropWhile (fun c => !isBlank c)))

@[simp] theorem trim_nil : trim [] = [] := rfl

end ShaderLang.Text
