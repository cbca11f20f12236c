import ShaderLang.Text.Bytes
/-!
# Scopes

The scopes of a program text. What lies inside braces is blanked, so that only the top level is
left to read; the offsets of what is left do not change.

## Main definitions

* `Hlsl.blankFrom?`, `Hlsl.blankScopes?` — a text with its scopes blanked
* `Hlsl.slice` — the text between two offsets

## Main results

* `Hlsl.byteSize_spaces` — a character and its spaces have the same number of bytes
-/

namespace ShaderLang.Hlsl

open Text (byteSize)

/-- As many spaces as a character has bytes. -/
def spaces (c : Char) : List Char := List.replicate c.utf8Size ' '

/-- Blanks a text that starts inside `depth` braces. Line breaks and the outermost braces are kept.
There is no answer if the braces do not balance. -/
def blankFrom? : Nat → List Char → Option (List Char)
  | depth, [] => if depth = 0 then some [] else none
  | depth, c :: cs =>
    if c = '\x7b' then (blankFrom? (depth + 1) cs).map ((if depth = 0 then c else ' ') :: ·)
    else if c = '\x7d' then
      match depth with
      | 0 => none
      | depth + 1 => (blankFrom? depth cs).map ((if depth = 0 then c else ' ') :: ·)
    else if c = '\n' ∨ depth = 0 then (blankFrom? depth cs).map (c :: ·)
    else (blankFrom? depth cs).map (spaces c ++ ·)

/-- A text with its scopes blanked, if its braces balance. -/
def blankScopes? (text : List Char) : Option (List Char) := blankFrom? 0 text

/-- The text between two offsets in bytes. -/
def slice (text : List Char) (start stop : Nat) : List Char :=
  Text.takeBytes (stop - start) (Text.dropBytes start text)

theorem byteSize_spaces (c : Char) : byteSize (spaces c) = c.utf8Size := by
  have h : (' ' : Char).utf8Size = 1 := by decide
  have hblanks : ∀ n, byteSize (List.replicate n ' ') = n := by
    intro n
    induction n with
    | zero => rfl
    | succ n ih => simp only [List.replicate_succ, byteSize, ih, h, Nat.add_comm]
  exact hblanks _

end ShaderLang.Hlsl
