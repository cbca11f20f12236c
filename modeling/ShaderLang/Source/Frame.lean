/-!
# Frames

A source text under reading: what is left of it and the place that is reached. Places count lines
and columns from one; a column counts the bytes of the encoded text.

## Main definitions

* `Place` — an offset, a line and a column
* `Frame` — a text under reading
* `Frame.past` — the frame after some of its text
* `Frame.byteAt?`, `Frame.advance` — the same text byte by byte
-/

namespace ShaderLang

/-- A place in a text: the bytes passed, the line, and the column in bytes. -/
structure Place where
  offset : Nat
  line : Nat
  col : Nat
  deriving DecidableEq, Inhabited

namespace Place

/-- The place before a text. -/
def start : Place := ⟨0, 1, 1⟩

/-- The place after one more character. -/
def past (p : Place) (c : Char) : Place :=
  if c = '\n' then ⟨p.offset + 1, p.line + 1, 1⟩
  else ⟨p.offset + c.utf8Size, p.line, p.col + c.utf8Size⟩

/-- The place after more text. -/
def pastAll (p : Place) (cs : List Char) : Place := cs.foldl past p

theorem pastAll_append (p : Place) (cs ds : List Char) :
    p.pastAll (cs ++ ds) = (p.pastAll cs).pastAll ds := List.foldl_append

end Place

/-- A text under reading. A root text has no file name. -/
structure Frame where
  file : Option String
  place : Place
  rest : List Char
  /-- The bytes of the first character left that are passed already. Reading by characters leaves
  none. -/
  split : Nat
  deriving Inhabited

namespace Frame

/-- A frame at the start of a text. -/
def ofText (file : Option String) (text : String) : Frame := ⟨file, .start, text.toList, 0⟩

/-- The frame after the text `used`, with `rest` left. -/
def past (f : Frame) (used rest : List Char) : Frame :=
  { f with place := f.place.pastAll used, rest, split := 0 }

/-- Nothing is left. -/
def atEnd (f : Frame) : Bool := f.rest.isEmpty

/-- The byte at a distance from the place reached. -/
def byteAt? (f : Frame) (distance : Nat) : Option UInt8 :=
  (f.rest.flatMap String.utf8EncodeChar)[f.split + distance]?

/-- The frame one byte on; at the end it stays. -/
def advance (f : Frame) : Frame :=
  match f.rest with
  | [] => f
  | c :: cs =>
    if c = '\n' then f.past [c] cs
    else
      let place := { f.place with offset := f.place.offset + 1, col := f.place.col + 1 }
      if f.split + 1 < c.utf8Size then { f with place, split := f.split + 1 }
      else { f with place, rest := cs, split := 0 }

@[simp] theorem rest_past (f : Frame) (used rest : List Char) : (f.past used rest).rest = rest :=
  rfl

end Frame
end ShaderLang
