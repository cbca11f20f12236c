import Mathlib.Data.List.Induction
import Mathlib.Logic.Function.Iterate
import ShaderLang.Source.Frame
import ShaderLang.Text.Bytes
/-!
# Places count bytes

A text is passed byte by byte, and the place that is reached tells of the bytes that are passed: how
many they are, how many lines they break, and how many of them stand in the last line. Reading by
characters passes the bytes of these characters.

## Main definitions

* `Text.bytes` — the bytes of a text
* `Place.behind` — the place behind some bytes
* `Frame.left` — the bytes that a frame has left

## Main results

* `Text.byte_not_mem` — a character of one byte has it to itself
* `Place.line_pastAll` — every line break that is passed counts
* `Frame.place_advance_ofText` — every number of bytes leads to the place behind them
* `Frame.past_eq_advance` — reading some characters passes their bytes
-/

namespace ShaderLang

/-- The bytes of a text. -/
def Text.bytes (cs : List Char) : List UInt8 := cs.flatMap String.utf8EncodeChar

/-- The byte of a line break. -/
def Text.breakByte : UInt8 := 10

theorem Text.bytes_append (cs ds : List Char) : bytes (cs ++ ds) = bytes cs ++ bytes ds :=
  List.flatMap_append

theorem Text.length_bytes (cs : List Char) : (bytes cs).length = byteSize cs := by
  induction cs with
  | nil => rfl
  | cons c cs ih =>
    rw [bytes, List.flatMap_cons, List.length_append, String.length_utf8EncodeChar, byteSize]
    exact congrArg _ ih

/-- A character of one byte has it to itself: no byte of another character is the same. -/
theorem Text.byte_not_mem {x c : Char} (hx : x.toNat < 128) (h : c ≠ x) :
    UInt8.ofNat x.toNat ∉ String.utf8EncodeChar c := by
  have hval : c.val.toNat ≠ x.toNat := fun hc => h (Char.ext (UInt32.toNat_inj.1 hc))
  have hne {n : Nat} (hn : n % 256 ≠ x.toNat) : UInt8.ofNat x.toNat ≠ UInt8.ofNat n := by
    intro heq
    have hnat := congrArg UInt8.toNat heq
    rw [UInt8.toNat_ofNat', UInt8.toNat_ofNat', Nat.mod_eq_of_lt (by omega)] at hnat
    exact hn hnat.symm
  unfold String.utf8EncodeChar
  extract_lets v
  -- The first byte of one is its number; all bytes of two and more are above those of one.
  split
  · next hv =>
    have hne : UInt8.ofNat x.toNat ≠ UInt8.ofNat v := hne (by omega)
    simpa using hne
  · split
    · simp only [List.mem_cons, List.not_mem_nil, or_false, not_or]
      exact ⟨hne (by omega), hne (by omega)⟩
    · split
      · simp only [List.mem_cons, List.not_mem_nil, or_false, not_or]
        exact ⟨hne (by omega), hne (by omega), hne (by omega)⟩
      · simp only [List.mem_cons, List.not_mem_nil, or_false, not_or]
        exact ⟨hne (by omega), hne (by omega), hne (by omega), hne (by omega)⟩

/-- No byte of another character is that of a line break. -/
theorem Text.breakByte_not_mem {c : Char} (h : c ≠ '\n') :
    breakByte ∉ String.utf8EncodeChar c :=
  byte_not_mem (x := '\n') (by decide) h

namespace Place

/-- The place behind some bytes of a text: one more than their line breaks is the line, and one
more than the bytes behind the last of these is the column. -/
def behind (bytes : List UInt8) : Place :=
  ⟨bytes.length, 1 + bytes.count Text.breakByte,
    1 + (bytes.reverse.takeWhile (· != Text.breakByte)).length⟩

/-- The place after one more byte. -/
def pastByte (p : Place) (b : UInt8) : Place :=
  if b = Text.breakByte then ⟨p.offset + 1, p.line + 1, 1⟩
  else ⟨p.offset + 1, p.line, p.col + 1⟩

theorem behind_append_singleton (bytes : List UInt8) (b : UInt8) :
    behind (bytes ++ [b]) = (behind bytes).pastByte b := by
  by_cases hb : b = Text.breakByte
  · simp [behind, pastByte, hb, Nat.add_assoc]
  · simp [behind, pastByte, hb, Nat.add_comm]

theorem behind_eq_foldl (bytes : List UInt8) : behind bytes = bytes.foldl pastByte start := by
  induction bytes using List.reverseRecOn with
  | nil => rfl
  | append_singleton bytes b ih =>
    rw [behind_append_singleton, ih, List.foldl_append]
    rfl

theorem line_pastAll (p : Place) (cs : List Char) :
    (p.pastAll cs).line = p.line + cs.count '\n' := by
  induction cs generalizing p with
  | nil => rfl
  | cons c cs ih =>
    have hpast : (p.pastAll (c :: cs)).line = (p.past c).line + cs.count '\n' := ih _
    rw [hpast, past, List.count_cons]
    split
    · next hc => simp [hc, Nat.add_assoc, Nat.add_comm 1]
    · next hc => simp [hc]

end Place

namespace Frame

variable {f : Frame} {used rest : List Char} {c : Char} {b : UInt8} {bs : List UInt8}

/-- The bytes that a frame has left. -/
def left (f : Frame) : List UInt8 := (Text.bytes f.rest).drop f.split

/-- The bytes of the first character that are passed are not all of it. -/
def Within (f : Frame) : Prop := ∀ c cs, f.rest = c :: cs → f.split < c.utf8Size

theorem within_of_split (h : f.split = 0) : f.Within := by
  intro c cs _
  rw [h]
  exact c.utf8Size_pos

theorem rest_eq_nil_of_left (h : f.Within) (hleft : f.left = []) : f.rest = [] := by
  cases hrest : f.rest with
  | nil => rfl
  | cons c cs =>
    have hlt := h c cs hrest
    have hlength := congrArg List.length hleft
    rw [left, hrest, List.length_drop, Text.length_bytes, Text.byteSize] at hlength
    simp only [List.length_nil] at hlength
    omega

/-- At the end a frame stays. -/
theorem advance_of_left_nil (h : f.Within) (hleft : f.left = []) : f.advance = f := by
  unfold advance
  rw [rest_eq_nil_of_left h hleft]

/-- What one byte does. -/
structure Passes (f : Frame) (b : UInt8) (bs : List UInt8) (g : Frame) : Prop where
  file : g.file = f.file
  place : g.place = f.place.pastByte b
  left : g.left = bs
  within : g.Within

theorem left_cons {cs : List Char} (hrest : f.rest = c :: cs) (h : f.Within) :
    ∃ b ∈ String.utf8EncodeChar c, f.left =
      b :: ((String.utf8EncodeChar c).drop (f.split + 1) ++ Text.bytes cs) := by
  have hlt : f.split < (String.utf8EncodeChar c).length := by
    rw [String.length_utf8EncodeChar]
    exact h c cs hrest
  refine ⟨(String.utf8EncodeChar c)[f.split], List.getElem_mem hlt, ?_⟩
  rw [left, hrest, Text.bytes, List.flatMap_cons, List.drop_append_of_le_length (Nat.le_of_lt hlt),
    List.drop_eq_getElem_cons hlt]
  rfl

theorem passes_advance (h : f.Within) (hleft : f.left = b :: bs) : f.Passes b bs f.advance := by
  cases hrest : f.rest with
  | nil => simp [left, hrest, Text.bytes] at hleft
  | cons c cs =>
    obtain ⟨b', hmem, hcons⟩ := left_cons hrest h
    obtain ⟨rfl, rfl⟩ := List.cons.inj (hcons.symm.trans hleft)
    have hlt := h c cs hrest
    unfold advance
    simp only [hrest]
    split
    · next hbreak =>
      -- A line break is one byte.
      subst hbreak
      have hsplit : f.split = 0 := Nat.lt_one_iff.1 hlt
      have hbyte : b' = Text.breakByte := List.mem_singleton.1 hmem
      refine ⟨rfl, ?_, ?_, within_of_split rfl⟩
      · rw [Place.pastByte, if_pos hbyte]
        rfl
      · rw [hsplit]
        rfl
    · next hbreak =>
      have hbyte : b' ≠ Text.breakByte := fun hb => Text.breakByte_not_mem hbreak (hb ▸ hmem)
      split
      · next hmore =>
        refine ⟨rfl, (if_neg hbyte).symm, ?_, ?_⟩
        · rw [left, Text.bytes, List.flatMap_cons, List.drop_append_of_le_length]
          · rfl
          · rw [String.length_utf8EncodeChar]
            exact Nat.le_of_lt hmore
        · intro d ds hds
          obtain ⟨rfl, -⟩ := List.cons.inj hds
          exact hmore
      · next hmore =>
        refine ⟨rfl, (if_neg hbyte).symm, ?_, within_of_split rfl⟩
        have hlength := String.length_utf8EncodeChar c
        rw [List.drop_eq_nil_of_le (by omega), List.nil_append]
        rfl

/-- So many bytes lead to the place behind them. -/
theorem place_iterate_advance (h : f.Within) (k : Nat) :
    (advance^[k] f).place = (f.left.take k).foldl Place.pastByte f.place := by
  induction k generalizing f with
  | zero => rfl
  | succ k ih =>
    rw [Function.iterate_succ_apply]
    cases hleft : f.left with
    | nil =>
      rw [advance_of_left_nil h hleft, ih h, hleft, List.take_nil, List.take_nil]
    | cons b bs =>
      obtain ⟨-, hplace, hbs, hwithin⟩ := passes_advance h hleft
      rw [ih hwithin, hplace, hbs]
      rfl

theorem left_ofText (file : Option String) (text : String) :
    (ofText file text).left = Text.bytes text.toList := rfl

/-- From the start of a text every number of bytes leads to the place behind these bytes. -/
theorem place_advance_ofText (file : Option String) (text : String) (k : Nat) :
    (advance^[k] (ofText file text)).place = Place.behind ((Text.bytes text.toList).take k) := by
  rw [place_iterate_advance (within_of_split rfl), left_ofText, Place.behind_eq_foldl]
  rfl

/-! ## Reading by characters -/

/-- So many bytes of a character that is no line break, but not all of it. -/
theorem iterate_advance_of_lt {cs : List Char} (hrest : f.rest = c :: cs) (hsplit : f.split = 0)
    (hc : c ≠ '\n') {k : Nat} (hk : k < c.utf8Size) :
    advance^[k] f = { f with
      place := { f.place with offset := f.place.offset + k, col := f.place.col + k }
      split := k } := by
  induction k with
  | zero =>
    obtain ⟨file, place, text, split⟩ := f
    obtain rfl : split = 0 := hsplit
    rfl
  | succ k ih =>
    rw [Function.iterate_succ_apply', ih (Nat.lt_of_succ_lt hk)]
    simp only [advance, hrest, if_neg hc, if_pos hk]
    rfl

/-- A character is passed by its bytes. -/
theorem iterate_advance_char {cs : List Char} (hrest : f.rest = c :: cs) (hsplit : f.split = 0) :
    advance^[c.utf8Size] f = f.past [c] cs := by
  by_cases hc : c = '\n'
  · subst hc
    change f.advance = _
    simp only [advance, hrest, if_pos]
  · -- The last byte is the one at which the character is used.
    obtain ⟨k, hk⟩ := Nat.exists_eq_succ_of_ne_zero (Nat.ne_of_gt c.utf8Size_pos)
    rw [hk, Function.iterate_succ_apply', iterate_advance_of_lt hrest hsplit hc (by omega)]
    have hlast : ¬ k + 1 < c.utf8Size := by omega
    simp only [advance, hrest, if_neg hc, if_neg hlast, past, Place.pastAll, List.foldl_cons,
      List.foldl_nil, Place.past]
    rw [hk]
    rfl

/-- Reading some characters passes their bytes. -/
theorem past_eq_advance (hrest : f.rest = used ++ rest) (hsplit : f.split = 0) :
    f.past used rest = advance^[Text.byteSize used] f := by
  induction used generalizing f with
  | nil =>
    obtain rfl : f.rest = rest := hrest
    obtain ⟨file, place, text, split⟩ := f
    obtain rfl : split = 0 := hsplit
    rfl
  | cons c cs ih =>
    have hone : advance^[c.utf8Size] f = f.past [c] (cs ++ rest) :=
      iterate_advance_char hrest hsplit
    rw [Text.byteSize, Nat.add_comm, Function.iterate_add_apply, hone, ← ih rfl rfl]
    rfl

end Frame
end ShaderLang
