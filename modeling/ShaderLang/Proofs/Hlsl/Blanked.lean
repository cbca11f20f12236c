import ShaderLang.Hlsl.Declaration
import ShaderLang.Proofs.Hlsl.Scope
import ShaderLang.Proofs.Source.Place
import ShaderLang.Proofs.Text.Group
import ShaderLang.Proofs.Text.Replace
/-!
# Blanked texts

Blanking goes over a text byte by byte and keeps the offsets of what is left. A byte is kept if it is
outside of all braces, if it breaks a line, or if it is a brace of the top level; all others become
spaces. So declarations are found among what is left, and the block of a declaration, which is cut
from the text itself, is the whole content of a scope.

## Main definitions

* `Hlsl.Kept`, `Hlsl.masked` — the bytes that are kept, and the bytes that are left
* `Hlsl.Blanked` — what is left of a text

## Main results

* `Hlsl.bytes_blankFrom?` — what is left of a text, byte by byte
* `Hlsl.exists_braces_of_block?` — the block of a declaration stands between braces
* `Hlsl.blanking_isolates_scopes` — when a text is blanked, and what is left of it
-/

namespace ShaderLang.Hlsl

open Pattern
open Text (byteSize byteSize_append bytes breakByte)

/-! ## Bytes that are kept -/

def openByte : UInt8 := 123

def closeByte : UInt8 := 125

def spaceByte : UInt8 := 32

/-- A byte behind others is kept: it breaks a line, or as many braces are closed as are open, or it
closes the only one that is open. -/
def Kept (before : List UInt8) (b : UInt8) : Prop :=
  b = breakByte ∨ before.count openByte = before.count closeByte ∨
    b = closeByte ∧ before.count openByte = before.count closeByte + 1

instance (before : List UInt8) (b : UInt8) : Decidable (Kept before b) :=
  inferInstanceAs (Decidable (_ ∨ _ ∨ _ ∧ _))

/-- What is left of a byte behind others. -/
def maskedByte (before : List UInt8) (b : UInt8) : UInt8 := if Kept before b then b else spaceByte

/-- What is left of bytes behind others. -/
def masked : List UInt8 → List UInt8 → List UInt8
  | _, [] => []
  | before, b :: bs => maskedByte before b :: masked (before ++ [b]) bs

variable {before bs bs' : List UInt8} {b : UInt8} {depth : Nat} {cs text top : List Char}

theorem masked_append : masked before (bs ++ bs') = masked before bs ++ masked (before ++ bs) bs' := by
  induction bs generalizing before with
  | nil => rw [List.nil_append, masked, List.nil_append, List.append_nil]
  | cons b bs ih =>
    rw [List.cons_append, masked, ih, masked, List.append_assoc]
    rfl

theorem length_masked : (masked before bs).length = bs.length := by
  induction bs generalizing before with
  | nil => rfl
  | cons b bs ih => rw [masked, List.length_cons, ih, List.length_cons]

theorem getElem?_masked :
    (masked before (bs ++ b :: bs'))[bs.length]? = some (maskedByte (before ++ bs) b) := by
  rw [masked_append, List.getElem?_append_right (Nat.le_of_eq length_masked), length_masked,
    Nat.sub_self]
  rfl

/-- Bytes without a brace make no difference to how many are open. -/
theorem count_append_of_not_mem {x : UInt8} (h : x ∉ bs) :
    (before ++ bs).count x = before.count x := by
  rw [List.count_append, List.count_eq_zero_of_not_mem h, Nat.add_zero]

/-- Bytes without a brace are kept or not by what stands before all of them. -/
theorem masked_of_not_mem (hopen : openByte ∉ bs) (hclose : closeByte ∉ bs) :
    masked before bs = bs.map (maskedByte before) := by
  induction bs generalizing before with
  | nil => rfl
  | cons b bs ih =>
    rw [List.mem_cons, not_or] at hopen hclose
    have hsame : maskedByte (before ++ [b]) = maskedByte before := by
      funext b'
      have hopens := @count_append_of_not_mem before [b] openByte (by simpa using hopen.1)
      have hcloses := @count_append_of_not_mem before [b] closeByte (by simpa using hclose.1)
      have hkept : Kept (before ++ [b]) b' ↔ Kept before b' := by
        simp only [Kept, hopens, hcloses]
      simp only [maskedByte, hkept]
    rw [masked, ih hopen.2 hclose.2, hsame]
    rfl

/-- Bytes without a brace stay if as many braces are closed before them as are open. -/
theorem masked_of_outside (hopen : openByte ∉ bs) (hclose : closeByte ∉ bs)
    (h : before.count openByte = before.count closeByte) : masked before bs = bs := by
  have hkept : maskedByte before = id := by
    funext b
    exact if_pos (.inr (.inl h))
  rw [masked_of_not_mem hopen hclose, hkept, List.map_id]

/-- Bytes without a brace or a line break are spaces if more braces are open before them. -/
theorem masked_of_inside (hopen : openByte ∉ bs) (hclose : closeByte ∉ bs) (hbreak : breakByte ∉ bs)
    (h : before.count closeByte < before.count openByte) :
    masked before bs = List.replicate bs.length spaceByte := by
  have hspace : ∀ b ∈ bs, maskedByte before b = spaceByte := by
    intro b hb
    apply if_neg
    rintro (rfl | heq | ⟨rfl, -⟩)
    · exact hbreak hb
    · omega
    · exact hclose hb
  rw [masked_of_not_mem hopen hclose, List.map_congr_left hspace, List.map_const']

/-! ## What blanking does to bytes -/

theorem bytes_cons (c : Char) (cs : List Char) :
    bytes (c :: cs) = String.utf8EncodeChar c ++ bytes cs := List.flatMap_cons

theorem openByte_not_mem {c : Char} (h : c ≠ '\x7b') : openByte ∉ String.utf8EncodeChar c :=
  Text.byte_not_mem (x := '\x7b') (by decide) h

theorem closeByte_not_mem {c : Char} (h : c ≠ '\x7d') : closeByte ∉ String.utf8EncodeChar c :=
  Text.byte_not_mem (x := '\x7d') (by decide) h

theorem bytes_spaces (c : Char) : bytes (spaces c) = List.replicate c.utf8Size spaceByte := by
  rw [spaces]
  induction c.utf8Size with
  | zero => rfl
  | succ n ih =>
    rw [List.replicate_succ, bytes_cons, ih]
    rfl

/-- What is left of the bytes of a brace. -/
theorem bytes_leftBrace_open (hdepth : before.count openByte = before.count closeByte + depth) :
    bytes [leftBrace depth '\x7b'] = masked before (String.utf8EncodeChar '\x7b') := by
  have hkept : Kept before openByte ↔ depth = 0 := by
    have hbreak : openByte ≠ breakByte := by decide
    have hclose : openByte ≠ closeByte := by decide
    simp only [Kept, hbreak, hclose, false_and, or_false, false_or, hdepth]
    omega
  change _ = [maskedByte before openByte]
  rw [maskedByte, leftBrace]
  simp only [hkept]
  split <;> rfl

theorem bytes_leftBrace_close
    (hdepth : before.count openByte = before.count closeByte + (depth + 1)) :
    bytes [leftBrace depth '\x7d'] = masked before (String.utf8EncodeChar '\x7d') := by
  have hkept : Kept before closeByte ↔ depth = 0 := by
    have hbreak : closeByte ≠ breakByte := by decide
    simp only [Kept, hbreak, true_and, false_or, hdepth]
    omega
  change _ = [maskedByte before closeByte]
  rw [maskedByte, leftBrace]
  simp only [hkept]
  split <;> rfl

/-- What is left of the bytes of a character that is no brace. -/
theorem bytes_leftChar {c : Char} (hopen : c ≠ '\x7b') (hclose : c ≠ '\x7d')
    (hdepth : before.count openByte = before.count closeByte + depth) :
    bytes (leftChar depth c) = masked before (String.utf8EncodeChar c) := by
  have hopen' := openByte_not_mem hopen
  have hclose' := closeByte_not_mem hclose
  by_cases hzero : depth = 0
  · rw [masked_of_outside hopen' hclose' (by omega), leftChar, if_pos (.inr hzero), bytes_cons]
    exact List.append_nil _
  · by_cases hbreak : c = '\n'
    · subst hbreak
      rfl
    · have hbreak' := Text.breakByte_not_mem hbreak
      rw [masked_of_inside hopen' hclose' hbreak' (by omega), leftChar,
        if_neg (not_or.2 ⟨hbreak, hzero⟩), bytes_spaces, String.length_utf8EncodeChar]

/-- What is left of a text behind bytes that leave `depth` braces open, byte by byte. -/
theorem bytes_blankFrom? {out : List Char} (h : blankFrom? depth cs = some out)
    (hdepth : before.count openByte = before.count closeByte + depth) :
    bytes out = masked before (bytes cs) := by
  induction cs generalizing depth before out with
  | nil =>
    rw [blankFrom?] at h
    split at h
    · cases h
      rfl
    · cases h
  | cons c cs ih =>
    -- What is left of the character stands in front of what is left of the rest.
    have hfront {depth' : Nat} {front : List Char}
        (hout : (blankFrom? depth' cs).map (front ++ ·) = some out)
        (hbytes : bytes front = masked before (String.utf8EncodeChar c))
        (hdepth' : (before ++ String.utf8EncodeChar c).count openByte =
          (before ++ String.utf8EncodeChar c).count closeByte + depth') :
        bytes out = masked before (bytes (c :: cs)) := by
      obtain ⟨rest, hrest, rfl⟩ := Option.map_eq_some_iff.1 hout
      rw [Text.bytes_append, hbytes, ih hrest hdepth', bytes_cons, masked_append]
    by_cases hopen : c = '\x7b'
    · subst hopen
      rw [blankFrom?_open] at h
      refine hfront h (bytes_leftBrace_open hdepth) ?_
      rw [List.count_append, List.count_append, hdepth]
      exact Nat.add_assoc ..
    · by_cases hclose : c = '\x7d'
      · subst hclose
        cases depth with
        | zero => cases h
        | succ depth =>
          rw [blankFrom?_close] at h
          refine hfront h (bytes_leftBrace_close hdepth) ?_
          rw [List.count_append, List.count_append, hdepth]
          change _ + (depth + 1) + 0 = _ + 1 + depth
          omega
      · rw [blankFrom?_cons_of_ne hopen hclose] at h
        refine hfront h (bytes_leftChar hopen hclose hdepth) ?_
        rwa [count_append_of_not_mem (openByte_not_mem hopen),
          count_append_of_not_mem (closeByte_not_mem hclose)]

/-! ## Blocks of declarations -/

/-- The braces of a block, with what is between them. -/
def braced : Pattern :=
  seqs [lit "\x7b", run (fun c => c != '\x7b' && c != '\x7d'), lit "\x7d"]

theorem lacks_braced (name : String) : braced.Lacks name := by
  simp [braced, seqs, run, Lacks, lacks_lit, Pattern.empty]

theorem groups_declaration : Groups "block" braced declaration := by
  simp [declaration, seqs, opt, alts, qualifiers, typeArguments, ident, blanks, blanks1, run, run1,
    lazyRun, lazyRun1, Pattern.empty, Groups, groups_lit, braced]

theorem exists_of_mem_braced {v : List Char} (hv : v ∈ braced.language) :
    ∃ u, '\x7d' ∉ u ∧ v = '\x7b' :: (u ++ ['\x7d']) := by
  obtain ⟨o, ho, v', hv', rfl⟩ := (mem_language_seqs_cons _ _).1 hv
  obtain ⟨u, hu, v'', hv'', rfl⟩ := (mem_language_seqs_cons _ _).1 hv'
  obtain ⟨e, he, w, hw, rfl⟩ := (mem_language_seqs_cons _ _).1 hv''
  obtain rfl := (mem_language_lit _).1 ho
  obtain rfl := (mem_language_lit _).1 he
  obtain rfl := mem_language_seqs_nil.1 hw
  refine ⟨u, fun hmem => ?_, by simp⟩
  simpa using (mem_language_run _).1 hu _ hmem

theorem byteSize_braced (u : List Char) :
    byteSize ('\x7b' :: (u ++ ['\x7d'])) = 1 + byteSize u + 1 := by
  rw [byteSize, byteSize_append, ← Nat.add_assoc]
  rfl

/-- The block of a declaration stands between braces, and there are none in it. -/
theorem exists_braces_of_block? {d : Declared} (hd : d ∈ declarations top) {start stop : Nat}
    (hblock : d.block? = some (start, stop)) :
    ∃ a u r, top = a ++ '\x7b' :: (u ++ '\x7d' :: r) ∧ '\x7d' ∉ u ∧ start = byteSize a + 1 ∧
      stop = start + byteSize u := by
  obtain ⟨m, hm, rfl⟩ := List.mem_map.1 hd
  obtain ⟨hstart, hway⟩ := way_of_mem_findAll hm
  obtain ⟨s, hs, hoffsets⟩ := Option.map_eq_some_iff.1 hblock
  obtain ⟨c, hc, e, ns, hinner, rfl⟩ :=
    Match.exists_way_of_span? hway groups_declaration (lacks_braced _) hs
  -- The text is what stands before the group, the braces, and what stands behind them.
  obtain ⟨a, ha⟩ := Cursor.exists_spans_of_mem_points (Cursor.mem_points_trans hstart hc)
  obtain ⟨v, hv, hspan⟩ := hinner.exists_mem_language
  obtain ⟨u, hu, rfl⟩ := exists_of_mem_braced hv
  have htop : top = a ++ c.rest := ha.rest
  have hoffset : c.offset = 0 + byteSize a := ha.offset
  have hstop : e.offset = c.offset + (1 + byteSize u + 1) := by
    rw [hspan.offset, byteSize_braced]
  obtain ⟨rfl, rfl⟩ := Prod.mk.inj hoffsets
  refine ⟨a, u, e.rest, ?_, hu, ?_, ?_⟩
  · rw [htop, hspan.rest]
    simp
  · dsimp only
    omega
  · dsimp only
    omega

/-! ## What is left of a text -/

/-- What is left of a text. -/
structure Blanked (text top : List Char) : Prop where
  /-- No offset changes. -/
  byteSize_eq : byteSize top = byteSize text
  /-- Each byte is kept or is a space. -/
  byte : ∀ before b after, bytes text = before ++ b :: after →
    (bytes top)[before.length]? = some (if Kept before b then b else spaceByte)
  /-- Between a brace that is left and the one that closes it there are no further ones, and the text
  has the whole content of a scope there. -/
  scope : ∀ a r, top = a ++ '\x7b' :: r → ∃ u s, r = u ++ '\x7d' :: s ∧ '\x7b' ∉ u ∧ '\x7d' ∉ u ∧
    ∃ before content after, Scope text before content after ∧ byteSize before = byteSize a ∧
      byteSize content = byteSize u ∧
      slice text (byteSize a + 1) (byteSize a + 1 + byteSize u) = content
  /-- The block of a declaration, by its offsets in the text, is the whole content of a scope. -/
  block : ∀ d ∈ declarations top, ∀ start stop, d.block? = some (start, stop) →
    ∃ before content after, Scope text before content after ∧ start = byteSize before + 1 ∧
      stop = start + byteSize content ∧ slice text start stop = content

theorem blanked_of_layout (h : Layout text top) (hblank : blankScopes? text = some top) :
    Blanked text top where
  byteSize_eq := h.byteSize_eq
  byte before b after htext := by
    have hmasked : bytes top = masked [] (bytes text) := bytes_blankFrom? hblank rfl
    rw [hmasked, htext, getElem?_masked]
    rfl
  scope a r htop := by
    obtain ⟨before, content, after, blanks, s, hscope, hbefore, rfl, hblanks, hsize⟩ :=
      h.exists_scope htop
    refine ⟨blanks, s, rfl, hblanks.not_mem (by decide) (by decide),
      hblanks.not_mem (by decide) (by decide), before, content, after, hscope, hbefore, hsize, ?_⟩
    rw [← hbefore, ← hsize]
    exact hscope.slice_eq
  block d hd start stop hblock := by
    obtain ⟨a, u, r, htop, hu, rfl, rfl⟩ := exists_braces_of_block? hd hblock
    obtain ⟨before, content, after, blanks, s, hscope, hbefore, hr, hblanks, hsize⟩ :=
      h.exists_scope htop
    -- The first closing brace behind the opening one ends the block and the scope.
    have hend : u = blanks := by
      have hne {v : List Char} (hv : '\x7d' ∉ v) : ∀ x ∈ v, (x != '\x7d') = true :=
        fun x hx => bne_iff_ne.2 (ne_of_mem_of_not_mem hx hv)
      exact (append_inj_of_head hr (hne hu) (hne (hblanks.not_mem (by decide) (by decide)))
        (by simp) (by simp)).1
    rw [hend, ← hbefore, ← hsize]
    exact ⟨before, content, after, hscope, rfl, rfl, hscope.slice_eq⟩

/-- A text is not blanked just if it closes more braces than it opens up to some point, or not as
many as it opens in all. What is left of it otherwise has the same offsets: bytes outside of all
braces, line breaks and the braces of the top level are kept, and all others are spaces. The braces
that are left are those of scopes, whose whole and balanced contents stand in the text where there
are spaces now, and so do the blocks of the declarations that are found. Blanking again changes
nothing. -/
theorem blanking_isolates_scopes (text : List Char) :
    (blankScopes? text = none ↔
      (∃ before, before <+: text ∧ before.count '\x7b' < before.count '\x7d') ∨
        text.count '\x7b' ≠ text.count '\x7d') ∧
    ∀ top, blankScopes? text = some top → Blanked text top ∧ blankScopes? top = some top := by
  refine ⟨blankScopes?_eq_none_iff, fun top htop => ?_⟩
  have hlayout := layout_of_blankScopes? htop
  exact ⟨blanked_of_layout hlayout htop, hlayout.blankScopes?_eq⟩

/-- A block with a scope in it, and characters of two bytes before and inside. -/
def nestedText : List Char := "ö S A\x7b\x7bö\x7d\n\x7d".toList

/-- What is left of `nestedText`. -/
def nestedTop : List Char := "ö S A\x7b    \n\x7d".toList

/-- The first byte of the character inside is a space, and the block that is found is the content of
the scope. -/
theorem blanking_isolates_scopes_nested :
    blankScopes? nestedText = some nestedTop ∧
    (bytes nestedTop)[8]? = some spaceByte ∧
    (∃ before after, Scope nestedText before "\x7bö\x7d\n".toList after ∧ byteSize before = 6) ∧
    slice nestedText 7 12 = "\x7bö\x7d\n".toList ∧
    blankScopes? nestedTop = some nestedTop ∧
    blankScopes? ['\x7d', '\x7b'] = none := by
  have hblank : blankScopes? nestedText = some nestedTop := by decide
  obtain ⟨hblanked, htwice⟩ := (blanking_isolates_scopes nestedText).2 nestedTop hblank
  have hbyte := hblanked.byte ((bytes nestedText).take 8) 0xC3 ((bytes nestedText).drop 9)
    (by decide)
  have hblocks : (declarations nestedTop).map (·.block?) = [some (7, 12)] := by decide +kernel
  obtain ⟨d, hd, hblock⟩ : ∃ d ∈ declarations nestedTop, d.block? = some (7, 12) :=
    List.mem_map.1 (hblocks ▸ List.mem_singleton_self _)
  obtain ⟨before, content, after, hscope, hstart, -, hslice⟩ := hblanked.block d hd 7 12 hblock
  have hcontent : slice nestedText 7 12 = "\x7bö\x7d\n".toList := by decide
  obtain rfl : content = _ := hslice.symm.trans hcontent
  refine ⟨hblank, hbyte.trans (by decide), ⟨before, after, hscope, by omega⟩, hcontent, htwice, ?_⟩
  exact (blanking_isolates_scopes _).1.2 (.inl ⟨['\x7d'], by decide, by decide⟩)

end ShaderLang.Hlsl
