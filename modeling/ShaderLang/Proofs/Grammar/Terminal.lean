import ShaderLang.Proofs.Text.Case
import ShaderLang.Tree.Literal
/-!
# What single tokens mean

The values that tokens have where a literal stands, as rules. A word that names a choice is looked
up in the spellings of that choice. It is found if it is one of them letter by letter, whatever the
case of its letters; the rules say so of the letters, and not of the look-up.

## Main definitions

* `Choice.Spells` — a word is a spelling of a value in a table
* `Choice.WritesMask` — a word is made of the letters of the channels of a write mask
* `Choice.Names` — a word names a value of a choice
* `Literal.Means` — a token has a value where a literal stands

## Main results

* `Choice.choose?_eq_some_iff`, `Choice.colorMask?_eq_some_iff` — which words tables and write masks
  have
* `Choice.named?_eq_some_iff`, `Literal.read_eq_ok_iff` — the look-up and the reader follow rules
-/

namespace ShaderLang

namespace Choice

/-- A word spells a value: a table has the value under the word, but for the case of letters. -/
def Spells {α : Type} (spellings : List (String × α)) (word : String) (a : α) : Prop :=
  ∃ s, (s, a) ∈ spellings ∧ Text.SameUpToCase word s

/-- The letters of the color channels, in the order of their bits. -/
def channelLetters : List Char := ['r', 'g', 'b', 'a']

/-- A word writes a mask: all its characters are letters of channels, and the mask has the bits of
just these channels. -/
structure WritesMask (word : List Char) (mask : Nat) : Prop where
  letters : ∀ c ∈ word, ∃ l ∈ channelLetters, Text.SameLetter c l
  bits : ∀ k, mask.testBit k = true ↔
    ∃ l, channelLetters[k]? = some l ∧ ∃ c ∈ word, Text.SameLetter c l

/-- A word names a value of a choice: it is a spelling of the value, in any case. A write mask is
spelled by the letters of its channels, and the empty one also by `empty`. -/
inductive Names : Choice → String → Leaf → Prop
  | fillMode {s m} (h : Spells FillMode.spellings s m) : Names .fillMode s (.fillMode m)
  | sortMode {s m} (h : Spells CullAndQueue.spellings s m) : Names .sortMode s (.cullAndQueue m)
  | cullMode {s m} (h : Spells CullAndQueue.spellings s m) : Names .cullMode s (.cullAndQueue m)
  | compareFunc {s f} (h : Spells CompareFunc.spellings s f) :
      Names .compareFunc s (.compareFunc f)
  | operand {s o} (h : Spells Operand.spellings s o) : Names .operand s (.operand o)
  | blendOp {s o} (h : Spells BlendOp.spellings s o) : Names .blendOp s (.blendOp o)
  | noChannels {s} (h : Text.SameUpToCase s "empty") : Names .writeMask s (.colorMask 0)
  | channels {s mask} (h : WritesMask s.toList mask) : Names .writeMask s (.colorMask mask)

/-! ## Words in tables -/

/-- A table without repeated spellings is looked up by membership. -/
theorem choose?_eq_some_iff_mem {α : Type} {spellings : List (String × α)}
    (h : (spellings.map Prod.fst).Nodup) {word : String} {a : α} :
    choose? spellings word = some a ↔ (Text.lower word, a) ∈ spellings := by
  unfold choose?
  induction spellings with
  | nil => simp
  | cons e es ih =>
    obtain ⟨hne, hes⟩ := List.nodup_cons.1 h
    rw [List.find?_cons]
    by_cases he : e.1 = Text.lower word
    -- The spelling stands here, so that it does not come again further down.
    · have hnot : (Text.lower word, a) ∉ es := fun hmem =>
        hne (List.mem_map.2 ⟨_, hmem, he.symm⟩)
      obtain ⟨key, value⟩ := e
      simp only at he
      simp [he, hnot, eq_comm]
    · rw [beq_false_of_ne he]
      have hhead : (Text.lower word, a) ≠ e := fun heq => he (by rw [← heq])
      simpa [hhead] using ih hes

/-- If all spellings are in small letters, words are found in any case. -/
theorem choose?_eq_some_iff {α : Type} {spellings : List (String × α)}
    (h : (spellings.map Prod.fst).Nodup)
    (hsmall : ∀ e ∈ spellings, Text.Uncapitalized e.1.toList) {word : String} {a : α} :
    choose? spellings word = some a ↔ Spells spellings word a := by
  rw [choose?_eq_some_iff_mem h]
  constructor
  · intro hmem
    exact ⟨_, hmem, (Text.lower_eq_iff (hsmall _ hmem)).1 rfl⟩
  · rintro ⟨s, hmem, hsame⟩
    rwa [(Text.lower_eq_iff (hsmall _ hmem)).2 hsame]

/-! ## Write masks -/

theorem WritesMask.unique {word : List Char} {mask mask' : Nat} (h : WritesMask word mask)
    (h' : WritesMask word mask') : mask = mask' :=
  Nat.eq_of_testBit_eq fun k => Bool.eq_iff_iff.2 ((h.bits k).trans (h'.bits k).symm)

/-- A character is the letter of a channel just if that is its small letter. -/
theorem sameLetter_channel_iff {c l : Char} (hl : l ∈ channelLetters) :
    Text.SameLetter c l ↔ c.toLower = l := by
  have hsmall : Text.Uncapitalized channelLetters := by decide
  exact (Text.toLower_eq_iff (hsmall l hl)).symm

/-- The bit of a character is that of the channel whose letter it is. -/
theorem channelBit?_eq_some_iff {c : Char} {bit : Nat} :
    channelBit? c = some bit ↔ ∃ k l, channelLetters[k]? = some l ∧ Text.SameLetter c l ∧
      ∀ j, bit.testBit j = decide (k = j) := by
  have hbits : (∀ j, Nat.testBit 1 j = decide (0 = j)) ∧ (∀ j, Nat.testBit 2 j = decide (1 = j)) ∧
      (∀ j, Nat.testBit 4 j = decide (2 = j)) ∧ ∀ j, Nat.testBit 8 j = decide (3 = j) :=
    ⟨@Nat.testBit_two_pow 0, @Nat.testBit_two_pow 1, @Nat.testBit_two_pow 2,
      @Nat.testBit_two_pow 3⟩
  obtain ⟨hr, hg, hb, ha⟩ := hbits
  constructor
  · intro h
    unfold channelBit? at h
    split at h
    · next hc =>
      cases h
      exact ⟨0, 'r', rfl, (sameLetter_channel_iff (by decide)).2 hc, hr⟩
    · next hc =>
      cases h
      exact ⟨1, 'g', rfl, (sameLetter_channel_iff (by decide)).2 hc, hg⟩
    · next hc =>
      cases h
      exact ⟨2, 'b', rfl, (sameLetter_channel_iff (by decide)).2 hc, hb⟩
    · next hc =>
      cases h
      exact ⟨3, 'a', rfl, (sameLetter_channel_iff (by decide)).2 hc, ha⟩
    · cases h
  · rintro ⟨k, l, hl, hsame, hbit⟩
    have hc := (sameLetter_channel_iff (List.mem_of_getElem? hl)).1 hsame
    have hsole {b : Nat} (h : ∀ j, b.testBit j = decide (k = j)) : b = bit :=
      Nat.eq_of_testBit_eq fun j => (h j).trans (hbit j).symm
    rw [channelBit?, hc]
    match k, hl with
    | 0, rfl => exact congrArg some (hsole hr)
    | 1, rfl => exact congrArg some (hsole hg)
    | 2, rfl => exact congrArg some (hsole hb)
    | 3, rfl => exact congrArg some (hsole ha)

/-- A word of letters of channels has a mask. -/
theorem exists_channels? {word : List Char}
    (h : ∀ c ∈ word, ∃ l ∈ channelLetters, Text.SameLetter c l) :
    ∃ mask, channels? word = some mask := by
  induction word with
  | nil => exact ⟨0, rfl⟩
  | cons c cs ih =>
    obtain ⟨⟨l, hl, hsame⟩, hcs⟩ := List.forall_mem_cons.1 h
    obtain ⟨mask, hmask⟩ := ih hcs
    obtain ⟨bit, hbit⟩ : ∃ bit, channelBit? c = some bit := by
      obtain ⟨k, hk⟩ := List.mem_iff_getElem?.1 hl
      refine ⟨1 <<< k, channelBit?_eq_some_iff.2 ⟨k, l, hk, hsame, fun j => ?_⟩⟩
      rw [Nat.one_shiftLeft, Nat.testBit_two_pow]
    exact ⟨bit ||| mask, by rw [channels?, hbit, hmask]; rfl⟩

theorem writesMask_of_channels? {word : List Char} {mask : Nat} (h : channels? word = some mask) :
    WritesMask word mask := by
  induction word generalizing mask with
  | nil =>
    cases h
    exact ⟨List.forall_mem_nil _, fun k => by simp⟩
  | cons c cs ih =>
    obtain ⟨bit, hbit, hcs⟩ := Option.bind_eq_some_iff.1 h
    obtain ⟨mask, hmask, hor⟩ := Option.bind_eq_some_iff.1 hcs
    obtain rfl := Option.some.inj hor
    obtain ⟨k, l, hl, hsame, hbits⟩ := channelBit?_eq_some_iff.1 hbit
    obtain ⟨hletters, hmasks⟩ := ih hmask
    refine ⟨List.forall_mem_cons.2 ⟨⟨l, List.mem_of_getElem? hl, hsame⟩, hletters⟩, fun j => ?_⟩
    -- The first character names the channel of its bit and no other one.
    have hfirst : k = j ↔ ∃ l', channelLetters[j]? = some l' ∧ Text.SameLetter c l' := by
      constructor
      · rintro rfl
        exact ⟨l, hl, hsame⟩
      · rintro ⟨l', hl', hsame'⟩
        have hc := (sameLetter_channel_iff (List.mem_of_getElem? hl)).1 hsame
        have hc' := (sameLetter_channel_iff (List.mem_of_getElem? hl')).1 hsame'
        have heq : channelLetters[k]? = channelLetters[j]? := by rw [hl, hl', ← hc, hc']
        exact (List.getElem?_inj (List.getElem?_eq_some_iff.1 hl).1 (by decide)).1 heq
    simp only [Nat.testBit_or, hbits, Bool.or_eq_true, decide_eq_true_eq, hmasks, hfirst,
      List.exists_mem_cons_iff, and_or_left, exists_or]

/-- The mask of a word has the bits of just the channels that are named in it. -/
theorem channels?_eq_some_iff {word : List Char} {mask : Nat} :
    channels? word = some mask ↔ WritesMask word mask := by
  refine ⟨writesMask_of_channels?, fun h => ?_⟩
  obtain ⟨mask', hmask'⟩ := exists_channels? h.letters
  rw [hmask', (writesMask_of_channels? hmask').unique h]

theorem colorMask?_eq_some_iff {word : String} {mask : Nat} :
    colorMask? word = some mask ↔
      Text.SameUpToCase word "empty" ∧ mask = 0 ∨ WritesMask word.toList mask := by
  have hempty : Text.lower word = "empty" ↔ Text.SameUpToCase word "empty" :=
    Text.lower_eq_iff (by decide)
  rw [colorMask?]
  split
  · next h =>
    -- The word starts with an `e`, which is the letter of no channel.
    have hnot : ¬ WritesMask word.toList mask := by
      intro hmask
      obtain ⟨c, cs, hc, -, hword⟩ := List.forall₂_cons_right_iff.1 (hempty.1 h)
      obtain ⟨l, hl, hsame⟩ := hmask.letters c (hword ▸ List.mem_cons_self)
      rw [sameLetter_channel_iff hl, (Text.toLower_eq_iff (by decide)).2 hc] at hsame
      exact absurd (hsame ▸ hl) (by decide)
    rw [or_iff_left hnot, and_iff_right (hempty.1 h), Option.some.injEq, eq_comm]
  · next h =>
    rw [channels?_eq_some_iff, or_iff_right fun hw => h (hempty.2 hw.1)]

theorem named?_eq_some_iff {c : Choice} {word : String} {leaf : Leaf} :
    c.named? word = some leaf ↔ c.Names word leaf := by
  -- Each table has every spelling once, and all of them in small letters.
  have hfill {m} : choose? FillMode.spellings word = some m ↔ Spells FillMode.spellings word m :=
    choose?_eq_some_iff (by decide) (by decide)
  have hcull {m} :
      choose? CullAndQueue.spellings word = some m ↔ Spells CullAndQueue.spellings word m :=
    choose?_eq_some_iff (by decide) (by decide)
  have hcompare {f} :
      choose? CompareFunc.spellings word = some f ↔ Spells CompareFunc.spellings word f :=
    choose?_eq_some_iff (by decide) (by decide)
  have hoperand {o} : choose? Operand.spellings word = some o ↔ Spells Operand.spellings word o :=
    choose?_eq_some_iff (by decide) (by decide)
  have hblend {o} : choose? BlendOp.spellings word = some o ↔ Spells BlendOp.spellings word o :=
    choose?_eq_some_iff (by decide) (by decide)
  constructor
  · intro h
    cases c <;> obtain ⟨v, hv, rfl⟩ := Option.map_eq_some_iff.1 h
    · exact .fillMode (hfill.1 hv)
    · exact .sortMode (hcull.1 hv)
    · exact .cullMode (hcull.1 hv)
    · exact .compareFunc (hcompare.1 hv)
    · exact .operand (hoperand.1 hv)
    · exact .blendOp (hblend.1 hv)
    · rcases colorMask?_eq_some_iff.1 hv with ⟨hempty, rfl⟩ | hmask
      · exact .noChannels hempty
      · exact .channels hmask
  · rintro (h | h | h | h | h | h | h | h) <;> refine Option.map_eq_some_iff.2 ⟨_, ?_, rfl⟩
    · exact hfill.2 h
    · exact hcull.2 h
    · exact hcull.2 h
    · exact hcompare.2 h
    · exact hoperand.2 h
    · exact hblend.2 h
    · exact colorMask?_eq_some_iff.2 (.inl ⟨h, rfl⟩)
    · exact colorMask?_eq_some_iff.2 (.inr h)

end Choice

namespace Literal

/-- A token has a value where a literal stands. -/
inductive Means : Literal → Token → Leaf → Prop
  | bool (b) : Means .bool (.bool b) (.bool b)
  | int (n) : Means .int (.int n) (.int n)
  | float (x) : Means .float (.float x) (.float x)
  | wholeFloat (n) : Means .float (.int n) (.float (.ofInt n))
  | count (n) : Means .count (.int n) (.int n)
  | truth (b) : Means .count (.bool b) (.int (if b then 1 else 0))
  | word (s) : Means .word (.identifier s) (.str s)
  | text (s) : Means .text (.str s) (.str s)
  | block (i) : Means .block (.rawBlock i) (.int (Number.signed32 i))
  | bits (n) : Means (.choice .writeMask) (.int n) (.colorMask (n % 16).toNat)
  | choice {c s leaf} (h : Choice.Names c s leaf) : Means (.choice c) (.identifier s) leaf

theorem read_eq_ok_iff {l : Literal} {t : Token} {leaf : Leaf} :
    l.read t = .ok leaf ↔ l.Means t leaf := by
  constructor
  · intro h
    unfold read at h
    split at h
    -- Words that name a choice and tokens without a value apart, each line of the reader is a rule.
    case h_11 c s =>
      split at h
      · next hnamed =>
        cases h
        exact .choice (Choice.named?_eq_some_iff.1 hnamed)
      · cases h
    case h_12 => cases h
    all_goals
      cases h
      constructor
  · rintro (_ | _ | _ | _ | _ | _ | _ | _ | _ | _ | h)
    case choice c s =>
      have hnamed := Choice.named?_eq_some_iff.2 h
      cases c <;> simp [read, hnamed]
    all_goals rfl

/-- A token that has a value is of a class that is expected. -/
theorem Means.kind_mem_expected {l : Literal} {t : Token} {leaf : Leaf} (h : l.Means t leaf) :
    t.kind ∈ l.expected := by
  cases h with
  | @choice c _ _ _ => cases c <;> simp [expected, Token.kind]
  | _ => simp [expected, Token.kind]

end Literal
end ShaderLang
