import ShaderLang.Hlsl.Clean
import ShaderLang.Proofs.Text.Replace
import ShaderLang.Proofs.Text.Trim
/-!
# Attributes

The attributes that are taken out of program texts. Each pattern of the cleaning stands for one kind
of them. Which attributes stand at a point is told by what the texts of attributes look like; the
attribute that is written there is the only one, unless its line goes on to the closing mark of
another.

## Main definitions

* `Hlsl.Attribute` — an attribute that is taken out
* `Hlsl.Call.ClosesIn` — a text has a closing mark of an argument list on its first line
* `Hlsl.Call.OpensIn` — a text has an opening mark of an argument list on its last line

## Main results

* `Hlsl.Kind.mem_language_pattern` — the words of the patterns
* `Hlsl.Attribute.eq_of_starts` — the attribute that is written at a point is the one found there
-/

namespace ShaderLang.Hlsl

open Pattern

/-! ## Attributes -/

/-- Attributes are taken out in two goes, each for one kind. -/
inductive Kind
  /-- How a variable is bound and used. -/
  | binding
  /-- How an editor shows a variable. -/
  | editor
  deriving DecidableEq

/-- Words that are attributes on their own. -/
inductive Flag
  | internal | color | hideInInspector | hdr
  deriving DecidableEq

/-- Words that are attributes with arguments. -/
inductive Call
  | layout | samplerAlias | spriteuv | name
  deriving DecidableEq

namespace Flag

def word : Flag → String
  | internal => "internal"
  | color => "color"
  | hideInInspector => "hideInInspector"
  | hdr => "hdr"

def kind : Flag → Kind
  | internal | color => .binding
  | hideInInspector | hdr => .editor

/-- What is looked for. -/
def pattern (f : Flag) : Pattern := bracketed (lit f.word)

theorem exists_iff {P : Flag → Prop} :
    (∃ f, P f) ↔ P .internal ∨ P .color ∨ P .hideInInspector ∨ P .hdr := by
  constructor
  · rintro ⟨f, hf⟩
    cases f <;> simp [hf]
  · rintro (h | h | h | h) <;> exact ⟨_, h⟩

end Flag

namespace Call

def word : Call → String
  | layout => "layout"
  | samplerAlias => "alias"
  | spriteuv => "spriteuv"
  | name => "name"

def kind : Call → Kind
  | layout | samplerAlias | spriteuv => .binding
  | name => .editor

/-- The mark in front of the arguments. The argument of a name is in quotes. -/
def opening : Call → String
  | name => "(\""
  | _ => "("

/-- The mark behind the arguments. -/
def closing : Call → String
  | name => "\")"
  | _ => ")"

/-- What is looked for between the parentheses. -/
def inner : Call → Pattern
  | name => seqs [lit "\"", inLine, lit "\""]
  | _ => inLine

/-- What is looked for. -/
def pattern (k : Call) : Pattern := bracketed (withArguments k.word k.inner)

theorem exists_iff {P : Call → Prop} :
    (∃ k, P k) ↔ P .layout ∨ P .samplerAlias ∨ P .spriteuv ∨ P .name := by
  constructor
  · rintro ⟨k, hk⟩
    cases k <;> simp [hk]
  · rintro (h | h | h | h) <;> exact ⟨_, h⟩

end Call

namespace Kind

/-- What is looked for in the go for a kind. -/
def pattern : Kind → Pattern
  | binding => attributes
  | editor => editorAttributes

end Kind

/-- An attribute that is taken out. -/
inductive Attribute
  | flag (f : Flag)
  | call (k : Call) (arguments : List Char)

/-- Characters that arguments are free of. -/
def marks : List Char := ['[', ']', '(', ')', '"', '\n']

namespace Attribute

def kind : Attribute → Kind
  | flag f => f.kind
  | call k _ => k.kind

def text : Attribute → List Char
  | flag f => '[' :: (f.word.toList ++ [']'])
  | call k arguments =>
    '[' :: (k.word.toList ++ (k.opening.toList ++ (arguments ++ (k.closing.toList ++ [']']))))

/-- Arguments are on one line and free of brackets, parentheses and quotes. -/
def Valid : Attribute → Prop
  | flag _ => True
  | call _ arguments => ∀ x ∈ arguments, x ∉ marks

end Attribute

/-! ## Texts made of characters of a class -/

/-- All characters of a text are blank. -/
def AllBlank (b : List Char) : Prop := ∀ x ∈ b, Text.isBlank x = true

theorem allBlank_nil : AllBlank [] := nofun

/-- No blanks stand in front of what starts with another character. -/
theorem eq_nil_of_blanks {b v v' : List Char} (h : b ++ v = v') (hb : AllBlank b)
    (hv' : ∀ x ∈ v'.head?, Text.isBlank x = false) : b = [] := by
  cases b with
  | nil => rfl
  | cons x b =>
    subst h
    exact absurd (hb x List.mem_cons_self) (by simp [hv' x rfl])

/-- The first occurrence of a character is behind a text that has none. -/
theorem exists_of_append_cons {x : Char} {i s a r : List Char} (h : i ++ x :: s = a ++ r)
    (ha : x ∉ a) : ∃ i', i = a ++ i' ∧ i' ++ x :: s = r := by
  rcases List.append_eq_append_iff.1 h with ⟨a', rfl, hs⟩ | ⟨c', rfl, hr⟩
  · cases a' with
    | nil => exact ⟨[], by simp, by simpa using hs⟩
    | cons y a' =>
      obtain ⟨rfl, -⟩ := List.cons.inj hs
      exact absurd (List.mem_append_right _ List.mem_cons_self) ha
  · exact ⟨c', rfl, hr.symm⟩

/-- A text without a character that starts a longer one ends before that character. -/
theorem prefix_of_not_mem {x : Char} {u s v : List Char} (h : u <+: s ++ x :: v) (hu : x ∉ u) :
    u <+: s := by
  have hs : s ++ [x] <+: s ++ x :: v := ⟨v, by simp⟩
  rcases List.prefix_or_prefix_of_prefix h hs with hpre | hpre
  · rcases List.prefix_concat_iff.1 hpre with rfl | hpre
    · exact absurd (List.mem_append_right s (List.mem_singleton_self x)) hu
    · exact hpre
  · exact absurd (hpre.mem (List.mem_append_right s (List.mem_singleton_self x))) hu

/-! ## The words of the patterns -/

variable {u v later : List Char} {f : Flag} {k : Call} {j : Kind}

theorem mem_language_bracketed (p : Pattern) : u ∈ (bracketed p).language ↔
    ∃ b v b', AllBlank b ∧ v ∈ p.language ∧ AllBlank b' ∧
      u = '[' :: (b ++ (v ++ (b' ++ [']']))) := by
  simp only [bracketed, blanks, mem_language_seqs_cons, mem_language_seqs_nil, mem_language_lit,
    mem_language_run]
  constructor
  · rintro ⟨_, rfl, _, ⟨b, hb, _, ⟨v, hv, _, ⟨b', hb', _, ⟨_, rfl, _, rfl, rfl⟩, rfl⟩, rfl⟩,
      rfl⟩, rfl⟩
    exact ⟨b, v, b', hb, hv, hb', rfl⟩
  · rintro ⟨b, v, b', hb, hv, hb', rfl⟩
    exact ⟨_, rfl, _, ⟨b, hb, _, ⟨v, hv, _, ⟨b', hb', _, ⟨_, rfl, _, rfl, rfl⟩, rfl⟩, rfl⟩,
      rfl⟩, rfl⟩

namespace Flag

theorem mem_language_pattern : u ∈ f.pattern.language ↔
    ∃ b b', AllBlank b ∧ AllBlank b' ∧ u = '[' :: (b ++ (f.word.toList ++ (b' ++ [']']))) := by
  simp only [pattern, mem_language_bracketed, mem_language_lit]
  constructor
  · rintro ⟨b, _, b', hb, rfl, hb', rfl⟩
    exact ⟨b, b', hb, hb', rfl⟩
  · rintro ⟨b, b', hb, hb', rfl⟩
    exact ⟨b, _, b', hb, rfl, hb', rfl⟩

end Flag

namespace Call

theorem mem_language_inLine : u ∈ inLine.language ↔ '\n' ∉ u := by
  rw [inLine, mem_language_run]
  simp only [bne_iff_ne]
  exact ⟨fun h hmem => h _ hmem rfl, fun h x hx hxe => h (hxe ▸ hx)⟩

theorem mem_language_withArguments (word : String) (p : Pattern) :
    u ∈ (withArguments word p).language ↔
      ∃ b v, AllBlank b ∧ v ∈ p.language ∧ u = word.toList ++ (b ++ ('(' :: (v ++ [')']))) := by
  simp only [withArguments, blanks, mem_language_seqs_cons, mem_language_seqs_nil,
    mem_language_lit, mem_language_run]
  constructor
  · rintro ⟨_, rfl, _, ⟨b, hb, _, ⟨_, rfl, _, ⟨v, hv, _, ⟨_, rfl, _, rfl, rfl⟩, rfl⟩, rfl⟩,
      rfl⟩, rfl⟩
    exact ⟨b, v, hb, hv, rfl⟩
  · rintro ⟨b, v, hb, hv, rfl⟩
    exact ⟨_, rfl, _, ⟨b, hb, _, ⟨_, rfl, _, ⟨v, hv, _, ⟨_, rfl, _, rfl, rfl⟩, rfl⟩, rfl⟩,
      rfl⟩, rfl⟩

/-- What stands between the parentheses, without the quotes that it may have. -/
theorem mem_language_inner : u ∈ k.inner.language ↔
    ∃ i, '\n' ∉ i ∧ '(' :: (u ++ [')']) = k.opening.toList ++ (i ++ k.closing.toList) := by
  cases k with
  | name =>
    simp only [inner, opening, closing, mem_language_seqs_cons, mem_language_seqs_nil,
      mem_language_lit, mem_language_inLine]
    constructor
    · rintro ⟨_, rfl, _, ⟨i, hi, _, ⟨_, rfl, _, rfl, rfl⟩, rfl⟩, rfl⟩
      exact ⟨i, hi, by simp⟩
    · rintro ⟨i, hi, hu⟩
      have hquoted : '"' :: (i ++ ['"']) ++ [')'] = u ++ [')'] :=
        (List.append_assoc ('"' :: i) ['"'] [')']).trans (List.cons.inj hu).2.symm
      exact ⟨_, rfl, _, ⟨i, hi, _, ⟨_, rfl, _, rfl, rfl⟩, rfl⟩, List.append_cancel_right hquoted⟩
  | _ =>
    simp only [inner, mem_language_inLine]
    exact ⟨fun hi => ⟨u, hi, rfl⟩, fun ⟨i, hi, hu⟩ =>
      List.append_cancel_right (List.cons.inj hu).2 ▸ hi⟩

theorem mem_language_pattern : u ∈ k.pattern.language ↔
    ∃ b b₁ i b', AllBlank b ∧ AllBlank b₁ ∧ '\n' ∉ i ∧ AllBlank b' ∧
      u = '[' :: (b ++ (k.word.toList ++ (b₁ ++ (k.opening.toList ++ (i ++ (k.closing.toList ++
        (b' ++ [']']))))))) := by
  simp only [pattern, mem_language_bracketed, mem_language_withArguments, mem_language_inner]
  constructor
  · rintro ⟨b, _, b', hb, ⟨b₁, v, hb₁, ⟨i, hi, hv⟩, rfl⟩, hb', rfl⟩
    exact ⟨b, b₁, i, b', hb, hb₁, hi, hb', by rw [hv]; simp⟩
  · rintro ⟨b, b₁, i, b', hb, hb₁, hi, hb', rfl⟩
    obtain ⟨v, hv⟩ : ∃ v, '(' :: (v ++ [')']) = k.opening.toList ++ (i ++ k.closing.toList) := by
      cases k with
      | name => exact ⟨'"' :: (i ++ ['"']), by simp [opening, closing]⟩
      | _ => exact ⟨i, rfl⟩
    exact ⟨b, _, b', hb, ⟨b₁, v, hb₁, ⟨i, hi, hv⟩, rfl⟩, hb', by rw [hv]; simp⟩

end Call

namespace Kind

theorem mem_language_pattern : u ∈ j.pattern.language ↔
    (∃ f : Flag, f.kind = j ∧ u ∈ f.pattern.language) ∨
      ∃ k : Call, k.kind = j ∧ u ∈ k.pattern.language := by
  cases j with
  | binding =>
    have hpattern : attributes = alts [Call.layout.pattern, Flag.internal.pattern,
      Flag.color.pattern, Call.samplerAlias.pattern, Call.spriteuv.pattern] := rfl
    rw [pattern, hpattern, mem_language_alts]
    simp only [List.mem_cons, List.not_mem_nil, or_false, exists_eq_or_imp, exists_eq_left,
      Flag.exists_iff, Flag.kind, Call.exists_iff, Call.kind, reduceCtorEq, true_and, false_and]
    grind
  | editor =>
    have hpattern : editorAttributes = alts [Flag.hideInInspector.pattern, Call.name.pattern,
      Flag.hdr.pattern] := rfl
    rw [pattern, hpattern, mem_language_alts]
    simp only [List.mem_cons, List.not_mem_nil, or_false, exists_eq_or_imp, exists_eq_left,
      Flag.exists_iff, Flag.kind, Call.exists_iff, Call.kind, reduceCtorEq, true_and, false_and]
    grind

theorem untested_bracketed {p : Pattern} (h : p.Untested) : (bracketed p).Untested :=
  untested_seqs <| by simp [blanks, untested_lit, untested_run, h]

theorem untested_withArguments {word : String} {p : Pattern} (h : p.Untested) :
    (withArguments word p).Untested :=
  untested_seqs <| by simp [blanks, untested_lit, untested_run, h]

theorem untested_pattern (j : Kind) : j.pattern.Untested := by
  have hline : inLine.Untested := untested_run _
  have hquoted : (seqs [lit "\"", inLine, lit "\""]).Untested :=
    untested_seqs <| by simp [untested_lit, hline]
  cases j with
  | binding =>
    exact untested_alts <| by
      simp [untested_bracketed, untested_withArguments, untested_lit, hline]
  | editor =>
    exact untested_alts <| by
      simp [untested_bracketed, untested_withArguments, untested_lit, hquoted]

/-- All attributes start with a bracket. -/
theorem exists_of_mem_language (hu : u ∈ j.pattern.language) : ∃ v, u = '[' :: v := by
  rcases mem_language_pattern.1 hu with ⟨f, -, hu⟩ | ⟨k, -, hu⟩
  · obtain ⟨b, b', -, -, rfl⟩ := Flag.mem_language_pattern.1 hu
    exact ⟨_, rfl⟩
  · obtain ⟨b, b₁, i, b', -, -, -, -, rfl⟩ := Call.mem_language_pattern.1 hu
    exact ⟨_, rfl⟩

theorem nil_not_mem_language (j : Kind) : [] ∉ j.pattern.language := fun hnil => by
  obtain ⟨v, hv⟩ := exists_of_mem_language hnil
  cases hv

end Kind

/-! ## Attributes in a line -/

namespace Call

/-- A text has a closing mark of an argument list on its first line. -/
def ClosesIn (k : Call) (text : List Char) : Prop :=
  ∃ i b v, '\n' ∉ i ∧ AllBlank b ∧ text = i ++ (k.closing.toList ++ (b ++ ']' :: v))

/-- A text has an opening mark of an argument list, and no line break behind it. -/
def OpensIn (k : Call) (text : List Char) : Prop :=
  ∃ s b b₁ r, AllBlank b ∧ AllBlank b₁ ∧ '\n' ∉ r ∧
    text = s ++ '[' :: (b ++ (k.word.toList ++ (b₁ ++ (k.opening.toList ++ r))))

/-- No mark opens an argument list in a text without brackets. -/
theorem not_opensIn (k : Call) {text : List Char} (h : '[' ∉ text) : ¬ k.OpensIn text := by
  rintro ⟨s, b, b₁, r, -, -, -, rfl⟩
  exact h (List.mem_append_right s List.mem_cons_self)

/-- No mark closes an argument list on a line without a closing parenthesis. -/
theorem not_closesIn (k : Call) {text : List Char}
    (h : ')' ∉ text.takeWhile (· != '\n')) : ¬ k.ClosesIn text := by
  rintro ⟨i, b, v, hi, -, rfl⟩
  have hline : ∀ x ∈ i, (x != '\n') = true := fun x hx => bne_iff_ne.2 fun hxe => hi (hxe ▸ hx)
  refine h ?_
  rw [List.takeWhile_append_of_pos hline]
  cases k <;> simp [closing]

end Call

theorem Flag.alpha_word (f : Flag) : ∀ x ∈ f.word.toList, x.isAlpha = true :=
  List.all_eq_true.1 (by cases f <;> decide)

theorem Call.alpha_word (k : Call) : ∀ x ∈ k.word.toList, x.isAlpha = true :=
  List.all_eq_true.1 (by cases k <;> decide)

theorem Flag.word_ne_nil (f : Flag) : f.word.toList ≠ [] := by
  cases f <;> decide

theorem Call.word_ne_nil (k : Call) : k.word.toList ≠ [] := by
  cases k <;> decide

theorem Flag.word_injective {f g : Flag} (h : f.word.toList = g.word.toList) : f = g := by
  cases f <;> cases g <;> first | rfl | exact absurd h (by decide)

theorem Call.word_injective {k l : Call} (h : k.word.toList = l.word.toList) : k = l := by
  cases k <;> cases l <;> first | rfl | exact absurd h (by decide)

theorem Flag.word_ne_word (f : Flag) (k : Call) : f.word.toList ≠ k.word.toList := by
  cases f <;> cases k <;> decide

theorem isBlank_of_isAlpha {x : Char} (h : x.isAlpha = true) : Text.isBlank x = false :=
  Text.isBlank_of_isNameChar (by simp [Text.isNameChar, Char.isAlphanum, h])

theorem isAlpha_of_isBlank {x : Char} (h : Text.isBlank x = true) : x.isAlpha = false := by
  rw [Bool.eq_false_iff]
  intro halpha
  rw [isBlank_of_isAlpha halpha] at h
  cases h

/-- Behind a bracket and blanks, a word is the one that is written there. -/
theorem word_inj {b w r w' r' : List Char} (h : b ++ (w ++ r) = w' ++ r') (hb : AllBlank b)
    (hw : ∀ x ∈ w, x.isAlpha = true) (hw' : ∀ x ∈ w', x.isAlpha = true) (hne : w' ≠ [])
    (hr : ∀ x ∈ r.head?, x.isAlpha = false) (hr' : ∀ x ∈ r'.head?, x.isAlpha = false) :
    b = [] ∧ w = w' ∧ r = r' := by
  have hnil : b = [] := eq_nil_of_blanks h hb fun x hx => by
    cases w' with
    | nil => exact absurd rfl hne
    | cons y w' =>
      cases hx
      exact isBlank_of_isAlpha (hw' _ List.mem_cons_self)
  subst hnil
  exact ⟨rfl, append_inj_of_head h hw hw' hr hr'⟩

/-- A word ends in front of blanks and a character that is no letter. -/
theorem isAlpha_head_blanks {b r : List Char} (hb : AllBlank b)
    (hr : ∀ x ∈ r.head?, x.isAlpha = false) : ∀ x ∈ (b ++ r).head?, x.isAlpha = false := by
  cases b with
  | nil => exact hr
  | cons y b =>
    intro x hx
    cases hx
    exact isAlpha_of_isBlank (hb _ List.mem_cons_self)

theorem isAlpha_head_opening (k : Call) (r : List Char) :
    ∀ x ∈ (k.opening.toList ++ r).head?, x.isAlpha = false := by
  cases k <;>
  · intro x hx
    cases hx
    decide

theorem isBlank_head_opening (k : Call) (r : List Char) :
    ∀ x ∈ (k.opening.toList ++ r).head?, Text.isBlank x = false := by
  cases k <;>
  · intro x hx
    cases hx
    decide

/-- Arguments end at their own closing mark if no other one is on their line. -/
theorem Call.arguments_inj {k : Call} {arguments i b t later : List Char}
    (h : i ++ (k.closing.toList ++ (b ++ ']' :: t)) =
      arguments ++ (k.closing.toList ++ ']' :: later))
    (harguments : ∀ x ∈ arguments, x ∉ marks) (hlater : ¬ k.ClosesIn later) (hi : '\n' ∉ i)
    (hb : AllBlank b) : i = arguments ∧ b = [] := by
  obtain ⟨x, c, hclosing, hx, hc⟩ : ∃ x c, k.closing.toList = x :: c ∧ x ∈ marks ∧
      x ∉ c ++ [']'] := by
    cases k with
    | name => exact ⟨'"', [')'], rfl, by decide, by decide⟩
    | _ => exact ⟨')', [], rfl, by decide, by decide⟩
  rw [hclosing, List.cons_append, List.cons_append] at h
  obtain ⟨i₁, rfl, hline⟩ := exists_of_append_cons h fun hmem => harguments x hmem hx
  cases i₁ with
  | nil =>
    refine ⟨List.append_nil _, ?_⟩
    have hclosed := List.append_cancel_left (List.cons.inj hline).2
    exact eq_nil_of_blanks hclosed hb fun y hy => by cases hy; decide
  | cons y i₁ =>
    -- The line goes on behind the mark, and so there is another one.
    obtain ⟨rfl, hbehind⟩ := List.cons.inj hline
    rw [List.append_cons c] at hbehind
    obtain ⟨i₂, rfl, hagain⟩ := exists_of_append_cons hbehind hc
    refine absurd ⟨i₂, b, t, fun hmem => hi ?_, hb, ?_⟩ hlater
    · simp [hmem]
    · rw [hclosing, ← hagain]
      rfl

namespace Attribute

variable {a : Attribute}

theorem text_mem_language (ha : a.Valid) : a.text ∈ a.kind.pattern.language := by
  rw [Kind.mem_language_pattern]
  cases a with
  | flag f =>
    exact .inl ⟨f, rfl, Flag.mem_language_pattern.2 ⟨[], [], allBlank_nil, allBlank_nil, rfl⟩⟩
  | call k arguments =>
    exact .inr ⟨k, rfl, Call.mem_language_pattern.2 ⟨[], [], arguments, [], allBlank_nil,
      allBlank_nil, fun hmem => ha _ hmem (by decide), allBlank_nil, rfl⟩⟩

/-- Where an attribute is written, only its kind is found. It is found itself, unless its line goes
on to the closing mark of another. -/
theorem eq_of_starts (ha : a.Valid) (hv : v ∈ j.pattern.language) (hpre : v <+: a.text ++ later) :
    j = a.kind ∧
      ((∀ k arguments, a = .call k arguments → ¬ k.ClosesIn later) → v = a.text) := by
  obtain ⟨t, ht⟩ := hpre
  rcases Kind.mem_language_pattern.1 hv with ⟨f, rfl, hflag⟩ | ⟨k, rfl, hcall⟩
  · obtain ⟨b, b', hb, hb', rfl⟩ := Flag.mem_language_pattern.1 hflag
    -- A word of letters ends at a blank or a mark, so that the two words are the same.
    have hend := isAlpha_head_blanks (r := ']' :: t) hb' fun x hx => by cases hx; decide
    cases a with
    | flag g =>
      simp only [text, List.cons_append, List.append_assoc, List.cons.injEq, true_and] at ht
      obtain ⟨rfl, hword, htail⟩ := word_inj ht hb f.alpha_word g.alpha_word g.word_ne_nil hend
        fun x hx => by cases hx; decide
      obtain rfl := Flag.word_injective hword
      obtain rfl := eq_nil_of_blanks htail hb' fun x hx => by cases hx; decide
      exact ⟨rfl, fun _ => rfl⟩
    | call l arguments =>
      simp only [text, List.cons_append, List.append_assoc, List.cons.injEq, true_and] at ht
      obtain ⟨rfl, hword, -⟩ := word_inj ht hb f.alpha_word l.alpha_word l.word_ne_nil hend
        (isAlpha_head_opening l _)
      exact absurd hword (f.word_ne_word l)
  · obtain ⟨b, b₁, i, b', hb, hb₁, hi, hb', rfl⟩ := Call.mem_language_pattern.1 hcall
    have hend (r : List Char) := isAlpha_head_blanks hb₁ (isAlpha_head_opening k r)
    cases a with
    | flag g =>
      simp only [text, List.cons_append, List.append_assoc, List.cons.injEq, true_and] at ht
      obtain ⟨rfl, hword, -⟩ := word_inj ht hb k.alpha_word g.alpha_word g.word_ne_nil (hend _)
        fun x hx => by cases hx; decide
      exact absurd hword.symm (g.word_ne_word k)
    | call l arguments =>
      simp only [text, List.cons_append, List.append_assoc, List.cons.injEq, true_and] at ht
      obtain ⟨rfl, hword, htail⟩ := word_inj ht hb k.alpha_word l.alpha_word l.word_ne_nil (hend _)
        (isAlpha_head_opening l _)
      obtain rfl := Call.word_injective hword
      obtain rfl := eq_nil_of_blanks htail hb₁ (isBlank_head_opening k _)
      -- What stands between the marks may still end at a later one.
      refine ⟨rfl, fun hlater => ?_⟩
      obtain ⟨rfl, rfl⟩ := Call.arguments_inj (List.append_cancel_left htail) ha
        (hlater k arguments rfl) hi hb'
      rfl

/-- An attribute has one opening bracket. -/
theorem text_eq_cons (ha : a.Valid) : ∃ t, a.text = '[' :: t ∧ '[' ∉ t := by
  cases a with
  | flag f => exact ⟨_, rfl, by cases f <;> decide⟩
  | call k arguments =>
    have harguments : '[' ∉ arguments := fun hmem => ha _ hmem (by decide)
    refine ⟨_, rfl, ?_⟩
    simp only [List.mem_append, not_or]
    exact ⟨by cases k <;> decide, by cases k <;> decide, harguments, by cases k <;> decide,
      by decide⟩

end Attribute

end ShaderLang.Hlsl
