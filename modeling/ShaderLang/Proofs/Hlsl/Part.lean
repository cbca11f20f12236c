import ShaderLang.Proofs.Hlsl.Attribute
/-!
# Declarations with attributes

A row of declarations as parts of a text: attributes, the declarations behind them, and the gaps.
Attributes are taken out in two goes, one for each kind. A go takes out those of its kind and
nothing else, if no argument list that is opened on a line could be taken to be closed by a later
mark on it.

## Main definitions

* `Hlsl.Declaration` — a declaration with its attributes
* `Hlsl.source`, `Hlsl.cleaned` — the text of declarations, and what is meant to be left of it
* `Hlsl.Apart` — no line goes on to a closing mark or a semicolon of something else

## Main results

* `Hlsl.Body.Valid.not_starts` — no attribute starts in a declaration
* `Hlsl.replaces_attributes` — what a go leaves
-/

namespace ShaderLang.Hlsl

open Pattern

/-! ## Declarations -/

/-- A declaration behind its attributes. -/
inductive Body
  | plain (text : List Char)
  /-- A texture with an initializer, and the blanks on both sides of its name. -/
  | texture (before name behind initial : List Char)

/-- A declaration, with the blanks behind it and behind each of its attributes. -/
structure Declaration where
  attrs : List (Attribute × List Char)
  body : Body
  gap : List Char

/-- A part of a row of declarations. -/
inductive Part
  | attr (a : Attribute)
  | gap (b : List Char)
  | body (b : Body)

/-- The word that declares a texture. -/
def textureWord : List Char := "Texture2D".toList

namespace Body

def text : Body → List Char
  | plain t => t
  | texture before name behind initial =>
    textureWord ++ (before ++ (name ++ (behind ++ '=' :: (initial ++ [';']))))

/-- What is meant to be left. -/
def cleaned : Body → List Char
  | plain t => t
  | texture _ name _ _ => textureWord ++ ' ' :: (name ++ [';'])

/-- The declaration is one of a texture with an initializer. -/
def isTexture : Body → Bool
  | plain _ => false
  | texture .. => true

/-- What makes a declaration one. -/
def WellFormed : Body → Prop
  | plain t => (∃ s, t = s ++ [';']) ∧ (∀ x ∈ t.head?, Text.isBlank x = false ∧ x ≠ '=') ∧
    textureDefault.findAll t = []
  | texture before name behind initial => (AllBlank before ∧ before ≠ []) ∧
    ((∀ x ∈ name, Text.isBlank x = false ∧ x ≠ '=') ∧ name ≠ []) ∧
    (AllBlank behind ∧ behind ≠ []) ∧ '\n' ∉ initial ∧ ';' ∉ initial

/-- A declaration has nothing in it that is taken out, but the initializer of a texture. -/
structure Valid (b : Body) : Prop where
  wellFormed : b.WellFormed
  attributes : ∀ j : Kind, j.pattern.findAll b.text = []
  barrier : (barrier "").findAll b.cleaned = []

end Body

namespace Kind

/-- The kinds that are gone before the go for a kind. -/
def gone : Kind → Kind → Bool
  | binding, _ => false
  | editor, k => k == binding

end Kind

namespace Part

/-- What is left of a part when attributes of some kinds are gone. -/
def without (gone : Kind → Bool) : Part → List Char
  | attr a => if gone a.kind then [] else a.text
  | gap b => b
  | body b => b.text

/-- What is meant to be left of a part. -/
def cleaned : Part → List Char
  | attr _ => []
  | gap b => b
  | body b => b.cleaned

def Valid : Part → Prop
  | attr a => a.Valid
  | gap b => AllBlank b
  | body b => b.Valid

end Part

/-- What is left of parts when attributes of some kinds are gone. -/
def without (gone : Kind → Bool) (parts : List Part) : List Char := parts.flatMap (·.without gone)

theorem without_cons (gone : Kind → Bool) (part : Part) (later : List Part) :
    without gone (part :: later) = part.without gone ++ without gone later := List.flatMap_cons

theorem Part.without_attr (gone : Kind → Bool) (a : Attribute) :
    (attr a).without gone = if gone a.kind then [] else a.text := rfl

/-- What is meant to be left of parts. -/
def cleanedParts (parts : List Part) : List Char := parts.flatMap (·.cleaned)

/-- The parts of a declaration, as they are written. -/
def Declaration.parts (d : Declaration) : List Part :=
  d.attrs.flatMap (fun a => [.attr a.1, .gap a.2]) ++ [.body d.body, .gap d.gap]

/-- The parts of declarations, as they are written. -/
def partsOf (ds : List Declaration) : List Part := ds.flatMap Declaration.parts

/-- The text of declarations. -/
def source (ds : List Declaration) : List Char := without (fun _ => false) (partsOf ds)

/-- What is meant to be left of declarations. -/
def cleaned (ds : List Declaration) : List Char := cleanedParts (partsOf ds)

/-- The gaps of a declaration are blank, and its attributes and its body are what they should be. -/
structure Declaration.Valid (d : Declaration) : Prop where
  attrs : ∀ a ∈ d.attrs, a.1.Valid ∧ AllBlank a.2
  body : d.body.Valid
  gap : AllBlank d.gap

theorem valid_of_mem_partsOf {ds : List Declaration} (h : ∀ d ∈ ds, d.Valid) :
    ∀ part ∈ partsOf ds, part.Valid := by
  intro part hpart
  obtain ⟨d, hd, hpart⟩ := List.mem_flatMap.1 hpart
  rw [Declaration.parts, List.mem_append, List.mem_flatMap] at hpart
  rcases hpart with ⟨a, ha, hpart⟩ | hpart
  · obtain ⟨hattr, hgap⟩ := (h d hd).attrs a ha
    rcases List.mem_pair.1 hpart with rfl | rfl
    exacts [hattr, hgap]
  · rcases List.mem_pair.1 hpart with rfl | rfl
    exacts [(h d hd).body, (h d hd).gap]

/-- A part is the last on its line that what is opened in it could be taken to end with. What closes
an attribute is looked for when those of earlier goes are gone, and what closes an initializer when
all are gone. -/
def Part.Apart (later : List Part) : Part → Prop
  | attr (.flag _) => True
  | attr (.call k _) => ¬ k.ClosesIn (Hlsl.without k.kind.gone later)
  | gap _ => True
  | body b => (∀ k : Call, k.OpensIn b.text → ¬ k.ClosesIn (Hlsl.without k.kind.gone later)) ∧
    (b.isTexture = true → ';' ∉ (Hlsl.without (fun _ => true) later).takeWhile (· != '\n'))

/-- No line goes on to what ends something else. -/
def Apart : List Part → Prop
  | [] => True
  | part :: later => part.Apart later ∧ Apart later

/-! ## Taking out attributes -/

variable {u v s later : List Char} {j : Kind} {b : Body} {parts : List Part}

/-- What stands around a character that one of two texts does not have. -/
theorem exists_of_cons_append {x : Char} {i r c t : List Char} (h : i ++ c = r ++ x :: t)
    (hc : x ∉ c) : ∃ i', i = r ++ x :: i' ∧ i' ++ c = t := by
  rcases List.append_eq_append_iff.1 h with ⟨a, rfl, rfl⟩ | ⟨a, rfl, ht⟩
  · exact absurd (List.mem_append_right a List.mem_cons_self) hc
  · cases a with
    | nil =>
      subst ht
      exact absurd List.mem_cons_self hc
    | cons y a =>
      obtain ⟨rfl, rfl⟩ := List.cons.inj ht
      exact ⟨a, rfl, rfl⟩

theorem Body.Valid.exists_text_eq (h : b.Valid) : ∃ s, b.text = s ++ [';'] := by
  cases b with
  | plain t => exact h.wellFormed.1
  | texture before name behind initial =>
    refine ⟨textureWord ++ (before ++ (name ++ (behind ++ '=' :: initial))), ?_⟩
    simp only [Body.text, List.append_assoc, List.cons_append]

theorem exists_of_suffix_concat {x : Char} {t : List Char} (hs : s <:+ t ++ [x]) (hne : s ≠ []) :
    ∃ s', s = s' ++ [x] := by
  rcases List.suffix_concat_iff.1 hs with rfl | ⟨s', rfl, -⟩
  · exact absurd rfl hne
  · exact ⟨s', rfl⟩

theorem not_mem_of_allBlank {x : Char} {b : List Char} (hb : AllBlank b)
    (hx : Text.isBlank x = false) : x ∉ b := fun hmem => by
  rw [hb x hmem] at hx
  cases hx

/-- The opening mark of an argument list, from the bracket on. -/
def Call.head (k : Call) (b b₁ : List Char) : List Char :=
  '[' :: (b ++ (k.word.toList ++ (b₁ ++ k.opening.toList)))

/-- The closing mark of an argument list, up to the bracket. -/
def Call.tail (k : Call) (b : List Char) : List Char := k.closing.toList ++ (b ++ [']'])

/-- What is looked for, cut behind the opening mark and in front of the closing mark. -/
theorem Call.mem_language_iff {k : Call} : u ∈ k.pattern.language ↔
    ∃ b b₁ i b', AllBlank b ∧ AllBlank b₁ ∧ '\n' ∉ i ∧ AllBlank b' ∧
      u = k.head b b₁ ++ (i ++ k.tail b') := by
  simp only [mem_language_pattern, head, tail, List.cons_append, List.append_assoc]

theorem Call.not_mem_head {k : Call} {x : Char} {b b₁ : List Char} (hb : AllBlank b)
    (hb₁ : AllBlank b₁) (hblank : Text.isBlank x = false)
    (hx : x ∉ '[' :: (k.word.toList ++ k.opening.toList)) : x ∉ k.head b b₁ := by
  simp only [List.mem_cons, List.mem_append, not_or] at hx
  simp only [head, List.mem_cons, List.mem_append, not_or]
  exact ⟨hx.1, not_mem_of_allBlank hb hblank, hx.2.1, not_mem_of_allBlank hb₁ hblank, hx.2.2⟩

theorem Call.not_mem_tail (k : Call) {b : List Char} (hb : AllBlank b) : ';' ∉ k.tail b := by
  simp only [tail, List.mem_append, not_or]
  exact ⟨by cases k <;> decide, not_mem_of_allBlank hb (by decide), by decide⟩

theorem Flag.not_mem_of_mem_language {f : Flag} (hu : u ∈ f.pattern.language) : ';' ∉ u := by
  obtain ⟨b, b', hb, hb', rfl⟩ := Flag.mem_language_pattern.1 hu
  simp only [List.mem_cons, List.mem_append, not_or]
  exact ⟨by decide, not_mem_of_allBlank hb (by decide), by cases f <;> decide,
    not_mem_of_allBlank hb' (by decide), by decide, by decide⟩

/-- An argument list that is opened in a text up to a semicolon is closed in the text, or it goes on
behind the semicolon. -/
theorem Call.closes_of_starts {k : Call} {b b₁ i b' r : List Char} (hb' : AllBlank b')
    (hi : '\n' ∉ i)
    (h : k.head b b₁ ++ (i ++ k.tail b') <+: k.head b b₁ ++ (r ++ ';' :: later)) :
    k.head b b₁ ++ (i ++ k.tail b') <+: k.head b b₁ ++ r ∨
      ('\n' ∉ r ++ [';'] ∧ k.ClosesIn later) := by
  rw [List.prefix_append_right_inj] at h ⊢
  obtain ⟨t, ht⟩ := h
  -- The match ends in front of the semicolon, or goes on behind it.
  rcases List.append_eq_append_iff.1 ht with ⟨a, rfl, -⟩ | ⟨a, ha, hlater⟩
  · exact .inl (List.prefix_append _ _)
  · cases a with
    | nil =>
      rw [List.append_nil] at ha
      exact .inl (ha ▸ List.prefix_rfl)
    | cons y a =>
      rw [List.cons_append] at hlater
      obtain ⟨rfl, rfl⟩ := List.cons.inj hlater
      obtain ⟨i', rfl, rfl⟩ := exists_of_cons_append ha (k.not_mem_tail hb')
      simp only [List.mem_append, List.mem_cons, not_or] at hi
      refine .inr ⟨by simp [hi.1], i', b', t, hi.2.2, hb', ?_⟩
      simp only [tail, List.append_assoc, List.singleton_append]

/-- No attribute starts in a declaration if none is closed behind it that is opened in it. -/
theorem Body.Valid.not_starts (h : b.Valid)
    (hapart : ∀ k : Call, k.kind = j → k.OpensIn b.text → ¬ k.ClosesIn later)
    (hs : s <:+ b.text) (hne : s ≠ []) (hu : u ∈ j.pattern.language) : ¬ u <+: s ++ later := by
  have hfree : ¬ u <:+: b.text :=
    not_infix_of_findAll (h.attributes j) j.untested_pattern j.nil_not_mem_language hu
  obtain ⟨t, ht⟩ := h.exists_text_eq
  obtain ⟨s, rfl⟩ := exists_of_suffix_concat (ht ▸ hs) hne
  have hin (hpre : u <+: s) : False :=
    hfree ((hpre.isInfix.trans (List.prefix_append s [';']).isInfix).trans hs.isInfix)
  intro hpre
  rw [List.append_assoc, List.singleton_append] at hpre
  rcases Kind.mem_language_pattern.1 hu with ⟨f, rfl, hflag⟩ | ⟨k, rfl, hcall⟩
  · exact hin (prefix_of_not_mem hpre (Flag.not_mem_of_mem_language hflag))
  · obtain ⟨b', b₁, i, b'', hb', hb₁, hi, hb'', rfl⟩ := Call.mem_language_iff.1 hcall
    -- The opening mark has no semicolon, and so it lies in the declaration.
    obtain ⟨r, rfl⟩ := prefix_of_not_mem ((List.prefix_append _ _).trans hpre)
      (Call.not_mem_head hb' hb₁ (by decide) (by cases k <;> decide))
    rw [List.append_assoc] at hpre
    rcases Call.closes_of_starts hb'' hi hpre with hpre | ⟨hline, hcloses⟩
    · exact hin hpre
    · obtain ⟨t', ht'⟩ := hs
      refine hapart k rfl ⟨t', b', b₁, r ++ [';'], hb', hb₁, hline, ?_⟩ hcloses
      simp only [← ht', Call.head, List.cons_append, List.append_assoc]

/-- Nothing starts in a text with a character that the text does not have. -/
theorem not_starts_of_not_mem {x : Char} {t : List Char} (hx : x ∉ t) (hs : s <:+ t)
    (hne : s ≠ []) : ¬ x :: u <+: s ++ later := by
  rintro ⟨t, ht⟩
  cases s with
  | nil => exact absurd rfl hne
  | cons y s =>
    obtain ⟨rfl, -⟩ := List.cons.inj ht
    exact hx (hs.mem List.mem_cons_self)

/-- Nothing starts in blanks that starts with another character. -/
theorem not_starts_of_allBlank {x : Char} {b : List Char} (hb : AllBlank b)
    (hx : Text.isBlank x = false) (hs : s <:+ b) (hne : s ≠ []) : ¬ x :: u <+: s ++ later :=
  not_starts_of_not_mem (not_mem_of_allBlank hb hx) hs hne

/-- What starts in a text with its first character, which is nowhere else in it, starts with the
text. -/
theorem eq_of_suffix_cons {x : Char} {t : List Char} (hfree : x ∉ t) (hs : s <:+ x :: t)
    (hne : s ≠ []) (hpre : x :: u <+: s ++ later) : s = x :: t := by
  rcases List.suffix_cons_iff.1 hs with h | h
  · exact h
  · exact absurd hpre (not_starts_of_not_mem hfree h hne)

/-- What starts in an attribute with a bracket starts with the attribute. -/
theorem Attribute.eq_of_suffix {a : Attribute} (ha : a.Valid) (hs : s <:+ a.text) (hne : s ≠ [])
    (hpre : '[' :: u <+: s ++ later) : s = a.text := by
  obtain ⟨t, ht, hfree⟩ := a.text_eq_cons ha
  rw [ht] at hs ⊢
  exact eq_of_suffix_cons hfree hs hne hpre

/-- The go for a kind of attributes takes out those of the kind. -/
theorem replaces_attributes (j : Kind) (hvalid : ∀ part ∈ parts, part.Valid)
    (hapart : Apart parts) : j.pattern.Replaces (fun _ => []) (without j.gone parts)
      (without (fun k => j.gone k || k == j) parts) := by
  induction parts with
  | nil => exact replaces_nil
  | cons part later ih =>
    obtain ⟨hpart, hlater⟩ := List.forall_mem_cons.1 hvalid
    have ih := ih hlater hapart.2
    have hopens : ∀ u ∈ j.pattern.language, ∃ v, u = '[' :: v := fun u hu =>
      Kind.exists_of_mem_language hu
    cases part with
    | gap b =>
      refine ih.keep fun s hs hne u hu => ?_
      obtain ⟨v, rfl⟩ := hopens u hu
      exact not_starts_of_allBlank hpart (by decide) hs hne
    | body b =>
      refine ih.keep fun s hs hne u hu => hpart.not_starts (fun k hk => ?_) hs hne hu
      subst hk
      exact hapart.1.1 k
    -- An attribute of the kind is a match, and in one of another kind no match starts.
    | attr a =>
      rw [without_cons, without_cons, Part.without_attr, Part.without_attr]
      by_cases hgone : j.gone a.kind
      · simpa only [hgone, Bool.true_or, if_true, List.nil_append] using ih
      by_cases hkind : a.kind = j
      · subst hkind
        simp only [hgone, beq_self_eq_true, Bool.or_true, if_true]
        refine ih.found (Kind.untested_pattern _) (a.text_mem_language hpart) ?_ ?_ fun _ _ _ => rfl
        · obtain ⟨t, ht, -⟩ := a.text_eq_cons hpart
          exact ht ▸ List.cons_ne_nil _ _
        · refine fun v hv hpre => (Attribute.eq_of_starts hpart hv hpre).2 ?_
          rintro k arguments rfl
          exact hapart.1
      · have hother : (a.kind == j) = false := beq_eq_false_iff_ne.2 hkind
        simp only [hgone, hother, Bool.or_false]
        refine ih.keep fun s hs hne u hu hpre => ?_
        obtain ⟨v, rfl⟩ := hopens u hu
        -- An attribute has its bracket in front, and no other one.
        obtain rfl := a.eq_of_suffix hpart hs hne hpre
        exact hkind (Attribute.eq_of_starts hpart hu hpre).1.symm

end ShaderLang.Hlsl
