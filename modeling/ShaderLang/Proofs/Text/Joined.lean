import ShaderLang.Proofs.Text.Trim
/-!
# Parts in a row

Some texts are written in parts, with any spaces and tabs in between. The parts are solid, so that
what they make up has no blank at its ends: whatever blanks stand around it, it is found again.

## Main definitions

* `Text.Gap` — spaces and tabs
* `Text.Joined` — parts in a row with gaps between them
* `Text.Framed` — texts that start and end with characters

## Main results

* `Text.Joined.framed` — solid parts in a row are framed
* `Text.Framed.trim_append` — a framed text is found between blanks
-/

namespace ShaderLang.Text

/-- Spaces and tabs. -/
def Gap (cs : List Char) : Prop := ∀ c ∈ cs, c = ' ' ∨ c = '\t'

/-- Some parts stand in a row, with gaps between them. -/
inductive Joined : List (List Char) → List Char → Prop
  | one {part : List Char} : Joined [part] part
  | more {part gap text : List Char} {parts : List (List Char)} (hgap : Gap gap)
      (h : Joined parts text) : Joined (part :: parts) (part ++ (gap ++ text))

/-- A part has characters, none of which is a blank or a slash. -/
structure Solid (cs : List Char) : Prop where
  ne_nil : cs ≠ []
  isBlank : ∀ c ∈ cs, isBlank c = false
  slash : '/' ∉ cs

theorem solid_iff {cs : List Char} :
    Solid cs ↔ cs ≠ [] ∧ cs.all (fun c => !Text.isBlank c) = true ∧ '/' ∉ cs := by
  simp only [List.all_eq_true, Bool.not_eq_true']
  constructor
  · intro h
    exact ⟨h.ne_nil, h.isBlank, h.slash⟩
  · rintro ⟨hne, hblank, hslash⟩
    exact ⟨hne, hblank, hslash⟩

instance (cs : List Char) : Decidable (Solid cs) := decidable_of_iff _ solid_iff.symm

/-- A text with characters at both ends that are no blanks, and without breaks and slashes. -/
structure Framed (cs : List Char) : Prop where
  head : ∃ c, cs.head? = some c ∧ isBlank c = false
  last : ∃ c, cs.getLast? = some c ∧ isBlank c = false
  line : '\n' ∉ cs
  slash : '/' ∉ cs

variable {cs ds front back core : List Char} {c : Char} {parts : List (List Char)}

theorem Gap.isBlank (h : Gap cs) : ∀ c ∈ cs, isBlank c = true := by
  intro c hc
  rcases h c hc with rfl | rfl <;> decide

theorem Gap.not_mem (h : Gap cs) (hspace : c ≠ ' ') (htab : c ≠ '\t') : c ∉ cs :=
  fun hc => (h c hc).elim hspace htab

theorem Solid.framed (h : Solid cs) : Framed cs := by
  refine ⟨⟨cs.head h.ne_nil, List.head?_eq_some_head h.ne_nil, ?_⟩,
    ⟨cs.getLast h.ne_nil, List.getLast?_eq_some_getLast h.ne_nil, ?_⟩, fun hbreak => ?_, h.slash⟩
  · exact h.isBlank _ (List.head_mem h.ne_nil)
  · exact h.isBlank _ (List.getLast_mem h.ne_nil)
  · exact absurd (h.isBlank _ hbreak) (by decide)

theorem Framed.ne_nil (h : Framed cs) : cs ≠ [] := by
  obtain ⟨c, hc, -⟩ := h.head
  rintro rfl
  cases hc

theorem Framed.append (h : Framed cs) (hgap : Gap front) (h' : Framed ds) :
    Framed (cs ++ (front ++ ds)) := by
  obtain ⟨c, hc, hblank⟩ := h.head
  obtain ⟨d, hd, hblank'⟩ := h'.last
  refine ⟨⟨c, by simp [hc], hblank⟩, ⟨d, by simp [hd], hblank'⟩, ?_, ?_⟩
  · simp [h.line, h'.line, hgap.not_mem]
  · simp [h.slash, h'.slash, hgap.not_mem]

theorem joined_singleton_iff {part : List Char} : Joined [part] cs ↔ cs = part := by
  constructor
  · intro h
    cases h with
    | one => rfl
    | more _ h => cases h
  · rintro rfl
    exact .one

theorem joined_cons_iff {part next : List Char} :
    Joined (part :: next :: parts) cs ↔
      ∃ gap text, Gap gap ∧ Joined (next :: parts) text ∧ cs = part ++ (gap ++ text) := by
  constructor
  · intro h
    cases h with
    | more hgap h => exact ⟨_, _, hgap, h, rfl⟩
  · rintro ⟨gap, text, hgap, h, rfl⟩
    exact .more hgap h

theorem Joined.framed (h : Joined parts cs) (hparts : ∀ part ∈ parts, Solid part) : Framed cs := by
  induction h with
  | one => exact (hparts _ List.mem_cons_self).framed
  | more hgap _ ih =>
    obtain ⟨hpart, hparts⟩ := List.forall_mem_cons.1 hparts
    exact hpart.framed.append hgap (ih hparts)

theorem trimStart_append (h : ∀ c ∈ front, isBlank c = true) (cs : List Char) :
    trimStart (front ++ cs) = trimStart cs := List.dropWhile_append_of_pos h

theorem Framed.trimStart (h : Framed cs) : trimStart cs = cs := by
  obtain ⟨c, hc, hblank⟩ := h.head
  obtain ⟨rest, rfl⟩ := List.head?_eq_some_iff.1 hc
  rw [Text.trimStart, List.dropWhile_cons_of_neg (by simp [hblank])]

/-- The blanks around a text are cut off, and nothing else. -/
theorem Framed.trim_append (h : Framed core) (hfront : ∀ c ∈ front, isBlank c = true)
    (hback : ∀ c ∈ back, isBlank c = true) : trim (front ++ (core ++ back)) = core := by
  obtain ⟨c, hc, hblank⟩ := h.head
  obtain ⟨d, hd, hblank'⟩ := h.last
  obtain ⟨rest, hrest⟩ := List.head?_eq_some_iff.1 hc
  have hstart : Text.trimStart (core ++ back) = core ++ back := by
    rw [hrest, List.cons_append, Text.trimStart, List.dropWhile_cons_of_neg (by simp [hblank])]
  have hreverse : ∀ c ∈ back.reverse, isBlank c = true :=
    fun c hc => hback c (List.mem_reverse.1 hc)
  rw [trim, trimStart_append hfront, hstart, trimEnd, List.reverse_append,
    List.dropWhile_append_of_pos hreverse]
  obtain ⟨init, hinit⟩ := List.getLast?_eq_some_iff.1 hd
  rw [hinit, List.reverse_append, List.reverse_singleton, List.singleton_append,
    List.dropWhile_cons_of_neg (by simp [hblank'])]
  simp

theorem Framed.trim (h : Framed core) : trim core = core := by
  have happend := @Framed.trim_append [] [] core h nofun nofun
  rwa [List.append_nil] at happend

theorem dropWhile_append_of_not_mem (hne : cs ≠ []) (h : c ∉ cs) (ds : List Char) :
    (cs ++ ds).dropWhile (· == c) = cs ++ ds := by
  obtain ⟨d, cs, rfl⟩ := List.exists_cons_of_ne_nil hne
  have hd : ¬ (d == c) = true := by
    rw [beq_iff_eq]
    rintro rfl
    exact h List.mem_cons_self
  rw [List.cons_append, List.dropWhile_cons, if_neg hd]

/-- Only one parenthesis is cut off on either side of a text that has none. -/
theorem dropWhile_parens (hne : cs ≠ []) (hopen : '(' ∉ cs) (hclose : ')' ∉ cs) :
    ((('(' :: (cs ++ [')'])).dropWhile (· == '(')).reverse.dropWhile (· == ')')).reverse = cs := by
  have hne' : cs.reverse ≠ [] := fun hnil => hne (List.reverse_eq_nil_iff.1 hnil)
  have hreverse := @dropWhile_append_of_not_mem cs.reverse ')' hne'
    (fun hmem => hclose (List.mem_reverse.1 hmem)) []
  rw [List.append_nil] at hreverse
  rw [List.dropWhile_cons_of_pos (by decide), dropWhile_append_of_not_mem hne hopen,
    List.reverse_append, List.reverse_singleton, List.singleton_append,
    List.dropWhile_cons_of_pos (by decide), hreverse, List.reverse_reverse]

theorem framed_parens (hline : '\n' ∉ cs) (hslash : '/' ∉ cs) :
    Framed ('(' :: (cs ++ [')'])) := by
  have hlast : ('(' :: cs ++ [')']).getLast? = some ')' := List.getLast?_concat
  exact ⟨⟨'(', rfl, by decide⟩, ⟨')', hlast, by decide⟩, by simpa using hline,
    by simpa using hslash⟩

theorem dropPrefix?_eq_some_iff : dropPrefix? ds cs = some core ↔ cs = ds ++ core := by
  induction ds generalizing cs with
  | nil => simp [dropPrefix?]
  | cons d ds ih =>
    cases cs with
    | nil => simp [dropPrefix?]
    | cons c cs =>
      rw [dropPrefix?]
      split
      · next heq =>
        rw [ih, beq_iff_eq.1 heq, List.cons_append, List.cons.injEq]
        simp
      · next hne =>
        constructor
        · nofun
        · intro heq
          exact absurd (beq_iff_eq.2 (List.cons.inj heq).1.symm) hne

theorem isNameChar_of_isName (h : isName cs = true) : ∀ c ∈ cs, isNameChar c = true := by
  cases cs with
  | nil => exact nofun
  | cons c cs =>
    rw [isName, Bool.and_eq_true, List.all_eq_true] at h
    exact List.forall_mem_cons.2 ⟨isNameChar_of_isNameStart h.1, h.2⟩

theorem solid_of_isName (h : isName cs = true) : Solid cs := by
  have hchars := isNameChar_of_isName h
  refine ⟨?_, fun c hc => isBlank_of_isNameChar (hchars c hc), fun hslash => ?_⟩
  · rintro rfl
    cases h
  · exact absurd (hchars _ hslash) (by decide)

/-- Between gaps a name has only its own characters and those of the gaps. -/
theorem not_mem_padded {name : List Char} (hname : isName name = true) (hfront : Gap front)
    (hback : Gap back) (hc : isNameChar c = false) (hspace : c ≠ ' ') (htab : c ≠ '\t') :
    c ∉ front ++ (name ++ back) := by
  have hmem : c ∉ name := by
    intro hmem
    rw [isNameChar_of_isName hname c hmem] at hc
    cases hc
  simp [hfront.not_mem hspace htab, hmem, hback.not_mem hspace htab]

end ShaderLang.Text
