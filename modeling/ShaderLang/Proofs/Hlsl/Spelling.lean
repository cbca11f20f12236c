import ShaderLang.Proofs.Hlsl.Annotation
/-!
# Attributes that are taken out

Attributes are read in whatever case, with an argument or without one, but cleaning looks for a few
spellings only: the words in their own case, four of them alone and four with an argument list. An
attribute that is read and spelled in this way is taken out. Any other one is left in front of the
declaration that it says something of.

## Main definitions

* `Hlsl.Spelled` — the spellings that cleaning looks for
* `Hlsl.Plain` — a declaration in which cleaning finds nothing

## Main results

* `Hlsl.spelled_iff` — the spellings are the words of the patterns for attributes
* `Hlsl.Bracketed.eq_of_starts` — of an attribute in front of a plain declaration, nothing or all is
  found
* `Hlsl.clean_annotated` — which attributes that say something are taken out
-/

namespace ShaderLang.Hlsl

open Pattern

/-- The spellings of attributes that are taken out. -/
inductive Spelled : List Char → Prop
  /-- A word on its own. -/
  | flag (f : Flag) {b b' : List Char} (hb : AllBlank b) (hb' : AllBlank b') :
    Spelled ('[' :: (b ++ (f.word.toList ++ (b' ++ [']']))))
  /-- A word with an argument list on one line. -/
  | call (k : Call) {b b₁ i b' : List Char} (hb : AllBlank b) (hb₁ : AllBlank b₁) (hi : '\n' ∉ i)
    (hb' : AllBlank b') :
    Spelled (k.head b b₁ ++ (i ++ k.tail b'))

/-- A declaration in which cleaning finds nothing, and whose first line closes no argument list. -/
structure Plain (t : List Char) : Prop where
  attributes : ∀ j : Kind, j.pattern.findAll t = []
  textures : textureDefault.findAll t = []
  barriers : (barrier "").findAll t = []
  closes : ∀ k : Call, ¬ k.ClosesIn t

variable {t u v w : List Char} {j : Kind}

theorem spelled_iff : Spelled u ↔ ∃ j : Kind, u ∈ j.pattern.language := by
  constructor
  · rintro (⟨f, hb, hb'⟩ | ⟨k, hb, hb₁, hi, hb'⟩)
    · exact ⟨f.kind, Kind.mem_language_pattern.2 <|
        .inl ⟨f, rfl, Flag.mem_language_pattern.2 ⟨_, _, hb, hb', rfl⟩⟩⟩
    · exact ⟨k.kind, Kind.mem_language_pattern.2 <|
        .inr ⟨k, rfl, Call.mem_language_iff.2 ⟨_, _, _, _, hb, hb₁, hi, hb', rfl⟩⟩⟩
  · rintro ⟨j, hu⟩
    rcases Kind.mem_language_pattern.1 hu with ⟨f, -, hflag⟩ | ⟨k, -, hcall⟩
    · obtain ⟨b, b', hb, hb', rfl⟩ := Flag.mem_language_pattern.1 hflag
      exact .flag f hb hb'
    · obtain ⟨b, b₁, i, b', hb, hb₁, hi, hb', rfl⟩ := Call.mem_language_iff.1 hcall
      exact .call k hb hb₁ hi hb'

/-! ## Attributes in front of a plain declaration -/

/-- Up to its first closing bracket, a spelling is all there is, or its argument list goes on. -/
theorem Spelled.cut (h : Spelled v) : ∃ a r, v = a ++ ']' :: r ∧ ']' ∉ a ∧
    (r = [] ∨ ∃ (k : Call) (i b : List Char), '\n' ∉ i ∧ AllBlank b ∧
      r = i ++ k.tail b) := by
  cases h with
  | @flag f b b' hb hb' =>
    refine ⟨'[' :: (b ++ (f.word.toList ++ b')), [], by simp, ?_, .inl rfl⟩
    simp only [List.mem_cons, List.mem_append, not_or]
    exact ⟨by decide, not_mem_of_allBlank hb (by decide), by cases f <;> decide,
      not_mem_of_allBlank hb' (by decide)⟩
  | @call k b b₁ i b' hb hb₁ hi hb' =>
    have hhead : ']' ∉ k.head b b₁ :=
      Call.not_mem_head hb hb₁ (by decide) (by cases k <;> decide)
    by_cases hmem : ']' ∈ i
    · -- The bracket lies in the arguments, and what is behind it is closed later on.
      obtain ⟨i₁, i₂, rfl, hi₁⟩ := List.eq_append_cons_of_mem hmem
      simp only [List.mem_append, List.mem_cons, not_or] at hi
      exact ⟨k.head b b₁ ++ i₁, i₂ ++ k.tail b', by simp, by simp [hhead, hi₁],
        .inr ⟨k, i₂, b', hi.2.2, hb', rfl⟩⟩
    · refine ⟨k.head b b₁ ++ (i ++ (k.closing.toList ++ b')), [], by simp [Call.tail], ?_, .inl rfl⟩
      simp only [List.mem_append, not_or]
      exact ⟨hhead, hmem, by cases k <;> decide, not_mem_of_allBlank hb' (by decide)⟩

/-- What starts where an attribute does is the attribute. -/
theorem Bracketed.eq_of_starts (hu : Bracketed u) (ht : Plain t) (hv : v ∈ j.pattern.language)
    (hpre : v <+: u ++ t) : v = u := by
  obtain ⟨a, r, rfl, ha, hr⟩ := (spelled_iff.2 ⟨j, hv⟩).cut
  obtain ⟨s, rfl, -, hs⟩ := hu
  obtain ⟨later, hlater⟩ := hpre
  have htext : a ++ ']' :: (r ++ later) = ('[' :: s) ++ ']' :: t := by simpa using hlater
  -- The closing bracket of the attribute is the first one of what starts there.
  have hs : ']' ∉ '[' :: s := by simp [hs]
  have hne {x : Char} {l : List Char} (hl : ']' ∉ l) (hx : x ∈ l) : (x != ']') = true :=
    bne_iff_ne.2 fun hxe => hl (hxe ▸ hx)
  obtain ⟨rfl, hbehind⟩ := append_inj_of_head htext (fun x => hne ha) (fun x => hne hs)
    (fun x hx => by cases hx; rfl) (fun x hx => by cases hx; rfl)
  obtain rfl := (List.cons.inj hbehind).2
  rcases hr with rfl | ⟨k, i, b, hi, hb, rfl⟩
  · rfl
  · exact absurd ⟨i, b, later, hi, hb, by simp [Call.tail]⟩ (ht.closes k)

/-! ## The goes of the cleaning -/

theorem Plain.replaces_attributes (ht : Plain t) (j : Kind) :
    j.pattern.Replaces (fun _ => []) t t :=
  replaces_of_not_infix fun _ =>
    not_infix_of_findAll (ht.attributes j) j.untested_pattern j.nil_not_mem_language

/-- A go takes out an attribute of its spellings. -/
theorem Plain.replaces_spelled (ht : Plain t) (hu : Bracketed u) (hj : u ∈ j.pattern.language) :
    j.pattern.Replaces (fun _ => []) (u ++ t) t :=
  (ht.replaces_attributes j).found j.untested_pattern hj
    (fun hnil => j.nil_not_mem_language (hnil ▸ hj)) (fun _ => hu.eq_of_starts ht) fun _ _ _ => rfl

/-- A go leaves an attribute of other spellings. -/
theorem Plain.replaces_other (ht : Plain t) (hu : Bracketed u) (hj : u ∉ j.pattern.language) :
    j.pattern.Replaces (fun _ => []) (u ++ t) (u ++ t) := by
  refine (ht.replaces_attributes j).keep fun s hs hne v hv hpre => ?_
  obtain rfl : s = u := by
    obtain ⟨v, rfl⟩ := Kind.exists_of_mem_language hv
    obtain ⟨r, rfl, hr, -⟩ := hu
    exact eq_of_suffix_cons (by simp [hr]) hs hne hpre
  exact hj (hu.eq_of_starts ht hv hpre ▸ hv)

theorem Plain.replaces_textures (ht : Plain t) :
    textureDefault.Replaces uninitialized t t := by
  refine replaces_of_not_infix fun _ =>
    not_infix_of_findAll ht.textures untested_textureDefault fun hnil => ?_
  obtain ⟨v, hv⟩ := exists_of_mem_textureDefault hnil
  cases hv

theorem Plain.replaces_barrier (ht : Plain t) {ending : String} {f : Match → List Char}
    (hending : ';' ∉ ending.toList) : (barrier ending).Replaces f t t := by
  refine replaces_of_not_infix fun u hu hin => ?_
  obtain ⟨-, -, v, hv, hpre⟩ := exists_of_mem_barrier hending hu
  refine not_infix_of_findAll ht.barriers (untested_barrier _) (fun hnil => ?_) hv
    (hpre.isInfix.trans hin)
  obtain ⟨-, ⟨w, hw⟩, -⟩ := exists_of_mem_barrier (by decide) hnil
  cases hw

/-- Of an attribute that is spelled as it is looked for nothing is left. -/
theorem Plain.clean_spelled (ht : Plain t) (hu : Bracketed u) (h : Spelled u) :
    clean (String.ofList (u ++ t)) = String.ofList t := by
  have hbarrier (ending : String) (f : Match → List Char) (hending : ';' ∉ ending.toList) :=
    (ht.replaces_barrier (f := f) hending).replace_eq
  by_cases hbinding : u ∈ Kind.binding.pattern.language
  · exact clean_eq (ht.replaces_spelled hu hbinding).replace_eq
      (ht.replaces_attributes .editor).replace_eq ht.replaces_textures.replace_eq hbarrier
  · have heditor : u ∈ Kind.editor.pattern.language := by
      obtain ⟨j, hj⟩ := spelled_iff.1 h
      cases j with
      | binding => exact absurd hj hbinding
      | editor => exact hj
    exact clean_eq (ht.replaces_other hu hbinding).replace_eq
      (ht.replaces_spelled hu heditor).replace_eq ht.replaces_textures.replace_eq hbarrier

/-- The go for textures leaves the bracket and the word of an attribute. -/
theorem exists_replace_textures {a r : List Char} {x : Char} (ha : '2' ∉ a)
    (hx : behindName.startsBy x = true) :
    ∃ out, textureDefault.replace uninitialized (a ++ x :: r) = a ++ out := by
  refine exists_replace_keep fun s hs _ u hu hpre => ?_
  obtain ⟨b, n, b', i, -, -, -, -, rfl⟩ := mem_language_textureDefault.1 hu
  have hword : textureWord <+: textureHead b n b' ++ (i ++ [';']) := by
    rw [textureHead_append]
    exact List.prefix_append _ _
  -- What stands behind the word of an attribute is in no other word.
  have hfree : x ∉ textureWord := fun hmem => by
    have hnone : textureWord.all (fun y => !behindName.startsBy y) = true := by decide +kernel
    have hnot := List.all_eq_true.1 hnone x hmem
    rw [hx] at hnot
    cases hnot
  have hin := prefix_of_not_mem (hword.trans hpre) hfree
  exact ha (hs.mem (hin.mem (by decide +kernel)))

/-- The goes for barriers leave a text that starts none. -/
theorem exists_replace_barrier {a : List Char} (ha : 'W' ∉ a) {ending : String}
    (hending : ';' ∉ ending.toList) (f : Match → List Char) (later : List Char) :
    ∃ out, (barrier ending).replace f (a ++ later) = a ++ out := by
  refine exists_replace_keep fun s hs hne u hu => ?_
  obtain ⟨-, ⟨v, rfl⟩, -⟩ := exists_of_mem_barrier hending hu
  exact not_starts_of_not_mem ha hs hne

/-- Of an attribute in another spelling the bracket and the word are left. -/
theorem Plain.clean_other (ht : Plain t) (hu : ReadAs u w) (h : ¬ Spelled u) :
    ∃ b rest, AllBlank b ∧
      clean (String.ofList (u ++ t)) = String.ofList ('[' :: (b ++ (w ++ rest))) := by
  have hgo (j : Kind) := (ht.replaces_other hu.bracketed
    fun hj => h (spelled_iff.2 ⟨j, hj⟩)).replace_eq
  obtain ⟨hw, b, x, r, hb, hx, hread⟩ := hu.exists_eq
  have hfree {y : Char} (hy : Text.isBlank y = false ∧ y ≠ '[' ∧
      ∀ word ∈ heeded, Text.smallLetter y ∉ word.toList) : y ∉ '[' :: (b ++ w) := by
    simp only [List.mem_cons, List.mem_append, not_or]
    exact ⟨hy.2.1, not_mem_of_allBlank hb hy.1, not_mem_of_heeded hw hy.2.2⟩
  have htext : u ++ t = '[' :: (b ++ w) ++ x :: (r ++ t) := by
    rw [hread]
    simp
  -- No texture and no barrier starts up to the end of the word: all have a character that it lacks.
  have htwo : '2' ∉ '[' :: (b ++ w) := hfree (by decide)
  have hwarp : 'W' ∉ '[' :: (b ++ w) := hfree (by decide)
  have hsync : ';' ∉ "WithWarpSync".toList := by decide
  have hplain : ';' ∉ "".toList := by decide
  obtain ⟨c, hc⟩ := exists_replace_textures (r := r ++ t) htwo hx
  obtain ⟨d, hd⟩ := exists_replace_barrier hwarp hsync
    (fun m => m.get "scope" ++ "MemoryBarrierWithGroupSync".toList) c
  obtain ⟨e, he⟩ := exists_replace_barrier hwarp hplain
    (fun m => m.get "scope" ++ "MemoryBarrier".toList) d
  refine ⟨b, e, hb, ?_⟩
  have hcode : (String.ofList (u ++ t)).toList = u ++ t := String.toList_ofList
  rw [clean_eq_replace, hcode, hgo, hgo, htext, hc, hd, he, List.cons_append, List.append_assoc]

/-- An attribute that says something of a plain declaration is taken out if it is spelled as it is
looked for. If not, its bracket and its word are left in front of what is left of the text. -/
theorem clean_annotated (hu : ReadAs u w) (ht : Plain t) :
    (Spelled u → clean (String.ofList (u ++ t)) = String.ofList t) ∧
      (¬ Spelled u → ∃ b rest, AllBlank b ∧
        clean (String.ofList (u ++ t)) = String.ofList ('[' :: (b ++ (w ++ rest)))) :=
  ⟨ht.clean_spelled hu.bracketed, ht.clean_other hu⟩

theorem plain_variable : Plain " float4 x;".toList where
  attributes j := List.isEmpty_iff.1 (by cases j <;> decide +kernel)
  textures := List.isEmpty_iff.1 (by decide +kernel)
  barriers := List.isEmpty_iff.1 (by decide +kernel)
  closes k := k.not_closesIn (by decide +kernel)

theorem readAs_name : ReadAs "[name(\"Rock\")]".toList "name".toList :=
  readAs_of_any ⟨"name(\"Rock\")".toList, by decide⟩ (by decide +kernel) (by decide +kernel)

/-- A name for editors, in quotes, is taken out. -/
theorem clean_annotated_name : clean "[name(\"Rock\")] float4 x;" = " float4 x;" := by
  have hspelled : Spelled "[name(\"Rock\")]".toList :=
    .call .name allBlank_nil allBlank_nil (i := "Rock".toList) (by decide) allBlank_nil
  exact (clean_annotated readAs_name plain_variable).1 hspelled

/-- A word that starts with a large letter marks a color, and is left in the text. -/
theorem clean_leaves_annotation :
    ReadAs "[Color]".toList "Color".toList ∧ Plain " float4 x;".toList ∧
      (Attributes.ofText "[Color]".toList).marks.color = true ∧
      clean "[Color] float4 x;" = "[Color] float4 x;" := by
  refine ⟨?_, plain_variable, by decide +kernel, by decide +kernel⟩
  exact readAs_of_any ⟨"Color".toList, by decide⟩ (by decide +kernel) (by decide +kernel)

end ShaderLang.Hlsl
