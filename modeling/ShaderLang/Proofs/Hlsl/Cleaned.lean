import ShaderLang.Proofs.Hlsl.Part
/-!
# What cleaning leaves

Cleaning takes the attributes out of a row of declarations and the initializers out of those of
textures. It looks at lines and not at declarations: an argument list that is opened on a line goes
on to the last closing mark of the line, and an initializer to the last semicolon. Where no line
goes on that far, what is taken out is just what was meant.

## Main results

* `Hlsl.replaces_textures`, `Hlsl.replaces_barrier` — what the goes behind those for attributes
  leave
* `Hlsl.clean_source` — declarations that stand apart are cleaned as they are meant to be
* `Hlsl.clean_loses_declaration` — of two on one line the first may be lost
-/

namespace ShaderLang.Hlsl

open Pattern

variable {u v s later : List Char} {j : Kind} {b : Body} {parts : List Part}

/-! ## Taking out initializers -/

/-- No character of a text is blank. -/
def NoBlank (n : List Char) : Prop := ∀ x ∈ n, Text.isBlank x = false

/-- What stands in front of an initializer. -/
def textureHead (b n b' : List Char) : List Char := textureWord ++ (b ++ (n ++ (b' ++ ['='])))

theorem textureHead_append (b n b' v : List Char) :
    textureHead b n b' ++ v = textureWord ++ (b ++ (n ++ (b' ++ '=' :: v))) := by
  simp only [textureHead, List.append_assoc, List.singleton_append]

theorem mem_language_blanks : u ∈ blanks.language ↔ AllBlank u := mem_language_run _

theorem mem_language_noBlank : u ∈ (run fun c => !Text.isBlank c).language ↔ NoBlank u := by
  rw [mem_language_run]
  simp only [Bool.not_eq_true', NoBlank]

theorem mem_language_textureDefault : u ∈ textureDefault.language ↔
    ∃ b n b' i, AllBlank b ∧ NoBlank n ∧ AllBlank b' ∧ '\n' ∉ i ∧
      u = textureHead b n b' ++ (i ++ [';']) := by
  have hgroup : (group "name" (run fun c => !Text.isBlank c)).language =
    (run fun c => !Text.isBlank c).language := rfl
  simp only [textureDefault, mem_language_seqs_cons, mem_language_seqs_nil, mem_language_lit,
    mem_language_blanks, hgroup, mem_language_noBlank, Call.mem_language_inLine]
  constructor
  · rintro ⟨_, rfl, _, ⟨b, hb, _, ⟨n, hn, _, ⟨b', hb', _, ⟨_, rfl, _, ⟨i, hi, _, ⟨_, rfl, _, rfl,
      rfl⟩, rfl⟩, rfl⟩, rfl⟩, rfl⟩, rfl⟩, rfl⟩
    exact ⟨b, n, b', i, hb, hn, hb', hi, (textureHead_append b n b' _).symm⟩
  · rintro ⟨b, n, b', i, hb, hn, hb', hi, rfl⟩
    exact ⟨_, rfl, _, ⟨b, hb, _, ⟨n, hn, _, ⟨b', hb', _, ⟨_, rfl, _, ⟨i, hi, _, ⟨_, rfl, _, rfl,
      rfl⟩, rfl⟩, rfl⟩, rfl⟩, rfl⟩, rfl⟩, (textureHead_append b n b' _).symm⟩

/-- Of two characters in a text one is in front of the other, or they are one. -/
theorem append_cons_cases {x y : Char} {a c r t : List Char} (h : a ++ x :: r = c ++ y :: t) :
    (a = c ∧ x = y ∧ r = t) ∨ (∃ m, c = a ++ x :: m ∧ r = m ++ y :: t) ∨
      ∃ m, a = c ++ y :: m ∧ t = m ++ x :: r := by
  rcases List.append_eq_append_iff.1 h with ⟨m, rfl, hm⟩ | ⟨m, rfl, hm⟩
  · cases m with
    | nil =>
      obtain ⟨rfl, rfl⟩ := List.cons.inj hm
      exact .inl ⟨(List.append_nil a).symm, rfl, rfl⟩
    | cons z m =>
      obtain ⟨rfl, rfl⟩ := List.cons.inj hm
      exact .inr (.inl ⟨m, rfl, rfl⟩)
  · cases m with
    | nil =>
      obtain ⟨rfl, rfl⟩ := List.cons.inj hm
      exact .inl ⟨List.append_nil c, rfl, rfl⟩
    | cons z m =>
      obtain ⟨rfl, rfl⟩ := List.cons.inj hm
      exact .inr (.inr ⟨m, rfl, rfl⟩)

/-- What stands in front of an initializer is told by the text. -/
theorem textureHead_inj {b n b' v before name behind v' : List Char}
    (h : textureHead b n b' ++ v = textureHead before name behind ++ v') (hb : AllBlank b)
    (hn : NoBlank n) (hb' : AllBlank b') (hbefore : AllBlank before)
    (hname : ∀ x ∈ name, Text.isBlank x = false ∧ x ≠ '=') (hne : name ≠ [])
    (hbehind : AllBlank behind) (hne' : behind ≠ []) :
    b = before ∧ n = name ∧ b' = behind ∧ v = v' := by
  rw [textureHead_append, textureHead_append] at h
  have hequals : '=' ∉ before ++ (name ++ behind) := by
    simp only [List.mem_append, not_or]
    exact ⟨not_mem_of_allBlank hbefore (by decide), fun hmem => (hname _ hmem).2 rfl,
      not_mem_of_allBlank hbehind (by decide)⟩
  -- The equals sign that is found is not in front of the one that is written.
  obtain ⟨c, hc, hv⟩ : ∃ c, b ++ (n ++ b') = before ++ (name ++ behind) ++ c ∧
      c ++ '=' :: v = '=' :: v' := by
    refine exists_of_append_cons ?_ hequals
    simpa only [List.append_assoc] using List.append_cancel_left h
  rw [List.append_assoc, List.append_assoc] at hc
  obtain ⟨y, name, rfl⟩ := List.exists_cons_of_ne_nil hne
  have hy := (hname y List.mem_cons_self).1
  have hstart : ∀ x ∈ (n ++ b').head?, Text.isBlank x = false := by
    cases n with
    | nil =>
      -- Without a name all in front of the equals sign would be blank.
      have hmem : y ∈ b ++ ([] ++ b') := hc ▸ by simp
      exact absurd (List.forall_mem_append.2 ⟨hb, hb'⟩ y hmem) (by simp [hy])
    | cons z n =>
      intro x hx
      cases hx
      exact hn _ List.mem_cons_self
  obtain ⟨rfl, hnames⟩ := append_inj_of_head hc hb hbefore hstart fun x hx => by
    cases hx
    exact hy
  have hblank {d : List Char} (hd : AllBlank d) : ∀ x ∈ d.head?, (!Text.isBlank x) = false :=
    fun x hx => by
      rw [hd x (List.mem_of_mem_head? hx)]
      rfl
  obtain ⟨rfl, rfl⟩ := append_inj_of_head hnames (p := fun x => !Text.isBlank x)
    (fun x hx => by rw [hn x hx]; rfl) (fun x hx => by rw [(hname x hx).1]; rfl) (hblank hb')
    (by
      obtain ⟨z, behind, rfl⟩ := List.exists_cons_of_ne_nil hne'
      exact fun x hx => by cases hx; rw [hbehind _ List.mem_cons_self]; rfl)
  obtain rfl := eq_nil_of_blanks hv (List.forall_mem_append.1 hb').2 fun x hx => by
    cases hx
    decide
  exact ⟨rfl, rfl, List.append_nil _, (List.cons.inj hv).2⟩

/-- An initializer ends at its own semicolon if no other one is on its line. -/
theorem initial_inj {i initial t : List Char} (h : i ++ ';' :: t = initial ++ ';' :: later)
    (hi : '\n' ∉ i) (hinitial : ';' ∉ initial)
    (hlater : ';' ∉ later.takeWhile (· != '\n')) : i = initial := by
  rcases append_cons_cases h with ⟨rfl, -, -⟩ | ⟨m, rfl, -⟩ | ⟨m, rfl, rfl⟩
  · rfl
  · exact absurd (List.mem_append_right i List.mem_cons_self) hinitial
  · have hm : ∀ x ∈ m, (x != '\n') = true := fun x hx => bne_iff_ne.2 fun hxe =>
      hi (List.mem_append_right _ (List.mem_cons_of_mem _ (hxe ▸ hx)))
    rw [List.takeWhile_append_of_pos hm] at hlater
    exact absurd (List.mem_append_right m (by simp)) hlater

/-- What follows a declaration starts with a blank, and the next one with no equals sign. -/
def SetApart (later : List Char) : Prop :=
  (∀ x ∈ later.head?, Text.isBlank x = true) ∧ ∀ x ∈ (later.dropWhile Text.isBlank).head?, x ≠ '='

theorem untested_textureDefault : textureDefault.Untested := by
  have hname : (group "name" (run fun c => !Text.isBlank c)).Untested := trivial
  have hline : inLine.Untested := untested_run (· != '\n')
  exact untested_seqs <| by simp [blanks, untested_lit, untested_run, hname, hline]

/-- A texture initializer starts with its word. -/
theorem exists_of_mem_textureDefault (hu : u ∈ textureDefault.language) : ∃ v, u = 'T' :: v := by
  obtain ⟨b, n, b', i, -, -, -, -, rfl⟩ := mem_language_textureDefault.1 hu
  exact ⟨_, rfl⟩

/-- The equals sign of an initializer that starts in a declaration is in the declaration. -/
theorem exists_of_textureHead_append {b n b' v : List Char} (hb : AllBlank b) (hn : NoBlank n)
    (hb' : AllBlank b') (hlater : SetApart later)
    (h : textureHead b n b' ++ v = s ++ ';' :: later) :
    ∃ r, s = textureHead b n b' ++ r ∧ v = r ++ ';' :: later := by
  rw [textureHead_append] at h
  have hhead : textureWord ++ (b ++ (n ++ b')) ++ '=' :: v = s ++ ';' :: later := by
    simpa only [List.append_assoc] using h
  rcases append_cons_cases hhead with ⟨-, hne, -⟩ | ⟨r, rfl, rfl⟩ | ⟨r, hr, rfl⟩
  · exact absurd hne (by decide)
  · exact ⟨r, by rw [textureHead_append]; simp only [List.append_assoc], rfl⟩
  · -- The semicolon would be in the name, which ends at a blank.
    exfalso
    have hword : ';' ∉ textureWord ++ b := by
      rw [List.mem_append, not_or]
      exact ⟨by decide, not_mem_of_allBlank hb (by decide)⟩
    rw [← List.append_assoc] at hr
    obtain ⟨m, rfl, hm⟩ := exists_of_append_cons hr.symm hword
    obtain ⟨n', rfl, rfl⟩ := exists_of_cons_append hm.symm (not_mem_of_allBlank hb' (by decide))
    cases n' with
    | cons x n' =>
      have hx := hn x (List.mem_append_right _ (List.mem_cons_of_mem _ List.mem_cons_self))
      exact absurd (hlater.1 x rfl) (by simp [hx])
    | nil =>
      have hequals := hlater.2 '='
      rw [List.nil_append, List.dropWhile_append_of_pos hb'] at hequals
      exact hequals (by simp [show Text.isBlank '=' = false by decide]) rfl

/-- No texture initializer starts in a declaration that has none. -/
theorem not_starts_of_plain {t : List Char} (ht : (Body.plain t).WellFormed)
    (hlater : SetApart later) (hs : s <:+ t) (hne : s ≠ []) (hu : u ∈ textureDefault.language) :
    ¬ u <+: s ++ later := by
  obtain ⟨⟨t', rfl⟩, -, hfound⟩ := ht
  have hfree : ∀ v ∈ textureDefault.language, ¬ v <:+: t' ++ [';'] := fun v hv =>
    not_infix_of_findAll hfound untested_textureDefault
      (fun hnil => by obtain ⟨w, hw⟩ := exists_of_mem_textureDefault hnil; cases hw) hv
  obtain ⟨s, rfl⟩ := exists_of_suffix_concat hs hne
  rintro ⟨w, hw⟩
  obtain ⟨b, n, b', i, hb, hn, hb', hi, rfl⟩ := mem_language_textureDefault.1 hu
  rw [List.append_assoc, List.append_assoc, List.append_assoc, List.singleton_append,
    List.singleton_append] at hw
  obtain ⟨r, rfl, hr⟩ := exists_of_textureHead_append hb hn hb' hlater hw
  -- The line of the initializer ends at a semicolon of the declaration, its own or the last one.
  obtain ⟨i', hline, hpre⟩ : ∃ i', '\n' ∉ i' ∧ i' ++ [';'] <+: r ++ [';'] := by
    rcases append_cons_cases hr with ⟨rfl, -, -⟩ | ⟨m, rfl, -⟩ | ⟨m, rfl, -⟩
    · exact ⟨i, hi, List.prefix_rfl⟩
    · exact ⟨i, hi, m ++ [';'], by simp⟩
    · exact ⟨r, fun hmem => hi (List.mem_append_left _ hmem), List.prefix_rfl⟩
  refine hfree _ (mem_language_textureDefault.2 ⟨b, n, b', i', hb, hn, hb', hline, rfl⟩) ?_
  refine List.IsInfix.trans (List.IsPrefix.isInfix ?_) hs.isInfix
  rw [List.append_assoc]
  exact (List.prefix_append_right_inj _).2 hpre

/-- The name of a texture is what its group holds. -/
theorem get_of_way {m : Match} (h : textureDefault.Way m.start m.marks m.stop) :
    ∃ b n b' i, AllBlank b ∧ NoBlank n ∧ AllBlank b' ∧ '\n' ∉ i ∧
      m.start.Spans (textureHead b n b' ++ (i ++ [';'])) m.stop ∧ m.get "name" = n := by
  obtain ⟨_, c₁, _, hword, h₁, hmarks⟩ := way_seqs_cons h
  obtain ⟨_, c₂, _, hbefore, h₂, rfl⟩ := way_seqs_cons h₁
  obtain ⟨_, c₃, _, hname, h₃, rfl⟩ := way_seqs_cons h₂
  obtain ⟨_, c₄, _, hbehind, h₄, rfl⟩ := way_seqs_cons h₃
  obtain ⟨_, c₅, _, hequals, h₅, rfl⟩ := way_seqs_cons h₄
  obtain ⟨_, c₆, _, hinitial, h₆, rfl⟩ := way_seqs_cons h₅
  obtain ⟨_, c₇, _, hend, h₇, rfl⟩ := way_seqs_cons h₆
  -- No other part of the pattern marks a group, so that all marks are those of the name.
  obtain ⟨_, hinner, rfl⟩ := way_group hname
  obtain ⟨rfl, _, hu, hword⟩ := hword.over (unmarked_lit _)
  obtain ⟨rfl, b, hb, hbefore⟩ := hbefore.over trivial
  obtain ⟨rfl, n, hn, hinner⟩ := hinner.over trivial
  obtain ⟨rfl, b', hb', hbehind⟩ := hbehind.over trivial
  obtain ⟨rfl, _, hu', hequals⟩ := hequals.over (unmarked_lit _)
  obtain ⟨rfl, i, hi, hinitial⟩ := hinitial.over trivial
  obtain ⟨rfl, _, hu'', hend⟩ := hend.over (unmarked_lit _)
  obtain ⟨rfl, _, rfl, hstop⟩ := h₇.over trivial
  obtain rfl := (mem_language_lit _).1 hu
  obtain rfl := (mem_language_lit _).1 hu'
  obtain rfl := (mem_language_lit _).1 hu''
  refine ⟨b, n, b', i, mem_language_blanks.1 hb, mem_language_noBlank.1 hn,
    mem_language_blanks.1 hb', Call.mem_language_inLine.1 hi, ?_, ?_⟩
  · rw [textureHead_append]
    exact hword.append <| hbefore.append <| hinner.append <| hbehind.append <| hequals.append <|
      hinitial.append (hend.append hstop)
  · simp [Match.get, Match.get?, Match.span?, hmarks, hinner.textTo]

/-- What is put in place of a texture with an initializer. -/
def uninitialized (m : Match) : List Char := "Texture2D ".toList ++ m.get "name" ++ ";".toList

theorem uninitialized_eq {m : Match} {name : List Char} (h : m.get "name" = name) :
    uninitialized m = textureWord ++ ' ' :: (name ++ [';']) := by
  have hword : "Texture2D ".toList = textureWord ++ [' '] := by decide +kernel
  calc uninitialized m = "Texture2D ".toList ++ m.get "name" ++ [';'] := rfl
    _ = textureWord ++ ' ' :: (name ++ [';']) := by
      rw [h, hword]
      simp only [List.append_assoc, List.nil_append, List.cons_append]

/-- A texture is found where it is written, up to its own semicolon. -/
theorem replaces_texture {before name behind initial out : List Char}
    (h : (Body.texture before name behind initial).WellFormed)
    (hlater : ';' ∉ later.takeWhile (· != '\n'))
    (ih : textureDefault.Replaces uninitialized later out) :
    textureDefault.Replaces uninitialized ((Body.texture before name behind initial).text ++ later)
      ((Body.texture before name behind initial).cleaned ++ out) := by
  obtain ⟨⟨hbefore, -⟩, ⟨hname, hne⟩, ⟨hbehind, hne'⟩, hline, hsemicolon⟩ := h
  have htext : (Body.texture before name behind initial).text =
    textureHead before name behind ++ (initial ++ [';']) := (textureHead_append ..).symm
  have hinj {b n b' v v' : List Char} (hb : AllBlank b) (hn : NoBlank n) (hb' : AllBlank b')
      (h : textureHead b n b' ++ v = textureHead before name behind ++ v') :
      b = before ∧ n = name ∧ b' = behind ∧ v = v' :=
    textureHead_inj h hb hn hb' hbefore hname hne hbehind hne'
  rw [htext]
  -- Whatever match starts here has the name of the declaration and ends at its semicolon.
  refine ih.found untested_textureDefault (mem_language_textureDefault.2
    ⟨before, name, behind, initial, hbefore, fun x hx => (hname x hx).1, hbehind, hline, rfl⟩) ?_
    ?_ ?_
  · exact fun hnil => by cases hnil
  · rintro v hv ⟨t, ht⟩
    obtain ⟨b, n, b', i, hb, hn, hb', hi, rfl⟩ := mem_language_textureDefault.1 hv
    simp only [List.append_assoc] at ht
    obtain ⟨rfl, rfl, rfl, hrest⟩ := hinj hb hn hb' ht
    rw [initial_inj hrest hi hsemicolon hlater]
  · intro m hway hspan
    obtain ⟨b, n, b', i, hb, hn, hb', -, hspan', hget⟩ := get_of_way hway
    obtain ⟨-, rfl, -, -⟩ := hinj hb hn hb' (hspan'.textTo.symm.trans hspan.textTo)
    exact uninitialized_eq hget

/-- What follows a body starts with a blank. -/
def Spaced : List Part → Prop
  | [] => True
  | .body _ :: later => (∀ x ∈ (without (fun _ => true) later).head?, Text.isBlank x = true) ∧
    Spaced later
  | _ :: later => Spaced later

theorem Body.Valid.head (h : b.Valid) :
    ∃ x t, b.text = x :: t ∧ Text.isBlank x = false ∧ x ≠ '=' := by
  cases b with
  | texture before name behind initial => exact ⟨'T', _, rfl, by decide, by decide⟩
  | plain t =>
    obtain ⟨⟨s, rfl⟩, hhead, -⟩ := h.wellFormed
    cases s with
    | nil => exact ⟨';', [], rfl, by decide, by decide⟩
    | cons x s => exact ⟨x, s ++ [';'], rfl, hhead x rfl⟩

/-- No equals sign is the first that is not blank. -/
theorem ne_equals_of_valid (hvalid : ∀ part ∈ parts, part.Valid) :
    ∀ x ∈ ((without (fun _ => true) parts).dropWhile Text.isBlank).head?, x ≠ '=' := by
  induction parts with
  | nil => exact nofun
  | cons part later ih =>
    obtain ⟨hpart, hlater⟩ := List.forall_mem_cons.1 hvalid
    rw [without_cons]
    cases part with
    | attr a => exact ih hlater
    | gap b =>
      rw [Part.without, List.dropWhile_append_of_pos hpart]
      exact ih hlater
    | body b =>
      obtain ⟨x, t, ht, hblank, hne⟩ := hpart.head
      rw [Part.without, ht, List.cons_append, List.dropWhile_cons, if_neg (by simp [hblank])]
      intro y hy
      cases hy
      exact hne

/-- The go for textures takes out the initializers, when the attributes are gone. -/
theorem replaces_textures (hvalid : ∀ part ∈ parts, part.Valid) (hapart : Apart parts)
    (hspaced : Spaced parts) : textureDefault.Replaces uninitialized
      (without (fun _ => true) parts) (cleanedParts parts) := by
  induction parts with
  | nil => exact replaces_nil
  | cons part later ih =>
    obtain ⟨hpart, hlater⟩ := List.forall_mem_cons.1 hvalid
    cases part with
    | attr a => exact ih hlater hapart.2 hspaced
    -- No initializer starts at a blank, nor in a declaration of another kind.
    | gap b =>
      refine (ih hlater hapart.2 hspaced).keep fun s hs hne u hu => ?_
      obtain ⟨v, rfl⟩ := exists_of_mem_textureDefault hu
      exact not_starts_of_allBlank hpart (by decide) hs hne
    | body b =>
      have ih := ih hlater hapart.2 hspaced.2
      cases b with
      | plain t =>
        refine ih.keep fun s hs hne u hu => ?_
        exact not_starts_of_plain hpart.wellFormed ⟨hspaced.1, ne_equals_of_valid hlater⟩ hs hne hu
      | texture before name behind initial =>
        exact replaces_texture hpart.wellFormed (hapart.1.2 rfl) ih

/-! ## Barriers -/

/-- What the barriers that are renamed are called. -/
theorem mem_language_barrier (ending : String) : u ∈ (barrier ending).language ↔
    ∃ scope ∈ ["Group", "Device", "All"], u = "Warp".toList ++ (String.toList scope ++
      ("MemoryBarrier".toList ++ ending.toList)) := by
  have hscope (v : List Char) :
      v ∈ (group "scope" (alts [lit "Group", lit "Device", lit "All"])).language ↔
        ∃ scope ∈ ["Group", "Device", "All"], v = String.toList scope := by
    refine (mem_language_alts _).trans ?_
    simp only [List.mem_cons, List.not_mem_nil, or_false, exists_eq_or_imp, exists_eq_left,
      mem_language_lit]
  simp only [barrier, mem_language_seqs_cons, mem_language_seqs_nil, mem_language_lit, hscope]
  constructor
  · rintro ⟨_, rfl, _, ⟨_, ⟨scope, hmem, rfl⟩, _, ⟨_, rfl, _, ⟨_, rfl, _, rfl, rfl⟩, rfl⟩, rfl⟩,
      rfl⟩
    exact ⟨scope, hmem, by simp only [List.append_nil]⟩
  · rintro ⟨scope, hmem, rfl⟩
    exact ⟨_, rfl, _, ⟨_, ⟨scope, hmem, rfl⟩, _, ⟨_, rfl, _, ⟨_, rfl, _, rfl, rfl⟩, rfl⟩, rfl⟩, by
      simp only [List.append_nil]⟩

theorem untested_barrier (ending : String) : (barrier ending).Untested := by
  have hscope : (group "scope" (alts [lit "Group", lit "Device", lit "All"])).Untested :=
    @untested_alts [lit "Group", lit "Device", lit "All"] <| by simp [untested_lit]
  exact untested_seqs <| by simp [untested_lit, hscope]

/-- A barrier of any ending starts with one without, and has no semicolon. -/
theorem exists_of_mem_barrier {ending : String} (hending : ';' ∉ ending.toList)
    (hu : u ∈ (barrier ending).language) :
    ';' ∉ u ∧ (∃ v, u = 'W' :: v) ∧ ∃ v ∈ (barrier "").language, v <+: u := by
  obtain ⟨scope, hmem, rfl⟩ := (mem_language_barrier ending).1 hu
  have hscope : ∀ scope ∈ ["Group", "Device", "All"], ';' ∉ String.toList scope := by decide
  refine ⟨?_, ⟨_, rfl⟩, _, (mem_language_barrier "").2 ⟨scope, hmem, rfl⟩, ending.toList, ?_⟩
  · simp only [List.mem_append, not_or]
    exact ⟨by decide, hscope scope hmem, by decide, hending⟩
  · simp only [List.append_assoc]
    rfl

theorem Body.Valid.exists_cleaned_eq (h : b.Valid) : ∃ s, b.cleaned = s ++ [';'] := by
  cases b with
  | plain t => exact h.wellFormed.1
  | texture before name behind initial =>
    exact ⟨textureWord ++ ' ' :: name, by simp only [Body.cleaned, List.append_assoc,
      List.cons_append]⟩

/-- A text without barriers stays. -/
theorem replaces_barrier {ending : String} {f : Match → List Char} (hending : ';' ∉ ending.toList)
    (hvalid : ∀ part ∈ parts, part.Valid) :
    (barrier ending).Replaces f (cleanedParts parts) (cleanedParts parts) := by
  induction parts with
  | nil => exact replaces_nil
  | cons part later ih =>
    obtain ⟨hpart, hlater⟩ := List.forall_mem_cons.1 hvalid
    cases part with
    | attr a => exact ih hlater
    | gap b =>
      refine (ih hlater).keep fun s hs hne u hu => ?_
      obtain ⟨-, ⟨v, rfl⟩, -⟩ := exists_of_mem_barrier hending hu
      exact not_starts_of_allBlank hpart (by decide) hs hne
    | body b =>
      refine (ih hlater).keep fun s hs hne u hu hpre => ?_
      change s <:+ b.cleaned at hs
      -- A barrier reaches at most to the semicolon of the body, inside which there is none.
      obtain ⟨hsemicolon, -, v, hv, hstart⟩ := exists_of_mem_barrier hending hu
      obtain ⟨t, ht⟩ := hpart.exists_cleaned_eq
      obtain ⟨s, rfl⟩ := exists_of_suffix_concat (ht ▸ hs) hne
      rw [List.append_assoc, List.singleton_append] at hpre
      have hin : v <:+: s := (hstart.trans (prefix_of_not_mem hpre hsemicolon)).isInfix
      refine not_infix_of_findAll hpart.barrier (untested_barrier _) ?_ hv
        ((hin.trans (List.prefix_append s [';']).isInfix).trans hs.isInfix)
      intro hnil
      obtain ⟨-, ⟨w, hw⟩, -⟩ := exists_of_mem_barrier (by decide) hnil
      cases hw

/-! ## Cleaning -/

theorem spaced_attrs (attrs : List (Attribute × List Char)) :
    Spaced (attrs.flatMap (fun a => [.attr a.1, .gap a.2]) ++ parts) ↔
      Spaced parts := by
  induction attrs with
  | nil => exact Iff.rfl
  | cons a attrs ih => exact ih

theorem spaced_partsOf {ds : List Declaration} (hvalid : ∀ d ∈ ds, d.Valid)
    (hgaps : ∀ d ∈ ds.dropLast, d.gap ≠ []) : Spaced (partsOf ds) := by
  induction ds with
  | nil => trivial
  | cons d ds ih =>
    obtain ⟨hd, hlater⟩ := List.forall_mem_cons.1 hvalid
    rw [partsOf, List.flatMap_cons, Declaration.parts, List.append_assoc, spaced_attrs]
    refine ⟨?_, ih hlater fun d' hd' => hgaps d' ?_⟩
    · change ∀ x ∈ (d.gap ++ without (fun _ => true) (partsOf ds)).head?, _
      cases hgap : d.gap with
      | nil =>
        -- A gap is empty only behind the last declaration, where nothing follows.
        cases ds with
        | nil =>
          intro y hy
          cases hy
        | cons e ds => exact absurd hgap (hgaps d (by simp))
      | cons x b =>
        intro y hy
        cases hy
        exact hd.gap _ (hgap ▸ List.mem_cons_self)
    · cases ds with
      | nil => cases hd'
      | cons e ds => exact List.mem_cons_of_mem d hd'

/-- Cleaning is five replacements, one behind the other. -/
theorem clean_eq_replace (code : String) : clean code =
    String.ofList ((barrier "").replace (fun m => m.get "scope" ++ "MemoryBarrier".toList)
      ((barrier "WithWarpSync").replace
        (fun m => m.get "scope" ++ "MemoryBarrierWithGroupSync".toList)
        (textureDefault.replace uninitialized (Kind.editor.pattern.replace (fun _ => [])
          (Kind.binding.pattern.replace (fun _ => []) code.toList))))) := rfl

theorem clean_eq {text a b c : List Char}
    (hbinding : Kind.binding.pattern.replace (fun _ => []) text = a)
    (heditor : Kind.editor.pattern.replace (fun _ => []) a = b)
    (htexture : textureDefault.replace uninitialized b = c)
    (hbarrier : ∀ ending f, ';' ∉ String.toList ending → (barrier ending).replace f c = c) :
    clean (String.ofList text) = String.ofList c := by
  have htext : (String.ofList text).toList = text := String.toList_ofList
  rw [clean_eq_replace, htext, hbinding, heditor, htexture, hbarrier _ _ (by decide),
    hbarrier _ _ (by decide)]

/-- Of declarations with gaps between them, where no line goes on to the closing mark or the
semicolon of something else, just the attributes and the initializers of textures are taken out, and
every declaration is left. -/
theorem clean_source (ds : List Declaration) (hvalid : ∀ d ∈ ds, d.Valid)
    (hgaps : ∀ d ∈ ds.dropLast, d.gap ≠ []) (hapart : Apart (partsOf ds)) :
    clean (String.ofList (source ds)) = String.ofList (cleaned ds) ∧
      ∀ d ∈ ds, d.body.cleaned <:+: cleaned ds := by
  have hgone : (fun k => Kind.binding.gone k || k == Kind.binding) = Kind.editor.gone := rfl
  have hall : (fun k => Kind.editor.gone k || k == Kind.editor) = fun _ => true := by
    funext k
    cases k <;> rfl
  have hparts := valid_of_mem_partsOf hvalid
  refine ⟨clean_eq (replaces_attributes .binding hparts hapart).replace_eq
    (hgone ▸ (replaces_attributes .editor hparts hapart).replace_eq)
    (hall ▸ (replaces_textures hparts hapart (spaced_partsOf hvalid hgaps)).replace_eq)
    fun ending f hending => (replaces_barrier hending hparts).replace_eq, fun d hd => ?_⟩
  have hmem : Part.body d.body ∈ partsOf ds :=
    List.mem_flatMap.2 ⟨d, hd, by simp [Declaration.parts]⟩
  rw [cleaned, cleanedParts, List.flatMap_def]
  exact List.infix_of_mem_flatten (List.mem_map_of_mem hmem)

/-! ### Declarations on lines -/

/-- The declaration of a variable. -/
def variableBody (x : Char) : Body := .plain ("int ".toList ++ [x] ++ [';'])

/-- A variable that belongs to a sampler. -/
def sampled (x : Char) (gap : List Char) : Declaration :=
  ⟨[(.call .samplerAlias ['s'], [' '])], variableBody x, gap⟩

/-- A texture with a name for editors and an initializer. -/
def named : Declaration :=
  ⟨[(.call .name "Rock".toList, [' ']), (.flag .hdr, [' '])],
    .texture [' '] ['t'] [' '] " white".toList, ['\n']⟩

theorem valid_variableBody {x : Char} (hx : x = 'x' ∨ x = 'y') : (variableBody x).Valid := by
  rcases hx with rfl | rfl
  all_goals
    exact
      { wellFormed := ⟨⟨_, rfl⟩, by rintro _ ⟨⟩; decide, List.isEmpty_iff.1 (by decide +kernel)⟩
        attributes := fun j => List.isEmpty_iff.1 (by cases j <;> decide +kernel)
        barrier := List.isEmpty_iff.1 (by decide +kernel) }

theorem valid_sampled {x : Char} {gap : List Char} (hx : x = 'x' ∨ x = 'y')
    (hgap : AllBlank gap) : (sampled x gap).Valid where
  attrs := by simp [sampled, Attribute.Valid, AllBlank]; decide
  body := valid_variableBody hx
  gap := hgap

theorem valid_named : named.Valid where
  attrs := by simp [named, Attribute.Valid, AllBlank]; decide
  body :=
    { wellFormed := by refine ⟨?_, ?_, ?_, ?_, ?_⟩ <;> simp [AllBlank] <;> decide
      attributes := fun j => List.isEmpty_iff.1 (by cases j <;> decide +kernel)
      barrier := List.isEmpty_iff.1 (by decide +kernel) }
  gap := by simp [named, AllBlank]; decide

/-- Of two declarations on lines of their own, the texture is left without its initializer. -/
theorem clean_source_lines :
    clean "[name(\"Rock\")] [hdr] Texture2D t = white;\n[alias(s)] int x;" =
      "  Texture2D t;\n int x;" := by
  have hsource : String.ofList (source [named, sampled 'x' []]) =
    "[name(\"Rock\")] [hdr] Texture2D t = white;\n[alias(s)] int x;" := by decide +kernel
  have hcleaned : String.ofList (cleaned [named, sampled 'x' []]) =
    "  Texture2D t;\n int x;" := by decide +kernel
  rw [← hsource, ← hcleaned]
  refine (clean_source _ ?_ (by decide) ?_).1
  · exact List.forall_mem_cons.2 ⟨valid_named,
      List.forall_mem_singleton.2 (valid_sampled (.inl rfl) allBlank_nil)⟩
  · exact ⟨Call.not_closesIn _ (by decide +kernel), trivial, trivial, trivial,
      ⟨fun k h => absurd h (k.not_opensIn (by decide +kernel)), by decide +kernel⟩, trivial,
      Call.not_closesIn _ (by decide +kernel), trivial,
      ⟨fun k h => absurd h (k.not_opensIn (by decide +kernel)), by decide +kernel⟩,
      trivial, trivial⟩

/-- The argument list of the first attribute goes on to the mark that closes the second one on the
line, and the declaration between them is lost. -/
theorem clean_loses_declaration :
    (∀ d ∈ [sampled 'x' [' '], sampled 'y' []], d.Valid) ∧
      (∀ d ∈ [sampled 'x' [' '], sampled 'y' []].dropLast, d.gap ≠ []) ∧
      String.ofList (source [sampled 'x' [' '], sampled 'y' []]) =
        "[alias(s)] int x; [alias(s)] int y;" ∧
      String.ofList (cleaned [sampled 'x' [' '], sampled 'y' []]) = " int x;  int y;" ∧
      clean (String.ofList (source [sampled 'x' [' '], sampled 'y' []])) = " int y;" := by
  refine ⟨?_, by decide, by decide +kernel, by decide +kernel, by decide +kernel⟩
  exact List.forall_mem_cons.2 ⟨valid_sampled (.inl rfl) (by simp [AllBlank]; decide),
    List.forall_mem_singleton.2 (valid_sampled (.inr rfl) allBlank_nil)⟩

end ShaderLang.Hlsl
