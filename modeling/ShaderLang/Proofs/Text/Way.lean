import Mathlib.Computability.Language
import ShaderLang.Text.Sweep
/-!
# Ways through patterns

A pattern is tried in a fixed order, and the first way through it counts. Which ways there are does
not depend on the order. A pattern that tests no points has a language, and leads on from a point
just if a word of the language stands there; so where only one word does, the first way is over this
word.

## Main definitions

* `TextLanguage` — a language over characters
* `Cursor.Spans` — the text between two points
* `Pattern.Way` — a way through a pattern
* `Pattern.language` — the texts of the ways through a pattern
* `Pattern.startsBy` — a pattern may lead on from a character

## Main results

* `Pattern.exists_way_of_first?`, `Pattern.isSome_first?_of_way` — the first way is one of the ways,
  and there is a first way if there is a way
* `Pattern.Way.exists_mem_language`, `Pattern.exists_way_of_mem_language` — ways and the language
-/

/-- A language over characters. The name says so because a shading language has the short one. -/
abbrev TextLanguage := Language Char

namespace ShaderLang

/-! ## Texts between points -/

namespace Cursor

/-- A text stands between two points. -/
def Spans : Cursor → List Char → Cursor → Prop
  | c, [], d => d = c
  | c, x :: u, d => ∃ xs, c.rest = x :: xs ∧ (c.past x xs).Spans u d

variable {c d e : Cursor} {u v : List Char}

theorem Spans.rest (h : c.Spans u d) : c.rest = u ++ d.rest := by
  induction u generalizing c with
  | nil => exact congrArg Cursor.rest (Eq.symm h)
  | cons x u ih =>
    obtain ⟨xs, hc, h⟩ := h
    rw [hc, List.cons_append, ← ih h]
    rfl

theorem Spans.offset (h : c.Spans u d) : d.offset = c.offset + Text.byteSize u := by
  induction u generalizing c with
  | nil => exact congrArg Cursor.offset h
  | cons x u ih =>
    obtain ⟨xs, hc, h⟩ := h
    rw [ih h, Text.byteSize, ← Nat.add_assoc]
    rfl

theorem exists_spans (h : c.rest = u ++ v) : ∃ d, c.Spans u d ∧ d.rest = v := by
  induction u generalizing c with
  | nil => exact ⟨c, rfl, h⟩
  | cons x u ih =>
    obtain ⟨d, hd, hrest⟩ := ih (c := c.past x (u ++ v)) rfl
    exact ⟨d, ⟨_, h, hd⟩, hrest⟩

theorem spans_append_iff : c.Spans (u ++ v) e ↔ ∃ d, c.Spans u d ∧ d.Spans v e := by
  induction u generalizing c with
  | nil => exact ⟨fun h => ⟨c, rfl, h⟩, fun ⟨d, hd, h⟩ => hd ▸ h⟩
  | cons x u ih =>
    constructor
    · rintro ⟨xs, hc, h⟩
      obtain ⟨d, hd, h⟩ := ih.1 h
      exact ⟨d, ⟨xs, hc, hd⟩, h⟩
    · rintro ⟨d, ⟨xs, hc, hd⟩, h⟩
      exact ⟨xs, hc, ih.2 ⟨d, hd, h⟩⟩

theorem Spans.append (h : c.Spans u d) (h' : d.Spans v e) : c.Spans (u ++ v) e :=
  spans_append_iff.2 ⟨d, h, h'⟩

/-- The text from a point up to the later one is what stands between them. -/
theorem Spans.textTo (h : c.Spans u d) : c.textTo d = u := by
  rw [Cursor.textTo, h.offset, Nat.add_sub_cancel_left, h.rest, Text.takeBytes_byteSize_append]

theorem Spans.offset_lt (h : c.Spans u d) (hu : u ≠ []) : c.offset < d.offset := by
  cases u with
  | nil => exact absurd rfl hu
  | cons x u =>
    rw [h.offset, Text.byteSize]
    exact Nat.lt_add_of_pos_right (Nat.add_pos_left x.utf8Size_pos _)

/-- Every later point is one that a text leads to. -/
theorem exists_spans_of_mem_points (h : d ∈ c.points) : ∃ u, c.Spans u d := by
  induction hc : c.rest generalizing c with
  | nil =>
    rw [points_of_nil hc, List.mem_singleton] at h
    exact ⟨[], h⟩
  | cons x xs ih =>
    rw [points_of_cons hc, List.mem_cons] at h
    rcases h with rfl | h
    · exact ⟨[], rfl⟩
    · obtain ⟨u, hu⟩ := ih h rfl
      exact ⟨x :: u, xs, hc, hu⟩

theorem Spans.mem_points (h : c.Spans u d) : d ∈ c.points := by
  induction u generalizing c with
  | nil => exact Eq.symm h ▸ c.mem_points_self
  | cons x u ih =>
    obtain ⟨xs, hc, h⟩ := h
    exact mem_points_of_past hc (ih h)

end Cursor

namespace Pattern

/-! ## Ways -/

/-- A way through a pattern from a point to a point, with the marks that it passes. -/
inductive Way : Pattern → Cursor → List Mark → Cursor → Prop
  | one {p : Char → Bool} {c : Cursor} {x : Char} {xs : List Char} (hc : c.rest = x :: xs)
      (hx : p x = true) : Way (one p) c [] (c.past x xs)
  | seq {a b : Pattern} {c d e : Cursor} {ms ns : List Mark} (ha : Way a c ms d)
      (hb : Way b d ns e) : Way (seq a b) c (ms ++ ns) e
  | left {a b : Pattern} {c d : Cursor} {ms : List Mark} (ha : Way a c ms d) : Way (alt a b) c ms d
  | right {a b : Pattern} {c d : Cursor} {ms : List Mark} (hb : Way b c ms d) : Way (alt a b) c ms d
  | done {lazy : Bool} {a : Pattern} {c : Cursor} : Way (many lazy a) c [] c
  | more {lazy : Bool} {a : Pattern} {c d e : Cursor} {ms ns : List Mark} (ha : Way a c ms d)
      (hlt : d.rest.length < c.rest.length) (hmore : Way (many lazy a) d ns e) :
      Way (many lazy a) c (ms ++ ns) e
  | group {name : String} {a : Pattern} {c d : Cursor} {ms : List Mark} (ha : Way a c ms d) :
      Way (group name a) c (⟨name, true, c⟩ :: ms ++ [⟨name, false, d⟩]) d
  | point {test : Cursor → Bool} {c : Cursor} (h : test c = true) : Way (point test) c [] c

/-- The first way through a pattern and on is a way through the pattern, and on from its end. -/
def Follows (p : Pattern) (c : Cursor) (go : Cursor → Option Found) (f : Found) : Prop :=
  ∃ ms d g, p.Way c ms d ∧ go d = some g ∧ f = ⟨ms ++ g.marks, g.stop⟩

theorem follows_of_repeatThen {lazy : Bool} {a : Pattern}
    (ha : ∀ {c go f}, a.first? c go = some f → a.Follows c go f) {c : Cursor}
    {go : Cursor → Option Found} {f : Found} (h : repeatThen lazy a.first? go c = some f) :
    (many lazy a).Follows c go f := by
  induction hn : c.rest.length using Nat.strongRecOn generalizing c f with
  | ind n ih =>
    subst hn
    rw [repeatThen] at h
    rcases prefer_eq_some h with h | h
    · obtain ⟨ms, d, g, hd, hg, rfl⟩ := ha h
      dsimp only at hg
      split at hg
      · next hlt =>
        obtain ⟨ns, e, g', he, hg', rfl⟩ := ih _ hlt hg rfl
        exact ⟨ms ++ ns, e, g', .more hd hlt he, hg', by rw [List.append_assoc]⟩
      · cases hg
    · exact ⟨[], c, f, .done, h, rfl⟩

theorem exists_way_of_first? {p : Pattern} {c : Cursor} {go : Cursor → Option Found} {f : Found}
    (h : p.first? c go = some f) : p.Follows c go f := by
  induction p generalizing c go f with
  | one p =>
    rw [first?] at h
    split at h
    · cases h
    · next x xs hc =>
      split at h
      · next hx => exact ⟨[], _, f, .one hc hx, h, rfl⟩
      · cases h
  -- The rest of the search runs where the first part ends, and finds the second part there.
  | seq a b iha ihb =>
    obtain ⟨ms, d, g, ha, hg, rfl⟩ := iha h
    obtain ⟨ns, e, g', hb, hg', rfl⟩ := ihb hg
    exact ⟨ms ++ ns, e, g', .seq ha hb, hg', by rw [List.append_assoc]⟩
  | alt a b iha ihb =>
    rw [first?, Option.or_eq_some_iff] at h
    rcases h with h | ⟨-, h⟩
    · obtain ⟨ms, d, g, ha, hg⟩ := iha h
      exact ⟨ms, d, g, .left ha, hg⟩
    · obtain ⟨ms, d, g, hb, hg⟩ := ihb h
      exact ⟨ms, d, g, .right hb, hg⟩
  | many lazy a ih => exact follows_of_repeatThen ih h
  | group name a ih =>
    obtain ⟨f', hf', rfl⟩ := Option.map_eq_some_iff.1 h
    obtain ⟨ms, d, g, ha, hg, rfl⟩ := ih hf'
    obtain ⟨g, hg', rfl⟩ := Option.map_eq_some_iff.1 hg
    exact ⟨_, d, g, .group ha, hg', by simp [Found.mark]⟩
  | point test =>
    rw [first?] at h
    split at h
    · next htest => exact ⟨[], c, f, .point htest, h, rfl⟩
    · cases h

theorem isSome_prefer {lazy : Bool} {more here : Option Found} :
    (prefer lazy more here).isSome ↔ more.isSome ∨ here.isSome := by
  cases lazy <;> simp [prefer, or_comm]

/-- If there is a way through a pattern and on from its end, then there is a first one. -/
theorem isSome_first?_of_way {p : Pattern} {c d : Cursor} {ms : List Mark}
    {go : Cursor → Option Found} (h : p.Way c ms d) (hgo : (go d).isSome) :
    (p.first? c go).isSome := by
  induction h generalizing go with
  | one hc hx => simpa [first?, hc, hx] using hgo
  | seq ha hb iha ihb => exact iha (ihb hgo)
  | left ha ih =>
    rw [first?, Option.isSome_or, ih hgo]
    rfl
  | right hb ih =>
    rw [first?, Option.isSome_or, ih hgo, Bool.or_true]
  -- A repetition tries to stop and to go on, in an order that does not matter here.
  | done =>
    rw [first?, repeatThen, isSome_prefer]
    exact .inr hgo
  | more ha hlt hmore iha ihmore =>
    rw [first?, repeatThen, isSome_prefer]
    exact .inl (iha (by rw [dif_pos hlt]; exact ihmore hgo))
  | group ha ih =>
    rw [first?, Option.isSome_map]
    exact ih (by rwa [Option.isSome_map])
  | point h => rwa [first?, if_pos h]

/-- A match is a way. -/
theorem way_of_at? {p : Pattern} {c : Cursor} {f : Found} (h : p.at? c = some f) :
    p.Way c f.marks f.stop := by
  obtain ⟨ms, d, g, hway, hg, rfl⟩ := exists_way_of_first? h
  cases hg
  simpa using hway

/-! ## Languages -/

/-- The texts of the ways through a pattern, where its tests are passed. -/
def language : Pattern → TextLanguage
  | one p => {u | ∃ x, p x = true ∧ u = [x]}
  | seq a b => a.language * b.language
  | alt a b => a.language + b.language
  | many _ a => KStar.kstar a.language
  | group _ a => a.language
  | point _ => 1

/-- All points pass the tests of a pattern. -/
def Untested : Pattern → Prop
  | one _ => True
  | seq a b => a.Untested ∧ b.Untested
  | alt a b => a.Untested ∧ b.Untested
  | many _ a => a.Untested
  | group _ a => a.Untested
  | point test => ∀ c, test c = true

theorem Way.exists_mem_language {p : Pattern} {c d : Cursor} {ms : List Mark} (h : p.Way c ms d) :
    ∃ u ∈ p.language, c.Spans u d := by
  induction h with
  | one hc hx => exact ⟨_, ⟨_, hx, rfl⟩, _, hc, rfl⟩
  | seq ha hb iha ihb =>
    obtain ⟨u, hu, hspan⟩ := iha
    obtain ⟨v, hv, hspan'⟩ := ihb
    exact ⟨u ++ v, Language.append_mem_mul hu hv, hspan.append hspan'⟩
  | left ha ih =>
    obtain ⟨u, hu, hspan⟩ := ih
    exact ⟨u, .inl hu, hspan⟩
  | right hb ih =>
    obtain ⟨u, hu, hspan⟩ := ih
    exact ⟨u, .inr hu, hspan⟩
  | done => exact ⟨[], Language.nil_mem_kstar _, rfl⟩
  | more ha hlt hmore iha ihmore =>
    obtain ⟨u, hu, hspan⟩ := iha
    obtain ⟨v, hv, hspan'⟩ := ihmore
    obtain ⟨vs, rfl, hvs⟩ := Language.mem_kstar.1 hv
    exact ⟨u ++ vs.flatten, Language.mem_kstar.2 ⟨u :: vs, rfl, List.forall_mem_cons.2 ⟨hu, hvs⟩⟩,
      hspan.append hspan'⟩
  | group ha ih => exact ih
  | point h => exact ⟨[], rfl, rfl⟩

/-- A word of a repetition is there in steps that use text. -/
theorem exists_way_of_flatten {lazy : Bool} {a : Pattern}
    (ha : ∀ {u c d}, u ∈ a.language → c.Spans u d → ∃ ms, a.Way c ms d) {us : List (List Char)}
    (hus : ∀ u ∈ us, u ∈ a.language) {c d : Cursor} (h : c.Spans us.flatten d) :
    ∃ ms, (many lazy a).Way c ms d := by
  induction us generalizing c with
  | nil =>
    cases h
    exact ⟨[], .done⟩
  | cons u us ih =>
    obtain ⟨hu, hus'⟩ := List.forall_mem_cons.1 hus
    obtain ⟨e, he, hlater⟩ := Cursor.spans_append_iff.1 h
    -- Empty words are passed over, since every step of a repetition must use text.
    by_cases hnil : u = []
    · subst hnil
      cases he
      exact ih hus' hlater
    · obtain ⟨ms, hway⟩ := ha hu he
      obtain ⟨ns, hmore⟩ := ih hus' hlater
      refine ⟨ms ++ ns, .more hway ?_ hmore⟩
      rw [he.rest, List.length_append]
      exact Nat.lt_add_of_pos_left (List.length_pos_iff.2 hnil)

theorem exists_way_of_mem_language {p : Pattern} (hp : p.Untested) {u : List Char}
    (hu : u ∈ p.language) {c d : Cursor} (h : c.Spans u d) : ∃ ms, p.Way c ms d := by
  induction p generalizing u c d with
  | one p =>
    obtain ⟨x, hx, rfl⟩ := hu
    obtain ⟨xs, hc, rfl⟩ := h
    exact ⟨[], .one hc hx⟩
  | seq a b iha ihb =>
    obtain ⟨v, hv, w, hw, rfl⟩ := Language.mem_mul.1 hu
    obtain ⟨e, he, hlater⟩ := Cursor.spans_append_iff.1 h
    obtain ⟨ms, ha⟩ := iha hp.1 hv he
    obtain ⟨ns, hb⟩ := ihb hp.2 hw hlater
    exact ⟨ms ++ ns, .seq ha hb⟩
  | alt a b iha ihb =>
    rcases hu with hu | hu
    · obtain ⟨ms, ha⟩ := iha hp.1 hu h
      exact ⟨ms, .left ha⟩
    · obtain ⟨ms, hb⟩ := ihb hp.2 hu h
      exact ⟨ms, .right hb⟩
  | many lazy a ih =>
    obtain ⟨us, rfl, hus⟩ := Language.mem_kstar.1 hu
    exact exists_way_of_flatten (fun hu h => ih hp hu h) hus h
  | group name a ih =>
    obtain ⟨ms, ha⟩ := ih hp hu h
    exact ⟨_, .group ha⟩
  | point test =>
    cases hu
    cases h
    exact ⟨[], .point (hp c)⟩

/-! ## The marks on a way -/

/-- A pattern has no groups. -/
def Unmarked : Pattern → Prop
  | one _ => True
  | seq a b => a.Unmarked ∧ b.Unmarked
  | alt a b => a.Unmarked ∧ b.Unmarked
  | many _ a => a.Unmarked
  | group _ _ => False
  | point _ => True

theorem Way.marks_eq_nil {p : Pattern} {c d : Cursor} {ms : List Mark} (h : p.Way c ms d)
    (hp : p.Unmarked) : ms = [] := by
  induction h with
  | one hc hx => rfl
  | seq ha hb iha ihb => rw [iha hp.1, ihb hp.2, List.append_nil]
  | left ha ih => exact ih hp.1
  | right hb ih => exact ih hp.2
  | done => rfl
  | more ha hlt hmore iha ihmore => rw [iha hp, ihmore hp, List.append_nil]
  | group ha ih => exact hp.elim
  | point h => rfl

/-- A pattern without groups passes over a word of its language and no marks. -/
theorem Way.over {p : Pattern} {c d : Cursor} {ms : List Mark} (h : p.Way c ms d)
    (hp : p.Unmarked) : ms = [] ∧ ∃ u ∈ p.language, c.Spans u d :=
  ⟨h.marks_eq_nil hp, h.exists_mem_language⟩

theorem unmarked_lit (s : String) : (lit s).Unmarked := by
  rw [lit]
  induction s.toList with
  | nil => trivial
  | cons x xs ih => exact ⟨trivial, ih⟩

theorem way_seqs_cons {p : Pattern} {ps : List Pattern} {c e : Cursor} {ms : List Mark}
    (h : (seqs (p :: ps)).Way c ms e) :
    ∃ ms₁ d ms₂, p.Way c ms₁ d ∧ (seqs ps).Way d ms₂ e ∧ ms = ms₁ ++ ms₂ := by
  cases h with
  | seq ha hb => exact ⟨_, _, _, ha, hb, rfl⟩

theorem way_group {name : String} {a : Pattern} {c d : Cursor} {ms : List Mark}
    (h : (group name a).Way c ms d) :
    ∃ ns, a.Way c ns d ∧ ms = ⟨name, true, c⟩ :: ns ++ [⟨name, false, d⟩] := by
  cases h with
  | group ha => exact ⟨_, ha, rfl⟩

theorem way_point {test : Cursor → Bool} {c d : Cursor} {ms : List Mark}
    (h : (point test).Way c ms d) : d = c ∧ test c = true := by
  cases h with
  | point h => exact ⟨rfl, h⟩

theorem way_seqs_nil {c d : Cursor} {ms : List Mark} (h : (seqs []).Way c ms d) : d = c := by
  cases h
  rfl

/-! ## Where a pattern starts -/

/-- A pattern may lead on over no text. -/
def nullable : Pattern → Bool
  | one _ => false
  | seq a b => a.nullable && b.nullable
  | alt a b => a.nullable || b.nullable
  | many _ _ => true
  | group _ a => a.nullable
  | point _ => true

/-- A pattern may lead on over a text that starts with a character. -/
def startsBy (x : Char) : Pattern → Bool
  | one p => p x
  | seq a b => a.startsBy x || a.nullable && b.startsBy x
  | alt a b => a.startsBy x || b.startsBy x
  | many _ a => a.startsBy x
  | group _ a => a.startsBy x
  | point _ => false

theorem Way.startsBy {p : Pattern} {c d : Cursor} {ms : List Mark} (h : p.Way c ms d) :
    d = c ∧ p.nullable = true ∨ ∃ x xs, c.rest = x :: xs ∧ p.startsBy x = true := by
  induction h with
  | one hc hx => exact .inr ⟨_, _, hc, hx⟩
  | seq _ _ iha ihb =>
    simp only [nullable, Pattern.startsBy, Bool.and_eq_true, Bool.or_eq_true]
    -- A first part that takes no text leaves the first character to the second one.
    rcases iha with ⟨rfl, ha⟩ | ⟨x, xs, hc, hx⟩
    · rcases ihb with ⟨rfl, hb⟩ | ⟨x, xs, hc, hx⟩
      · exact .inl ⟨rfl, ha, hb⟩
      · exact .inr ⟨x, xs, hc, .inr ⟨ha, hx⟩⟩
    · exact .inr ⟨x, xs, hc, .inl hx⟩
  | left _ ih =>
    simp only [nullable, Pattern.startsBy, Bool.or_eq_true]
    exact ih.imp (.imp_right .inl) fun ⟨x, xs, hc, hx⟩ => ⟨x, xs, hc, .inl hx⟩
  | right _ ih =>
    simp only [nullable, Pattern.startsBy, Bool.or_eq_true]
    exact ih.imp (.imp_right .inr) fun ⟨x, xs, hc, hx⟩ => ⟨x, xs, hc, .inr hx⟩
  | done => exact .inl ⟨rfl, rfl⟩
  | more _ hlt _ iha _ =>
    -- A go that another one follows has taken text.
    rcases iha with ⟨rfl, -⟩ | hstart
    · exact absurd hlt (Nat.lt_irrefl _)
    · exact .inr hstart
  | group _ ih => exact ih
  | point _ => exact .inl ⟨rfl, rfl⟩

/-! ## Languages of the usual patterns -/

variable {u : List Char}

theorem mem_language_lit (s : String) : u ∈ (lit s).language ↔ u = s.toList := by
  rw [lit]
  induction s.toList generalizing u with
  | nil => exact Iff.rfl
  | cons x xs ih =>
    rw [List.foldr_cons]
    constructor
    · rintro ⟨v, ⟨y, hy, rfl⟩, w, hw, rfl⟩
      rw [ih.1 hw, beq_iff_eq.1 hy]
      rfl
    · rintro rfl
      exact ⟨[x], ⟨x, beq_self_eq_true x, rfl⟩, xs, ih.2 rfl, rfl⟩

theorem mem_language_run (p : Char → Bool) : u ∈ (run p).language ↔ ∀ x ∈ u, p x = true := by
  constructor
  · intro hu
    obtain ⟨us, rfl, hus⟩ := Language.mem_kstar.1 hu
    intro x hx
    obtain ⟨v, hv, hx⟩ := List.mem_flatten.1 hx
    obtain ⟨y, hy, rfl⟩ := hus v hv
    exact List.mem_singleton.1 hx ▸ hy
  · intro hu
    refine Language.mem_kstar.2 ⟨u.map fun x => [x], ?_, fun v hv => ?_⟩
    · rw [← List.flatMap_def, List.flatMap_singleton']
    · obtain ⟨x, hx, rfl⟩ := List.mem_map.1 hv
      exact ⟨x, hu x hx, rfl⟩

/-- A repetition of characters passes over characters of the class. -/
theorem spans_of_way_run {p : Char → Bool} {c d : Cursor} {ms : List Mark}
    (h : (run p).Way c ms d) : ∃ u, (∀ x ∈ u, p x = true) ∧ c.Spans u d := by
  obtain ⟨u, hu, hspan⟩ := h.exists_mem_language
  exact ⟨u, (mem_language_run p).1 hu, hspan⟩

theorem mem_language_seqs_nil : u ∈ (seqs []).language ↔ u = [] := Iff.rfl

theorem mem_language_seqs_cons (p : Pattern) (ps : List Pattern) :
    u ∈ (seqs (p :: ps)).language ↔
      ∃ v ∈ p.language, ∃ w ∈ (seqs ps).language, v ++ w = u := Language.mem_mul

theorem mem_language_alts (ps : List Pattern) :
    u ∈ (alts ps).language ↔ ∃ p ∈ ps, u ∈ p.language := by
  induction ps with
  | nil => exact ⟨fun ⟨x, hx, _⟩ => (Bool.false_ne_true hx).elim, fun ⟨p, hp, _⟩ => nomatch hp⟩
  | cons p ps ih =>
    cases ps with
    | nil => simp [alts]
    | cons q qs =>
      rw [List.exists_mem_cons_iff, ← ih]
      exact Iff.rfl

theorem untested_lit (s : String) : (lit s).Untested := by
  rw [lit]
  induction s.toList with
  | nil => exact fun _ => rfl
  | cons x xs ih => exact ⟨trivial, ih⟩

theorem untested_run (p : Char → Bool) : (run p).Untested := trivial

theorem untested_seqs {ps : List Pattern} (h : ∀ p ∈ ps, p.Untested) : (seqs ps).Untested := by
  induction ps with
  | nil => exact fun _ => rfl
  | cons p ps ih =>
    obtain ⟨hp, hps⟩ := List.forall_mem_cons.1 h
    exact ⟨hp, ih hps⟩

theorem untested_alts {ps : List Pattern} (h : ∀ p ∈ ps, p.Untested) : (alts ps).Untested := by
  induction ps with
  | nil => trivial
  | cons p ps ih =>
    obtain ⟨hp, hps⟩ := List.forall_mem_cons.1 h
    cases ps with
    | nil => exact hp
    | cons q qs => exact ⟨hp, ih hps⟩

end Pattern
end ShaderLang
