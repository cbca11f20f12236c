import Mathlib.Data.List.Infix
import ShaderLang.Proofs.Text.Way
/-!
# Replacing by languages

What a replacement makes of a text is put together from the text's end to its start: a part in which
no word of the pattern's language starts stays as it is, and a word that is the only one to start
where it does is replaced.

## Main definitions

* `Pattern.matchesFrom`, `Pattern.replaceFrom` — what is found and what is put in place of it
* `Pattern.Replaces` — what a replacement makes of a text, wherever the text stands

## Main results

* `Pattern.scan_induction` — a search passes over characters and over matches
* `Pattern.way_of_mem_findAll` — what is found is a way through the pattern
* `Pattern.Replaces.keep`, `Pattern.Replaces.found` — one more part in front of a text
* `Pattern.not_infix_of_findAll` — a text in which nothing is found has no word of the language
-/

namespace ShaderLang

/-- A text ends where its class of characters does. -/
theorem append_inj_of_head {p : Char → Bool} {u u' v v' : List Char} (h : u ++ v = u' ++ v')
    (hu : ∀ x ∈ u, p x = true) (hu' : ∀ x ∈ u', p x = true)
    (hv : ∀ x ∈ v.head?, p x = false) (hv' : ∀ x ∈ v'.head?, p x = false) : u = u' ∧ v = v' := by
  induction u generalizing u' with
  | nil =>
    cases u' with
    | nil => exact ⟨rfl, h⟩
    | cons x u' =>
      have hx := hv x (by rw [← List.nil_append v, h]; rfl)
      exact absurd (hu' x List.mem_cons_self) (by simp [hx])
  | cons x u ih =>
    cases u' with
    | nil =>
      have hx := hv' x (by rw [← List.nil_append v', ← h]; rfl)
      exact absurd (hu x List.mem_cons_self) (by simp [hx])
    | cons y u' =>
      obtain ⟨rfl, htail⟩ := List.cons.inj h
      obtain ⟨rfl, hvv⟩ := ih htail (fun x hx => hu x (List.mem_cons_of_mem _ hx))
        fun x hx => hu' x (List.mem_cons_of_mem _ hx)
      exact ⟨rfl, hvv⟩

theorem Cursor.length_lt_of_offset_lt {c d : Cursor} (h : d ∈ c.points)
    (hlt : c.offset < d.offset) : d.rest.length < c.rest.length := by
  obtain ⟨u, hu⟩ := exists_spans_of_mem_points h
  rw [hu.rest, List.length_append]
  cases u with
  | nil => exact absurd (hu.offset ▸ hlt) (Nat.lt_irrefl _)
  | cons x xs => simp only [List.length_cons]; omega

namespace Pattern

/-- A search comes from a point to the end of a match that uses text, else behind a character. -/
theorem scan_induction {motive : Cursor → Prop} (p : Pattern)
    (nil : ∀ c, c.rest = [] → motive c)
    (plain : ∀ c x xs, c.rest = x :: xs → (∀ f, p.at? c = some f → f.stop.offset ≤ c.offset) →
      motive (c.past x xs) → motive c)
    (found : ∀ c f, p.at? c = some f → c.offset < f.stop.offset → motive f.stop → motive c)
    (c : Cursor) : motive c := by
  induction hn : c.rest.length using Nat.strongRecOn generalizing c with
  | ind n ih =>
    subst hn
    -- Either way the text left gets shorter.
    by_cases hfound : ∃ f, p.at? c = some f ∧ c.offset < f.stop.offset
    · obtain ⟨f, hf, hlt⟩ := hfound
      have hlength := Cursor.length_lt_of_offset_lt (stop_mem_points hf) hlt
      exact found c f hf hlt (ih _ hlength f.stop rfl)
    · cases hc : c.rest with
      | nil => exact nil c hc
      | cons x xs =>
        have hnone : ∀ f, p.at? c = some f → f.stop.offset ≤ c.offset := fun f hf =>
          Nat.le_of_not_lt fun hlt => hfound ⟨f, hf, hlt⟩
        exact plain c x xs hc hnone (ih xs.length (by simp [hc]) (c.past x xs) rfl)

/-- A character that starts no match is passed over. -/
theorem scan_of_not_startsBy {p : Pattern} {c : Cursor} {x : Char} {xs : List Char}
    (hp : p.startsBy x = false) (hc : c.rest = x :: xs) :
    p.scan c = .plain x :: p.scan (c.past x xs) := by
  refine scan_of_cons (fun f hf => ?_) hc
  rcases (way_of_at? hf).startsBy with ⟨hstop, -⟩ | ⟨y, ys, hy, hstart⟩
  · rw [hstop]
  · obtain ⟨rfl, -⟩ := List.cons.inj (hc.symm.trans hy)
    cases hp.symm.trans hstart

/-- A match is a way from a point of the text. -/
theorem way_of_mem_scan {p : Pattern} {c : Cursor} {m : Match} (h : .found m ∈ p.scan c) :
    m.start ∈ c.points ∧ p.Way m.start m.marks m.stop := by
  induction c using p.scan_induction with
  | nil c hc => simp [scan_of_nil hc] at h
  | plain c x xs hc hnone ih =>
    rw [scan_of_cons hnone hc, List.mem_cons] at h
    obtain ⟨hstart, hway⟩ := ih (h.resolve_left nofun)
    exact ⟨Cursor.mem_points_of_past hc hstart, hway⟩
  | found c f hf hlt ih =>
    rw [scan_of_at? hf hlt, List.mem_cons] at h
    rcases h with h | h
    · cases h
      exact ⟨c.mem_points_self, way_of_at? hf⟩
    · obtain ⟨hstart, hway⟩ := ih h
      exact ⟨Cursor.mem_points_trans (stop_mem_points hf) hstart, hway⟩

theorem way_of_mem_findAll {p : Pattern} {text : List Char} {m : Match} (h : m ∈ p.findAll text) :
    m.start ∈ (Cursor.start text).points ∧ p.Way m.start m.marks m.stop := by
  obtain ⟨piece, hpiece, hm⟩ := List.mem_filterMap.1 h
  cases piece with
  | plain x => cases hm
  | found m =>
    cases hm
    exact way_of_mem_scan hpiece

/-- All matches from a point on. -/
def matchesFrom (p : Pattern) (c : Cursor) : List Match :=
  (p.scan c).filterMap fun
    | .found m => some m
    | .plain _ => none

/-- The text from a point on, with every match replaced. -/
def replaceFrom (p : Pattern) (f : Match → List Char) (c : Cursor) : List Char :=
  (p.scan c).flatMap fun
    | .found m => f m
    | .plain x => [x]

/-- A replacement makes a text out of what is left from a point on, whatever the point is. -/
def Replaces (p : Pattern) (f : Match → List Char) (text out : List Char) : Prop :=
  ∀ c : Cursor, c.rest = text → p.replaceFrom f c = out

variable {p : Pattern} {f : Match → List Char} {u t later out : List Char}

theorem Replaces.replace_eq (h : p.Replaces f t out) : p.replace f t = out := h (.start t) rfl

theorem replaces_nil : p.Replaces f [] [] := fun c hc => by
  rw [replaceFrom, scan_of_nil hc, List.flatMap_nil]

theorem replaceFrom_of_at? {c : Cursor} {m : Found} (h : p.at? c = some m)
    (hlt : c.offset < m.stop.offset) :
    p.replaceFrom f c = f ⟨m, c⟩ ++ p.replaceFrom f m.stop := by
  rw [replaceFrom, scan_of_at? h hlt, List.flatMap_cons]
  rfl

theorem replaceFrom_of_none {c : Cursor} {x : Char} {xs : List Char} (h : p.at? c = none)
    (hc : c.rest = x :: xs) : p.replaceFrom f c = x :: p.replaceFrom f (c.past x xs) := by
  rw [replaceFrom, scan_of_cons (by simp [h]) hc]
  rfl

theorem at?_eq_none {c : Cursor} (h : ∀ u ∈ p.language, ¬ u <+: c.rest) : p.at? c = none := by
  rw [Option.eq_none_iff_forall_ne_some]
  intro m hm
  obtain ⟨u, hu, hspan⟩ := (way_of_at? hm).exists_mem_language
  exact h u hu ⟨m.stop.rest, hspan.rest.symm⟩

/-- A part in which no word of the language starts stays. -/
theorem replaceFrom_keep {c d : Cursor} (hspan : c.Spans t d)
    (hnone : ∀ s, s <:+ t → s ≠ [] → ∀ u ∈ p.language, ¬ u <+: s ++ d.rest) :
    p.replaceFrom f c = t ++ p.replaceFrom f d := by
  induction t generalizing c with
  | nil =>
    cases hspan
    rfl
  | cons x t ih =>
    have hrest := hspan.rest
    obtain ⟨xs, hc, hspan⟩ := hspan
    have hhere := hnone (x :: t) List.suffix_rfl (List.cons_ne_nil x t)
    rw [replaceFrom_of_none (at?_eq_none fun u hu => hrest ▸ hhere u hu) hc,
      ih hspan fun s hs => hnone s (hs.trans (List.suffix_cons x t)), List.cons_append]

theorem Replaces.keep (h : p.Replaces f later out)
    (hnone : ∀ s, s <:+ t → s ≠ [] → ∀ u ∈ p.language, ¬ u <+: s ++ later) :
    p.Replaces f (t ++ later) (t ++ out) := by
  intro c hc
  obtain ⟨d, hspan, rfl⟩ := Cursor.exists_spans hc
  rw [replaceFrom_keep hspan hnone, h d rfl]

/-- A part in which no word of the language starts stays, whatever becomes of the rest. -/
theorem exists_replace_keep
    (hnone : ∀ s, s <:+ t → s ≠ [] → ∀ u ∈ p.language, ¬ u <+: s ++ later) :
    ∃ out, p.replace f (t ++ later) = t ++ out := by
  obtain ⟨d, hspan, rfl⟩ := Cursor.exists_spans (c := .start (t ++ later)) rfl
  exact ⟨_, replaceFrom_keep hspan hnone⟩

/-- A text without any word of the language stays. -/
theorem replaces_of_not_infix (h : ∀ u ∈ p.language, ¬ u <:+: t) : p.Replaces f t t := by
  have hkeep := (replaces_nil (p := p) (f := f)).keep (t := t) fun s hs _ u hu hpre =>
    h u hu ((List.append_nil s ▸ hpre).isInfix.trans hs.isInfix)
  rwa [List.append_nil] at hkeep

/-- A word of the language is replaced if no other one starts where it does. -/
theorem Replaces.found {r : List Char} (h : p.Replaces f later out) (hp : p.Untested)
    (hu : u ∈ p.language) (hne : u ≠ []) (honly : ∀ v ∈ p.language, v <+: u ++ later → v = u)
    (hf : ∀ m : Match, p.Way m.start m.marks m.stop → m.start.Spans u m.stop → f m = r) :
    p.Replaces f (u ++ later) (r ++ out) := by
  intro c hc
  obtain ⟨d, hd, -⟩ := Cursor.exists_spans hc
  obtain ⟨ms, hway⟩ := exists_way_of_mem_language hp hu hd
  obtain ⟨m, hm⟩ := Option.isSome_iff_exists.1 <|
    @isSome_first?_of_way _ _ _ _ (fun d => some ⟨[], d⟩) hway rfl
  obtain ⟨v, hv, hspan⟩ := (way_of_at? hm).exists_mem_language
  obtain rfl := honly v hv (hc ▸ ⟨m.stop.rest, hspan.rest.symm⟩)
  have hrest : m.stop.rest = later := List.append_cancel_left (hspan.rest.symm.trans hc)
  rw [replaceFrom_of_at? hm (hspan.offset_lt hne), hf ⟨m, c⟩ (way_of_at? hm) hspan,
    h m.stop hrest]

/-! ## Texts in which nothing is found -/

theorem at?_of_findAll (hfound : ∀ piece ∈ p.scan c, ∀ m, piece ≠ .found m) {d : Cursor}
    (hd : d ∈ c.points) {m : Found} (hm : p.at? d = some m) : m.stop.offset ≤ d.offset := by
  induction hc : c.rest generalizing c with
  | nil =>
    rw [Cursor.points_of_nil hc, List.mem_singleton] at hd
    subst hd
    have hstop := stop_mem_points hm
    rw [Cursor.points_of_nil hc, List.mem_singleton] at hstop
    exact Nat.le_of_eq (congrArg Cursor.offset hstop)
  | cons x xs ih =>
    have hhere : ∀ m, p.at? c = some m → m.stop.offset ≤ c.offset := fun m hm =>
      Nat.le_of_not_lt fun hlt =>
        hfound _ (scan_of_at? hm hlt ▸ List.mem_cons_self) _ rfl
    rw [Cursor.points_of_cons hc, List.mem_cons] at hd
    rcases hd with rfl | hd
    · exact hhere m hm
    · refine ih (fun piece hpiece => hfound piece ?_) hd rfl
      rw [scan_of_cons hhere hc]
      exact List.mem_cons_of_mem _ hpiece

/-- A text in which nothing is found has no word of the language in it. -/
theorem not_infix_of_findAll (h : p.findAll t = []) (hp : p.Untested) (hnil : [] ∉ p.language)
    (hu : u ∈ p.language) : ¬ u <:+: t := by
  rintro ⟨s, later, rfl⟩
  have hscan : ∀ piece ∈ p.scan (.start (s ++ u ++ later)), ∀ m, piece ≠ .found m := by
    rintro piece hpiece m rfl
    rw [findAll, List.filterMap_eq_nil_iff] at h
    cases h _ hpiece
  obtain ⟨c, hc, hrest⟩ := Cursor.exists_spans (c := .start (s ++ u ++ later))
    (List.append_assoc s u later)
  obtain ⟨d, hd, -⟩ := Cursor.exists_spans hrest
  obtain ⟨ms, hway⟩ := exists_way_of_mem_language hp hu hd
  obtain ⟨m, hm⟩ := Option.isSome_iff_exists.1 <|
    @isSome_first?_of_way _ _ _ _ (fun d => some ⟨[], d⟩) hway rfl
  obtain ⟨v, hv, hspan⟩ := (way_of_at? hm).exists_mem_language
  have hlt := hspan.offset_lt fun hempty => hnil (hempty ▸ hv)
  exact absurd (at?_of_findAll hscan hc.mem_points hm) (Nat.not_le.2 hlt)

end Pattern
end ShaderLang
