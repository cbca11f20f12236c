import Mathlib.Data.List.Forall2
import ShaderLang.Proofs.Text.Replace
/-!
# Texts further on

A text may be all there is, or stand behind another one. A pattern whose tests do not tell the two
apart finds the same in it, only that all offsets are greater by the bytes in front of it.

## Main definitions

* `Cursor.Alike` — two points of two texts that look the same
* `Pattern.Steady` — a pattern does not tell such points apart

## Main results

* `Pattern.first?_alike`, `Pattern.scan_alike` — the same is found further on
* `Match.Alike.get` — groups hold the same
* `Pattern.findAll_newline` — the same is found behind a line break
-/

namespace ShaderLang

/-! ## Points that look the same -/

/-- Two points look the same: the same text stands behind them, a word and a line start at the one
just if they start at the other, and one is `k` bytes further on. -/
structure Cursor.Alike (k : Nat) (c d : Cursor) : Prop where
  rest : d.rest = c.rest
  offset : d.offset = c.offset + k
  word : (d.before.map Text.isWord).getD false = (c.before.map Text.isWord).getD false
  line : d.isLineStart = c.isLineStart

/-- Two marks of one name at points that look the same. -/
structure Mark.Alike (k : Nat) (m n : Mark) : Prop where
  name : n.name = m.name
  opens : n.opens = m.opens
  point : m.point.Alike k n.point

/-- Two ways with marks and ends that look the same. -/
structure Found.Alike (k : Nat) (f g : Found) : Prop where
  marks : f.marks.Forall₂ (Mark.Alike k) g.marks
  stop : f.stop.Alike k g.stop

/-- Two matches that look the same. -/
structure Match.Alike (k : Nat) (m n : Match) : Prop extends m.toFound.Alike k n.toFound where
  start : m.start.Alike k n.start

/-- Two pieces that look the same. -/
inductive Piece.Alike (k : Nat) : Piece → Piece → Prop
  | plain (x : Char) : Piece.Alike k (.plain x) (.plain x)
  | found {m n : Match} (h : m.Alike k n) : Piece.Alike k (.found m) (.found n)

/-- No test of a pattern tells points apart that look the same. -/
def Pattern.Steady : Pattern → Prop
  | one _ => True
  | seq a b => a.Steady ∧ b.Steady
  | alt a b => a.Steady ∧ b.Steady
  | many _ a => a.Steady
  | group _ a => a.Steady
  | point test => ∀ k (c d : Cursor), c.Alike k d → test d = test c

variable {k : Nat} {c d : Cursor} {f g : Found} {m n : Match}

theorem Cursor.Alike.past (h : c.Alike k d) (x : Char) (xs : List Char) :
    (c.past x xs).Alike k (d.past x xs) where
  rest := rfl
  offset := by simp only [Cursor.past, h.offset, Nat.add_right_comm]
  word := rfl
  line := rfl

theorem Cursor.Alike.textTo {c' d' : Cursor} (h : c.Alike k d) (h' : c'.Alike k d') :
    d.textTo d' = c.textTo c' := by
  rw [Cursor.textTo, Cursor.textTo, h.rest, h.offset, h'.offset, Nat.add_sub_add_right]

theorem Cursor.Alike.offset_lt_iff {c' d' : Cursor} (h : c.Alike k d) (h' : c'.Alike k d') :
    d.offset < d'.offset ↔ c.offset < c'.offset := by
  rw [h.offset, h'.offset, Nat.add_lt_add_iff_right]

/-- The start of a text looks like the start of the line behind another line. -/
theorem Cursor.alike_start (offset : Nat) (text : List Char) :
    (Cursor.start text).Alike offset ⟨some '\n', offset, text⟩ :=
  ⟨rfl, (Nat.zero_add _).symm, rfl, rfl⟩

/-! ## The same is found -/

theorem Found.Alike.mark (h : f.Alike k g) (name : String) (opens : Bool) (hc : c.Alike k d) :
    (f.mark name opens c).Alike k (g.mark name opens d) :=
  ⟨.cons ⟨rfl, rfl, hc⟩ h.marks, h.stop⟩

namespace Pattern

/-- What follows one of two points that look the same looks the same as what follows the other. -/
def FollowAlike (k : Nat) (go go' : Cursor → Option Found) : Prop :=
  ∀ c d : Cursor, c.Alike k d → Option.Rel (Found.Alike k) (go c) (go' d)

variable {go go' : Cursor → Option Found}

theorem rel_or {a b a' b' : Option Found} (ha : Option.Rel (Found.Alike k) a a')
    (hb : Option.Rel (Found.Alike k) b b') :
    Option.Rel (Found.Alike k) (a.or b) (a'.or b') := by
  cases ha with
  | some h => exact .some h
  | none => exact hb

theorem rel_prefer (lazy : Bool) {more here more' here' : Option Found}
    (hmore : Option.Rel (Found.Alike k) more more')
    (hhere : Option.Rel (Found.Alike k) here here') :
    Option.Rel (Found.Alike k) (prefer lazy more here) (prefer lazy more' here') := by
  cases lazy with
  | true => exact rel_or hhere hmore
  | false => exact rel_or hmore hhere

theorem rel_map_mark {a a' : Option Found} (h : Option.Rel (Found.Alike k) a a') (name : String)
    (opens : Bool) (hc : c.Alike k d) :
    Option.Rel (Found.Alike k) (a.map (.mark name opens c)) (a'.map (.mark name opens d)) := by
  cases h with
  | some h => exact .some (h.mark name opens hc)
  | none => exact .none

theorem repeatThen_alike (lazy : Bool) {step : Cursor → (Cursor → Option Found) → Option Found}
    (hstep : ∀ go go', FollowAlike k go go' → FollowAlike k (step · go) (step · go'))
    (hgo : FollowAlike k go go') :
    FollowAlike k (repeatThen lazy step go) (repeatThen lazy step go') := by
  intro c d h
  induction hn : c.rest.length using Nat.strongRecOn generalizing c d with
  | ind n ih =>
    subst hn
    rw [repeatThen, repeatThen]
    refine rel_prefer lazy (hstep _ _ (fun c' d' h' => ?_) c d h) (hgo c d h)
    rw [h.rest, h'.rest]
    split
    · next hlt => exact ih _ hlt c' d' h' rfl
    · exact .none

/-- From points that look the same, the first ways through a steady pattern look the same. -/
theorem first?_alike {p : Pattern} (hp : p.Steady) (hgo : FollowAlike k go go') :
    FollowAlike k (p.first? · go) (p.first? · go') := by
  induction p generalizing go go' with
  | one p =>
    intro c d h
    simp only [first?, h.rest]
    rcases c.rest with _ | ⟨x, xs⟩
    · exact .none
    · dsimp only
      split
      · exact hgo _ _ (h.past x xs)
      · exact .none
  | seq a b iha ihb => exact iha hp.1 (ihb hp.2 hgo)
  | alt a b iha ihb => exact fun c d h => rel_or (iha hp.1 hgo c d h) (ihb hp.2 hgo c d h)
  | many lazy a ih => exact repeatThen_alike lazy (fun go go' => ih hp) hgo
  | group name a ih =>
    intro c d h
    refine rel_map_mark (ih hp (fun c' d' h' => ?_) c d h) name true h
    exact rel_map_mark (hgo c' d' h') name false h'
  | point test =>
    intro c d h
    simp only [first?, hp k c d h]
    split
    · exact hgo c d h
    · exact .none

theorem at?_alike {p : Pattern} (hp : p.Steady) (h : c.Alike k d) :
    Option.Rel (Found.Alike k) (p.at? c) (p.at? d) :=
  first?_alike hp (fun _ _ h => .some ⟨.nil, h⟩) c d h

/-! ## Steady patterns -/

theorem Untested.steady {p : Pattern} (hp : p.Untested) : p.Steady := by
  induction p with
  | one => trivial
  | seq a b iha ihb => exact ⟨iha hp.1, ihb hp.2⟩
  | alt a b iha ihb => exact ⟨iha hp.1, ihb hp.2⟩
  | many lazy a ih => exact ih hp
  | group name a ih => exact ih hp
  | point test => exact fun k c d _ => (hp d).trans (hp c).symm

theorem steady_seqs {ps : List Pattern} (h : ∀ p ∈ ps, p.Steady) : (seqs ps).Steady := by
  induction ps with
  | nil => exact fun _ _ _ _ => rfl
  | cons p ps ih =>
    obtain ⟨hp, hps⟩ := List.forall_mem_cons.1 h
    exact ⟨hp, ih hps⟩

theorem steady_lineStart : lineStart.Steady := fun _ _ _ h => h.line

theorem steady_lineEnd : lineEnd.Steady := fun _ c d h => by
  rw [Cursor.isLineEnd, Cursor.isLineEnd, h.rest]

theorem steady_wordBoundary : wordBoundary.Steady := fun _ c d h => by
  rw [Cursor.isWordBoundary, Cursor.isWordBoundary, h.rest, h.word]

/-! ## Texts further on -/

/-- A steady pattern finds the same further on. -/
theorem scan_alike {p : Pattern} (hp : p.Steady) (h : c.Alike k d) :
    (p.scan c).Forall₂ (Piece.Alike k) (p.scan d) := by
  induction c using p.scan_induction generalizing d with
  | nil c hc =>
    rw [scan_of_nil hc, scan_of_nil (h.rest.trans hc)]
    exact .nil
  | plain c x xs hc hnone ih =>
    -- Where one search finds nothing that uses text, neither does the other one.
    have hnone' : ∀ g, p.at? d = some g → g.stop.offset ≤ d.offset := by
      intro g hg
      have hat := at?_alike hp h
      rw [hg] at hat
      generalize hf : p.at? c = found at hat
      cases hat with
      | some hfg => exact Nat.le_of_not_lt fun hlt =>
          Nat.not_lt.2 (hnone _ hf) ((h.offset_lt_iff hfg.stop).1 hlt)
    rw [scan_of_cons hnone hc, scan_of_cons hnone' (h.rest.trans hc)]
    exact .cons (.plain x) (ih (h.past x xs))
  | found c f hf hlt ih =>
    have hat := at?_alike hp h
    rw [hf] at hat
    generalize hg : p.at? d = found at hat
    cases hat with
    | some hfg =>
      rw [scan_of_at? hf hlt, scan_of_at? hg ((h.offset_lt_iff hfg.stop).2 hlt)]
      exact .cons (.found { hfg with start := h }) (ih hfg.stop)

theorem matchesFrom_alike {p : Pattern} (hp : p.Steady) (h : c.Alike k d) :
    (p.matchesFrom c).Forall₂ (Match.Alike k) (p.matchesFrom d) := by
  refine List.rel_filterMap (fun piece piece' hpiece => ?_) (scan_alike hp h)
  cases hpiece with
  | plain x => exact .none
  | found hm => exact .some hm

/-- A replacement that does not look at the matches makes the same of a text further on. -/
theorem replaceFrom_alike {p : Pattern} (hp : p.Steady) (h : c.Alike k d) (r : List Char) :
    p.replaceFrom (fun _ => r) d = p.replaceFrom (fun _ => r) c := by
  have hpieces := scan_alike hp h
  unfold replaceFrom
  generalize p.scan c = pieces at hpieces
  generalize p.scan d = pieces' at hpieces
  induction hpieces with
  | nil => rfl
  | cons hpiece _ ih =>
    rw [List.flatMap_cons, List.flatMap_cons, ih]
    cases hpiece <;> rfl

end Pattern

/-! ## Groups hold the same -/

/-- A part of a text `k` bytes further on. -/
def Span.shift (k : Nat) (s : Span) : Span := ⟨s.start + k, s.stop + k, s.text⟩

theorem rel_getLast? {α : Type} {R : α → α → Prop} {l l' : List α} (h : l.Forall₂ R l') :
    Option.Rel R l.getLast? l'.getLast? := by
  rw [List.getLast?_eq_head?_reverse, List.getLast?_eq_head?_reverse]
  have hreverse := List.forall₂_reverse_iff.2 h
  generalize l.reverse = r at hreverse
  generalize l'.reverse = r' at hreverse
  cases hreverse with
  | nil => exact .none
  | cons h _ => exact .some h

/-- The text between two marks that look like two others, `k` bytes further on. -/
theorem bind_span {first last first' last' : Option Mark}
    (hfirst : Option.Rel (Mark.Alike k) first first')
    (hlast : Option.Rel (Mark.Alike k) last last') :
    (first'.bind fun x => last'.bind fun y =>
        some (Span.mk x.point.offset y.point.offset (x.point.textTo y.point))) =
      (first.bind fun x => last.bind fun y =>
        some (Span.mk x.point.offset y.point.offset (x.point.textTo y.point))).map
          (Span.shift k) := by
  cases hfirst with
  | none => rfl
  | some hfirst =>
    cases hlast with
    | none => rfl
    | some hlast =>
      simp [Span.shift, hfirst.point.offset, hlast.point.offset, hfirst.point.textTo hlast.point]

namespace Match.Alike

theorem span? (h : m.Alike k n) (name : String) :
    n.span? name = (m.span? name).map (Span.shift k) := by
  have hnamed := List.rel_filter (p := (·.name == name)) (q := (·.name == name))
    (fun m n (hm : Mark.Alike k m n) => by simp only [hm.name]) h.marks
  refine bind_span (rel_getLast? ?_) (rel_getLast? ?_)
  · exact List.rel_filter (fun m n hm => by simp only [hm.opens]) hnamed
  · exact List.rel_filter (fun m n hm => by simp only [hm.opens]) hnamed

/-- A group holds the same text further on. -/
theorem get? (h : m.Alike k n) (name : String) : n.get? name = m.get? name := by
  rw [Match.get?, Match.get?, h.span? name, Option.map_map]
  rfl

theorem get (h : m.Alike k n) (name : String) : n.get name = m.get name := by
  rw [Match.get, Match.get, h.get? name]

end Match.Alike

/-! ## Texts behind a line break -/

namespace Pattern

/-- Behind a line break that starts no match, a text is searched as if it were all there is. -/
theorem findAll_newline {p : Pattern} (hp : p.Steady) (hbreak : p.startsBy '\n' = false)
    (text : List Char) : (p.findAll text).Forall₂ (Match.Alike 1) (p.findAll ('\n' :: text)) := by
  have hscan : p.scan (.start ('\n' :: text)) = .plain '\n' :: p.scan ⟨some '\n', 1, text⟩ :=
    scan_of_not_startsBy hbreak rfl
  have hmatches : p.findAll ('\n' :: text) = p.matchesFrom ⟨some '\n', 1, text⟩ := by
    rw [findAll, hscan]
    rfl
  rw [hmatches]
  exact matchesFrom_alike hp (Cursor.alike_start 1 text)

end Pattern
end ShaderLang
