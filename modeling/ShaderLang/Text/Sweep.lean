import ShaderLang.Text.Pattern
/-!
# Sweeps

The matches of a pattern in a text. They are found in one sweep from the end of the text to its
start, which answers at every point whether the pattern leads on from there. All that the sweep has
to remember of the text behind a point is, for each character of the pattern, what follows from
behind it. So the work grows with the length of the text and with the size of the pattern, and not
with the number of ways to try.

## Main definitions

* `Pattern.Ahead`, `Pattern.sweep` — what is known of the text behind a point; a sweep over a point
* `Pattern.answers` — the first ways through a pattern from all points of a text
* `Match`, `Pattern.scan` — a text as matches and the characters between them
* `Pattern.findAll`, `Pattern.replace` — all matches; a text with all matches replaced

## Main results

* `Pattern.answers_eq` — a sweep gives the first way through the pattern at every point
* `Pattern.scan_of_at?`, `Pattern.scan_of_cons`, `Pattern.scan_of_nil` — a text is searched from its
  start, and behind each match from its end
-/

namespace ShaderLang
namespace Pattern

/-! ## Sweeping over a point -/

/-- What a sweep knows at a point of the text behind it: for each character of a pattern, what
follows if the character ends there. -/
def Ahead : Pattern → Type
  | one _ => Option Found
  | seq a b => a.Ahead × b.Ahead
  | alt a b => a.Ahead × b.Ahead
  | many _ a => a.Ahead
  | group _ a => a.Ahead
  | point _ => Unit

/-- Nothing follows. -/
def Ahead.none : (p : Pattern) → p.Ahead
  | one _ => Option.none
  | seq a b => (Ahead.none a, Ahead.none b)
  | alt a b => (Ahead.none a, Ahead.none b)
  | many _ a => Ahead.none a
  | group _ a => Ahead.none a
  | point _ => ()

/-- Sweeps over a point: from what is known behind it and what follows the pattern if it ends
there, the first way from the point, and what is known from it on. -/
def sweep : (p : Pattern) → Cursor → p.Ahead → Option Found → Option Found × p.Ahead
  | one p, c, ahead, here =>
    (match c.rest with
      | [] => none
      | x :: _ => if p x then ahead else none, here)
  | seq a b, c, ahead, here =>
    let inB := b.sweep c ahead.2 here
    let inA := a.sweep c ahead.1 inB.1
    (inA.1, inA.2, inB.2)
  | alt a b, c, ahead, here =>
    let inA := a.sweep c ahead.1 here
    let inB := b.sweep c ahead.2 here
    (inA.1.or inB.1, inA.2, inB.2)
  | many lazy a, c, ahead, here =>
    -- A repetition that has used no text may not end here, but those begun before may.
    let found := prefer lazy (a.sweep c ahead none).1 here
    (found, (a.sweep c ahead found).2)
  | group name a, c, ahead, here =>
    let inA := a.sweep c ahead (here.map (.mark name false c))
    (inA.1.map (.mark name true c), inA.2)
  | point test, c, _, here => (if test c then here else none, ())

/-- What a sweep gives at a point. -/
structure Answer where
  point : Cursor
  found? : Option Found
  deriving DecidableEq, Inhabited

/-- Sweeps over points, the last one first. -/
def sweepAll (p : Pattern) (cs : List Cursor) : List Answer × p.Ahead :=
  cs.foldr
    (fun c known =>
      let found := p.sweep c known.2 (some ⟨[], c⟩)
      (⟨c, found.1⟩ :: known.1, found.2))
    ([], .none p)

/-- The first ways through a pattern from all points of a text. -/
def answers (p : Pattern) (c : Cursor) : List Answer := (p.sweepAll c.points).1

/-! ## Sweeps find the first ways -/

/-- What is known at a point is right if `go` follows the pattern. -/
def Knows : (p : Pattern) → (Cursor → Option Found) → Cursor → p.Ahead → Prop
  | one _, go, c, ahead => ahead = go c
  | seq a b, go, c, ahead => a.Knows (fun d => b.first? d go) c ahead.1 ∧ b.Knows go c ahead.2
  | alt a b, go, c, ahead => a.Knows go c ahead.1 ∧ b.Knows go c ahead.2
  | many lazy a, go, c, ahead => a.Knows (fun d => (many lazy a).first? d go) c ahead
  | group name a, go, c, ahead => a.Knows (fun d => (go d).map (.mark name false d)) c ahead
  | point _, _, _, _ => True

theorem Knows.congr {p : Pattern} {go go' : Cursor → Option Found} {c : Cursor} {ahead : p.Ahead}
    (h : ∀ d, d.rest.length ≤ c.rest.length → go d = go' d) (hk : p.Knows go c ahead) :
    p.Knows go' c ahead := by
  induction p generalizing go go' with
  | one p => exact hk.trans (h c (Nat.le_refl _))
  | seq a b iha ihb =>
    refine ⟨iha ?_ hk.1, ihb h hk.2⟩
    exact fun d hd => b.first?_congr fun e he => h e (Nat.le_trans he hd)
  | alt a b iha ihb => exact ⟨iha h hk.1, ihb h hk.2⟩
  | many lazy a ih =>
    exact ih (fun d hd => first?_congr _ fun e he => h e (Nat.le_trans he hd)) hk
  | group name a ih => exact ih (fun d hd => by rw [h d hd]) hk
  | point test => trivial

/-- A sweep over a point gives the first way from it, and knows what is right from it on. -/
theorem sweep_eq (p : Pattern) {go : Cursor → Option Found} {c : Cursor} {ahead : p.Ahead}
    (h : ∀ x xs, c.rest = x :: xs → p.Knows go (c.past x xs) ahead) :
    (p.sweep c ahead (go c)).1 = p.first? c go ∧ p.Knows go c (p.sweep c ahead (go c)).2 := by
  induction p generalizing go with
  | one p =>
    refine ⟨?_, rfl⟩
    rw [sweep, first?]
    rcases hc : c.rest with _ | ⟨x, xs⟩
    · rfl
    · have hx : ahead = go (c.past x xs) := h x xs hc
      simp only [hx]
  | seq a b iha ihb =>
    obtain ⟨hb, hkb⟩ := ihb fun x xs hc => (h x xs hc).2
    obtain ⟨ha, hka⟩ := @iha (fun d => b.first? d go) ahead.1 fun x xs hc => (h x xs hc).1
    simp only [sweep, hb]
    exact ⟨ha, hka, hkb⟩
  | alt a b iha ihb =>
    obtain ⟨ha, hka⟩ := iha fun x xs hc => (h x xs hc).1
    obtain ⟨hb, hkb⟩ := ihb fun x xs hc => (h x xs hc).2
    simp only [sweep, ha, hb]
    exact ⟨rfl, hka, hkb⟩
  | many lazy a ih =>
    -- What follows one more time, begun at this point: only later points count.
    let again : Cursor → Option Found := fun d =>
      if d.rest.length < c.rest.length then (many lazy a).first? d go else none
    have hagain : again c = none := if_neg (Nat.lt_irrefl _)
    have hmore := (@ih again ahead fun x xs hc =>
      (h x xs hc).congr fun d hd => (if_pos (by rw [hc]; exact Nat.lt_succ_of_le hd)).symm).1
    rw [hagain] at hmore
    have hfirst : (many lazy a).first? c go = prefer lazy (a.first? c again) (go c) := by
      rw [first?, repeatThen]
      rfl
    simp only [sweep, hmore, ← hfirst, true_and]
    exact (@ih (fun d => (many lazy a).first? d go) ahead h).2
  | group name a ih =>
    obtain ⟨ha, hka⟩ := @ih (fun d => (go d).map (.mark name false d)) ahead h
    simp only [sweep, ha]
    exact ⟨rfl, hka⟩
  | point test => exact ⟨rfl, trivial⟩

theorem sweepAll_points (p : Pattern) (c : Cursor) :
    (p.sweepAll c.points).1 = c.points.map (fun d => ⟨d, p.at? d⟩) ∧
      p.Knows (fun d => some ⟨[], d⟩) c (p.sweepAll c.points).2 := by
  induction hc : c.rest generalizing c with
  | nil =>
    obtain ⟨hfirst, hknows⟩ := @sweep_eq p (fun d => some ⟨[], d⟩) c (.none p) (by simp [hc])
    rw [Cursor.points_of_nil hc]
    exact ⟨congrArg (fun f => [Answer.mk c f]) hfirst, hknows⟩
  | cons x xs ih =>
    obtain ⟨hanswers, hlater⟩ := ih (c.past x xs) rfl
    obtain ⟨hfirst, hknows⟩ := @sweep_eq p (fun d => some ⟨[], d⟩) c
      (p.sweepAll (c.past x xs).points).2 fun y ys hy => by
        obtain ⟨rfl, rfl⟩ := List.cons.inj (hc.symm.trans hy)
        exact hlater
    rw [Cursor.points_of_cons hc, List.map_cons, ← hanswers]
    exact ⟨congrArg (fun f => Answer.mk c f :: _) hfirst, hknows⟩

/-- A sweep gives the first way through the pattern at every point. -/
theorem answers_eq (p : Pattern) (c : Cursor) :
    p.answers c = c.points.map fun d => ⟨d, p.at? d⟩ := (p.sweepAll_points c).1

end Pattern

/-! ## Matches -/

/-- A way through a pattern that uses text, from where it starts. -/
structure Match extends Found where
  start : Cursor
  deriving Inhabited

/-- A part of a text, with the bytes before it and those up to its end. -/
structure Span where
  start : Nat
  stop : Nat
  text : List Char
  deriving DecidableEq, Inhabited

namespace Match

/-- The text of a match. -/
def text (m : Match) : List Char := m.start.textTo m.stop

/-- The last part of a match that a group holds. -/
def span? (m : Match) (name : String) : Option Span := do
  let marks := m.marks.filter (·.name == name)
  let first ← (marks.filter (·.opens)).getLast?
  let last ← (marks.filter (!·.opens)).getLast?
  return ⟨first.point.offset, last.point.offset, first.point.textTo last.point⟩

/-- The text that a group holds. -/
def get? (m : Match) (name : String) : Option (List Char) := (m.span? name).map (·.text)

/-- The text that a group holds, or none of it. -/
def get (m : Match) (name : String) : List Char := (m.get? name).getD []

end Match

/-- A piece of a text: a match, or a character between matches. -/
inductive Piece
  | plain (c : Char)
  | found (m : Match)

namespace Pattern

/-- The match at a point, if the pattern leads on from there over some text. -/
def Answer.match? (a : Answer) : Option Match :=
  (a.found?.filter (a.point.offset < ·.stop.offset)).map fun f => ⟨f, a.point⟩

/-- The pieces of a text by the answers at its points, where the text before the offset `free` is
taken. -/
def pieces (free : Nat) : List Answer → List Piece
  | [] => []
  | a :: as =>
    if a.point.offset < free then pieces free as
    else
      match a.match? with
      | some m => .found m :: pieces m.stop.offset as
      | none =>
        match a.point.rest with
        | [] => pieces free as
        | x :: _ => .plain x :: pieces free as

/-- A text from a point on as matches and the characters between them. -/
def scan (p : Pattern) (c : Cursor) : List Piece := pieces c.offset (p.answers c)

/-- All matches in a text. -/
def findAll (p : Pattern) (text : List Char) : List Match :=
  (p.scan (.start text)).filterMap fun
    | .found m => some m
    | .plain _ => none

/-- A text with every match replaced. -/
def replace (p : Pattern) (f : Match → List Char) (text : List Char) : List Char :=
  (p.scan (.start text)).flatMap fun
    | .found m => f m
    | .plain c => [c]

/-! ## Searching a text from its start -/

theorem pieces_congr {free free' : Nat} {as : List Answer}
    (h : ∀ a ∈ as, free ≤ a.point.offset) (h' : ∀ a ∈ as, free' ≤ a.point.offset) :
    pieces free as = pieces free' as := by
  induction as with
  | nil => rfl
  | cons a as ih =>
    have ih := ih (fun b hb => h b (List.mem_cons_of_mem a hb))
      fun b hb => h' b (List.mem_cons_of_mem a hb)
    have ha := h a List.mem_cons_self
    have ha' := h' a List.mem_cons_self
    simp only [pieces, Nat.not_lt.2 ha, Nat.not_lt.2 ha', if_false, ih]

/-- What is taken is passed over. -/
theorem pieces_of_mem_points {p : Pattern} {c d : Cursor} (h : d ∈ c.points) :
    pieces d.offset (p.answers c) = p.scan d := by
  rw [scan]
  induction hc : c.rest generalizing c with
  | nil =>
    rw [Cursor.points_of_nil hc, List.mem_singleton] at h
    rw [h]
  | cons x xs ih =>
    rw [Cursor.points_of_cons hc, List.mem_cons] at h
    rcases h with rfl | h
    · rfl
    · rw [← ih h rfl, answers_eq, answers_eq, Cursor.points_of_cons hc, List.map_cons, pieces,
        if_pos (Cursor.offset_lt_of_mem_past h)]

theorem match?_eq_none {p : Pattern} {c : Cursor}
    (h : ∀ f, p.at? c = some f → f.stop.offset ≤ c.offset) :
    (Answer.mk c (p.at? c)).match? = none := by
  simp only [Answer.match?, Option.map_eq_none_iff, Option.filter_eq_none_iff, decide_eq_true_eq]
  exact fun f hf => Nat.not_lt.2 (h f hf)

theorem scan_of_nil {p : Pattern} {c : Cursor} (h : c.rest = []) : p.scan c = [] := by
  have hnone : (Answer.mk c (p.at? c)).match? = none := match?_eq_none fun f hf => by
    have hstop := stop_mem_points hf
    rw [Cursor.points_of_nil h, List.mem_singleton] at hstop
    exact Nat.le_of_eq (congrArg Cursor.offset hstop)
  rw [scan, answers_eq, Cursor.points_of_nil h, List.map_singleton, pieces,
    if_neg (Nat.lt_irrefl _), hnone]
  simp only [h, pieces]

/-- A match that uses text is found, and the text is searched on from its end. -/
theorem scan_of_at? {p : Pattern} {c : Cursor} {f : Found} (h : p.at? c = some f)
    (hlt : c.offset < f.stop.offset) : p.scan c = .found ⟨f, c⟩ :: p.scan f.stop := by
  have hsome : (Answer.mk c (p.at? c)).match? = some ⟨f, c⟩ := by
    simp [Answer.match?, h, hlt]
  have hstop := stop_mem_points h
  rcases hc : c.rest with _ | ⟨x, xs⟩
  · rw [Cursor.points_of_nil hc, List.mem_singleton] at hstop
    exact absurd (hstop ▸ hlt) (Nat.lt_irrefl _)
  · have hpast : f.stop ∈ (c.past x xs).points := by
      rw [Cursor.points_of_cons hc, List.mem_cons] at hstop
      rcases hstop with hstop | hstop
      · exact absurd (hstop ▸ hlt) (Nat.lt_irrefl _)
      · exact hstop
    rw [← pieces_of_mem_points hpast, scan, answers_eq, Cursor.points_of_cons hc, List.map_cons,
      pieces, if_neg (Nat.lt_irrefl _), hsome, answers_eq]

/-- Where there is no match that uses text, the text is searched on behind a character. -/
theorem scan_of_cons {p : Pattern} {c : Cursor} {x : Char} {xs : List Char}
    (h : ∀ f, p.at? c = some f → f.stop.offset ≤ c.offset) (hc : c.rest = x :: xs) :
    p.scan c = .plain x :: p.scan (c.past x xs) := by
  have hfree : pieces c.offset (p.answers (c.past x xs)) = p.scan (c.past x xs) := by
    rw [scan]
    apply pieces_congr
    · intro a ha
      rw [answers_eq] at ha
      obtain ⟨d, hd, rfl⟩ := List.mem_map.1 ha
      exact Nat.le_of_lt (Cursor.offset_lt_of_mem_past hd)
    · intro a ha
      rw [answers_eq] at ha
      obtain ⟨d, hd, rfl⟩ := List.mem_map.1 ha
      exact Cursor.offset_le_of_mem hd
  rw [← hfree, scan, answers_eq, Cursor.points_of_cons hc, List.map_cons, pieces,
    if_neg (Nat.lt_irrefl _), match?_eq_none h, answers_eq]
  simp only [hc]

end Pattern
end ShaderLang
