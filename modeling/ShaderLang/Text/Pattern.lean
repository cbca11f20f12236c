import ShaderLang.Text.Blank
import ShaderLang.Text.Bytes
import ShaderLang.Text.Word
/-!
# Patterns

Patterns of text and their meaning. A pattern is tried from left to right; where it leaves a
choice, the earlier alternative and the longer repetition come first, unless the repetition is
lazy, and the first way through the whole pattern counts. What follows a pattern is a function from
the point where it ends, so that a way that leads nowhere later on is given up for the next one.

## Main definitions

* `Pattern` — what to look for
* `Cursor`, `Mark`, `Found` — a point of a text, a point of a group, a way through a pattern
* `Pattern.first?` — the first way through a pattern and what follows it
* `Pattern.at?` — the first way through a pattern alone

## Main results

* `Pattern.first?_congr` — only what follows from the starting point on counts
* `Pattern.stop_mem_points` — a way through a pattern ends at a point of the text
-/

namespace ShaderLang

/-! ## Points of a text -/

/-- A point of a text: the character before it, the bytes before it, and the text from it on. -/
structure Cursor where
  before : Option Char
  offset : Nat
  rest : List Char
  deriving DecidableEq, Inhabited

namespace Cursor

/-- The start of a text. -/
def start (text : List Char) : Cursor := ⟨none, 0, text⟩

/-- The point behind a first character `x`, with `xs` behind it. -/
def past (c : Cursor) (x : Char) (xs : List Char) : Cursor := ⟨some x, c.offset + x.utf8Size, xs⟩

/-- The text from a point up to a later one. -/
def textTo (c d : Cursor) : List Char := Text.takeBytes (d.offset - c.offset) c.rest

/-- A word starts or ends at the point. -/
def isWordBoundary (c : Cursor) : Bool :=
  (c.before.map Text.isWord).getD false != (c.rest.head?.map Text.isWord).getD false

/-- A line starts at the point. -/
def isLineStart (c : Cursor) : Bool := c.before.isNone || c.before == some '\n'

/-- A line ends at the point. -/
def isLineEnd (c : Cursor) : Bool := c.rest.isEmpty || c.rest.head? == some '\n'

/-- The points of a text from a point on, the end of the text included. -/
def pointsFrom (before : Option Char) (offset : Nat) : List Char → List Cursor
  | [] => [⟨before, offset, []⟩]
  | x :: xs => ⟨before, offset, x :: xs⟩ :: pointsFrom (some x) (offset + x.utf8Size) xs

/-- The points of a text from a point on, the end of the text included. -/
def points (c : Cursor) : List Cursor := pointsFrom c.before c.offset c.rest

theorem points_of_nil {c : Cursor} (h : c.rest = []) : c.points = [c] := by
  obtain ⟨before, offset, rest⟩ := c
  cases h
  rfl

theorem points_of_cons {c : Cursor} {x : Char} {xs : List Char} (h : c.rest = x :: xs) :
    c.points = c :: (c.past x xs).points := by
  obtain ⟨before, offset, rest⟩ := c
  cases h
  rfl

theorem mem_points_self (c : Cursor) : c ∈ c.points := by
  rcases h : c.rest with _ | ⟨x, xs⟩
  · simp [points_of_nil h]
  · simp [points_of_cons h]

theorem mem_points_of_past {c d : Cursor} {x : Char} {xs : List Char} (h : c.rest = x :: xs)
    (hd : d ∈ (c.past x xs).points) : d ∈ c.points := by
  rw [points_of_cons h]
  exact List.mem_cons_of_mem c hd

theorem mem_points_trans {c d e : Cursor} (hd : d ∈ c.points) (he : e ∈ d.points) :
    e ∈ c.points := by
  obtain ⟨before, offset, rest⟩ := c
  induction rest generalizing before offset with
  | nil =>
    rw [points_of_nil rfl, List.mem_singleton] at hd
    rwa [hd] at he
  | cons x xs ih =>
    rw [points_of_cons rfl, List.mem_cons] at hd
    rcases hd with rfl | hd
    · exact he
    · exact mem_points_of_past rfl (ih _ _ hd)

theorem offset_le_of_mem {c d : Cursor} (h : d ∈ c.points) : c.offset ≤ d.offset := by
  induction hc : c.rest generalizing c with
  | nil =>
    rw [points_of_nil hc, List.mem_singleton] at h
    exact Nat.le_of_eq (congrArg Cursor.offset h.symm)
  | cons x xs ih =>
    rw [points_of_cons hc, List.mem_cons] at h
    rcases h with rfl | h
    · exact Nat.le_refl _
    · exact Nat.le_trans (Nat.le_add_right _ _) (ih h rfl)

theorem offset_lt_of_mem_past {c d : Cursor} {x : Char} {xs : List Char}
    (h : d ∈ (c.past x xs).points) : c.offset < d.offset :=
  Nat.lt_of_lt_of_le (Nat.lt_add_of_pos_right x.utf8Size_pos) (offset_le_of_mem h)

end Cursor

/-! ## Patterns -/

/-- What to look for in a text. -/
inductive Pattern
  /-- One character of a class. -/
  | one (p : Char → Bool)
  | seq (a b : Pattern)
  | alt (a b : Pattern)
  /-- A pattern any number of times, each time over some text: as often as possible, or as rarely
  if it is lazy. -/
  | many (lazy : Bool) (a : Pattern)
  /-- A pattern whose start and end are marked with a name. -/
  | group (name : String) (a : Pattern)
  /-- A point that passes a test; it uses no text. -/
  | point (test : Cursor → Bool)

/-- The start or the end of a group on a way through a pattern. -/
structure Mark where
  name : String
  opens : Bool
  point : Cursor
  deriving DecidableEq, Inhabited

/-- A way through a pattern: the marks that it passes, in their order, and the point where it
ends. -/
structure Found where
  marks : List Mark
  stop : Cursor
  deriving DecidableEq, Inhabited

/-- A way that passes one more mark before all others. -/
def Found.mark (name : String) (opens : Bool) (c : Cursor) (f : Found) : Found :=
  { f with marks := ⟨name, opens, c⟩ :: f.marks }

namespace Pattern

/-- No text. -/
def empty : Pattern := point fun _ => true

/-- The point between a word character and what is none. -/
def wordBoundary : Pattern := point Cursor.isWordBoundary

/-- The start of a line. -/
def lineStart : Pattern := point Cursor.isLineStart

/-- The end of a line. -/
def lineEnd : Pattern := point Cursor.isLineEnd

/-- A literal text. -/
def lit (s : String) : Pattern := s.toList.foldr (fun c p => seq (one (· == c)) p) empty

/-- Patterns one behind another. -/
def seqs (ps : List Pattern) : Pattern := ps.foldr seq empty

/-- The first of several patterns that leads on. -/
def alts : List Pattern → Pattern
  | [] => one fun _ => false
  | [p] => p
  | p :: ps => alt p (alts ps)

/-- A pattern or nothing. -/
def opt (p : Pattern) : Pattern := alt p empty

/-- Any number of characters of a class. -/
def run (p : Char → Bool) : Pattern := many false (one p)

/-- Any number of characters of a class, as few as possible. -/
def lazyRun (p : Char → Bool) : Pattern := many true (one p)

/-- At least one character of a class. -/
def run1 (p : Char → Bool) : Pattern := seq (one p) (run p)

/-- At least one character of a class, as few as possible. -/
def lazyRun1 (p : Char → Bool) : Pattern := seq (one p) (lazyRun p)

/-- Any number of blanks. -/
def blanks : Pattern := run Text.isBlank

/-- At least one blank. -/
def blanks1 : Pattern := run1 Text.isBlank

/-- The rest of a line, or less of it. -/
def inLine : Pattern := run (· != '\n')

/-- A letter or an underscore and the word characters behind it. -/
def ident : Pattern := seq (one fun c => c.isAlpha || c == '_') (run Text.isWord)

/-! ## The first way -/

/-- A repetition prefers more of it to going on, unless it is lazy. -/
def prefer (lazy : Bool) (more here : Option Found) : Option Found :=
  if lazy then here.or more else more.or here

/-- Repeats a step as long as it uses text, and goes on from where the repetition ends. -/
def repeatThen (lazy : Bool) (step : Cursor → (Cursor → Option Found) → Option Found)
    (go : Cursor → Option Found) (c : Cursor) : Option Found :=
  prefer lazy
    (step c fun d =>
      if _h : d.rest.length < c.rest.length then repeatThen lazy step go d else none)
    (go c)
termination_by c.rest.length

/-- The first way through a pattern from a point and on from where the pattern ends. -/
def first? : Pattern → Cursor → (Cursor → Option Found) → Option Found
  | one p, c, go =>
    match c.rest with
    | [] => none
    | x :: xs => if p x then go (c.past x xs) else none
  | seq a b, c, go => a.first? c fun d => b.first? d go
  | alt a b, c, go => (a.first? c go).or (b.first? c go)
  | many lazy a, c, go => repeatThen lazy a.first? go c
  | group name a, c, go =>
    (a.first? c fun d => (go d).map (.mark name false d)).map (.mark name true c)
  | point test, c, go => if test c then go c else none

/-- The first way through a pattern from a point. -/
def at? (p : Pattern) (c : Cursor) : Option Found := p.first? c fun d => some ⟨[], d⟩

/-! ## What counts for the first way -/

theorem repeatThen_congr {lazy : Bool}
    {step : Cursor → (Cursor → Option Found) → Option Found} {go go' : Cursor → Option Found}
    (hstep : ∀ c (k k' : Cursor → Option Found),
      (∀ d, d.rest.length ≤ c.rest.length → k d = k' d) → step c k = step c k')
    {c : Cursor} (h : ∀ d, d.rest.length ≤ c.rest.length → go d = go' d) :
    repeatThen lazy step go c = repeatThen lazy step go' c := by
  induction hn : c.rest.length using Nat.strongRecOn generalizing c with
  | ind n ih =>
    subst hn
    rw [repeatThen, repeatThen, h c (Nat.le_refl _)]
    congr 1
    apply hstep
    intro d _
    split
    · next hlt => exact ih _ hlt (fun e he => h e (Nat.le_trans he (Nat.le_of_lt hlt))) rfl
    · rfl

/-- What follows a pattern counts only from the starting point on. -/
theorem first?_congr (p : Pattern) {c : Cursor} {go go' : Cursor → Option Found}
    (h : ∀ d, d.rest.length ≤ c.rest.length → go d = go' d) : p.first? c go = p.first? c go' := by
  induction p generalizing c go go' with
  | one p =>
    simp only [first?]
    split
    · rfl
    · next x xs hc => rw [h _ (by simp [Cursor.past, hc])]
  | seq a b iha ihb =>
    exact iha fun d hd => ihb fun e he => h e (Nat.le_trans he hd)
  | alt a b iha ihb => rw [first?, first?, iha h, ihb h]
  | many lazy a ih =>
    rw [first?, first?]
    exact repeatThen_congr (fun _ _ _ => ih) h
  | group name a ih =>
    rw [first?, first?]
    congr 1
    exact ih fun d hd => by rw [h d hd]
  | point test => rw [first?, first?, h c (Nat.le_refl _)]

theorem prefer_eq_some {lazy : Bool} {more here : Option Found} {f : Found}
    (h : prefer lazy more here = some f) : more = some f ∨ here = some f := by
  cases lazy <;> cases more <;> cases here <;> simp_all [prefer]

theorem exists_of_repeatThen {lazy : Bool}
    {step : Cursor → (Cursor → Option Found) → Option Found} {go : Cursor → Option Found}
    (hstep : ∀ (c : Cursor) (k : Cursor → Option Found) (f : Found), step c k = some f →
      ∃ d ∈ c.points, ∃ g, k d = some g ∧ g.stop = f.stop)
    {c : Cursor} {f : Found} (h : repeatThen lazy step go c = some f) :
    ∃ d ∈ c.points, ∃ g, go d = some g ∧ g.stop = f.stop := by
  induction hn : c.rest.length using Nat.strongRecOn generalizing c f with
  | ind n ih =>
    subst hn
    rw [repeatThen] at h
    -- Each further go starts strictly behind the one before, which bounds their number.
    rcases prefer_eq_some h with h | h
    · obtain ⟨d, hd, g, hg, hstop⟩ := hstep c _ f h
      split at hg
      · next hlt =>
        obtain ⟨e, he, g', hg', hstop'⟩ := ih _ hlt hg rfl
        exact ⟨e, Cursor.mem_points_trans hd he, g', hg', hstop'.trans hstop⟩
      · cases hg
    · exact ⟨c, c.mem_points_self, f, h, rfl⟩

/-- A way through a pattern and on comes by a point of the text where the pattern ends. -/
theorem exists_of_first? (p : Pattern) {c : Cursor} {go : Cursor → Option Found} {f : Found}
    (h : p.first? c go = some f) : ∃ d ∈ c.points, ∃ g, go d = some g ∧ g.stop = f.stop := by
  induction p generalizing c go f with
  | one p =>
    rw [first?] at h
    split at h
    · cases h
    · next x xs hc =>
      split at h
      · exact ⟨_, Cursor.mem_points_of_past hc (Cursor.mem_points_self _), f, h, rfl⟩
      · cases h
  | seq a b iha ihb =>
    obtain ⟨d, hd, g, hg, hstop⟩ := iha h
    obtain ⟨e, he, g', hg', hstop'⟩ := ihb hg
    exact ⟨e, Cursor.mem_points_trans hd he, g', hg', hstop'.trans hstop⟩
  | alt a b iha ihb =>
    rw [first?, Option.or_eq_some_iff] at h
    rcases h with h | ⟨-, h⟩
    · exact iha h
    · exact ihb h
  | many lazy a ih => exact exists_of_repeatThen (fun c k f hf => ih hf) h
  | group name a ih =>
    obtain ⟨g, hg, rfl⟩ := Option.map_eq_some_iff.1 h
    obtain ⟨d, hd, g', hg', hstop⟩ := ih hg
    obtain ⟨g'', hg'', rfl⟩ := Option.map_eq_some_iff.1 hg'
    exact ⟨d, hd, g'', hg'', hstop⟩
  | point test =>
    rw [first?] at h
    split at h
    · exact ⟨c, c.mem_points_self, f, h, rfl⟩
    · cases h

/-- A match ends at a point of the text. -/
theorem stop_mem_points {p : Pattern} {c : Cursor} {f : Found} (h : p.at? c = some f) :
    f.stop ∈ c.points := by
  obtain ⟨d, hd, g, hg, hstop⟩ := exists_of_first? p h
  cases hg
  exact hstop ▸ hd

end Pattern
end ShaderLang
