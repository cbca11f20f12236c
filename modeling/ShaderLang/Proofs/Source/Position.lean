import Mathlib.Data.List.Induction
import Mathlib.Data.List.Infix
import Mathlib.Data.Nat.Basic
import Mathlib.Logic.Function.Iterate
import Mathlib.Logic.Relation
import ShaderLang.Proofs.Source.Captured
import ShaderLang.Proofs.Source.Place
import ShaderLang.Proofs.Source.Turn
/-!
# Positions are exact

All through the life of a lexer every text under reading is passed byte by byte from its start, and
its place is that of the bytes passed. A token is queued with the file of the innermost text and the
place at which its spelling starts there, later tokens of the same reading of a text start behind
earlier ones, and a fault is reported where the piece of text starts that is at fault.

A text is under reading from the time when it is put on the stack to the time when it is taken off.
Files are entered in between, and after a fault also further sources are read above it.

## Main definitions

* `Frame.Stands` — a frame stands behind some text, at its place
* `Scan.Next`, `Scan.Reached` — the moves of a lexer and the points that it gets to
* `Scan.Stays` — moves above a text that stays under reading
* `Scan.Point.Queues` — a token is queued where its spelling starts
* `Scan.Begins` — a text begins with what a fault is about

## Main results

* `Scan.Reached.stands`, `Scan.Reached.queued` — what holds at every point
* `Scan.Stays.holds` — a text that stays under reading is read on
* `Scan.Fails.begins` — a fault is about what the text begins with
* `Scan.positions_exact` — frames, tokens and faults tell of their places
-/

namespace ShaderLang

/-- A text that can be read: one of the sources, or that of a file. -/
inductive Loaded (includes : Includes) (sources : List String) : Option String → String → Prop
  | source {text : String} (h : text ∈ sources) : Loaded includes sources none text
  | file {name text : String} (h : includes name = some text) :
      Loaded includes sources (some name) text

namespace Frame

/-- A frame stands in a text that can be read, behind some of it: it got there from the start of
that text by the bytes passed, and its place is that of these bytes. -/
structure Stands (includes : Includes) (sources : List String) (f : Frame) (text : String)
    (before : List Char) : Prop where
  loaded : Loaded includes sources f.file text
  text_eq : text.toList = before ++ f.rest
  passed : f = advance^[Text.byteSize before] (ofText f.file text)
  place : f.place = Place.behind (Text.bytes before)

variable {includes : Includes} {sources : List String} {f g h : Frame} {text : String}
  {before used rest : List Char}

theorem stands_past {file : Option String} (hloaded : Loaded includes sources file text)
    (htext : text.toList = before ++ rest) :
    ((ofText file text).past before rest).Stands includes sources text before := by
  have hpassed := @past_eq_advance (ofText file text) before rest htext rfl
  refine ⟨hloaded, htext, hpassed, ?_⟩
  rw [hpassed, place_advance_ofText, htext, Text.bytes_append, ← Text.length_bytes,
    List.take_left]

theorem stands_ofText {file : Option String} (hloaded : Loaded includes sources file text) :
    (ofText file text).Stands includes sources text [] :=
  @stands_past includes sources text [] text.toList file hloaded rfl

theorem Stands.eq_past (hf : f.Stands includes sources text before) :
    f = (ofText f.file text).past before f.rest := by
  rw [@past_eq_advance (ofText f.file text) before f.rest hf.text_eq rfl]
  exact hf.passed

/-- The second frame is the first one with some more of its text read, or none. -/
def LeadsTo (f g : Frame) : Prop :=
  g = f ∨ ∃ used rest, f.rest = used ++ rest ∧ g = f.past used rest

theorem leadsTo_past (hrest : f.rest = used ++ rest) : f.LeadsTo (f.past used rest) :=
  .inr ⟨used, rest, hrest, rfl⟩

theorem past_past (f : Frame) (used more rest rest' : List Char) :
    (f.past used rest').past more rest = f.past (used ++ more) rest := by
  simp only [past, Place.pastAll_append]

theorem LeadsTo.trans (hfg : f.LeadsTo g) (hgh : g.LeadsTo h) : f.LeadsTo h := by
  rcases hgh with rfl | ⟨more, rest', hmore, rfl⟩
  · exact hfg
  · rcases hfg with rfl | ⟨used, rest, hused, rfl⟩
    · exact leadsTo_past hmore
    · refine .inr ⟨used ++ more, rest', ?_, past_past ..⟩
      rw [hused, List.append_assoc]
      exact congrArg _ hmore

theorem LeadsTo.stands (hfg : f.LeadsTo g) (hf : f.Stands includes sources text before) :
    ∃ before', g.Stands includes sources text before' := by
  rcases hfg with rfl | ⟨used, rest, hrest, rfl⟩
  · exact ⟨before, hf⟩
  · refine ⟨before ++ used, ?_⟩
    rw [hf.eq_past, past_past]
    refine stands_past hf.loaded ?_
    rw [hf.text_eq, hrest, List.append_assoc]

theorem LeadsTo.file (hfg : f.LeadsTo g) : g.file = f.file := by
  rcases hfg with rfl | ⟨used, rest, -, rfl⟩ <;> rfl

theorem offset_past (p : Place) (c : Char) : (p.past c).offset = p.offset + c.utf8Size := by
  unfold Place.past
  split
  · next hc =>
    subst hc
    rfl
  · rfl

theorem offset_pastAll (p : Place) (cs : List Char) :
    (p.pastAll cs).offset = p.offset + Text.byteSize cs := by
  induction cs generalizing p with
  | nil => rfl
  | cons c cs ih =>
    have hpast : p.pastAll (c :: cs) = (p.past c).pastAll cs := rfl
    rw [hpast, ih, offset_past, Text.byteSize, Nat.add_assoc]

theorem LeadsTo.offset_le (hfg : f.LeadsTo g) : f.place.offset ≤ g.place.offset := by
  rcases hfg with rfl | ⟨used, rest, -, rfl⟩
  · exact Nat.le_refl _
  · simp only [past, offset_pastAll]
    exact Nat.le_add_right _ _

theorem offset_lt_past (f : Frame) (hused : used ≠ []) :
    f.place.offset < (f.past used rest).place.offset := by
  obtain ⟨c, cs, rfl⟩ := List.exists_cons_of_ne_nil hused
  have hpos := c.utf8Size_pos
  simp only [past, offset_pastAll, Text.byteSize]
  omega

end Frame

namespace Scan

variable {includes : Includes} {given : List String} {p q r : Point} {f g : Frame} {s s' : Scan}
  {below frames : List Frame} {t : PlacedToken} {spelling : List Char}

/-! ## The life of a lexer -/

/-- One move of a lexer: a turn of a reading, or a further source put on the stack where a reading
has come to rest. Names may be defined in between. -/
inductive Next (includes : Includes) (given : List String) : Point → Point → Prop
  | turn {p q : Point} {entered? : Option String} (h : p.turn includes = .on entered? q) :
      Next includes given p q
  | source {p : Point} {frames : List Frame} {s : Scan} {defines : Defines} {source : String}
      (h : p.Rests includes frames s) (hsource : source ∈ given) :
      Next includes given p (Point.startAbove frames (s.withDefines defines) source)

/-- Some moves of a lexer lead from one point to another. -/
def Reaches (includes : Includes) (given : List String) : Point → Point → Prop :=
  Relation.ReflTransGen (Next includes given)

/-- Some moves lead from the first source that a lexer reads to a point. -/
def Reached (includes : Includes) (given : List String) (p : Point) : Prop :=
  ∃ defines source, source ∈ given ∧ Reaches includes given (Point.start defines source) p

theorem Reaches.of_leads (h : Leads includes p q) : Reaches includes given p q := by
  obtain ⟨n, names, hrun⟩ := h
  induction hrun with
  | stay => exact .refl
  | on hturn _ ih => exact .head (.turn hturn) ih

theorem Reached.reaches (h : Reached includes given p) (hpq : Reaches includes given p q) :
    Reached includes given q := by
  obtain ⟨defines, source, hsource, hp⟩ := h
  exact ⟨defines, source, hsource, hp.trans hpq⟩

/-- What a lexer keeps between its readings is what it kept where the last one came to rest. -/
inductive Keeps (includes : Includes) (given : List String) : List Frame → Scan → Prop
  | fresh (defines : Defines) : Keeps includes given [] (Scan.fresh defines)
  | rested {p : Point} {frames : List Frame} {s : Scan} (defines : Defines)
      (hp : Reached includes given p) (h : p.Rests includes frames s) :
      Keeps includes given frames (s.withDefines defines)

theorem Keeps.reached (h : Keeps includes given frames s) {source : String}
    (hsource : source ∈ given) : Reached includes given (Point.startAbove frames s source) := by
  cases h with
  | fresh defines => exact ⟨defines, source, hsource, .refl⟩
  | rested defines hp hrests => exact hp.reaches (.single (.source hrests hsource))

theorem keeps_afterCalls {calls : List Call} (h : ∀ source ∈ sources calls, source ∈ given) :
    Keeps includes given (afterCalls includes calls).1 (afterCalls includes calls).2 := by
  -- The last call is made where all the others have led.
  induction calls using List.reverseRecOn with
  | nil => exact .fresh []
  | append_singleton calls call ih =>
    rw [sources_append_singleton, List.forall_mem_append] at h
    have hkeeps := ih h.1
    rw [afterCalls_append_singleton]
    generalize afterCalls includes calls = r at hkeeps ⊢
    obtain ⟨frames, s⟩ := r
    cases call with
    | define name expr =>
      cases hkeeps with
      | fresh defines => exact .fresh (defines.define name expr)
      | @rested p frames s defines hp hrests =>
        exact @Keeps.rested includes given p frames s (defines.define name expr) hp hrests
    | read source =>
      -- Its reading starts above the frames that are kept, and is rested where it ends.
      obtain ⟨last, hleads, hrests⟩ := exists_leads_rests includes frames s source
      have hstart := hkeeps.reached (h.2 source List.mem_cons_self)
      exact .rested _ (hstart.reaches (.of_leads hleads)) hrests

/-! ## Texts under reading -/

/-- A move reads on in the innermost text, puts a text on the stack, perhaps after reading on, or
takes one off. -/
inductive Shifts (includes : Includes) (given : List String) (p q : Point) : Prop
  | on {used : List Char} (hrest : p.frame.rest = used ++ q.frame.rest)
      (hframe : q.frame = p.frame.past used q.frame.rest) (hbelow : q.below = p.below)
  | puts {g : Frame} {file : Option String} {text : String} (hg : p.frame.LeadsTo g)
      (hloaded : Loaded includes given file text) (hframe : q.frame = Frame.ofText file text)
      (hbelow : q.below = g :: p.below)
  | takes (hbelow : p.below = q.frame :: q.below)

theorem Fails.leadsTo {cause : Cause} {f' : Frame} (h : Fails f s cause f' s') : f.LeadsTo f' := by
  obtain ⟨used, rest, hrest, rfl⟩ := h.exists_used
  exact Frame.leadsTo_past hrest

/-- Where a reading comes to rest, the innermost text has perhaps been read on. -/
theorem Point.Rests.exists_frames (h : p.Rests includes frames s) :
    ∃ g, p.frame.LeadsTo g ∧ frames = g :: p.below := by
  cases h with
  | ended h => exact ⟨p.frame, .inl rfl, by rw [(Point.of_ended h).2]⟩
  | stopped h =>
    obtain ⟨cause, f, s, hfails, rfl⟩ := Point.fails_of_turn h
    exact ⟨f, hfails.leadsTo, rfl⟩

theorem Next.shifts (h : Next includes given p q) : Shifts includes given p q := by
  cases h with
  | turn hturn =>
    cases Point.goes_of_turn hturn with
    | uses hrest => exact .on hrest rfl rfl
    | enters hrest htext => exact .puts (Frame.leadsTo_past hrest) (.file htext) rfl rfl
    | leaves _ hbelow => exact .takes hbelow
  | source hrests hsource =>
    obtain ⟨g, hg, rfl⟩ := hrests.exists_frames
    exact .puts hg (.source hsource) rfl rfl

/-- Every frame of a stack stands somewhere in a text. -/
def Standing (includes : Includes) (given : List String) (frames : List Frame) : Prop :=
  ∀ f ∈ frames, ∃ text before, f.Stands includes given text before

theorem Standing.leadsTo (h : Standing includes given (f :: below)) (hg : f.LeadsTo g) :
    Standing includes given (g :: below) := by
  obtain ⟨hf, hbelow⟩ := List.forall_mem_cons.1 h
  obtain ⟨text, before, hstands⟩ := hf
  exact List.forall_mem_cons.2 ⟨⟨text, hg.stands hstands⟩, hbelow⟩

theorem Standing.shifts (h : Standing includes given (p.frame :: p.below))
    (hshifts : Shifts includes given p q) : Standing includes given (q.frame :: q.below) := by
  cases hshifts with
  | on hrest hframe hbelow =>
    rw [hframe, hbelow]
    exact h.leadsTo (Frame.leadsTo_past hrest)
  | puts hg hloaded hframe hbelow =>
    rw [hframe, hbelow]
    exact List.forall_mem_cons.2 ⟨⟨_, [], Frame.stands_ofText hloaded⟩, h.leadsTo hg⟩
  | takes hbelow =>
    rw [hbelow] at h
    exact (List.forall_mem_cons.1 h).2

/-- At every point of the life of a lexer, every text under reading stands at its place. -/
theorem Reached.stands (h : Reached includes given p) :
    Standing includes given (p.frame :: p.below) := by
  obtain ⟨defines, source, hsource, hp⟩ := h
  induction hp with
  | refl =>
    exact List.forall_mem_singleton.2 ⟨source, [], Frame.stands_ofText (.source hsource)⟩
  | tail _ hnext ih => exact ih.shifts hnext.shifts

/-- A frame above some others is on the stack of a point. -/
def Point.Holds (p : Point) (f : Frame) (below : List Frame) : Prop :=
  f :: below <:+ p.frame :: p.below

/-- A move that does not go below a frame reads it on, if it does anything to it. -/
theorem Shifts.holds (hshifts : Shifts includes given p q) (h : p.Holds f below)
    (hdepth : below.length ≤ q.depth) : ∃ g, f.LeadsTo g ∧ q.Holds g below := by
  rcases List.suffix_cons_iff.1 h with heq | hsuffix
  · obtain ⟨rfl, rfl⟩ := List.cons.inj heq
    -- The frame is the innermost one.
    cases hshifts with
    | on hrest hframe hbelow =>
      refine ⟨_, Frame.leadsTo_past hrest, ?_⟩
      rw [← hframe, Point.Holds, hbelow]
    | puts hg _ _ hbelow =>
      refine ⟨_, hg, ?_⟩
      rw [Point.Holds, hbelow]
      exact List.suffix_cons _ _
    | takes hbelow =>
      rw [hbelow, Point.depth, List.length_cons] at hdepth
      omega
  · -- It lies below the innermost one, and no move changes anything there.
    refine ⟨f, .inl rfl, ?_⟩
    rw [Point.Holds]
    cases hshifts with
    | on _ _ hbelow =>
      rw [hbelow]
      exact hsuffix.trans (List.suffix_cons _ _)
    | puts _ _ _ hbelow =>
      rw [hbelow]
      exact hsuffix.trans ((List.suffix_cons _ _).trans (List.suffix_cons _ _))
    | takes hbelow => rwa [← hbelow]

/-- Some moves lead from one point to another, and the stack is never less than so deep: the text
that lies there stays under reading. -/
def Stays (includes : Includes) (given : List String) (depth : Nat) : Point → Point → Prop :=
  Relation.ReflTransGen fun p q => Next includes given p q ∧ depth ≤ q.depth

/-- A text that stays under reading is read on. -/
theorem Stays.holds (h : Stays includes given below.length p q) (hp : p.Holds f below) :
    ∃ g, f.LeadsTo g ∧ q.Holds g below := by
  induction h with
  | refl => exact ⟨f, .inl rfl, hp⟩
  | tail _ hnext ih =>
    obtain ⟨g, hg, hholds⟩ := ih
    obtain ⟨k, hk, hholds'⟩ := hnext.1.shifts.holds hholds hnext.2
    exact ⟨k, hg.trans hk, hholds'⟩

/-- Where no other text lies above it, it is the innermost one again. -/
theorem Point.Holds.leadsTo (h : p.Holds f below) (hdepth : p.depth = below.length) :
    p.frame = f := by
  have hlength : (f :: below).length = (p.frame :: p.below).length := by
    rw [List.length_cons, List.length_cons, ← hdepth, Point.depth]
  exact (List.cons.inj (h.eq_of_length hlength)).1.symm

/-! ## Tokens -/

/-- A text spells a token where another text stands behind it. -/
inductive Spells (spelling rest : List Char) : Token → Prop
  | lexeme {t : Token} (h : Lexeme.read (spelling ++ rest) = ⟨.token t, spelling, rest⟩) :
      Spells spelling rest t
  | block {body : List Char} {index : Nat} (htext : spelling = '\x7b' :: body ++ ['\x7d'])
      (h : Capture.read .plain 0 (body ++ '\x7d' :: rest) = some (body, rest)) :
      Spells spelling rest (.rawBlock index)

/-- At a point a token is queued: the innermost text goes on with its spelling, the move reads just
that, and the token gets the file and the place of the frame. -/
structure Point.Queues (includes : Includes) (p : Point) (spelling : List Char) (t : PlacedToken)
    (q : Point) : Prop where
  turn : p.turn includes = .on none q
  rest : p.frame.rest = spelling ++ q.frame.rest
  frame : q.frame = p.frame.past spelling q.frame.rest
  below : q.below = p.below
  spells : Spells spelling q.frame.rest t.token
  tokens : q.scan.tokens = p.scan.tokens ++ [t]
  file : t.file = p.frame.file
  line : t.line = p.frame.place.line
  col : t.col = p.frame.place.col

theorem Spells.ne_nil {rest : List Char} {token : Token} (h : Spells spelling rest token) :
    spelling ≠ [] := by
  cases h with
  | lexeme hread =>
    have hne := @Lexeme.used_ne_nil (spelling ++ rest) (by simp [hread])
    rwa [hread] at hne
  | block htext =>
    rw [htext]
    exact List.cons_ne_nil _ _

/-- A move queues one token or none. -/
theorem Point.recent_of_turn {entered? : Option String} (h : p.turn includes = .on entered? q) :
    q.scan.recent = p.scan.recent ∨ ∃ spelling t, p.Queues includes spelling t q := by
  cases Point.goes_of_turn h with
  | enters | leaves => exact .inl rfl
  | @uses used rest m hrest hoccurs =>
    have hturn : p.turn includes = .on none
        ⟨p.frame.past used rest, p.below, m.apply p.frame p.scan⟩ := by
      simp only [Point.turn, step_of_occurs hrest hoccurs]
    -- Only lexemes and blocks queue a token, which is spelled by what the move uses.
    cases hoccurs with
    | lineBreak | blank | obeyed | skipped => exact .inl rfl
    | @lexeme c cs rest t? _ _ _ hread =>
      cases t? with
      | none => exact .inl rfl
      | some t =>
        have hspells : Spells (c :: cs) rest t := .lexeme hread
        exact .inr ⟨_, ⟨_, _, _, t⟩, hturn, hrest, rfl, rfl, hspells, tokens_of_recent rfl, rfl,
          rfl, rfl⟩
    | @block kind body rest _ _ hread =>
      have hspells : Spells ('\x7b' :: body ++ ['\x7d']) rest
          (.rawBlock (p.scan.journal.nextIndex kind)) := .block rfl hread
      exact .inr ⟨_, ⟨_, _, _, _⟩, hturn, hrest, rfl, rfl, hspells, tokens_of_recent rfl, rfl, rfl,
        rfl⟩

theorem Point.Rests.recent (h : p.Rests includes frames s) : s.recent = p.scan.recent := by
  cases h with
  | ended => rfl
  | stopped h =>
    obtain ⟨cause, f, s, hfails, rfl⟩ := Point.fails_of_turn h
    exact hfails.unmoved.recent

theorem Next.recent (h : Next includes given p q) :
    q.scan.recent = p.scan.recent ∨ ∃ spelling t, p.Queues includes spelling t q := by
  cases h with
  | turn hturn => exact Point.recent_of_turn hturn
  | source hrests => exact .inl hrests.recent

/-- Behind some tokens a token was queued on the way to a point. -/
def QueuedAfter (includes : Includes) (given : List String) (done : List PlacedToken)
    (t : PlacedToken) (p : Point) : Prop :=
  ∃ o o' spelling, Reached includes given o ∧ o.scan.tokens = done ∧
    o.Queues includes spelling t o' ∧ Reaches includes given o' p

/-- All tokens were queued one after another. -/
theorem Reached.queued (h : Reached includes given p) {done more : List PlacedToken}
    (htokens : p.scan.tokens = done ++ t :: more) : QueuedAfter includes given done t p := by
  obtain ⟨defines, source, hsource, hp⟩ := h
  induction hp generalizing more with
  | refl => cases done <;> cases htokens
  | @tail p q hp hnext ih =>
    have hreached : Reached includes given p := ⟨defines, source, hsource, hp⟩
    have hearlier : ∀ {more}, p.scan.tokens = done ++ t :: more →
        QueuedAfter includes given done t q := by
      intro more hmore
      obtain ⟨o, o', spelling, ho, hdone, hqueues, hreaches⟩ := ih hmore
      exact ⟨o, o', spelling, ho, hdone, hqueues, hreaches.tail hnext⟩
    rcases hnext.recent with hrecent | ⟨spelling, t', hqueues⟩
    · refine @hearlier more ?_
      rw [← htokens, Scan.tokens, Scan.tokens, hrecent]
    · rw [hqueues.tokens] at htokens
      -- The token is the last one, or one of those before.
      rcases List.eq_nil_or_concat more with rfl | ⟨init, last, rfl⟩
      · obtain ⟨hdone, ht⟩ := List.append_inj' htokens rfl
        obtain rfl := List.singleton_inj.1 ht
        exact ⟨p, q, spelling, hreached, hdone, hqueues, .refl⟩
      · rw [List.concat_eq_append, ← List.cons_append, ← List.append_assoc] at htokens
        exact hearlier (List.append_inj' htokens rfl).1

/-- Of two tokens from one text under reading, the later one starts behind the earlier one. -/
theorem Point.Queues.offset_lt {o o' : Point} {t' : PlacedToken} {spelling' : List Char}
    (h : p.Queues includes spelling t q) (hstays : Stays includes given p.depth q o)
    (hdepth : o.depth = p.depth) (h' : o.Queues includes spelling' t' o') :
    t'.file = t.file ∧ p.frame.place.offset < o.frame.place.offset := by
  -- The earlier token leaves its frame behind its spelling, and from there it is only read on.
  have hholds : q.Holds q.frame p.below := by
    rw [Point.Holds, h.below]
  obtain ⟨g, hg, hheld⟩ := Stays.holds hstays hholds
  have hframe : o.frame = g := hheld.leadsTo hdepth
  have hlead : q.frame.LeadsTo o.frame := hframe ▸ hg
  constructor
  · rw [h'.file, h.file, hlead.file, h.frame]
    rfl
  · refine lt_of_lt_of_le ?_ hlead.offset_le
    rw [h.frame]
    exact Frame.offset_lt_past p.frame h.spells.ne_nil

/-! ## Faults -/

/-- A text begins with what a fault is about: a string without an end, a comment without one, a
block without one, a number that is none, a character that starts nothing, or a directive. -/
inductive Begins : Cause → List Char → Prop
  | string {cs : List Char} (h : (Quoted.read cs).value = none) :
      Begins .unterminatedString ('"' :: cs)
  | comment {cs : List Char} (h : Text.comment? cs = none) :
      Begins .unterminatedComment ('/' :: '*' :: cs)
  | block {cs : List Char} (h : Capture.read .plain 0 cs = none) :
      Begins .unterminatedCodeBlock ('\x7b' :: cs)
  | number {c : Char} {cs : List Char} (hstart : (c.isDigit || c == '-' || c == '.') = true)
      (h : Token.ofNumber? (c :: cs.takeWhile isNumberChar) = none) :
      Begins (.unidentifiedToken (String.ofList (c :: cs.takeWhile isNumberChar))) (c :: cs)
  | character {c : Char} {cs : List Char} :
      Begins (.unidentifiedToken (String.singleton (Lexeme.leadByte c))) (c :: cs)
  | directive {cause : Cause} {cs : List Char} (h : cause.OfDirective) : Begins cause ('#' :: cs)

theorem begins_of_plain {cause : Cause} {c : Char} {cs : List Char}
    (h : (Lexeme.plain c cs).reading = .fault cause) : Begins cause (c :: cs) := by
  unfold Lexeme.plain at h
  split at h
  · cases h
  · split at h
    · next hstart =>
      unfold Lexeme.number at h
      simp only at h
      split at h
      · cases h
      · next hnumber =>
        cases h
        exact .number hstart hnumber
    · split at h
      · cases h
      · cases h
        exact .character

theorem begins_of_read {cause : Cause} {cs : List Char} (hne : cs ≠ [])
    (h : (Lexeme.read cs).reading = .fault cause) : Begins cause cs := by
  fun_cases Lexeme.read cs with
  | case1 => exact absurd rfl hne
  | case2 => cases h
  | case3 cs =>
    simp only [Lexeme.read, Lexeme.blockComment] at h
    split at h
    · cases h
    · next hcomment =>
      cases h
      exact .comment hcomment
  | case4 cs =>
    simp only [Lexeme.read, Lexeme.string] at h
    split at h
    · cases h
    · next hvalue =>
      cases h
      exact .string hvalue
  | case5 c cs hline hblock hquote =>
    -- Neither a comment nor a string starts here.
    have hread : Lexeme.read (c :: cs) = Lexeme.plain c cs := by
      rw [Lexeme.read] <;> assumption
    rw [hread] at h
    exact begins_of_plain h

/-- A fault is about what the text begins with. -/
theorem Fails.begins {cause : Cause} {f' : Frame} (h : Fails f s cause f' s') :
    Begins cause f.rest := by
  cases h with
  | directive hrest hrefusal =>
    rw [hrest]
    exact .directive hrefusal.cause
  | lexeme hne hreading => exact begins_of_read hne hreading
  | block hrest hread =>
    rw [hrest]
    exact .block hread

/-- A reading stops at a point, with a fault about what the innermost text goes on with, and with
the file and the place of its frame. -/
structure Point.Blamed (includes : Includes) (p : Point) (failure : Failure) : Prop where
  turn : p.turn includes = .stopped failure
  begins : Begins failure.fault.cause p.frame.rest
  file : failure.fault.file = p.frame.file
  line : failure.fault.line = p.frame.place.line
  col : failure.fault.col = p.frame.place.col

theorem Point.blamed_of_turn {failure : Failure} (h : p.turn includes = .stopped failure) :
    p.Blamed includes failure := by
  obtain ⟨cause, f, s, hfails, rfl⟩ := Point.fails_of_turn h
  exact ⟨h, hfails.begins, rfl, rfl, rfl⟩

/-- Where a reading comes to rest, all frames stand. -/
theorem Standing.rests (h : Standing includes given (p.frame :: p.below))
    (hrests : p.Rests includes frames s) : Standing includes given frames := by
  obtain ⟨g, hg, rfl⟩ := hrests.exists_frames
  exact h.leadsTo hg

/-! ## Positions -/

/-- Positions are exact at every point that a lexer gets to while it reads a source, whatever calls
it had before. From the start of a text, each number of bytes leads to the place behind them. Every
text under reading is passed so, up to its place. Every token was queued where its spelling starts,
with the file and the place of the frame. Of two tokens from one text under reading the later one
starts behind the earlier one. Where the reading fails, its frames stand as well, and apart from an
open conditional, which is met at the end, the fault has the file and the place of a frame that goes
on with what the fault is about. -/
theorem positions_exact {calls : List Call} {source : String}
    (h : Leads includes (Point.startAbove (afterCalls includes calls).1
      (afterCalls includes calls).2 source) p) :
    (∀ file text k, (Frame.advance^[k] (Frame.ofText file text)).place =
      Place.behind ((Text.bytes text.toList).take k)) ∧
    Standing includes (sources calls ++ [source]) (p.frame :: p.below) ∧
    (∀ done t more, p.scan.tokens = done ++ t :: more →
      ∃ (o o' : Point) (spelling : List Char) (text : String) (before : List Char),
        o.frame.Stands includes (sources calls ++ [source]) text before ∧
        o.Queues includes spelling t o' ∧ o.scan.tokens = done ∧
        Reached includes (sources calls ++ [source]) o ∧
        Reaches includes (sources calls ++ [source]) o' p) ∧
    (∀ (o o' r r' : Point) (spelling spelling' : List Char) (t t' : PlacedToken),
      o.Queues includes spelling t o' → r.Queues includes spelling' t' r' →
      Stays includes (sources calls ++ [source]) o.depth o' r → r.depth = o.depth →
      t'.file = t.file ∧ o.frame.place.offset < r.frame.place.offset) ∧
    (∀ failure, (afterCalls includes calls).2.process includes source
        (afterCalls includes calls).1 = .error failure →
      Standing includes (sources calls ++ [source]) failure.frames ∧
      (failure.fault.cause = .unterminatedConditional ∨
        ∃ (o : Point) (text : String) (before : List Char),
          o.frame.Stands includes (sources calls ++ [source]) text before ∧
          o.Blamed includes failure ∧ Reached includes (sources calls ++ [source]) o)) := by
  -- The calls leave texts that stand and tokens that are queued, so that every point of the reading
  -- behind them is reached.
  have hkeeps : Keeps includes (sources calls ++ [source]) (afterCalls includes calls).1
      (afterCalls includes calls).2 :=
    keeps_afterCalls fun earlier hearlier => List.mem_append_left _ hearlier
  have hstart := hkeeps.reached (List.mem_append_right _ List.mem_cons_self)
  have hp : Reached includes (sources calls ++ [source]) p := hstart.reaches (.of_leads h)
  refine ⟨Frame.place_advance_ofText, hp.stands, fun done t more htokens => ?_,
    fun o o' r r' spelling spelling' t t' ho hr hstays hdepth => ho.offset_lt hstays hdepth hr,
    fun failure hfailure => ?_⟩
  · obtain ⟨o, o', spelling, ho, hdone, hqueues, hreaches⟩ := hp.queued htokens
    obtain ⟨text, before, hstands⟩ := ho.stands o.frame List.mem_cons_self
    exact ⟨o, o', spelling, text, before, hstands, hqueues, hdone, ho, hreaches⟩
  · -- The fault is that of the last point of the reading.
    obtain ⟨last, hends, hleads⟩ := exists_leads_ends_above includes (afterCalls includes calls).1
      (afterCalls includes calls).2 source
    have hlast := hstart.reaches (.of_leads hleads)
    have hstanding := hlast.stands.rests hends.rests
    rw [hfailure] at hends hstanding
    refine ⟨hstanding, ?_⟩
    cases hends with
    | unclosed => exact .inl rfl
    | stopped hstopped =>
      obtain ⟨text, before, hstands⟩ := hlast.stands last.frame List.mem_cons_self
      exact .inr ⟨last, text, before, hstands, Point.blamed_of_turn hstopped, hlast⟩

/-- A file with a character of two bytes is read above a source that starts a string in vain. -/
theorem positions_exact_included :
    ∃ p, Leads (fun _ => some "/*é*/x") (Point.startAbove
        (afterCalls (fun _ => some "/*é*/x") [.read "\""]).1
        (afterCalls (fun _ => some "/*é*/x") [.read "\""]).2 "#include <a>") p ∧
      Standing (fun _ => some "/*é*/x") ["\"", "#include <a>"] (p.frame :: p.below) ∧
      p.below.length = 2 ∧
      ∃ (o o' : Point) (spelling : List Char),
        o.Queues (fun _ => some "/*é*/x") spelling ⟨some "a", 1, 7, .identifier "x"⟩ o' ∧
        Reaches (fun _ => some "/*é*/x") ["\"", "#include <a>"] o' p := by
  have hrun : ((Point.startAbove (afterCalls (fun _ => some "/*é*/x") [.read "\""]).1
      (afterCalls (fun _ => some "/*é*/x") [.read "\""]).2 "#include <a>").turns?
        (fun _ => some "/*é*/x") 3).any (fun p => p.below.length == 2 &&
          p.scan.tokens == [⟨some "a", 1, 7, .identifier "x"⟩]) = true := by
    decide +kernel
  obtain ⟨p, hp, hexpected⟩ := (Option.any_eq_true _ _).1 hrun
  rw [Bool.and_eq_true, beq_iff_eq, beq_iff_eq] at hexpected
  have hleads := leads_of_turns? hp
  obtain ⟨-, hstanding, hqueued, -⟩ := positions_exact hleads
  obtain ⟨o, o', spelling, -, -, -, hqueues, -, -, hreaches⟩ := hqueued [] _ [] hexpected.2
  exact ⟨p, hleads, hstanding, hexpected.1, o, o', spelling, hqueues, hreaches⟩

end Scan
end ShaderLang
