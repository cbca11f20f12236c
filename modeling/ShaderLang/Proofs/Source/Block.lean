import Mathlib.Data.List.Induction
import ShaderLang.Proofs.Source.Captured
import ShaderLang.Proofs.Source.Place
import ShaderLang.Proofs.Source.Zone
/-!
# Blocks are captured verbatim

A brace that opens a captured block is read together with all that stands in front of the matching
brace. The text between the two goes into a block as it is, behind the defines of the place, and
reading goes on behind the matching brace. Where there is no such brace, reading fails at the one
that opens the block.

## Main definitions

* `Scan.Point.Opens` — a brace opens a captured block at a point of a reading
* `Scan.Point.Takes` — a block is taken in between two points

## Main results

* `Place.col_pastAll` — the column behind a text
* `Scan.Leads.blocks_prefix` — blocks stay as they are
* `Scan.captured_verbatim` — blocks are captured up to the matching brace, or reading fails
-/

namespace ShaderLang

/-! ## Places behind a text -/

namespace Place

/-- The last line of a text, from its end back to the line break in front of it. -/
def lastLine (cs : List Char) : List Char := cs.reverse.takeWhile (· != '\n')

theorem lastLine_append_singleton {c : Char} (h : c ≠ '\n') (cs : List Char) :
    lastLine (cs ++ [c]) = c :: lastLine cs := by
  simp [lastLine, h]

/-- Columns start anew behind a line break. -/
theorem col_pastAll (p : Place) (cs : List Char) :
    (p.pastAll cs).col = (if '\n' ∈ cs then 1 else p.col) + Text.byteSize (lastLine cs) := by
  induction cs using List.reverseRecOn with
  | nil => rfl
  | append_singleton cs c ih =>
    have hpast : p.pastAll (cs ++ [c]) = (p.pastAll cs).past c := pastAll_append p cs [c]
    rw [hpast, past]
    by_cases hc : c = '\n'
    · simp [hc, lastLine, Text.byteSize]
    · have hmem : '\n' ∈ cs ++ [c] ↔ '\n' ∈ cs := by simp [Ne.symm hc]
      rw [if_neg hc, lastLine_append_singleton hc, Text.byteSize, ih, if_congr hmem rfl rfl]
      ac_rfl

end Place

namespace Scan

/-! ## Blocks stay as they are -/

variable {includes : Includes} {p q r : Point} {kind : BlockKind} {text body rest : List Char}

theorem Point.blocks_prefix_of_turn {entered? : Option String}
    (h : p.turn includes = .on entered? q) :
    p.scan.journal.blocks <+: q.scan.journal.blocks := by
  cases proceeds_of_turn h with
  | @uses used rest m _ hoccurs =>
    by_cases hblock : ∃ kind body, m = .block kind body
    · obtain ⟨kind, body, rfl⟩ := hblock
      have hblocks := Journal.blocks_appendBlock_beginBlock p.scan.journal kind (String.ofList body)
      exact hblocks ▸ List.prefix_append _ _
    · have hplain := plain_apply (f := p.frame) hoccurs fun kind body hm => hblock ⟨kind, body, hm⟩
      exact hplain.blocks ▸ List.prefix_refl _
  | enters | leaves => exact List.prefix_refl _

/-- Blocks stay as they are, and further ones come behind them. -/
theorem Leads.blocks_prefix (h : Leads includes p q) :
    p.scan.journal.blocks <+: q.scan.journal.blocks := by
  obtain ⟨n, names, hrun⟩ := h
  induction hrun with
  | stay => exact List.prefix_refl _
  | on hturn _ ih => exact (Point.blocks_prefix_of_turn hturn).trans ih

/-! ## Captured blocks -/

/-- A brace opens a captured block of a kind, in front of a text. -/
structure Point.Opens (p : Point) (kind : BlockKind) (text : List Char) : Prop where
  enabled : p.scan.journal.isEnabled = true
  kind : p.scan.blockKind? = some kind
  brace : p.frame.rest = '\x7b' :: text

/-- Between two points the text between two braces is taken in as it is, behind the defines of the
place, and reading goes on behind the second brace. -/
structure Point.Takes (p : Point) (kind : BlockKind) (body rest : List Char) (q : Point) :
    Prop where
  file : q.frame.file = p.frame.file
  rest : q.frame.rest = rest
  line : q.frame.place.line = p.frame.place.line + body.count '\n'
  col : q.frame.place.col =
    (if '\n' ∈ body then 1 else p.frame.place.col + 1) + Text.byteSize (Place.lastLine body) + 1
  below : q.below = p.below
  blocks : q.scan.journal.blocks = p.scan.journal.blocks ++
    [⟨kind, p.scan.journal.nextIndex kind, p.scan.journal.defines.lines ++ String.ofList body⟩]

theorem Point.takes_block (p : Point) (kind : BlockKind) (body rest : List Char) :
    p.Takes kind body rest ⟨p.frame.past ('\x7b' :: body ++ ['\x7d']) rest, p.below,
      (Move.block kind body).apply p.frame p.scan⟩ where
  file := rfl
  rest := rfl
  line := by simp [Frame.past, Place.line_pastAll]
  col := by
    have hopen : p.frame.place.past '\x7b' = { p.frame.place with
        offset := p.frame.place.offset + 1, col := p.frame.place.col + 1 } := rfl
    have hplace : p.frame.place.pastAll ('\x7b' :: body ++ ['\x7d']) =
        ((p.frame.place.past '\x7b').pastAll body).past '\x7d' :=
      Place.pastAll_append _ ('\x7b' :: body) ['\x7d']
    have hclose : ∀ place : Place, (place.past '\x7d').col = place.col + 1 := fun _ => rfl
    simp only [Frame.past, hplace, hclose, Place.col_pastAll, hopen]
  below := rfl
  blocks := Journal.blocks_appendBlock_beginBlock ..

theorem Point.Opens.turn_of_closing (includes : Includes) (hopens : p.Opens kind text)
    (h : Zone.code.Closing 0 text body rest) :
    p.turn includes = .on none ⟨p.frame.past ('\x7b' :: body ++ ['\x7d']) rest, p.below,
      (Move.block kind body).apply p.frame p.scan⟩ := by
  have hread : Capture.read .plain 0 (body ++ '\x7d' :: rest) = some (body, rest) := by
    rw [Capture.read_eq_close?, ← h.text_eq]
    exact Zone.close?_eq_some_iff.2 h
  have hrest : p.frame.rest = ('\x7b' :: body ++ ['\x7d']) ++ rest := by
    simp [hopens.brace, h.text_eq]
  have hoccurs : Occurs includes p.depth p.scan ('\x7b' :: body ++ ['\x7d']) rest
      (.block kind body) := .block hopens.enabled hopens.kind hread
  simp only [Point.turn, step_of_occurs hrest hoccurs]

theorem Point.Opens.turn_of_not_closing (includes : Includes) (hopens : p.Opens kind text)
    (h : ∀ body rest, ¬ Zone.code.Closing 0 text body rest) :
    ∃ failure, p.turn includes = .stopped failure ∧
      failure.fault = ⟨p.frame.file, p.frame.place.line, p.frame.place.col,
        .unterminatedCodeBlock⟩ := by
  have hread : Capture.read .plain 0 text = none := by
    rw [Option.eq_none_iff_forall_ne_some]
    rintro ⟨body, rest⟩ hsome
    rw [Capture.read_eq_close?] at hsome
    exact h body rest (Zone.close?_eq_some_iff.1 hsome)
  have hkind : blockKind? { p.scan with atLineStart := false } = some kind := hopens.kind
  have hstep : step includes p.depth p.frame p.scan =
      capture kind p.frame { p.scan with atLineStart := false } text := by
    rw [step_of_startsText hopens.brace (startsText_brace _), if_pos hopens.enabled, piece,
      if_pos rfl, hkind]
  simp only [Point.turn, hstep, capture, hread]
  exact ⟨_, rfl, rfl⟩

/-- Where a brace opens a captured block, all up to the matching brace is taken in: the block gets
exactly the text between the two, which it keeps whatever is read later, and reading goes on behind
the matching brace, at its place. If there is no matching brace, reading fails at the brace that
opens the block. -/
theorem captured_verbatim (includes : Includes) (hopens : p.Opens kind text) :
    (∀ body rest, Zone.code.Closing 0 text body rest →
      ∃ q, p.turn includes = .on none q ∧ p.Takes kind body rest q ∧
        ∀ frames s source frames' t, Leads includes (Point.startAbove frames s source) p →
          s.process includes source frames = .ok (frames', t) →
            q.scan.journal.blocks <+: t.journal.blocks) ∧
    ((∀ body rest, ¬ Zone.code.Closing 0 text body rest) →
      ∀ frames s source, Leads includes (Point.startAbove frames s source) p →
        ∃ failure, s.process includes source frames = .error failure ∧
          failure.fault = ⟨p.frame.file, p.frame.place.line, p.frame.place.col,
            .unterminatedCodeBlock⟩) := by
  refine ⟨fun body rest hclosing => ?_, fun hnot frames s source hleads => ?_⟩
  · have hturn := hopens.turn_of_closing includes hclosing
    refine ⟨_, hturn, p.takes_block kind body rest, fun frames s source frames' t hleads hok => ?_⟩
    obtain ⟨last, hends, hlast⟩ := exists_leads_ends_above includes frames s source
    have hlater := (hleads.trans ((Leads.refl _).after hturn)).to_last hlast hends.not_on
    rw [hok] at hends
    cases hends with
    | read => exact hlater.blocks_prefix
  · obtain ⟨failure, hstop, hfault⟩ := hopens.turn_of_not_closing includes hnot
    exact ⟨failure, process_eq_error_of_stopped hleads hstop, hfault⟩

/-- The point behind the word `code` at the start of a source, in front of a brace and a text. -/
def Point.behindCode (text : String) : Point :=
  ⟨⟨none, ⟨4, 1, 5⟩, '\x7b' :: text.toList, 0⟩, [],
    { fresh [] with recent := [⟨none, 1, 1, .keyword .code⟩], atLineStart := false }⟩

/-- Closing braces in a string, in comments and behind another brace. And one that stands in a
string only, so that none closes the block. -/
theorem captured_verbatim_quoted :
    (∃ q, (Point.behindCode "\"\\\"\x7d\"/*\x7d*/\x7bé\x7d//\x7d\né\x7d;").turn (fun _ => none) =
        .on none q ∧
      q.frame.rest = [';'] ∧ q.frame.place.line = 2 ∧ q.frame.place.col = 4 ∧
      q.scan.journal.blocks =
        [⟨.code, 0, "\"\\\"\x7d\"/*\x7d*/\x7bé\x7d//\x7d\né"⟩]) ∧
    ∃ failure, (fresh []).process (fun _ => none) "code\x7b\"\x7d\"" [] = .error failure ∧
      failure.fault = ⟨none, 1, 5, .unterminatedCodeBlock⟩ := by
  have hopens (text : String) : (Point.behindCode text).Opens .code text.toList := ⟨rfl, rfl, rfl⟩
  constructor
  · have hclosing : Zone.code.Closing 0 "\"\\\"\x7d\"/*\x7d*/\x7bé\x7d//\x7d\né\x7d;".toList
        "\"\\\"\x7d\"/*\x7d*/\x7bé\x7d//\x7d\né".toList [';'] :=
      Zone.close?_eq_some_iff.1 (by decide)
    obtain ⟨q, hturn, htakes, -⟩ := (captured_verbatim (fun _ => none) (hopens _)).1 _ _ hclosing
    exact ⟨q, hturn, htakes.rest, htakes.line, htakes.col, htakes.blocks⟩
  · have hnone : Zone.code.close? 0 "\"\x7d\"".toList = none := by decide
    have hleads : Leads (fun _ => none) (Point.startAbove [] (fresh []) "code\x7b\"\x7d\"")
        (Point.behindCode "\"\x7d\"") := ⟨1, _, .on (by rfl) .stay⟩
    refine (captured_verbatim (fun _ => none) (hopens _)).2 (fun body rest hclosing => ?_)
      [] (fresh []) _ hleads
    rw [Zone.close?_eq_some_iff.2 hclosing] at hnone
    cases hnone

end Scan
end ShaderLang
