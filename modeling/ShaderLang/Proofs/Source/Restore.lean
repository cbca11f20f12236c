import ShaderLang.Proofs.Source.Captured
import ShaderLang.Proofs.Source.Edit
import ShaderLang.Proofs.Text.Trim
/-!
# Defines that are read back

The text of a captured block starts with lines that define the names of its place again. What a
reading can bring into the defines stands on one line, in front of its comment and without outer
blanks; so each of these lines is read as the name and the expression that it was written for, and
all of them together bring back the defines as they were, in the same order.

## Main definitions

* `Define.Writable` — a define that a line can be written for

## Main results

* `Scan.Edits.sound`, `Scan.Between.sound` — whatever is read, all changes are sound
* `Defines.writable_after` — sound changes leave writable defines
* `Define.Writable.obey_line`, `Scan.process_lines` — lines for writable defines are read back
* `Scan.captured_defines_restored` — the lines in front of a captured text bring back the defines
-/

namespace ShaderLang

/-! ## What a reading brings into the defines -/

namespace Text

variable {cs ds : List Char}

theorem Inline.of_isInfix (h : Inline cs) (hpiece : ds <:+: cs) : Inline ds :=
  ⟨fun hmem => h.line (hpiece.subset hmem), fun hcomment => h.comment (hcomment.trans hpiece)⟩

end Text

namespace Directive

theorem uncommented_isPrefix (cs : List Char) : uncommented cs <+: cs := by
  fun_induction uncommented cs with
  | case1 => exact List.nil_prefix
  | case2 c cs hnot ih => exact List.cons_prefix_cons.2 ⟨rfl, ih⟩
  | case3 => exact List.nil_prefix

theorem not_comment_uncommented (cs : List Char) : ¬ ['/', '/'] <:+: uncommented cs := by
  fun_induction uncommented cs with
  | case1 => simp
  | case2 c cs hnot ih =>
    intro hpiece
    rcases List.infix_cons_iff.1 hpiece with hstart | hlater
    · -- The second slash would have been that of the text itself.
      obtain ⟨rfl, hsecond⟩ := List.cons_prefix_cons.1 hstart
      obtain ⟨rest, hrest⟩ := hsecond.trans (uncommented_isPrefix cs)
      exact hnot rest rfl hrest.symm
    · exact ih hlater
  | case3 => simp

theorem inline_uncommented {line : List Char} (h : '\n' ∉ line) :
    Text.Inline (uncommented line) :=
  ⟨fun hmem => h ((uncommented_isPrefix line).subset hmem), not_comment_uncommented line⟩

/-- The changes that a line can ask for are sound. -/
theorem sound_of_edit? {text : List Char} {op : Operation} (htext : Text.Inline text)
    (h : edit? text = some op) : op.Sound := by
  unfold edit? at h
  simp only at h
  split at h
  · split at h <;> cases h
    next hname =>
    refine ⟨by rwa [String.toList_ofList], fun e he => ?_⟩
    cases he
    rw [String.toList_ofList]
    have hrest := (Text.splitWord_isInfix text).2
    exact htext.of_isInfix ((Text.splitWord_isInfix _).2.trans hrest)
  · split at h <;> cases h
    trivial
  · cases h

end Directive

namespace Scan

variable {includes : Includes} {p q : Point} {ops more : List Operation}

theorem Point.sound_of_edit? {op : Operation} (h : p.edit? = some op) : op.Sound := by
  unfold edit? at h
  split at h
  · next cs hrest =>
    split at h
    · refine Directive.sound_of_edit? ?_ h
      exact (Directive.inline_uncommented (not_mem_line cs)).of_isInfix (Text.trim_isInfix _)
    · cases h
  · cases h

theorem Edits.sound (h : Edits includes p ops q) : ∀ op ∈ ops, op.Sound := by
  induction h with
  | stay => exact nofun
  | on _ _ ih =>
    refine List.forall_mem_append.2 ⟨fun op hop => ?_, ih⟩
    exact Point.sound_of_edit? (Option.mem_toList.1 hop)

theorem Between.sound {frames : List Frame} {j : Journal} (h : Between includes ops frames j) :
    ∀ op ∈ ops, op.Sound := by
  induction h with
  | fresh => exact nofun
  | given _ hsound ih => exact List.forall_mem_append.2 ⟨ih, List.forall_mem_singleton.2 hsound⟩
  | read _ hrun _ ih => exact List.forall_mem_append.2 ⟨ih, hrun.sound⟩

end Scan

/-! ## Defines that can be written on lines -/

/-- A define that a line can be written for: its name is one, and its expression is a piece of a
line without outer blanks. -/
structure Define.Writable (d : Define) : Prop where
  name : Text.isName d.name.toList = true
  expr : ∀ e, d.expr = some e → e ≠ "" ∧ Text.trim e.toList = e.toList ∧ Text.Inline e.toList

namespace Defines

variable {name : String} {expr : Option String} {ds : Defines} {ops : List Operation}

theorem writable_normal (h : (Operation.define name expr).Sound) :
    Define.Writable ⟨name, normal expr⟩ := by
  refine ⟨h.1, fun e he => ?_⟩
  obtain ⟨hsome, hne⟩ := Option.filter_eq_some_iff.1 he
  obtain ⟨given, hgiven, rfl⟩ := Option.map_eq_some_iff.1 hsome
  have htrim : (Text.trimmed given).toList = Text.trim given.toList := String.toList_ofList
  rw [htrim]
  refine ⟨?_, Text.trim_trim _, (h.2 given hgiven).of_isInfix (Text.trim_isInfix _)⟩
  intro hempty
  simp [hempty] at hne

theorem writable_operate {op : Operation} (hop : op.Sound) (h : ∀ d ∈ ds, d.Writable) :
    ∀ d ∈ ds.operate op, d.Writable := by
  cases op with
  | define name expr =>
    have hnew := writable_normal hop
    intro d hd
    simp only [operate, define] at hd
    split at hd
    · -- The define of the name is replaced by the new one, and the others stay.
      obtain ⟨e, he, rfl⟩ := List.mem_map.1 hd
      split
      · next hname => rw [hname]; exact hnew
      · exact h e he
    · rcases List.mem_append.1 hd with hd | hd
      · exact h d hd
      · rw [List.mem_singleton.1 hd]
        exact hnew
  | undefine name => exact fun d hd => h d (List.mem_of_mem_filter hd)
  | _ => exact h

theorem writable_after (h : ∀ op ∈ ops, op.Sound) : ∀ d ∈ after ops, d.Writable := by
  induction ops using List.reverseRecOn with
  | nil => exact nofun
  | append_singleton ops op ih =>
    obtain ⟨hops, hop⟩ := List.forall_mem_append.1 h
    rw [after, List.foldl_append]
    exact writable_operate (hop op (List.mem_singleton_self op)) (ih hops)

end Defines

/-! ## Lines are read back -/

namespace Directive

theorem uncommented_eq_self {cs : List Char} (h : ¬ ['/', '/'] <:+: cs) : uncommented cs = cs := by
  fun_induction uncommented cs with
  | case1 cs => exact absurd (List.prefix_append ['/', '/'] cs).isInfix h
  | case2 c cs _ ih => rw [ih fun hpiece => h (hpiece.trans (List.suffix_cons c cs).isInfix)]
  | case3 => rfl

end Directive

theorem Text.Inline.append {cs ds : List Char} (h : Inline ds) (hbreak : '\n' ∉ cs)
    (hslash : '/' ∉ cs) : Inline (cs ++ ds) := by
  refine ⟨fun hmem => (List.mem_append.1 hmem).elim hbreak h.line, ?_⟩
  induction cs with
  | nil => exact h.comment
  | cons c cs ih =>
    obtain ⟨-, hbreak⟩ := not_or.1 (mt List.mem_cons.2 hbreak)
    obtain ⟨hc, hslash⟩ := not_or.1 (mt List.mem_cons.2 hslash)
    intro hpiece
    rcases List.infix_cons_iff.1 hpiece with hstart | hlater
    · exact hc (List.cons_prefix_cons.1 hstart).1
    · exact ih hbreak hslash hlater

namespace Define

/-- What the line of a define says behind the directive. -/
def text (d : Define) : List Char :=
  d.name.toList ++ (d.expr.elim [] fun e => ' ' :: e.toList)

/-- The line of a define, behind its number sign. -/
def line (d : Define) : List Char := "define".toList ++ ' ' :: d.text

theorem line_eq (d : Define) : d.line = "define".toList ++ ' ' :: d.text := rfl

variable {d : Define}

theorem Writable.isNameChar (h : d.Writable) : ∀ c ∈ d.name.toList, Text.isNameChar c = true := by
  have hname := h.name
  cases hcs : d.name.toList with
  | nil => exact nofun
  | cons c cs =>
    rw [hcs, Text.isName, Bool.and_eq_true, List.all_eq_true] at hname
    exact List.forall_mem_cons.2 ⟨Text.isNameChar_of_isNameStart hname.1, hname.2⟩

theorem Writable.isBlank (h : d.Writable) : ∀ c ∈ d.name.toList, Text.isBlank c = false :=
  fun c hc => Text.isBlank_of_isNameChar (h.isNameChar c hc)

theorem Writable.name_ne_nil (h : d.Writable) : d.name.toList ≠ [] := by
  intro hnil
  have hname := h.name
  rw [hnil] at hname
  cases hname

/-- Neither a line break nor a slash is part of a name. -/
theorem Writable.not_mem_name (h : d.Writable) {c : Char} (hc : Text.isNameChar c = false) :
    c ∉ d.name.toList := by
  intro hmem
  rw [h.isNameChar c hmem] at hc
  cases hc

theorem Writable.inline_line (h : d.Writable) : Text.Inline d.line := by
  -- Slashes stand in the expression only, where no two meet.
  have htail : Text.Inline (d.expr.elim [] fun e => ' ' :: e.toList) := by
    cases hexpr : d.expr with
    | none => exact ⟨by simp, by simp⟩
    | some e => exact @Text.Inline.append [' '] _ (h.expr e hexpr).2.2 (by decide) (by decide)
  have hname {c : Char} (hc : Text.isNameChar c = false) (hword : c ∉ "define ".toList) :
      c ∉ "define ".toList ++ d.name.toList :=
    fun hmem => (List.mem_append.1 hmem).elim hword (h.not_mem_name hc)
  have hline : d.line =
      ("define ".toList ++ d.name.toList) ++ (d.expr.elim [] fun e => ' ' :: e.toList) := by
    have hword : "define ".toList = "define".toList ++ [' '] := by decide
    simp only [line_eq, text, hword, List.append_assoc, List.cons_append, List.nil_append]
  exact hline ▸ htail.append (hname (by decide) (by decide)) (hname (by decide) (by decide))

theorem Writable.head_text (h : d.Writable) {c : Char} (hc : d.text.head? = some c) :
    Text.isBlank c = false := by
  rw [text, List.head?_append_of_ne_nil _ h.name_ne_nil] at hc
  exact h.isBlank c (List.mem_of_head? hc)

theorem Writable.last_text (h : d.Writable) {c : Char} (hc : d.text.getLast? = some c) :
    Text.isBlank c = false := by
  rw [text] at hc
  cases hexpr : d.expr with
  | none =>
    -- The name stands last.
    rw [hexpr] at hc
    simp only [Option.elim_none, List.append_nil] at hc
    exact h.isBlank c (List.mem_of_getLast? hc)
  | some e =>
    obtain ⟨hne, htrim, -⟩ := h.expr e hexpr
    have hnil : e.toList ≠ [] := fun hnil => hne (String.toList_eq_nil_iff.1 hnil)
    rw [hexpr, Option.elim_some, List.getLast?_append_of_ne_nil _ (List.cons_ne_nil _ _),
      List.getLast?_cons_of_ne_nil hnil, ← htrim] at hc
    exact Text.last_trim hc

theorem Writable.trim_text (h : d.Writable) : Text.trim d.text = d.text :=
  Text.trim_eq_self (fun _ => h.head_text) fun _ => h.last_text

/-- The line of a define has no outer blanks. -/
theorem Writable.trim_line (h : d.Writable) : Text.trim d.line = d.line := by
  refine Text.trim_eq_self (fun c hc => ?_) fun c hc => h.last_text (c := c) ?_
  · have hd : d.line.head? = some 'd' := rfl
    rw [hd] at hc
    cases hc
    decide
  · have hne : d.text ≠ [] := fun hnil => h.name_ne_nil (List.append_eq_nil_iff.1 hnil).1
    rw [line_eq, List.getLast?_append_of_ne_nil _ (List.cons_ne_nil _ _),
      List.getLast?_cons_of_ne_nil hne] at hc
    exact hc

/-- The line splits into the directive and the rest. -/
theorem Writable.splitWord_line (h : d.Writable) :
    Text.splitWord d.line = ("define".toList, d.text) := by
  have hword : ∀ c ∈ "define".toList, Text.isNameChar c = true :=
    List.all_eq_true.1 (by decide)
  have hnot : ∀ c ∈ "define".toList, Text.isBlank c = false :=
    fun c hc => Text.isBlank_of_isNameChar (hword c hc)
  rw [line_eq, Text.splitWord_cons hnot (by decide), Text.trim_cons_of_isBlank (by decide),
    h.trim_text]

/-- The rest splits into the name and the expression. -/
theorem Writable.splitWord_text (h : d.Writable) :
    Text.splitWord d.text = (d.name.toList, d.expr.elim [] String.toList) := by
  rw [text]
  cases hexpr : d.expr with
  | none =>
    rw [Option.elim_none, List.append_nil, Text.splitWord_of_word h.isBlank]
    rfl
  | some e =>
    rw [Option.elim_some, Text.splitWord_cons h.isBlank (by decide),
      Text.trim_cons_of_isBlank (by decide), (h.expr e hexpr).2.1]
    rfl

theorem Writable.normal_expr (h : d.Writable) :
    Defines.normal (some (String.ofList (d.expr.elim [] String.toList))) = d.expr := by
  cases hexpr : d.expr with
  | none => rfl
  | some e =>
    obtain ⟨hne, htrim, -⟩ := h.expr e hexpr
    have htrimmed : Text.trimmed e = e := by rw [Text.trimmed, htrim, String.ofList_toList]
    have hkeep : (!e.isEmpty) = true := by simpa using hne
    rw [Option.elim_some, String.ofList_toList, Defines.normal, Option.map_some, htrimmed]
    exact if_pos hkeep

/-- The line of a define adds it behind the others. -/
theorem Writable.obey_line (h : d.Writable) (includes : Includes) (depth : Nat) {j : Journal}
    (henabled : j.isEnabled = true) (hnew : j.defines.has d.name = false) :
    Directive.obey includes depth j (Text.trim (Directive.uncommented d.line)) =
      .went { j with defines := j.defines ++ [d] } := by
  have hspelling : Directive.ofSpelling? "define" = some .define :=
    Directive.ofSpelling?_spelling .define
  have hdefine : j.defines.define d.name
      (some (String.ofList (d.expr.elim [] String.toList))) = j.defines ++ [d] := by
    rw [Defines.define, hnew, if_neg Bool.false_ne_true, h.normal_expr]
  rw [Directive.uncommented_eq_self h.inline_line.comment, h.trim_line]
  unfold Directive.obey
  simp only [h.splitWord_line, hspelling, henabled, h.splitWord_text, h.name, if_true,
    Bool.not_true, Bool.false_eq_true, if_false, String.ofList_toList, hdefine]

end Define

namespace Defines

theorem toList_lines_cons (d : Define) (ds : Defines) :
    (lines (d :: ds)).toList = '#' :: d.line ++ '\n' :: (lines ds).toList := by
  have hword : "#define ".toList = '#' :: "define".toList ++ [' '] := by decide
  rw [lines, List.map_cons, String.join_cons, String.toList_append]
  cases hexpr : d.expr with
  | none => simp [Define.line_eq, Define.text, hexpr, hword, lines]
  | some e => simp [Define.line_eq, Define.text, hexpr, hword, lines]

end Defines

namespace Scan

variable {includes : Includes} {depth : Nat} {given ds : Defines} {d : Define} {f : Frame}
  {t : Scan}

/-- A line for a writable define with a new name is read back, and what follows it is read on. -/
theorem finishes_of_line (hd : d.Writable) (hnew : given.has d.name = false) {rest : List Char}
    (hrest : f.rest = '#' :: d.line ++ '\n' :: rest)
    (h : ∀ f' : Frame, f'.rest = rest →
      ∃ g, Finishes includes depth f' (fresh (given ++ [d])) g t) :
    ∃ g, Finishes includes depth f (fresh given) g t := by
  have hobey := hd.obey_line includes depth (j := (fresh given).journal) rfl hnew
  have hline : step includes depth f (fresh given) =
      .moved (f.past ('#' :: d.line) ('\n' :: rest)) (fresh (given ++ [d])) :=
    step_of_occurs hrest (.obeyed rfl hd.inline_line.line (atLineEnd_cons_iff.2 rfl) hobey)
  obtain ⟨g, hlater⟩ := h ((f.past ('#' :: d.line) ('\n' :: rest)).past ['\n'] rest) rfl
  exact ⟨g, .moved hline (.moved (step_of_occurs rfl .lineBreak) hlater)⟩

/-- Lines for writable defines are read back, behind others with other names. -/
theorem finishes_lines (hwritable : ∀ d ∈ ds, d.Writable)
    (hnodup : ((given ++ ds).map Define.name).Nodup) (hrest : f.rest = ds.lines.toList) :
    ∃ g, Finishes includes depth f (fresh given) g (fresh (given ++ ds)) := by
  -- What has been read back stands in front of what is still to be read.
  induction ds generalizing given f with
  | nil =>
    rw [List.append_nil]
    exact ⟨f, .done hrest⟩
  | cons d ds ih =>
    obtain ⟨hd, hds⟩ := List.forall_mem_cons.1 hwritable
    have hnew : given.has d.name = false := by
      rw [List.map_append, List.map_cons] at hnodup
      rw [Bool.eq_false_iff, ne_eq, Defines.has_iff_mem]
      exact fun hmem => List.disjoint_of_nodup_append hnodup hmem List.mem_cons_self
    rw [Defines.toList_lines_cons] at hrest
    refine finishes_of_line hd hnew hrest fun f' hf' => ?_
    have hlater := @ih (given ++ [d]) f' hds (by simpa using hnodup) hf'
    rwa [List.append_assoc, List.singleton_append] at hlater

/-- The lines of writable defines, read alone, bring them back and nothing else. -/
theorem process_lines (includes : Includes) (hwritable : ∀ d ∈ ds, d.Writable)
    (hnodup : (ds.map Define.name).Nodup) :
    ∃ frames, (fresh []).process includes ds.lines [] = .ok (frames, fresh ds) := by
  obtain ⟨g, hfinishes⟩ :=
    @finishes_lines includes 0 [] ds (Frame.ofText none ds.lines) hwritable hnodup rfl
  exact ⟨[g], process_eq_ok_iff.2 ⟨g, hfinishes, rfl, rfl⟩⟩

/-! ## Captured texts -/

variable {ops more : List Operation} {frames : List Frame} {s : Scan} {source : String}
  {p : Point} {kind : BlockKind} {body : List Char}

/-- Where a text is captured, the defines are what the history of all changes tells, whoever made
them: each name once, in the order in which the names came up, with what it was given last. The
block starts with lines for the defines, and these lines alone are read without a token and bring
back the defines, in the same order. -/
theorem captured_defines_restored (hbetween : Between includes ops frames s.journal)
    (hrun : Edits includes (Point.startAbove frames s source) more p)
    (hcaptures : p.Captures kind body) :
    Defines.Tells (ops ++ more) p.scan.journal.defines ∧
    (∃ q, p.turn includes = .on none q ∧
      q.scan.journal.blocks = p.scan.journal.blocks ++
        [⟨kind, p.scan.journal.nextIndex kind,
          p.scan.journal.defines.lines ++ String.ofList body⟩]) ∧
    ∀ includes', ∃ frames' t,
      (fresh []).process includes' p.scan.journal.defines.lines [] = .ok (frames', t) ∧
      t.tokens = [] ∧ t.journal.defines = p.scan.journal.defines := by
  have hdefines : p.scan.journal.defines = Defines.after (ops ++ more) :=
    hrun.defines_after hbetween.defines
  have htells := Defines.tells_after (ops ++ more)
  have hsound : ∀ op ∈ ops ++ more, op.Sound :=
    List.forall_mem_append.2 ⟨hbetween.sound, hrun.sound⟩
  obtain ⟨rest, hbrace, hread⟩ := hcaptures.brace
  have hrest : p.frame.rest = ('\x7b' :: body ++ ['\x7d']) ++ rest := by simp [hbrace]
  have hoccurs : Occurs includes p.depth p.scan ('\x7b' :: body ++ ['\x7d']) rest
      (.block kind body) := .block hcaptures.enabled hcaptures.kind hread
  have hturn : p.turn includes = .on none ⟨p.frame.past ('\x7b' :: body ++ ['\x7d']) rest, p.below,
      (Move.block kind body).apply p.frame p.scan⟩ := by
    rw [Point.turn, step_of_occurs hrest hoccurs]
  refine ⟨hdefines ▸ htells, ⟨_, hturn, Journal.blocks_appendBlock_beginBlock ..⟩, ?_⟩
  intro includes'
  rw [hdefines]
  obtain ⟨frames', hprocess⟩ := process_lines includes' (Defines.writable_after hsound) htells.nodup
  exact ⟨frames', _, hprocess, rfl, rfl⟩

/-- Two names are defined from outside. A source removes the first, gives the second another
expression, and defines the first anew, which then stands behind. -/
theorem captured_defines_restored_renewed :
    ∃ p q, Edits (fun _ => none)
        (Point.startAbove [] (fresh [⟨"LOW", some "1"⟩, ⟨"TAPS", none⟩])
          "#undef LOW\n#define TAPS 2 // two\n#define LOW\ncode\x7b\x7d")
        [.undefine "LOW", .define "TAPS" (some "2"), .define "LOW" (some "")] p ∧
      p.turn (fun _ => none) = .on none q ∧
      q.scan.journal.blocks = [⟨.code, 0, "#define TAPS 2\n#define LOW\n"⟩] ∧
      Defines.Tells [.define "LOW" (some "1"), .define "TAPS" none, .undefine "LOW",
        .define "TAPS" (some "2"), .define "LOW" (some "")]
        [⟨"TAPS", some "2"⟩, ⟨"LOW", none⟩] ∧
      ∃ frames' t,
        (fresh []).process (fun _ => none) "#define TAPS 2\n#define LOW\n" [] = .ok (frames', t) ∧
        t.tokens = [] ∧ t.journal.defines = [⟨"TAPS", some "2"⟩, ⟨"LOW", none⟩] := by
  have hlow : Between (fun _ => none) [.define "LOW" (some "1")] []
      (fresh [⟨"LOW", some "1"⟩]).journal := by
    refine @Between.given _ [] _ _ _ _ .fresh ⟨by decide, ?_⟩
    rintro e ⟨⟩
    exact ⟨by decide, by decide⟩
  have hbetween : Between (fun _ => none) [.define "LOW" (some "1"), .define "TAPS" none] []
      (fresh [⟨"LOW", some "1"⟩, ⟨"TAPS", none⟩]).journal :=
    @Between.given _ [_] _ _ _ _ hlow ⟨by decide, nofun⟩
  -- A line and its break are two moves, and `code` is one more.
  have hrun : Edits (fun _ => none)
      (Point.startAbove [] (fresh [⟨"LOW", some "1"⟩, ⟨"TAPS", none⟩])
        "#undef LOW\n#define TAPS 2 // two\n#define LOW\ncode\x7b\x7d") _ _ :=
    .on rfl (.on rfl (.on rfl (.on rfl (.on rfl (.on rfl (.on rfl .stay))))))
  obtain ⟨htells, ⟨q, hturn, hblocks⟩, hrestored⟩ :=
    captured_defines_restored hbetween hrun
      (⟨rfl, rfl, [], rfl, rfl⟩ : Point.Captures _ .code [])
  exact ⟨_, q, hrun, hturn, hblocks, htells, hrestored _⟩

end Scan
end ShaderLang
