import ShaderLang.Proofs.Number.Radix
import ShaderLang.Proofs.Source.Move
import ShaderLang.Proofs.Source.Restore
import ShaderLang.Proofs.Source.Spelling
import ShaderLang.Proofs.Text.Joined
/-!
# Conditions mean what they say

A condition names a define and says that it is defined or not, that the number it stands for is
zero or not, or how that number compares with another one. It is written in parts, with any spaces
and tabs in between. A branch under a condition is read exactly if what the condition says is true
and no earlier branch of its conditional was read.

## Main definitions

* `Defines.Value` — the number that a name stands for
* `Condition.Says` — the parts of a condition and what it says
* `Directive.Written` — the line of a directive on a condition

## Main results

* `Condition.exists_ofText?` — a condition is read as what it says
* `Conditionals.operate_settings` — setting a condition part by part leaves nothing of another one
* `Scan.conditions_mean` — a branch is read if its condition is true
-/

namespace ShaderLang

/-! ## What conditions say -/

/-- The number that a name stands for: the one that its expression writes, else zero. -/
def Defines.Value (ds : Defines) (name : String) (x : Int) : Prop :=
  (∃ d e, ds.find? (·.name == name) = some d ∧ d.expr = some e ∧
    Number.Denotes (Text.trim e.toList) x) ∨
  (x = 0 ∧ ∀ d e k, ds.find? (·.name == name) = some d → d.expr = some e →
    ¬ Number.Denotes (Text.trim e.toList) k)

theorem Defines.number?_eq_some_iff {ds : Defines} {name : String} {k : Int} :
    ds.number? name = some k ↔ ∃ d e, ds.find? (·.name == name) = some d ∧ d.expr = some e ∧
      Number.Denotes (Text.trim e.toList) k := by
  simp only [number?, bind, Option.bind_eq_some_iff, Number.expression?_eq_some_iff]
  constructor
  · rintro ⟨d, hd, e, he, hk⟩
    exact ⟨d, e, hd, he, hk⟩
  · rintro ⟨d, e, hd, he, hk⟩
    exact ⟨d, hd, e, he, hk⟩

/-- Every name stands for one number. -/
theorem Defines.value_iff {ds : Defines} {name : String} {x : Int} :
    ds.Value name x ↔ (ds.number? name).getD 0 = x := by
  cases hnumber : ds.number? name with
  | some k =>
    have hk := number?_eq_some_iff.1 hnumber
    constructor
    · rintro (hx | ⟨-, hnone⟩)
      · have hsome := number?_eq_some_iff.2 hx
        rw [hnumber] at hsome
        exact Option.some.inj hsome
      · obtain ⟨d, e, hd, he, hdenotes⟩ := hk
        exact absurd hdenotes (hnone d e k hd he)
    · rintro rfl
      exact .inl hk
  -- A name that stands for no number stands for zero.
  | none =>
    have hnone : ∀ d e k, ds.find? (·.name == name) = some d → d.expr = some e →
        ¬ Number.Denotes (Text.trim e.toList) k := by
      intro d e k hd he hdenotes
      have hsome := number?_eq_some_iff.2 ⟨d, e, hd, he, hdenotes⟩
      rw [hnumber] at hsome
      cases hsome
    constructor
    · rintro (hx | ⟨rfl, -⟩)
      · obtain ⟨d, e, hd, he, hdenotes⟩ := hx
        exact absurd hdenotes (hnone d e x hd he)
      · rfl
    · rintro rfl
      exact .inr ⟨rfl, hnone⟩

/-- A name writes no number itself. -/
theorem Number.expression?_of_isName {cs : List Char} (h : Text.isName cs = true) :
    expression? cs = none := by
  have htrim := (Text.solid_of_isName h).framed.trim
  rw [Option.eq_none_iff_forall_ne_some]
  intro k hk
  rw [expression?_eq_some_iff, htrim] at hk
  -- A number starts with a sign or a digit.
  have hhead : ∃ c, cs.head? = some c ∧ (c = '-' ∨ c = '+' ∨ c.isDigit = true) := by
    cases hk with
    | @decimal sign ds n hsign hrow hfits =>
      obtain ⟨-, hdigits, -⟩ :=
        natural?_eq_some_iff.1 ((natural?_eq_some_iff_row (by decide)).2 hrow)
      obtain ⟨d, ds, rfl⟩ := List.exists_cons_of_ne_nil hrow.ne_nil
      simp only [signs, List.mem_cons, List.not_mem_nil, or_false] at hsign
      rcases hsign with rfl | rfl | rfl
      · exact ⟨d, rfl, .inr (.inr (hdigits d List.mem_cons_self))⟩
      · exact ⟨_, rfl, .inr (.inl rfl)⟩
      · exact ⟨_, rfl, .inl rfl⟩
    | hexadecimal hmark =>
      simp only [hexMarks, List.mem_cons, List.not_mem_nil, or_false] at hmark
      rcases hmark with rfl | rfl <;> exact ⟨_, rfl, .inr (.inr (by decide))⟩
  obtain ⟨c, hc, hstart⟩ := hhead
  obtain ⟨rest, rfl⟩ := List.head?_eq_some_iff.1 hc
  rw [Text.isName, Bool.and_eq_true] at h
  rcases hstart with rfl | rfl | hdigit
  · exact absurd h.1 (by decide)
  · exact absurd h.1 (by decide)
  · have hnot := Lexeme.not_startsNumber_of_isNameStart h.1
    simp [hdigit] at hnot

namespace Condition

/-- The marks of comparisons. -/
inductive Compares : String → (Int → Int → Prop) → Prop
  | eq : Compares "==" (· = ·)
  | ne : Compares "!=" (· ≠ ·)
  | lt : Compares "<" (· < ·)
  | le : Compares "<=" (· ≤ ·)
  | gt : Compares ">" (· > ·)
  | ge : Compares ">=" (· ≥ ·)

/-- The parts of a condition on a name that stands for the number `x`, and what it says. -/
inductive Says (ds : Defines) (name : String) (x : Int) : List (List Char) → Prop → Prop
  | enabled : Says ds name x [name.toList] (x ≠ 0)
  | notEnabled : Says ds name x [['!'], name.toList] (x = 0)
  | defined : Says ds name x ["defined".toList, ['('], name.toList, [')']] (ds.has name = true)
  | notDefined :
      Says ds name x [['!'], "defined".toList, ['('], name.toList, [')']] (ds.has name = false)
  | compares {mark : String} {rel : Int → Int → Prop} {w : Number.Spelling}
      (hmark : Compares mark rel) (hradix : w.radix = .decimal) (hfits : Number.Fits64 w.value) :
      Says ds name x [name.toList, mark.toList, w.text] (rel x w.value)

variable {ds : Defines} {name mark : String} {x : Int} {parts : List (List Char)} {P : Prop}
  {core operand tail : List Char} {rel : Int → Int → Prop}

theorem definedOperand?_eq_none (hname : Text.isName operand = true)
    (htail : ∀ c, tail.head? = some c → Text.isNameChar c = false)
    (hparen : (Text.trimStart tail).head? ≠ some '(') :
    definedOperand? (operand ++ tail) = none := by
  have hchars := Text.isNameChar_of_isName hname
  unfold definedOperand?
  cases hprefix : Text.dropPrefix? "defined".toList (operand ++ tail) with
  | none => rfl
  | some rest =>
    have hrest : (Text.trimStart rest).head? ≠ some '(' := by
      rcases List.append_eq_append_iff.1 (Text.dropPrefix?_eq_some_iff.1 hprefix) with
        ⟨more, hword, rfl⟩ | ⟨more, rfl, rfl⟩
      · -- The word goes on behind the name, which only nothing can do.
        cases more with
        | nil => exact hparen
        | cons c more =>
          have hletter : ∀ c ∈ "defined".toList, Text.isNameChar c = true :=
            List.all_eq_true.1 (by decide)
          have hc := hletter c (hword ▸ List.mem_append_right _ List.mem_cons_self)
          rw [htail c rfl] at hc
          cases hc
      · cases more with
        | nil => exact hparen
        | cons c more =>
          have hc := hchars c (List.mem_append_right _ List.mem_cons_self)
          have hblank : ¬ Text.isBlank c = true := by simp [Text.isBlank_of_isNameChar hc]
          rw [Text.trimStart, List.cons_append, List.dropWhile_cons_of_neg hblank, List.head?_cons]
          intro heq
          rw [Option.some.inj heq] at hc
          exact absurd hc (by decide)
    simp only [bind, Option.bind_some]
    rw [if_neg hrest]

/-- What stands in parentheses behind `defined`. -/
theorem definedOperand?_parens {gap front back : List Char} (hname : Text.isName operand = true)
    (hgap : Text.Gap gap) (hfront : Text.Gap front) (hback : Text.Gap back) :
    definedOperand?
      ("defined".toList ++ (gap ++ (['('] ++ (front ++ (operand ++ (back ++ [')'])))))) =
      some operand := by
  have hframed := (Text.solid_of_isName hname).framed
  have hne : front ++ (operand ++ back) ≠ [] := by simp [hframed.ne_nil]
  have hinner {c : Char} := @Text.not_mem_padded front back c operand hname hfront hback
  have hparens := Text.framed_parens (hinner (c := '\n') (by decide) (by decide) (by decide))
    (hinner (c := '/') (by decide) (by decide) (by decide))
  have htext : ['('] ++ (front ++ (operand ++ (back ++ [')']))) =
      '(' :: (front ++ (operand ++ back) ++ [')']) := by simp
  -- The blanks in front of the parentheses go first, then the parentheses, then the blanks inside.
  have htrim := @Text.Framed.trim_append gap [] _ hparens hgap.isBlank nofun
  rw [List.append_nil] at htrim
  have hcut := Text.dropWhile_parens hne (hinner (by decide) (by decide) (by decide))
    (hinner (by decide) (by decide) (by decide))
  unfold definedOperand?
  rw [Text.dropPrefix?_eq_some_iff.2 rfl, htext]
  simp only [bind, Option.bind_some]
  rw [Text.trimStart_append hgap.isBlank, hparens.trimStart, List.head?_cons, if_pos rfl, htrim,
    hcut, hframed.trim_append hfront.isBlank hback.isBlank]

theorem definedOperand?_of_joined (hname : Text.isName operand = true)
    (h : Text.Joined ["defined".toList, ['('], operand, [')']] core) :
    definedOperand? core = some operand := by
  obtain ⟨gap, _, hgap, hparens, rfl⟩ := Text.joined_cons_iff.1 h
  obtain ⟨front, _, hfront, hinner, rfl⟩ := Text.joined_cons_iff.1 hparens
  obtain ⟨back, _, hback, hclose, rfl⟩ := Text.joined_cons_iff.1 hinner
  obtain rfl := Text.joined_singleton_iff.1 hclose
  exact definedOperand?_parens hname hgap hfront hback

/-! ## Conditions are read -/

/-- A text is an expression, perhaps behind a negation. -/
structure Negates (core : List Char) (negated : Bool) (expr : List Char) : Prop where
  trim : Text.trim core = core
  head : (core.head? == some '!') = negated
  expr : (if negated then Text.trimStart core.tail else core) = expr

theorem negates_false (hframed : Text.Framed core) (h : core.head? ≠ some '!') :
    Negates core false core :=
  ⟨hframed.trim, by simpa using h, rfl⟩

theorem negates_true {gap expr : List Char} (hgap : Text.Gap gap) (h : Text.Framed expr) :
    Negates (['!'] ++ (gap ++ expr)) true expr := by
  have hmark : Text.Framed ['!'] := Text.Solid.framed (by decide)
  refine ⟨(hmark.append hgap h).trim, rfl, ?_⟩
  rw [if_pos rfl, List.singleton_append, List.tail_cons, Text.trimStart_append hgap.isBlank,
    h.trimStart]

variable {expr : List Char} {negated : Bool}

theorem ofText?_of_operand (h : Negates core negated expr)
    (hoperand : definedOperand? expr = some operand) (hname : Text.isName operand = true) :
    ofText? core =
      some ⟨String.ofList operand, if negated then .notDefined else .defined, 0⟩ := by
  obtain ⟨htrim, hhead, hexpr⟩ := h
  unfold ofText?
  simp only [htrim, hhead, hexpr, hoperand, hname, if_true]

/-- A name, with or without a comparison behind it. -/
structure Leads (expr operand tail : List Char) : Prop where
  name : expr.takeWhile Text.isNameChar = operand
  rest : expr.dropWhile Text.isNameChar = tail
  ne_nil : operand ≠ []
  operand : definedOperand? expr = none

theorem leads_append (hname : Text.isName operand = true)
    (htail : ∀ c, tail.head? = some c → Text.isNameChar c = false)
    (hparen : (Text.trimStart tail).head? ≠ some '(') : Leads (operand ++ tail) operand tail := by
  have hchars := Text.isNameChar_of_isName hname
  exact ⟨Text.takeWhile_append_of_head hchars htail, Text.dropWhile_append_of_head hchars htail,
    (Text.solid_of_isName hname).ne_nil, definedOperand?_eq_none hname htail hparen⟩

theorem leads_self (hname : Text.isName operand = true) : Leads operand operand [] := by
  have hleads := @leads_append operand [] hname nofun nofun
  rwa [List.append_nil] at hleads

theorem ofText?_of_name (h : Negates core negated expr) (hleads : Leads expr operand []) :
    ofText? core =
      some ⟨String.ofList operand, if negated then .notEnabled else .enabled, 0⟩ := by
  obtain ⟨htrim, hhead, hexpr⟩ := h
  obtain ⟨hname, hrest, hne, hoperand⟩ := hleads
  have hempty : operand.isEmpty = false := by simpa using hne
  unfold ofText?
  simp only [htrim, hhead, hexpr, hoperand, hname, hrest, hempty, Text.trim_nil, List.isEmpty_nil,
    Bool.false_eq_true, if_false, if_true]

theorem ofText?_of_comparison (h : Negates core false expr) (hleads : Leads expr operand tail)
    (htail : Text.trim tail ≠ []) :
    ofText? core = comparison? (String.ofList operand) (Text.trim tail) := by
  obtain ⟨htrim, hhead, rfl⟩ := h
  rw [if_neg Bool.false_ne_true] at hleads
  obtain ⟨hname, hrest, hne, hoperand⟩ := hleads
  have hempty : operand.isEmpty = false := by simpa using hne
  have htailEmpty : (Text.trim tail).isEmpty = false := by simpa using htail
  unfold ofText?
  simp only [htrim, hhead, hoperand, hname, hrest, hempty, htailEmpty, Bool.false_eq_true, if_false]

/-- Every mark is read as its comparison. -/
theorem Compares.exists_test (h : Compares mark rel) :
    ∃ test, Test.ofSymbol? mark = some test ∧
      ∀ name value ds, (Condition.mk name test value).holds ds = true ↔
        rel ((Condition.mk name test value).left ds) value := by
  cases h with
  | eq => exact ⟨.eq, rfl, fun _ _ _ => beq_iff_eq⟩
  | ne => exact ⟨.ne, rfl, fun _ _ _ => bne_iff_ne⟩
  | lt | le | gt | ge => exact ⟨_, rfl, fun _ _ _ => decide_eq_true_iff⟩

/-- The characters of marks. -/
def isMark (c : Char) : Bool := c == '=' || c == '!' || c == '<' || c == '>'

theorem not_isNameChar_of_isMark {c : Char} (h : isMark c = true) :
    Text.isNameChar c = false ∧ c ≠ '(' := by
  simp only [isMark, Bool.or_eq_true, beq_iff_eq] at h
  rcases h with ((rfl | rfl) | rfl) | rfl <;> decide

theorem Compares.solid (h : Compares mark rel) :
    Text.Solid mark.toList ∧ ∀ c ∈ mark.toList, isMark c = true := by
  cases h <;> exact ⟨by decide, List.all_eq_true.1 (by decide)⟩

theorem eq_or_isAlphanum_of_mem_text {w : Number.Spelling} {c : Char} (hc : c ∈ w.text) :
    c = '-' ∨ c.isAlphanum = true := by
  rcases List.mem_append.1 hc with hsign | hmarked
  · unfold Number.Spelling.sign at hsign
    split at hsign
    · exact .inl (List.mem_singleton.1 hsign)
    · cases hsign
  · exact .inr (w.isAlphanum_marked c hmarked)

theorem solid_text (w : Number.Spelling) : Text.Solid w.text := by
  refine ⟨fun hnil => ?_, fun c hc => ?_, fun hslash => ?_⟩
  · have hmarked := (List.append_eq_nil_iff.1 hnil).2
    exact w.row.ne_nil (List.append_eq_nil_iff.1 hmarked).2
  · rcases eq_or_isAlphanum_of_mem_text hc with rfl | halphanum
    · decide
    · exact Text.isBlank_of_isNameChar (by simp [Text.isNameChar, halphanum])
  · rcases eq_or_isAlphanum_of_mem_text hslash with heq | halphanum
    · exact absurd heq (by decide)
    · exact absurd halphanum (by decide)

theorem not_isMark_of_text {w : Number.Spelling} {c : Char} (hc : w.text.head? = some c) :
    isMark c = false := by
  rcases eq_or_isAlphanum_of_mem_text (List.mem_of_head? hc) with rfl | halphanum
  · decide
  · rw [Bool.eq_false_iff]
    intro hmark
    simp only [isMark, Bool.or_eq_true, beq_iff_eq] at hmark
    rcases hmark with ((rfl | rfl) | rfl) | rfl <;> exact absurd halphanum (by decide)

theorem comparison?_of_marks {gap : List Char} {w : Number.Spelling} {test : Test}
    (hmark : ∀ c ∈ mark.toList, isMark c = true) (htest : Test.ofSymbol? mark = some test)
    (hgap : Text.Gap gap) (hradix : w.radix = .decimal) (hfits : Number.Fits64 w.value) :
    comparison? name (mark.toList ++ (gap ++ w.text)) = some ⟨name, test, w.value⟩ := by
  -- The mark ends in front of the blanks, or of the number.
  have hhead : ∀ c, (gap ++ w.text).head? = some c → isMark c = false := by
    intro c hc
    cases gap with
    | nil => exact not_isMark_of_text hc
    | cons d gap =>
      obtain rfl := Option.some.inj hc
      rcases hgap d List.mem_cons_self with rfl | rfl <;> decide
  have htake := Text.takeWhile_append_of_head hmark hhead
  have hdrop := Text.dropWhile_append_of_head hmark hhead
  have hvalue : Number.expression? (gap ++ w.text) = some w.value := by
    have htrim : Text.trim (gap ++ w.text) = Text.trim w.text := by
      rw [Text.trim, Text.trimStart_append hgap.isBlank]
      rfl
    have hexpression := w.expression?_text
    rw [if_neg (fun h => h.2 hradix)] at hexpression
    rw [Number.expression?, htrim, ← Number.expression?, hexpression]
    exact Number.within?_eq_some_iff.2 ⟨rfl, hfits⟩
  have hlambda : (fun c => c == '=' || c == '!' || c == '<' || c == '>') = isMark := rfl
  unfold comparison?
  simp only [hlambda, htake, hdrop, String.ofList_toList, htest, hvalue, bind, Option.bind_some]

/-- The number on the left is the one that the name stands for. -/
theorem left_eq {c : Condition} (hname : Text.isName c.name.toList = true)
    (hx : ds.Value c.name x) : c.left ds = x := by
  rw [left, Number.expression?_of_isName hname, Option.none_or]
  exact Defines.value_iff.1 hx

theorem Says.solid (h : Says ds name x parts P) (hname : Text.isName name.toList = true) :
    ∀ part ∈ parts, Text.Solid part := by
  have hsolid := Text.solid_of_isName hname
  have hmark : Text.Solid ['!'] := by decide
  have hdefined : Text.Solid "defined".toList := by decide
  have hopen : Text.Solid ['('] := by decide
  have hclose : Text.Solid [')'] := by decide
  cases h with
  | enabled => simp [hsolid]
  | notEnabled => simp [hsolid, hmark]
  | defined =>
    simp only [List.forall_mem_cons, hdefined, hopen, hsolid, hclose, true_and]
    exact nofun
  | notDefined =>
    simp only [List.forall_mem_cons, hmark, hdefined, hopen, hsolid, hclose, true_and]
    exact nofun
  | compares hcompares => simp [hsolid, hcompares.solid.1, solid_text]

/-- A name does not start with the mark of a negation. -/
theorem head?_ne_of_isName (hname : Text.isName operand = true) (tail : List Char) :
    (operand ++ tail).head? ≠ some '!' := by
  rw [List.head?_append_of_ne_nil _ (Text.solid_of_isName hname).ne_nil]
  intro hmark
  exact absurd (Text.isNameChar_of_isName hname '!' (List.mem_of_head? hmark)) (by decide)

/-- A name ends in front of a gap or of a mark. -/
theorem leads_of_mark {gap : List Char} (hname : Text.isName operand = true)
    (hgap : Text.Gap gap) (hmark : Compares mark rel) (tail : List Char) :
    Leads (operand ++ (gap ++ (mark.toList ++ tail))) operand (gap ++ (mark.toList ++ tail)) := by
  obtain ⟨hsolid, hchars⟩ := hmark.solid
  obtain ⟨c, marks, hc⟩ := List.exists_cons_of_ne_nil hsolid.ne_nil
  obtain ⟨hnot, hparen⟩ := not_isNameChar_of_isMark (hchars c (hc ▸ List.mem_cons_self))
  have hblank : ¬ Text.isBlank c = true := by
    simp [hsolid.isBlank c (hc ▸ List.mem_cons_self)]
  -- Neither a blank nor a mark goes on with a name.
  refine leads_append hname (fun d hd => ?_) ?_
  · cases gap with
    | nil =>
      rw [hc] at hd
      exact Option.some.inj hd ▸ hnot
    | cons b gap =>
      obtain rfl := Option.some.inj hd
      rcases hgap b List.mem_cons_self with rfl | rfl <;> decide
  · rw [Text.trimStart_append hgap.isBlank, hc, List.cons_append, Text.trimStart,
      List.dropWhile_cons_of_neg hblank]
    exact fun hd => hparen (Option.some.inj hd)

/-- The name ends in front of the gap or of the mark, and the mark in front of the number. -/
theorem ofText?_of_compares {gap gap' : List Char} {w : Number.Spelling} {test : Test}
    (hname : Text.isName name.toList = true) (hgap : Text.Gap gap) (hgap' : Text.Gap gap')
    (hmark : Compares mark rel) (htest : Test.ofSymbol? mark = some test)
    (hradix : w.radix = .decimal) (hfits : Number.Fits64 w.value)
    (hcore : Text.Framed (name.toList ++ (gap ++ (mark.toList ++ (gap' ++ w.text))))) :
    ofText? (name.toList ++ (gap ++ (mark.toList ++ (gap' ++ w.text)))) =
      some ⟨name, test, w.value⟩ := by
  obtain ⟨hsolid, hchars⟩ := hmark.solid
  have htail : Text.Framed (mark.toList ++ (gap' ++ w.text)) :=
    hsolid.framed.append hgap' (solid_text w).framed
  have htrim := @Text.Framed.trim_append gap [] _ htail hgap.isBlank nofun
  rw [List.append_nil] at htrim
  have hne : Text.trim (gap ++ (mark.toList ++ (gap' ++ w.text))) ≠ [] := by
    rw [htrim]
    exact htail.ne_nil
  -- What stands behind the name is read as a mark and a number.
  have hread := ofText?_of_comparison (negates_false hcore (head?_ne_of_isName hname _))
    (leads_of_mark hname hgap hmark _) hne
  rwa [htrim, String.ofList_toList, comparison?_of_marks hchars htest hgap' hradix hfits] at hread

/-- A condition is read as what it says, whatever gaps stand between its parts. -/
theorem exists_ofText? (hname : Text.isName name.toList = true) (hx : ds.Value name x)
    (h : Says ds name x parts P) (hjoined : Text.Joined parts core) :
    ∃ c, ofText? core = some c ∧ (c.holds ds = true ↔ P) := by
  have hframed := (Text.solid_of_isName hname).framed
  have hcore : Text.Framed core := hjoined.framed (h.solid hname)
  have hleft : ∀ test value, (Condition.mk name test value).left ds = x :=
    fun test value => left_eq hname hx
  cases h with
  | enabled =>
    obtain rfl := Text.joined_singleton_iff.1 hjoined
    have hplain := head?_ne_of_isName hname []
    rw [List.append_nil] at hplain
    refine ⟨_, ofText?_of_name (negates_false hcore hplain) (leads_self hname), ?_⟩
    simp [holds, hleft]
  | notEnabled =>
    obtain ⟨gap, text, hgap, htext, rfl⟩ := Text.joined_cons_iff.1 hjoined
    obtain rfl := Text.joined_singleton_iff.1 htext
    refine ⟨_, ofText?_of_name (negates_true hgap hframed) (leads_self hname), ?_⟩
    simp [holds, hleft]
  | defined =>
    have hoperand := definedOperand?_of_joined hname hjoined
    obtain ⟨gap, _, -, -, rfl⟩ := Text.joined_cons_iff.1 hjoined
    refine ⟨_, ofText?_of_operand (negates_false hcore (by simp)) hoperand hname, ?_⟩
    simp [holds]
  | notDefined =>
    obtain ⟨_, expr, hmark, hexpr, rfl⟩ := Text.joined_cons_iff.1 hjoined
    -- Behind the negation stands what would say that the name is defined.
    have hmeans : Says ds name x _ _ := .defined
    have hframed : Text.Framed expr := hexpr.framed (hmeans.solid hname)
    refine ⟨_, ofText?_of_operand (negates_true hmark hframed)
      (definedOperand?_of_joined hname hexpr) hname, ?_⟩
    simp [holds]
  | @compares mark rel w hmark hradix hfits =>
    obtain ⟨gap, _, hgap, hcomparison, rfl⟩ := Text.joined_cons_iff.1 hjoined
    obtain ⟨gap', _, hgap', htext, rfl⟩ := Text.joined_cons_iff.1 hcomparison
    obtain rfl := Text.joined_singleton_iff.1 htext
    obtain ⟨test, htest, hholds⟩ := hmark.exists_test
    refine ⟨_, ofText?_of_compares hname hgap hgap' hmark htest hradix hfits hcore, ?_⟩
    rw [hholds, hleft]

end Condition

/-! ## Conditionals -/

/-- The steps in which the condition of a branch is set part by part and the branch is come to. -/
def Condition.settings (c : Condition) : List Operation :=
  [.setName c.name, .setTest c.test, .setValue c.value, .evaluate]

/-- A branch under a condition was come to in the text around a conditional that is read. -/
structure Conditional.Decides (c : Conditional) (P : Prop) : Prop where
  enabled : c.enabled = true ↔ P
  taken : c.taken = true ↔ P
  parentEnabled : c.parentEnabled = true

namespace Conditionals

/-- Setting a condition part by part leaves nothing of an earlier one. -/
theorem operate_settings (cs : Conditionals) (condition : Condition) (ds : Defines) :
    condition.settings.foldl (fun cs op => cs.operate ds op) cs = cs.next condition ds := by
  cases cs <;> rfl

/-- A conditional that is opened without a condition can be given one. -/
theorem operate_push_settings (cs : Conditionals) (condition : Condition) (ds : Defines) :
    (.push none :: condition.settings).foldl (fun cs op => cs.operate ds op) cs =
      cs.enter condition ds := rfl

theorem isEnabled_cons_iff {c : Conditional} {P : Prop} (h : c.Decides P) (cs : Conditionals) :
    isEnabled (c :: cs) = true ↔ P := by
  rw [isEnabled, h.parentEnabled, Bool.and_true]
  exact h.enabled

variable {cs : Conditionals} {condition : Condition} {ds : Defines} {P : Prop}

theorem exists_enter (henabled : cs.isEnabled = true) (hP : condition.holds ds = true ↔ P) :
    ∃ c : Conditional, cs.enter condition ds = c :: cs ∧ c.Decides P := by
  refine ⟨_, rfl, ?_, ?_, henabled⟩
  · simpa [Conditional.evaluate] using hP
  · simpa [Conditional.evaluate] using hP

/-- It does not matter under which condition the branch before was. -/
theorem exists_next {before : Conditional} (hparent : before.parentEnabled = true)
    (htaken : before.taken = false) (hP : condition.holds ds = true ↔ P) :
    ∃ c : Conditional, next (before :: cs) condition ds = c :: cs ∧ c.Decides P := by
  refine ⟨_, rfl, ?_, ?_, hparent⟩
  · simpa [Conditional.evaluate, htaken] using hP
  · simpa [Conditional.evaluate, htaken] using hP

end Conditionals

/-! ## Lines -/

namespace Directive

/-- The line of a directive behind its number sign: the word of the directive, a gap, and some parts
with gaps between them. Gaps may stand at both ends as well. -/
inductive Written (word : String) (parts : List (List Char)) : List Char → Prop
  | intro {lead front core back : List Char} (hlead : Text.Gap lead) (hfront : Text.Gap front)
      (hne : front ≠ []) (hback : Text.Gap back) (h : Text.Joined parts core) :
      Written word parts (lead ++ ((word.toList ++ (front ++ core)) ++ back))

/-- A directive that opens a conditional, the parts behind it, and what it asks. -/
inductive Opens (ds : Defines) (name : String) (x : Int) :
    String → List (List Char) → Prop → Prop
  | ifDefined : Opens ds name x "ifdef" [name.toList] (ds.has name = true)
  | ifNotDefined : Opens ds name x "ifndef" [name.toList] (ds.has name = false)
  | ifHolds {parts : List (List Char)} {P : Prop} (h : Condition.Says ds name x parts P) :
      Opens ds name x "if" parts P

variable {includes : Includes} {depth : Nat} {j : Journal} {word name : String} {x : Int}
  {parts : List (List Char)} {line core : List Char} {P : Prop}

/-- The line of a directive splits into its word and the parts. -/
theorem Written.exists_core (h : Written word parts line) (hword : Text.Solid word.toList)
    (hparts : ∀ part ∈ parts, Text.Solid part) :
    '\n' ∉ line ∧ ∃ core, Text.Joined parts core ∧
      Text.splitWord (Text.trim (uncommented line)) = (word.toList, core) := by
  obtain ⟨hlead, hfront, hne, hback, hjoined⟩ := h
  next lead front core back =>
  -- A slash stands nowhere in the line, so no part of it is a comment.
  have hcore := hjoined.framed hparts
  have hframed := hword.framed.append hfront hcore
  have hmem : ∀ {c}, c ≠ ' ' → c ≠ '\t' → c ∉ word.toList ++ (front ++ core) →
      c ∉ lead ++ ((word.toList ++ (front ++ core)) ++ back) := by
    intro c hspace htab hc
    rw [List.mem_append, List.mem_append, not_or, not_or]
    exact ⟨hlead.not_mem hspace htab, hc, hback.not_mem hspace htab⟩
  have hslash := hmem (by decide) (by decide) hframed.slash
  have huncommented := uncommented_eq_self fun hpiece =>
    hslash (hpiece.subset List.mem_cons_self)
  refine ⟨hmem (by decide) (by decide) hframed.line, core, hjoined, ?_⟩
  rw [huncommented, hframed.trim_append hlead.isBlank hback.isBlank]
  obtain ⟨b, front, rfl⟩ := List.exists_cons_of_ne_nil hne
  have hb := hfront.isBlank b List.mem_cons_self
  have htrim := @Text.Framed.trim_append (b :: front) [] core hcore hfront.isBlank nofun
  rw [List.append_nil] at htrim
  rw [List.cons_append, Text.splitWord_cons hword.isBlank hb, ← List.cons_append, htrim]

theorem Opens.solid {ds : Defines} (h : Opens ds name x word parts P)
    (hname : Text.isName name.toList = true) :
    Text.Solid word.toList ∧ ∀ part ∈ parts, Text.Solid part := by
  have hsolid : ∀ part ∈ [name.toList], Text.Solid part :=
    List.forall_mem_singleton.2 (Text.solid_of_isName hname)
  cases h with
  | ifDefined | ifNotDefined => exact ⟨by decide, hsolid⟩
  | ifHolds h => exact ⟨by decide, h.solid hname⟩

/-- The effect is that the journal gets these conditionals, the innermost of which is decided. -/
def Effect.Decides (j : Journal) (outer : Conditionals) (P : Prop) (effect : Effect) : Prop :=
  ∃ c : Conditional, effect = .went { j with conditionals := c :: outer } ∧ c.Decides P

theorem decides_openNamed {test : Test} {text : List Char} (hname : Text.isName name.toList = true)
    (henabled : j.isEnabled = true)
    (hholds : (Condition.mk name test 0).holds j.defines = true ↔ P) :
    (openNamed j test text name.toList).Decides j j.conditionals P := by
  obtain ⟨c, henter, hc⟩ := Conditionals.exists_enter henabled hholds
  refine ⟨c, ?_, hc⟩
  simp only [openNamed, hname, if_true, String.ofList_toList, henter]

theorem decides_openCondition {condition : Condition} (henabled : j.isEnabled = true)
    (hread : Condition.ofText? core = some condition)
    (hholds : condition.holds j.defines = true ↔ P) :
    (openCondition j core).Decides j j.conditionals P := by
  obtain ⟨c, henter, hc⟩ := Conditionals.exists_enter henabled hholds
  refine ⟨c, ?_, hc⟩
  simp only [openCondition, hread, henter]

theorem decides_continueWith {condition : Condition} {before : Conditional} {outer : Conditionals}
    (hopen : j.conditionals = before :: outer) (hparent : before.parentEnabled = true)
    (htaken : before.taken = false) (hread : Condition.ofText? core = some condition)
    (hholds : condition.holds j.defines = true ↔ P) :
    (continueWith j core).Decides j outer P := by
  obtain ⟨c, hnext, hc⟩ := @Conditionals.exists_next outer condition j.defines P before hparent
    htaken hholds
  refine ⟨c, ?_, hc⟩
  simp only [continueWith, hread, hopen, hnext]

/-- Where text is read, a conditional is opened with the branch that its condition decides. -/
theorem decides_obey_opens (hname : Text.isName name.toList = true)
    (hx : j.defines.Value name x) (henabled : j.isEnabled = true)
    (h : Opens j.defines name x word parts P) (hline : Written word parts line) :
    (obey includes depth j (Text.trim (uncommented line))).Decides j j.conditionals P := by
  obtain ⟨hword, hparts⟩ := h.solid hname
  -- Without its comment and the blanks around it, the line is the word and a core of parts.
  obtain ⟨-, core, hjoined, hsplit⟩ := hline.exists_core hword hparts
  unfold obey
  rw [hsplit]
  dsimp only
  rw [String.ofList_toList]
  cases h with
  | ifDefined =>
    obtain rfl := Text.joined_singleton_iff.1 hjoined
    exact decides_openNamed hname henabled Iff.rfl
  | ifNotDefined =>
    obtain rfl := Text.joined_singleton_iff.1 hjoined
    exact decides_openNamed hname henabled (by simp [Condition.holds])
  | ifHolds hmeans =>
    obtain ⟨condition, hread, hholds⟩ := Condition.exists_ofText? hname hx hmeans hjoined
    exact decides_openCondition henabled hread hholds

/-- A conditional of which no branch was read goes on with the branch that the next condition
decides. -/
theorem decides_obey_continues {before : Conditional} {outer : Conditionals}
    (hname : Text.isName name.toList = true) (hx : j.defines.Value name x)
    (hopen : j.conditionals = before :: outer) (hparent : before.parentEnabled = true)
    (htaken : before.taken = false) (h : Condition.Says j.defines name x parts P)
    (hline : Written "elif" parts line) :
    (obey includes depth j (Text.trim (uncommented line))).Decides j outer P := by
  obtain ⟨-, core, hjoined, hsplit⟩ := hline.exists_core (by decide) (h.solid hname)
  obtain ⟨condition, hread, hholds⟩ := Condition.exists_ofText? hname hx h hjoined
  have hhas : j.hasConditional = true := by simp [Journal.hasConditional, hopen]
  unfold obey
  rw [hsplit]
  dsimp only
  rw [String.ofList_toList]
  change (needsOpen j .elseIf fun _ => continueWith j core).Decides j outer P
  rw [needsOpen, if_pos hhas]
  exact decides_continueWith hopen hparent htaken hread hholds

end Directive

namespace Scan

variable {includes : Includes} {depth : Nat} {f : Frame} {s : Scan} {name : String} {x : Int}
  {line rest : List Char}

/-- A line with a directive that changes the conditionals. -/
theorem step_of_went {conditionals : Conditionals} (hstart : s.atLineStart = true)
    (hrest : f.rest = '#' :: line ++ rest) (hline : '\n' ∉ line) (hend : AtLineEnd rest)
    (h : Directive.obey includes depth s.journal (Text.trim (Directive.uncommented line)) =
      .went { s.journal with conditionals }) :
    step includes depth f s = .moved (f.past ('#' :: line) rest)
      { s with journal := { s.journal with conditionals } } :=
  step_of_occurs hrest (.obeyed hstart hline hend h)

/-- Conditions mean what they say, for a name that stands for the number `x`. In front of the line
of a directive that opens a conditional where text is read, a branch is come to that is read
exactly if what the directive asks is true. In front of a line that goes on with another condition,
in a conditional where text around it is read and no earlier branch was, it is the same, whatever
the conditions of the earlier branches were. Both directives can be carried out by steps that set a
condition part by part. -/
theorem conditions_mean (hname : Text.isName name.toList = true)
    (hx : s.journal.defines.Value name x) (hstart : s.atLineStart = true)
    (hrest : f.rest = '#' :: line ++ rest) (hend : AtLineEnd rest) :
    (∀ word parts P, Directive.Opens s.journal.defines name x word parts P →
      Directive.Written word parts line → s.journal.isEnabled = true →
      ∃ c : Conditional, c.Decides P ∧
        (Conditionals.isEnabled (c :: s.journal.conditionals) = true ↔ P) ∧
        step includes depth f s = .moved (f.past ('#' :: line) rest)
          { s with journal := { s.journal with conditionals := c :: s.journal.conditionals } }) ∧
    (∀ parts P before outer, Condition.Says s.journal.defines name x parts P →
      Directive.Written "elif" parts line → s.journal.conditionals = before :: outer →
      before.parentEnabled = true → before.taken = false →
      ∃ c : Conditional, c.Decides P ∧ (Conditionals.isEnabled (c :: outer) = true ↔ P) ∧
        step includes depth f s = .moved (f.past ('#' :: line) rest)
          { s with journal := { s.journal with conditionals := c :: outer } }) ∧
    ∀ (cs : Conditionals) (condition : Condition) (ds : Defines),
      (.push none :: condition.settings).foldl (fun cs op => cs.operate ds op) cs =
        cs.enter condition ds ∧
      condition.settings.foldl (fun cs op => cs.operate ds op) cs = cs.next condition ds := by
  -- Both lines are obeyed whole, with the branch that their condition decides.
  refine ⟨fun word parts P hopens hline henabled => ?_,
    fun parts P before outer hmeans hline hopen hparent htaken => ?_, fun cs condition ds =>
      ⟨cs.operate_push_settings condition ds, cs.operate_settings condition ds⟩⟩
  · obtain ⟨hword, hparts⟩ := hopens.solid hname
    obtain ⟨hbreak, -⟩ := hline.exists_core hword hparts
    obtain ⟨c, hobey, hc⟩ := Directive.decides_obey_opens hname hx henabled hopens hline
    exact ⟨c, hc, Conditionals.isEnabled_cons_iff hc _, step_of_went hstart hrest hbreak hend hobey⟩
  · obtain ⟨hbreak, -⟩ :=
      hline.exists_core (by decide) (hmeans.solid hname)
    obtain ⟨c, hobey, hc⟩ :=
      Directive.decides_obey_continues hname hx hopen hparent htaken hmeans hline
    exact ⟨c, hc, Conditionals.isEnabled_cons_iff hc _, step_of_went hstart hrest hbreak hend hobey⟩

/-- A hexadecimal expression is compared with a negative number behind another comparison, and a
negation has gaps all over. -/
theorem conditions_mean_hexadecimal :
    (∃ c : Conditional, c.Decides ((16 : Int) ≥ -5) ∧
      step (fun _ => none) 0 ⟨none, .start, "#elif A\t>= -05\n".toList, 0⟩
          ⟨{ Journal.empty with
            defines := [⟨"A", some "0x10"⟩]
            conditionals := [⟨⟨"B", .eq, 3⟩, false, true, false⟩] }, [], true⟩ =
        .moved ⟨none, ⟨14, 1, 15⟩, ['\n'], 0⟩
          ⟨{ Journal.empty with
            defines := [⟨"A", some "0x10"⟩]
            conditionals := [c] }, [], true⟩) ∧
    ∃ c : Conditional, c.Decides (Defines.has [] "A" = false) ∧
      step (fun _ => none) 0 ⟨none, .start, "# if ! defined\t( A )".toList, 0⟩ (fresh []) =
        .moved ⟨none, ⟨20, 1, 21⟩, [], 0⟩
          ⟨{ Journal.empty with conditionals := [c] }, [], true⟩ := by
  have hspace : Text.Gap [' '] := fun c hc => .inl (List.mem_singleton.1 hc)
  have htab : Text.Gap ['\t'] := fun c hc => .inr (List.mem_singleton.1 hc)
  have hname : Text.isName "A".toList = true := by decide
  constructor
  · have hwritten : Directive.Written "elif" ["A".toList, ">=".toList, ['-', '0', '5']]
        "elif A\t>= -05".toList :=
      @Directive.Written.intro _ _ [] [' '] _ [] nofun hspace (List.cons_ne_nil _ _) nofun
        (.more htab (.more hspace .one))
    -- The number on the right is spelled with a zero; the name on the left stands for sixteen.
    let five : Number.Spelling := .ofRead true .decimal ['0', '5'] 5 (by decide)
    have hmeans : Condition.Says [⟨"A", some "0x10"⟩] "A" 16
        ["A".toList, ">=".toList, ['-', '0', '5']] ((16 : Int) ≥ -5) :=
      @Condition.Says.compares _ _ _ _ _ five .ge rfl ⟨by decide, by decide⟩
    have hvalue : Defines.Value [⟨"A", some "0x10"⟩] "A" 16 := Defines.value_iff.2 (by decide)
    obtain ⟨c, hc, -, hstep⟩ := (@conditions_mean (fun _ => none) 0
      ⟨none, .start, "#elif A\t>= -05\n".toList, 0⟩
      ⟨{ Journal.empty with
        defines := [⟨"A", some "0x10"⟩]
        conditionals := [⟨⟨"B", .eq, 3⟩, false, true, false⟩] }, [], true⟩
      "A" 16 "elif A\t>= -05".toList ['\n'] hname hvalue rfl rfl (atLineEnd_cons_iff.2 rfl)).2.1
        _ _ _ _ hmeans hwritten rfl rfl rfl
    exact ⟨c, hc, hstep⟩
  · have hwritten : Directive.Written "if" [['!'], "defined".toList, ['('], "A".toList, [')']]
        " if ! defined\t( A )".toList :=
      @Directive.Written.intro _ _ [' '] [' '] _ [] hspace hspace (List.cons_ne_nil _ _) nofun
        (.more hspace (.more htab (.more hspace (.more hspace .one))))
    have hvalue : Defines.Value [] "A" 0 := Defines.value_iff.2 rfl
    obtain ⟨c, hc, -, hstep⟩ := (@conditions_mean (fun _ => none) 0
      ⟨none, .start, "# if ! defined\t( A )".toList, 0⟩ (fresh []) "A" 0
      " if ! defined\t( A )".toList [] hname hvalue rfl rfl atLineEnd_nil).1
        _ _ _ (.ifHolds .notDefined) hwritten rfl
    exact ⟨c, hc, hstep⟩

end Scan
end ShaderLang
