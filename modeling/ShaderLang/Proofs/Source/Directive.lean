import ShaderLang.Source.Directive
import ShaderLang.Source.Operation
/-!
# What directives do

The directives on conditionals change nothing but the conditionals, whether text is read or not. The
others do nothing where no text is read; elsewhere a define changes the defines alone, and an
inclusion enters its file.

## Main definitions

* `Directive.isConditional` — the line of a directive opens, continues or closes a conditional
* `Directive.included?` — the file that the line of a directive names
* `Directive.conditionals?` — the open conditionals behind the line of a directive on them
* `Directive.Alters` — what comes of a line on conditionals
* `Directive.edit?` — the change of the defines that the line of a directive asks for
* `Directive.Reads` — what comes of a line that is read and is not about conditionals

## Main results

* `Directive.alters_obey` — a line on conditionals changes them and nothing else, or is refused
* `Directive.reads_obey` — any other line changes the defines, goes into a file, or is refused
* `Directive.obey_of_disabled` — where no text is read, only conditionals are obeyed
* `Directive.obey_eq_went_congr` — what a directive changes is decided by defines and conditionals
* `Directive.obey_eq_entered_iff` — when a file is entered
-/

namespace ShaderLang
namespace Directive

/-- The directives on conditionals. -/
def onConditionals : List Directive :=
  [.ifDefined, .ifNotDefined, .ifHolds, .elseIf, .otherwise, .endIf]

/-- The directive that a text starts with. -/
def ofText? (text : List Char) : Option Directive :=
  ofSpelling? (String.ofList (Text.splitWord text).1)

/-- The text starts with a directive on conditionals. -/
def isConditional (text : List Char) : Bool := (ofText? text).any (· ∈ onConditionals)

/-- The conditionals that a line on them leaves of the open ones, where some names are defined. There
are none if the line is refused. -/
def conditionals? (text : List Char) (cs : Conditionals) (ds : Defines) : Option Conditionals :=
  let rest := (Text.splitWord text).2
  match ofText? text with
  | some .ifDefined =>
    if Text.isName rest then some (cs.enter ⟨String.ofList rest, .defined, 0⟩ ds) else none
  | some .ifNotDefined =>
    if Text.isName rest then some (cs.enter ⟨String.ofList rest, .notDefined, 0⟩ ds) else none
  | some .ifHolds => (Condition.ofText? rest).map fun condition => cs.enter condition ds
  | some .elseIf =>
    if cs.isEmpty then none
    else (Condition.ofText? rest).map fun condition => cs.next condition ds
  | some .otherwise => if cs.isEmpty then none else some cs.last
  | some .endIf => if cs.isEmpty then none else some cs.tail
  | _ => none

/-- What comes of a line on conditionals, whether text is read or not. A condition that cannot be
read may leave its conditional open. -/
inductive Alters (j : Journal) (text : List Char) : Effect → Prop
  | altered {cs : Conditionals} (h : conditionals? text j.conditionals j.defines = some cs) :
      Alters j text (.went { j with conditionals := cs })
  | refused {cause : Cause} (cs : Conditionals)
      (h : conditionals? text j.conditionals j.defines = none) :
      Alters j text (.refused { j with conditionals := cs } cause)

/-- The file that a text names, if it includes one. -/
def included? (text : List Char) : Option String :=
  if ofText? text = some .include then fileName? (Text.splitWord text).2 else none

/-- The change of the defines that a line asks for. -/
def edit? (text : List Char) : Option Operation :=
  let rest := (Text.splitWord text).2
  match ofText? text with
  | some .define =>
    let (name, expr) := Text.splitWord rest
    if Text.isName name then some (.define (String.ofList name) (some (String.ofList expr)))
    else none
  | some .undefine =>
    if Text.isName rest then some (.undefine (String.ofList rest)) else none
  | _ => none

/-- What comes of a line that is read and is not about conditionals. -/
inductive Reads (includes : Includes) (depth : Nat) (j : Journal) (text : List Char) :
    Effect → Prop
  | edited {op : Operation} (h : edit? text = some op) :
      Reads includes depth j text (.went { j with defines := j.defines.operate op })
  | entered {name : String} {j' : Journal} {child : Frame} (hedit : edit? text = none)
      (h : included? text = some name) (henter : j.enter includes depth name = .ok (j', child)) :
      Reads includes depth j text (.entered j' child)
  | refused {cause : Cause} (hedit : edit? text = none)
      (h : ∀ name r, included? text = some name → j.enter includes depth name ≠ .ok r) :
      Reads includes depth j text (.refused j cause)

variable {includes : Includes} {depth : Nat} {j j' : Journal} {text : List Char} {child : Frame}

/-- Where no text is read, only directives on conditionals are obeyed. -/
theorem obey_of_disabled (htext : isConditional text = false) (h : j.isEnabled = false) :
    obey includes depth j text = .went j := by
  unfold isConditional ofText? at htext
  unfold obey
  simp only [h]
  cases hd : ofSpelling? (String.ofList (Text.splitWord text).1) with
  | none => rfl
  | some d =>
    rw [hd] at htext
    cases d with
    | «include» | define | undefine => rfl
    | _ => cases htext

/-- A line on conditionals changes them and nothing else, or is refused. -/
theorem alters_obey (includes : Includes) (depth : Nat) (j : Journal)
    (htext : isConditional text = true) : Alters j text (obey includes depth j text) := by
  unfold isConditional at htext
  have hword : ofSpelling? (String.ofList (Text.splitWord text).1) = ofText? text := rfl
  unfold obey
  simp only [hword]
  cases hd : ofText? text with
  | none => simp [hd] at htext
  | some d =>
    rw [hd] at htext
    cases d with
    | «include» | define | undefine => cases htext
    | ifDefined | ifNotDefined =>
      simp only [openNamed]
      split
      · next hname => exact .altered (by simp [conditionals?, hd, hname])
      · next hname => exact .refused j.conditionals (by simp [conditionals?, hd, hname])
    | ifHolds =>
      simp only [openCondition]
      split
      · next hread => exact .altered (by simp [conditionals?, hd, hread])
      · next hread => exact .refused _ (by simp [conditionals?, hd, hread])
    -- The last three need an open conditional.
    | elseIf =>
      simp only [needsOpen, continueWith]
      split
      · next hopen =>
        have hsome : j.conditionals.isEmpty = false := by simpa [Journal.hasConditional] using hopen
        split
        · next hread => exact .altered (by simp [conditionals?, hd, hsome, hread])
        · next hread =>
          exact .refused j.conditionals (by simp [conditionals?, hd, hread])
      · next hopen =>
        have hnone : j.conditionals.isEmpty = true := by simpa [Journal.hasConditional] using hopen
        exact .refused j.conditionals (by simp [conditionals?, hd, hnone])
    | otherwise | endIf =>
      simp only [needsOpen]
      split
      · next hopen =>
        have hsome : j.conditionals.isEmpty = false := by simpa [Journal.hasConditional] using hopen
        exact .altered (by simp [conditionals?, hd, hsome])
      · next hopen =>
        have hnone : j.conditionals.isEmpty = true := by simpa [Journal.hasConditional] using hopen
        exact .refused j.conditionals (by simp [conditionals?, hd, hnone])

/-- Directives on conditionals leave all else as it was. -/
theorem eq_of_obey_conditional (htext : isConditional text = true)
    (h : obey includes depth j text = .went j') :
    j' = { j with conditionals := j'.conditionals } := by
  have halters := alters_obey includes depth j htext
  rw [h] at halters
  cases halters with
  | altered => rfl

/-- Where text is read, a line that is not about conditionals changes the defines, goes into a file,
or is refused. -/
theorem reads_obey (htext : isConditional text = false) (henabled : j.isEnabled = true) :
    Reads includes depth j text (obey includes depth j text) := by
  unfold isConditional at htext
  have hword : ofSpelling? (String.ofList (Text.splitWord text).1) = ofText? text := rfl
  unfold obey
  simp only [hword, henabled, Bool.not_true, Bool.false_eq_true, if_false]
  cases hd : ofText? text with
  | none => exact .refused (by simp [edit?, hd]) (by simp [included?, hd])
  | some d =>
    rw [hd] at htext
    cases d with
    | «include» =>
      have hedit : edit? text = none := by simp [edit?, hd]
      have hincluded : included? text = fileName? (Text.splitWord text).2 := by
        simp [included?, hd]
      simp only
      split
      · next hname => exact .refused hedit (by simp [hincluded, hname])
      · next name hname =>
        split
        · next henter => exact .entered hedit (hincluded.trans hname) henter
        · next henter =>
          -- A line names one file, and that one cannot be entered.
          refine .refused hedit fun other r hother hok => ?_
          obtain rfl := Option.some.inj (hname.symm.trans (hincluded.symm.trans hother))
          rw [henter] at hok
          cases hok
    | define =>
      simp only
      split
      · next hname =>
        exact @Reads.edited _ _ _ _ (.define _ _) (by simp [edit?, hd, hname])
      · next hname => exact .refused (by simp [edit?, hd, hname]) (by simp [included?, hd])
    | undefine =>
      simp only
      split
      · next hname =>
        exact @Reads.edited _ _ _ _ (.undefine _) (by simp [edit?, hd, hname])
      · next hname => exact .refused (by simp [edit?, hd, hname]) (by simp [included?, hd])
    | _ => cases htext

/-- Where text is read, the other directives change the defines alone, and by the defines alone. -/
theorem obey_of_enabled (htext : isConditional text = false) (henabled : j.isEnabled = true)
    (h : obey includes depth j text = .went j') :
    j' = { j with defines := j'.defines } ∧
      ∀ (includes' : Includes) (depth' : Nat) (k : Journal), k.isEnabled = true →
        k.defines = j.defines →
        obey includes' depth' k text = .went { k with defines := j'.defines } := by
  have hreads := @reads_obey includes depth j text htext henabled
  rw [h] at hreads
  cases hreads with
  | edited hop =>
    refine ⟨rfl, fun includes' depth' k hk hdefines => ?_⟩
    have hother := @reads_obey includes' depth' k text htext hk
    -- The line asks for the same change there.
    generalize obey includes' depth' k text = effect at hother
    cases hother with
    | edited hop' =>
      obtain rfl := Option.some.inj (hop.symm.trans hop')
      rw [hdefines]
    | entered hedit | refused hedit =>
      rw [hedit] at hop
      cases hop

/-- What a directive on conditionals changes is decided by the defines and the conditionals. -/
theorem obey_conditional_congr (htext : isConditional text = true)
    (h : obey includes depth j text = .went j') (includes' : Includes) (depth' : Nat) {k : Journal}
    (hdefines : k.defines = j.defines) (hconditionals : k.conditionals = j.conditionals) :
    obey includes' depth' k text = .went { k with conditionals := j'.conditionals } := by
  have halters := alters_obey includes depth j htext
  rw [h] at halters
  cases halters with
  | altered hcs =>
    rw [← hdefines, ← hconditionals] at hcs
    have hother := alters_obey includes' depth' k htext
    generalize obey includes' depth' k text = effect at hother
    cases hother with
    | altered hcs' => rw [Option.some.inj (hcs'.symm.trans hcs)]
    | refused _ hnone => cases hcs.symm.trans hnone

/-- What a directive changes is decided by the defines and the conditionals. -/
theorem obey_eq_went_congr (h : obey includes depth j text = .went j') (includes' : Includes)
    (depth' : Nat) {k : Journal} (hdefines : k.defines = j.defines)
    (hconditionals : k.conditionals = j.conditionals) :
    obey includes' depth' k text =
      .went { k with defines := j'.defines, conditionals := j'.conditionals } := by
  cases htext : isConditional text with
  | true =>
    have hkept : j'.defines = k.defines := by rw [eq_of_obey_conditional htext h, hdefines]
    rw [obey_conditional_congr htext h includes' depth' hdefines hconditionals, hkept]
  | false =>
    -- The conditionals decide whether text is read.
    have hsame : k.isEnabled = j.isEnabled := congrArg Conditionals.isEnabled hconditionals
    cases henabled : j.isEnabled with
    | false =>
      rw [obey_of_disabled htext henabled] at h
      cases h
      rw [obey_of_disabled htext (hsame.trans henabled), ← hdefines, ← hconditionals]
    | true =>
      obtain ⟨hj, hall⟩ := obey_of_enabled htext henabled h
      have hkept : j'.conditionals = k.conditionals := by rw [hj, hconditionals]
      rw [hall includes' depth' k (hsame.trans henabled) hdefines, hkept]

/-- A directive that enters nothing changes the defines and the conditionals alone. -/
theorem eq_of_obey_eq_went (h : obey includes depth j text = .went j') :
    j' = { j with defines := j'.defines, conditionals := j'.conditionals } := by
  have hsame := @obey_eq_went_congr _ _ _ _ _ h includes depth j rfl rfl
  rw [h] at hsame
  exact Effect.went.inj hsame

theorem obey_conditional_ne_entered (htext : isConditional text = true) :
    obey includes depth j text ≠ .entered j' child := by
  intro h
  have halters := alters_obey includes depth j htext
  rw [h] at halters
  cases halters

/-- A line that names a file is not about conditionals and asks for no change. -/
theorem isConditional_of_included? {name : String} (h : included? text = some name) :
    isConditional text = false := by
  unfold included? at h
  split at h
  · next hd =>
    unfold isConditional
    rw [hd]
    rfl
  · cases h

theorem edit?_of_included? {name : String} (h : included? text = some name) :
    edit? text = none := by
  unfold included? at h
  split at h
  · next hd =>
    unfold edit?
    rw [hd]
  · cases h

/-- A file is entered by the directive that names it, where text is read. -/
theorem obey_eq_entered_iff :
    obey includes depth j text = .entered j' child ↔
      j.isEnabled = true ∧ ∃ name, included? text = some name ∧
        j.enter includes depth name = .ok (j', child) := by
  constructor
  · intro h
    cases htext : isConditional text with
    | true => exact absurd h (obey_conditional_ne_entered htext)
    | false =>
      cases henabled : j.isEnabled with
      | false =>
        rw [obey_of_disabled htext henabled] at h
        cases h
      | true =>
        have hreads := @reads_obey includes depth j text htext henabled
        rw [h] at hreads
        cases hreads with
        | entered _ hname henter => exact ⟨rfl, _, hname, henter⟩
  · rintro ⟨henabled, name, hname, henter⟩
    -- A line that names a file asks for no change and is not about conditionals.
    have hreads := @reads_obey includes depth j text (isConditional_of_included? hname) henabled
    generalize obey includes depth j text = effect at hreads
    cases hreads with
    | edited hedit =>
      rw [edit?_of_included? hname] at hedit
      cases hedit
    | entered _ hname' henter' =>
      obtain rfl := Option.some.inj (hname.symm.trans hname')
      rw [henter] at henter'
      cases henter'
      rfl
    | refused _ hnot => exact absurd henter (hnot name _ hname)

end Directive
end ShaderLang
