import Mathlib.Data.List.Basic
import Mathlib.Data.List.TakeWhile
import Mathlib.Data.Nat.Basic
import ShaderLang.OutputPath
import ShaderLang.Proofs.Text.Trim
/-!
# Outputs in a directory and without one

An input without a place for its output gives a file in the working directory, and with a directory
one in there. Both names are made of the name of the input. Without a directory the last dot of that
name starts the extension that is replaced; in a directory the extension is taken off first, and the
last dot of what is left starts another one. So the two agree just if the stem of the input has no
extension of its own and is no single dot, which would lead nowhere.

## Main definitions

* `Path.IsName` — a part of a path that is a name
* `Path.front` — a directory as it stands in front of a name

## Main results

* `Path.split?_front`, `Path.isName_of_fileName?` — paths that end in names
* `Path.withExtension_front` — another extension for a name in a directory
* `output_in_directory` — the output in a directory, and when it is named as it is without one
-/

namespace ShaderLang
namespace Path

/-! ## Names and directories -/

/-- A part of a path that is a name. -/
structure IsName (name : String) : Prop where
  ne_empty : name ≠ ""
  slash : '/' ∉ name.toList
  dot : name ≠ "."
  dots : name ≠ ".."

/-- A directory as it stands in front of a name. -/
def front (directory : String) : String :=
  if directory.isEmpty || directory.toList.getLast? == some '/' then directory
  else directory ++ "/"

variable {directory name path ext : String} {part before cs : List Char}

theorem join_eq (h : isAbsolute path = false) : join directory path = front directory ++ path := by
  unfold join front
  rw [h, Bool.false_or]
  by_cases hempty : directory.isEmpty
  · have hnil : directory = "" := String.isEmpty_iff.1 hempty
    simp [hnil]
  · by_cases hslash : directory.toList.getLast? == some '/'
    · simp [hempty, hslash]
    · simp [hempty, hslash]

theorem isAbsolute_of_not_mem (h : '/' ∉ path.toList) : isAbsolute path = false := by
  unfold isAbsolute
  cases hpath : path.toList with
  | nil => rfl
  | cons c cs =>
    rw [hpath, List.mem_cons, not_or] at h
    simpa using Ne.symm h.1

/-- Right in front of a name stands nothing, or a slash. -/
theorem front_eq (directory : String) :
    front directory = "" ∨ ∃ cs, (front directory).toList.reverse = '/' :: cs := by
  unfold front
  split
  · next h =>
    rcases Bool.or_eq_true_iff.1 h with hempty | hslash
    · exact .inl (String.isEmpty_iff.1 hempty)
    · obtain ⟨cs, hcs⟩ := List.getLast?_eq_some_iff.1 (beq_iff_eq.1 hslash)
      exact .inr ⟨cs.reverse, by simp [hcs]⟩
  · exact .inr ⟨directory.toList.reverse, by simp⟩

theorem head?_reverse_front {c : Char} (h : (front directory).toList.reverse.head? = some c) :
    c = '/' := by
  rcases front_eq directory with hempty | ⟨cs, hcs⟩
  · rw [hempty] at h
    cases h
  · rw [hcs] at h
    exact (Option.some.inj h).symm

/-! ## The last part of a path -/

section LastPart

variable (hslash : '/' ∉ part) (hbefore : ∀ c, before.head? = some c → c = '/')

include hslash hbefore

theorem takeWhile_part : (part ++ before).takeWhile (· != '/') = part :=
  Text.takeWhile_append_of_head (fun c hc => by simpa using fun h : c = '/' => hslash (h ▸ hc))
    fun c hc => by simp [hbefore c hc]

theorem dropWhile_part : (part ++ before).dropWhile (· != '/') = before :=
  Text.dropWhile_append_of_head (fun c hc => by simpa using fun h : c = '/' => hslash (h ▸ hc))
    fun c hc => by simp [hbefore c hc]

theorem lastName?_of_name (hne : part ≠ []) (hdot : part ≠ ['.']) (hdots : part ≠ ['.', '.']) :
    lastName? (part ++ before) = some (part, before) := by
  rw [lastName?]
  simp only [takeWhile_part hslash hbefore, dropWhile_part hslash hbefore, hne, hdot, hdots,
    or_self, if_false]

end LastPart

theorem lastName?_dots (hbefore : ∀ c, before.head? = some c → c = '/') :
    lastName? (['.', '.'] ++ before) = none := by
  have htake : (['.', '.'] ++ before).takeWhile (· != '/') = ['.', '.'] :=
    takeWhile_part (by decide) hbefore
  rw [lastName?]
  simp only [htake]
  simp

theorem lastName?_dot_slash : lastName? ('.' :: '/' :: cs) = lastName? cs := by
  have hdrop : ('.' :: '/' :: cs).dropWhile (· != '/') = '/' :: cs := rfl
  rw [lastName?, if_pos (.inr rfl)]
  split
  · next h => cases hdrop.symm.trans h
  · next h =>
    cases hdrop.symm.trans h
    rfl

theorem lastName?_dot : lastName? ['.'] = none := by
  have hdrop : ['.'].dropWhile (· != '/') = [] := rfl
  rw [lastName?, if_pos (.inr rfl)]
  split
  · rfl
  · next h => cases hdrop.symm.trans h

/-- What is found is a name, and no longer than the path together with what stands before it. -/
theorem name_of_lastName? (h : lastName? cs = some (part, before)) :
    (part ≠ [] ∧ '/' ∉ part ∧ part ≠ ['.'] ∧ part ≠ ['.', '.']) ∧
      part.length + before.length ≤ cs.length := by
  fun_induction lastName? cs with
  | case1 => cases h
  | case2 cs taken hskip c rest hdrop ih =>
    obtain ⟨hname, hle⟩ := ih h
    exact ⟨hname, hle.trans (length_lt_of_dropWhile hdrop).le⟩
  | case3 => cases h
  | case4 cs taken hskip hdots =>
    obtain ⟨rfl, rfl⟩ := Prod.mk.inj (Option.some.inj h)
    refine ⟨⟨fun hnil => hskip (.inl hnil), fun hslash => ?_, fun hdot => hskip (.inr hdot), hdots⟩,
      ?_⟩
    · simpa using List.mem_takeWhile_imp hslash
    · rw [← List.length_append, List.takeWhile_append_dropWhile]

/-- A directory and a name in it are split again. -/
theorem split?_front (h : IsName name) :
    split? (front directory ++ name) = some (front directory, name) := by
  have hrev : (front directory ++ name).toList.reverse =
      name.toList.reverse ++ (front directory).toList.reverse := by simp
  have hlit (s : String) (hs : name ≠ s) : name.toList.reverse ≠ s.toList.reverse := fun heq =>
    hs (String.toList_injective (List.reverse_injective heq))
  have hslash : '/' ∉ name.toList.reverse := by simpa using h.slash
  have hfront : ∀ c, (front directory).toList.reverse.head? = some c → c = '/' := fun _ =>
    head?_reverse_front
  have hlast := lastName?_of_name hslash hfront (hlit "" h.ne_empty) (hlit "." h.dot)
    (hlit ".." h.dots)
  rw [split?, hrev, hlast]
  simp

/-- What a path ends in is a name. -/
theorem isName_of_fileName? (h : fileName? path = some name) : IsName name := by
  obtain ⟨⟨dir, name⟩, hsplit, rfl⟩ := Option.map_eq_some_iff.1 h
  obtain ⟨⟨part, before⟩, hlast, heq⟩ := Option.map_eq_some_iff.1 hsplit
  obtain ⟨rfl, rfl⟩ := Prod.mk.inj heq
  obtain ⟨⟨hne, hslash, hdot, hdots⟩, -⟩ := name_of_lastName? hlast
  have hlit (s : String) (hs : part.reverse = s.toList) : part = s.toList.reverse := by
    rw [← hs, List.reverse_reverse]
  refine ⟨fun h => hne (hlit "" ?_), by simpa using hslash, fun h => hdot (hlit "." ?_),
    fun h => hdots (hlit ".." ?_)⟩ <;> rw [← h, String.toList_ofList]

/-! ## Stems -/

/-- The stem, a dot and the extension are the name. -/
theorem stem_append (name : String) :
    (stem name).toList ++ ((extension? name).map ('.' :: ·.toList)).getD [] = name.toList := by
  have h := stem_append_extension name.toList
  rw [stem, extension?, String.toList_ofList, Option.map_map]
  simpa [Function.comp_def] using h

theorem stem_eq_self_iff : stem name = name ↔ extension? name = none := by
  have h := stem_append name
  constructor
  · intro hstem
    cases hext : extension? name with
    | none => rfl
    | some ext =>
      rw [hext, hstem] at h
      simp at h
  · intro hext
    rw [hext] at h
    exact String.toList_injective (by simpa using h)

theorem stem_ne_empty (h : name ≠ "") : stem name ≠ "" := by
  rw [stem, splitDot]
  split
  · rwa [String.ofList_toList]
  · next hbefore =>
    intro hempty
    have hnil := congrArg String.toList hempty
    rw [String.toList_ofList] at hnil
    exact hbefore (List.reverse_eq_nil_iff.1 hnil)

theorem slash_not_mem_stem (h : IsName name) : '/' ∉ (stem name).toList := fun hmem =>
  h.slash (stem_append name ▸ List.mem_append_left _ hmem)

/-- The stem of a name is a name, unless it is one dot or two. -/
theorem isName_stem (h : IsName name) (hdot : stem name ≠ ".") (hdots : stem name ≠ "..") :
    IsName (stem name) := ⟨stem_ne_empty h.ne_empty, slash_not_mem_stem h, hdot, hdots⟩

/-- The stem of a name stays whole when it gets an extension in a directory: it has none of its own,
and is no dot that would lead nowhere. -/
def Whole (name : String) : Prop := extension? (stem name) = none ∧ stem name ≠ "."

instance (name : String) : Decidable (Whole name) := inferInstanceAs (Decidable (_ ∧ _))

theorem Whole.isName_stem (h : Whole name) (hname : IsName name) : IsName (stem name) := by
  refine Path.isName_stem hname h.2 fun hdots => ?_
  have hext := h.1
  rw [hdots] at hext
  exact absurd hext (by decide)

/-! ## Other extensions -/

/-- A name in a directory gets another extension in place of its own. -/
theorem withExtension_front (h : IsName name) (ext : String) :
    withExtension (front directory ++ name) ext =
      front directory ++ (stem name ++ "." ++ ext) := by
  rw [withExtension, split?_front h]
  simp [String.append_assoc]

theorem length_stem_le (name : String) : (stem name).length ≤ name.length := by
  have h := congrArg List.length (stem_append name)
  rw [List.length_append, String.length_toList, String.length_toList] at h
  omega

/-- Another extension is longer than the name by at most the dot and the extension. -/
theorem length_withExtension_le {part before : List Char}
    (h : lastName? path.toList.reverse = some (part, before)) (ext : String) :
    (withExtension path ext).length ≤ part.length + before.length + (1 + ext.length) := by
  have hsplit : split? path = some (String.ofList before.reverse, String.ofList part.reverse) := by
    rw [split?, h, Option.map_some]
  have hstem := length_stem_le (String.ofList part.reverse)
  rw [String.length_ofList, List.length_reverse] at hstem
  simp only [withExtension, hsplit, String.length_append, String.length_ofList,
    List.length_reverse]
  have hdot : ".".length = 1 := rfl
  omega

theorem withExtension_of_none (h : lastName? path.toList.reverse = none) (ext : String) :
    withExtension path ext = path := by
  rw [withExtension, split?, h, Option.map_none]

/-- One dot or two behind a directory are no name there. If they are followed at all, then by the
extension of a name that stands before them. -/
theorem length_withExtension_dots (h : name = "." ∨ name = "..") (ext : String) :
    (withExtension (front directory ++ name) ext).length <
      (front directory ++ (name ++ "." ++ ext)).length := by
  have hrev : (front directory ++ name).toList.reverse =
      name.toList.reverse ++ (front directory).toList.reverse := by simp
  have hlength : (front directory ++ (name ++ "." ++ ext)).length =
      (front directory).length + (name.length + (1 + ext.length)) := by
    have hdot : ".".length = 1 := rfl
    simp only [String.length_append, hdot, Nat.add_assoc]
  have hstays (hnone : lastName? (front directory ++ name).toList.reverse = none) :
      (withExtension (front directory ++ name) ext).length <
        (front directory ++ (name ++ "." ++ ext)).length := by
    rw [withExtension_of_none hnone, hlength, String.length_append]
    omega
  rcases h with rfl | rfl
  · rcases front_eq directory with hempty | ⟨cs, hcs⟩
    · exact hstays (by rw [hrev, hempty]; exact lastName?_dot)
    -- A single dot is passed over, and the directory gives the name.
    · have hpass : lastName? (front directory ++ ".").toList.reverse = lastName? cs := by
        rw [hrev, hcs]
        exact lastName?_dot_slash
      cases hlast : lastName? cs with
      | none => exact hstays (hpass.trans hlast)
      | some found =>
        obtain ⟨part, before⟩ := found
        have hle := length_withExtension_le (hpass.trans hlast) ext
        have hshort := (name_of_lastName? hlast).2
        have hfront := congrArg List.length hcs
        rw [List.length_reverse, String.length_toList, List.length_cons] at hfront
        have hdot : ".".length = 1 := rfl
        omega
  · exact hstays (by rw [hrev]; exact lastName?_dots fun c hc => head?_reverse_front hc)

end Path

open ShaderLang.Path

/-! ## Outputs -/

variable {isDirectory : String → Bool} {directory input name : String}

/-- Without a place for it, the output is the stem with the extension of compiled shaders. -/
theorem outputPath_none (h : fileName? input = some name) :
    outputPath isDirectory none input = stem name ++ "." ++ outputExtension := by
  have hwith := @withExtension_front "" _ (isName_of_fileName? h) outputExtension
  have hfront : front "" = "" := rfl
  rw [hfront, String.empty_append, String.empty_append] at hwith
  rw [outputPath, h, Option.getD_some, hwith]

theorem outputPath_directory (hdir : isDirectory directory = true)
    (h : fileName? input = some name) :
    outputPath isDirectory (some directory) input =
      withExtension (front directory ++ stem name) outputExtension := by
  have hslash := slash_not_mem_stem (isName_of_fileName? h)
  rw [outputPath]
  simp only [hdir, if_true, h, Option.map_some, Option.getD_some]
  rw [join_eq (isAbsolute_of_not_mem hslash)]

theorem join_output {stem : String} (h : '/' ∉ stem.toList) :
    join directory (stem ++ "." ++ outputExtension) =
      front directory ++ (stem ++ "." ++ outputExtension) := by
  refine join_eq (isAbsolute_of_not_mem ?_)
  simp only [String.toList_append, List.mem_append, not_or]
  exact ⟨⟨h, by decide⟩, by decide⟩

theorem output_inj {stem stem' : String} :
    front directory ++ (stem ++ "." ++ outputExtension) =
      front directory ++ (stem' ++ "." ++ outputExtension) ↔ stem = stem' := by
  rw [String.append_right_inj, String.append_left_inj, String.append_left_inj]

/-- In a directory the extension of the stem is replaced as well. -/
theorem outputPath_of_isName (hdir : isDirectory directory = true)
    (h : fileName? input = some name) (hstem : IsName (stem name)) :
    outputPath isDirectory (some directory) input =
      join directory (stem (stem name) ++ "." ++ outputExtension) := by
  rw [outputPath_directory hdir h, withExtension_front hstem,
    join_output (slash_not_mem_stem hstem)]

/-- In a directory the output is named as it is without one just if the stem of the input stays as it
is. -/
theorem outputPath_eq_join_iff (hdir : isDirectory directory = true)
    (h : fileName? input = some name) :
    outputPath isDirectory (some directory) input =
        join directory (outputPath isDirectory none input) ↔
      Whole name := by
  have hname := isName_of_fileName? h
  rw [outputPath_none h, join_output (slash_not_mem_stem hname)]
  -- A stem of dots leads out of the directory, and the path is shorter than one inside it.
  by_cases hdots : stem name = "." ∨ stem name = ".."
  · have hlt := @length_withExtension_dots directory _ hdots outputExtension
    constructor
    · intro heq
      rw [outputPath_directory hdir h] at heq
      exact absurd (congrArg String.length heq) (Nat.ne_of_lt hlt)
    · intro hwhole
      have hstem := hwhole.isName_stem hname
      exact (hdots.elim hstem.dot hstem.dots).elim
  · rw [not_or] at hdots
    have hstem := isName_stem hname hdots.1 hdots.2
    rw [outputPath_of_isName hdir h hstem, join_output (slash_not_mem_stem hstem), output_inj,
      stem_eq_self_iff]
    exact (and_iff_left hdots.1).symm

/-- Two inputs have the same output in a directory just if their stems are left with the same name
when their extensions are taken off too. -/
theorem outputPath_eq_iff {input' name' : String} (hdir : isDirectory directory = true)
    (h : fileName? input = some name) (hstem : IsName (stem name))
    (h' : fileName? input' = some name') (hstem' : IsName (stem name')) :
    outputPath isDirectory (some directory) input =
        outputPath isDirectory (some directory) input' ↔
      stem (stem name) = stem (stem name') := by
  rw [outputPath_of_isName hdir h hstem, outputPath_of_isName hdir h' hstem',
    join_output (slash_not_mem_stem hstem), join_output (slash_not_mem_stem hstem'), output_inj]

/-- An input with a name gives a file in the working directory that is named by its stem. In a
directory it gives a file of the same name just if the stem stays whole, and two inputs whose stems
do give different files there if the stems differ. Of other stems the extension is taken off as
well, so that two inputs give the same file in a directory just if the same is left of their stems;
a stem of one dot or two leads out of the directory. -/
theorem output_in_directory (hdir : isDirectory directory = true)
    (h : fileName? input = some name) :
    outputPath isDirectory none input = stem name ++ "." ++ outputExtension ∧
    (outputPath isDirectory (some directory) input =
      join directory (outputPath isDirectory none input) ↔ Whole name) ∧
    (IsName (stem name) → outputPath isDirectory (some directory) input =
      join directory (stem (stem name) ++ "." ++ outputExtension)) ∧
    ∀ input' name', fileName? input' = some name' →
      (Whole name → Whole name' → stem name ≠ stem name' →
        outputPath isDirectory (some directory) input ≠
          outputPath isDirectory (some directory) input') ∧
      (IsName (stem name) → IsName (stem name') →
        (outputPath isDirectory (some directory) input =
            outputPath isDirectory (some directory) input' ↔
          stem (stem name) = stem (stem name'))) := by
  have hname := isName_of_fileName? h
  refine ⟨outputPath_none h, outputPath_eq_join_iff hdir h, outputPath_of_isName hdir h,
    fun input' name' h' => ⟨fun hwhole hwhole' hne => ?_, fun hstem hstem' =>
      outputPath_eq_iff hdir h hstem h' hstem'⟩⟩
  have hname' := isName_of_fileName? h'
  rw [Ne, outputPath_eq_iff hdir h (hwhole.isName_stem hname) h' (hwhole'.isName_stem hname'),
    stem_eq_self_iff.2 hwhole.1, stem_eq_self_iff.2 hwhole'.1]
  exact hne

/-- A dot at the very start makes no extension, and other directories make no difference. -/
theorem output_in_directory_hidden :
    fileName? "shaders/.lit.bsl" = some ".lit.bsl" ∧ fileName? "lit.bsl/." = some "lit.bsl" ∧
      Whole ".lit.bsl" ∧ Whole "lit.bsl" ∧
      outputPath (· == "out") (some "out") "shaders/.lit.bsl" =
        join "out" (outputPath (· == "out") none "shaders/.lit.bsl") ∧
      outputPath (· == "out") (some "out") "shaders/.lit.bsl" ≠
        outputPath (· == "out") (some "out") "lit.bsl/." := by
  have hhidden : fileName? "shaders/.lit.bsl" = some ".lit.bsl" := by decide +kernel
  have hshown : fileName? "lit.bsl/." = some "lit.bsl" := by decide +kernel
  have hwhole : Whole ".lit.bsl" := by decide
  have hwhole' : Whole "lit.bsl" := by decide
  obtain ⟨-, hsame, -, hother⟩ :=
    @output_in_directory (· == "out") "out" _ _ (by decide) hhidden
  exact ⟨hhidden, hshown, hwhole, hwhole', hsame.2 hwhole,
    (hother _ _ hshown).1 hwhole hwhole' (by decide)⟩

/-- In a directory a stem with a dot loses what stands behind the dot, and two inputs that differ
there give the same file. -/
theorem output_loses_stem :
    fileName? "lit.a.bsl" = some "lit.a.bsl" ∧ fileName? "lit.b.bsl" = some "lit.b.bsl" ∧
      stem "lit.a.bsl" ≠ stem "lit.b.bsl" ∧
      outputPath (· == ".") none "lit.a.bsl" = "lit.a.bslc" ∧
      outputPath (· == ".") (some ".") "lit.a.bsl" ≠ join "." "lit.a.bslc" ∧
      outputPath (· == ".") (some ".") "lit.a.bsl" = "./lit.bslc" ∧
      outputPath (· == ".") (some ".") "lit.b.bsl" = "./lit.bslc" := by
  have hlit : outputPath (· == ".") (some ".") "lit.a.bsl" = "./lit.bslc" := by decide +kernel
  refine ⟨by decide +kernel, by decide +kernel, by decide, by decide +kernel, ?_, hlit,
    by decide +kernel⟩
  rw [hlit]
  decide

end ShaderLang
