import ShaderLang.Proofs.Document
import ShaderLang.Proofs.Hlsl.Quiet
import ShaderLang.Proofs.Inheritance.Walk
import ShaderLang.Proofs.Render.Assembly
/-!
# Captured code is reflected

The code of a pass is put together from captured blocks, each with the lines of the defines in front
of it. The reader of blocks has counted the braces of each, outside comments and strings; the
reflection counts those of the whole code again, outside comments and directive lines. The two agree
if strings are quiet and directive lines open as many braces as they close. A single brace in a
string is enough for a block that is read to be refused by the reflection.

## Main definitions

* `Document.MadeOf` — a text is put together from captured code
* `Scan.QuietCode` — the code captured by a reading is quiet

## Main results

* `PassSet.madeOf_code` — the code of a pass is put together from captured code
* `PassSet.reflects_quiet_code` — passes with quiet code are reflected
* `PassSet.reflection_misses_strings` — a brace in a string makes the reflection fail
-/

namespace ShaderLang

open Scan (Leads Point Turn)

/-! ## The code of passes -/

namespace Document

/-- A text is put together from the texts of code blocks. -/
def MadeOf (d : Document) (text : String) : Prop :=
  ∃ bs : List CodeBlock, (∀ b ∈ bs, b ∈ d.blocks ∧ b.kind = .code) ∧
    text = String.join (bs.map (·.text))

variable {d : Document}

theorem MadeOf.join {texts : List String} (h : ∀ text ∈ texts, d.MadeOf text) :
    d.MadeOf (String.join texts) := by
  induction texts with
  | nil => exact ⟨[], nofun, rfl⟩
  | cons text texts ih =>
    obtain ⟨bs, hbs, rfl⟩ := h text List.mem_cons_self
    obtain ⟨bs', hbs', hjoin⟩ := ih fun text htext => h text (List.mem_cons_of_mem _ htext)
    refine ⟨bs ++ bs', List.forall_mem_append.2 ⟨hbs, hbs'⟩, ?_⟩
    rw [List.map_append]
    simp [hjoin]

theorem madeOf_codeOf (statement : Tree) : d.MadeOf (d.codeOf statement) := by
  rw [codeOf]
  cases h : ((statement.find? .index).bind Value.int?).bind (d.code? .code) with
  | none => exact ⟨[], nofun, rfl⟩
  | some text =>
    obtain ⟨i, -, hi⟩ := Option.bind_eq_some_iff.1 h
    obtain ⟨b, hb, rfl⟩ := Option.map_eq_some_iff.1 hi
    have hfound := List.find?_some hb
    simp only [Bool.and_eq_true, beq_iff_eq] at hfound
    exact ⟨[b], by simp [List.mem_of_find?_eq_some hb, hfound.1], by simp⟩

theorem madeOf_code (c : Contribution) : d.MadeOf (c.code d) := by
  cases c with
  | shared statement => exact madeOf_codeOf statement
  | own body =>
    refine .join fun text htext => ?_
    obtain ⟨statement, -, rfl⟩ := List.mem_map.1 htext
    exact madeOf_codeOf statement

end Document

/-- The code of a pass is put together from captured code. -/
theorem PassSet.madeOf_code {doc : Document} {ds : List Declaration} {d : Declaration}
    {set : PassSet} (h : PassSet.ofDeclaration doc ds d = .ok set) {p : PassData}
    (hp : p ∈ set.passes) : doc.MadeOf p.code := by
  obtain ⟨is, -, rfl⟩ := Declaration.ofDeclaration_eq_ok_iff.1 h
  have hassembled := assembled ((sound_ofBodies doc _).at?_of_mem hp)
  rw [hassembled.code]
  refine .join fun text htext => ?_
  obtain ⟨c, -, rfl⟩ := List.mem_map.1 htext
  exact Document.madeOf_code c

/-! ## Quiet code -/

namespace Scan

/-- The strings in what is captured for code on the way from a point are quiet, and the lines of the
defines in front of it are legible. -/
def QuietCode (includes : Includes) (start : Point) : Prop :=
  ∀ q body, Leads includes start q → q.Captures .code body →
    Zone.code.Quiet body ∧ Hlsl.Legible q.scan.journal.defines.lines.toList

/-- What is captured at a point, if anything is, is quiet. -/
def Point.isQuiet (p : Point) : Bool :=
  match p.frame.rest, p.scan.blockKind? with
  | '\x7b' :: cs, some .code =>
    match Capture.read .plain 0 cs with
    | some (body, _) =>
      decide (Zone.code.Quiet body ∧ Hlsl.Legible p.scan.journal.defines.lines.toList)
    | none => true
  | _, _ => true

/-- The reading comes to an end within so many moves, and all that is captured is quiet. -/
def quietWithin (includes : Includes) : Nat → Point → Bool
  | 0, _ => false
  | n + 1, p => p.isQuiet &&
    match p.turn includes with
    | .on _ q => quietWithin includes n q
    | _ => true

theorem quietCode_of_quietWithin {includes : Includes} {n : Nat} {p : Point}
    (h : quietWithin includes n p = true) : QuietCode includes p := by
  induction n generalizing p with
  | zero => cases h
  | succ n ih =>
    obtain ⟨hquiet, hlater⟩ := Bool.and_eq_true_iff.1 h
    rintro q body ⟨k, names, hrun⟩ hcaptures
    cases hrun with
    | stay =>
      obtain ⟨rest, hrest, hread⟩ := hcaptures.brace
      rw [Point.isQuiet, hrest, hcaptures.kind] at hquiet
      simp only [hread, decide_eq_true_eq] at hquiet
      exact hquiet
    | on hturn hrun =>
      rw [hturn] at hlater
      exact ih hlater q body ⟨_, _, hrun⟩ hcaptures

end Scan

/-- What is captured is legible, and so are the lines of the defines in front of it. -/
theorem Scan.Taken.leaves {includes : Includes} {start : Point} {c : Taken}
    (hquiet : QuietCode includes start) (hleads : Leads includes start c.point)
    (hcaptures : c.point.Captures c.kind c.body) (hkind : c.kind = .code) :
    Capture.plain.Leaves 0 c.block.text.toList := by
  rw [hkind] at hcaptures
  obtain ⟨hbody, hdefines⟩ := hquiet _ _ hleads hcaptures
  obtain ⟨rest, -, hread⟩ := hcaptures.brace
  have hlegible : Hlsl.Legible c.body := ⟨Capture.read_append_tail hread [], hbody⟩
  rw [block, String.toList_append, String.toList_ofList]
  exact hdefines.leaves.append hlegible.leaves

/-- What is put together from quiet code has balanced braces without comments. -/
theorem Document.MadeOf.leaves {source : String} {defines : Table String} {includes : Includes}
    {doc : Document} (hread : Document.read source defines includes = .ok doc)
    (hquiet : Scan.QuietCode includes (Point.start (.ofTable defines) source)) {text : String}
    (h : doc.MadeOf text) : Capture.plain.Leaves 0 text.toList := by
  obtain ⟨frames, s, root, hprocess, -, rfl⟩ := Document.read_eq_ok_iff.1 hread
  obtain ⟨cs, last, hlogged, rfl⟩ := Scan.exists_logged hprocess
  obtain ⟨bs, hbs, rfl⟩ := h
  -- Each block is balanced whatever follows it, so the blocks can be taken one by one.
  induction bs with
  | nil => exact Capture.leaves_nil
  | cons b bs ih =>
    obtain ⟨⟨hb, hkind⟩, hlater⟩ := List.forall_mem_cons.1 hbs
    rw [hlogged.blocks] at hb
    obtain ⟨c, hc, rfl⟩ := List.mem_map.1 hb
    obtain ⟨hleads, hcaptures⟩ := hlogged.captures c hc
    rw [List.map_cons]
    simpa using (Scan.Taken.leaves hquiet hleads hcaptures hkind).append (ih hlater)

/-- The code of a pass is reflected if what was captured for code is quiet and directive lines open
as many braces as they close. -/
theorem PassSet.reflects_quiet_code {source : String} {defines : Table String}
    {includes : Includes} {doc : Document}
    (hread : Document.read source defines includes = .ok doc)
    (hquiet : Scan.QuietCode includes (Point.start (.ofTable defines) source))
    {ds : List Declaration} {d : Declaration} {set : PassSet}
    (hset : PassSet.ofDeclaration doc ds d = .ok set) {p : PassData} (hp : p ∈ set.passes)
    (heven : Hlsl.EvenDirectives p.code) (start : Nat) :
    ∃ r, Hlsl.reflect? p.code start = some r :=
  Option.isSome_iff_exists.1 <|
    Hlsl.isSome_reflect?_of_even heven ((madeOf_code hset hp).leaves hread hquiet).nest? start

/-- A block with a name in a string, a brace in a comment and braces on a directive line, behind the
line of a define. -/
theorem PassSet.reflects_quiet_code_commented :
    ∃ doc d set p, PassSet.ofDeclaration doc (Catalog.ofDocument doc).declarations d = .ok set ∧
      p ∈ set.passes ∧
      p.code = "#define FOG 1\n[name(\"t\")] int t; //\x7d\n#define E \x7b\x7d\n" ∧
      ∀ start, ∃ r, Hlsl.reflect? p.code start = some r := by
  have hread : ((Document.read
      "shader S \x7b code \x7b[name(\"t\")] int t; //\x7d\n#define E \x7b\x7d\n\x7d \x7d"
      (Table.empty.insert "FOG" "1") fun _ => none).toOption.bind fun doc =>
        (Catalog.ofDocument doc).declarations.getLast?.bind fun d =>
          (PassSet.ofDeclaration doc (Catalog.ofDocument doc).declarations d).toOption.map
            fun set => set.passes.map (·.code)) =
      some ["#define FOG 1\n[name(\"t\")] int t; //\x7d\n#define E \x7b\x7d\n"] := by decide +kernel
  have hquiet : Scan.QuietCode (fun _ => none) (Point.start
      (.ofTable (Table.empty.insert "FOG" "1"))
      "shader S \x7b code \x7b[name(\"t\")] int t; //\x7d\n#define E \x7b\x7d\n\x7d \x7d") :=
    Scan.quietCode_of_quietWithin (by decide +kernel : Scan.quietWithin _ 40 _ = true)
  obtain ⟨doc, hdoc, hrest⟩ := Option.bind_eq_some_iff.1 hread
  obtain ⟨d, -, hd⟩ := Option.bind_eq_some_iff.1 hrest
  obtain ⟨set, hset, hpasses⟩ := Option.map_eq_some_iff.1 hd
  obtain ⟨p, hp, hcode⟩ : ∃ p ∈ set.passes, p.code =
      "#define FOG 1\n[name(\"t\")] int t; //\x7d\n#define E \x7b\x7d\n" :=
    List.mem_map.1 (hpasses ▸ List.mem_singleton_self _)
  have h := Outcome.toOption_eq_some_iff.1 hset
  have heven : Hlsl.EvenDirectives p.code := by
    rw [hcode]
    decide +kernel
  exact ⟨doc, d, set, p, h, hp, hcode,
    reflects_quiet_code (Outcome.toOption_eq_some_iff.1 hdoc) hquiet h hp heven⟩

/-- The brace in the string is no brace to the reader of the block, but one to the reflection. -/
theorem PassSet.reflection_misses_strings :
    ∃ code, ((Document.read
        "shader S \x7b code \x7b [name(\"\x7b\")] int t; void vsmain() \x7b\x7d \x7d \x7d" .empty
      fun _ => none).toOption.bind fun doc =>
        (Catalog.ofDocument doc).declarations.getLast?.bind fun d =>
          (PassSet.ofDeclaration doc (Catalog.ofDocument doc).declarations d).toOption.map
            fun set => set.passes.map (·.code)) = some [code] ∧
      ∀ start, Hlsl.reflect? code start = none := by
  refine ⟨" [name(\"\x7b\")] int t; void vsmain() \x7b\x7d ", by decide +kernel, fun start => ?_⟩
  have hunbalanced :
      ¬ (Hlsl.reflect? " [name(\"\x7b\")] int t; void vsmain() \x7b\x7d " start).isSome := by
    rw [Hlsl.isSome_reflect?_iff]
    decide +kernel
  exact Option.not_isSome_iff_eq_none.1 hunbalanced

end ShaderLang
