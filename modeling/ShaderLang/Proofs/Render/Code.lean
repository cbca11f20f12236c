import Mathlib.Data.List.Basic
import ShaderLang.Proofs.Render.Assembly
/-!
# The code and the numbers of passes

A merge adds code to a pass in the order in which a body has it: the code that the body shares, and
that of its `pass` statements for this pass. A pass that a statement makes late has been kept the
shared code in front of the statement. A `pass` statement is for the pass of the number that it
names last; one that names none is for a pass of a number above all those before it in the body.

## Main definitions

* `Tree.writtenIndex?` — the number that a `pass` statement names last
* `Tree.codeFor` — the code that a body has for a pass

## Main results

* `PassSet.index_of_numbered` — the number of a `pass` statement
* `PassSet.merge_adds_code` — a merge adds to each pass the code that the body has for it
-/

namespace ShaderLang

/-- The number that a `pass` or `target` statement names last, if it names one. -/
def Tree.writtenIndex? (statement : Tree) : Option Int :=
  ((statement.declared.filter (·.kind = .index)).getLast?).bind (·.value.int?)

/-- The code that a body has for the pass of a number: that of its own `code` statements, and of
those in its `pass` statements for the number, in the order in which they are written. -/
def Tree.codeFor (d : Document) (body : Tree) (i : Nat) : String :=
  String.join ((body.contributions i).map (Contribution.code d))

/-- What is found first in a block is what is written last. -/
theorem Tree.writtenIndex?_eq_find? (statement : Tree) :
    statement.writtenIndex? = (statement.find? .index).bind Value.int? := by
  simp only [writtenIndex?, declared, Entry.declared, find?, Entry.find?, List.filter_reverse,
    List.getLast?_reverse, List.head?_filter, Option.bind_map]
  rfl

namespace PassSet

/-! ## The numbers of `pass` statements -/

theorem passIndex_eq (statement : Tree) (next : Nat) :
    passIndex statement next = (statement.writtenIndex?.map Int.toNat).getD next := by
  rw [passIndex, Tree.writtenIndex?_eq_find?]
  cases (statement.find? .index).bind Value.int? <;> rfl

/-- A `pass` statement has the number that it names, zero if that is negative. One that names none
has a number above all those before it. -/
theorem index_of_numbered {next i : Nat} {ss : List (Setting Tree)}
    {before later : List (Nat × Tree)} {statement : Tree}
    (h : numbered next ss = before ++ (i, statement) :: later) :
    (∀ n, statement.writtenIndex? = some n → i = n.toNat) ∧
      (statement.writtenIndex? = none → next ≤ i ∧ ∀ e ∈ before, e.1 < i) := by
  induction ss generalizing next before with
  | nil => simp [numbered] at h
  | cons s ss ih =>
    obtain ⟨kind, value⟩ := s
    rw [numbered] at h
    split at h
    · next other =>
      cases before with
      -- The statement is the first one here, with a number of its own or the next one.
      | nil =>
        obtain ⟨⟨rfl, rfl⟩, -⟩ := by simpa using h
        rw [passIndex_eq]
        refine ⟨fun n hn => by rw [hn]; rfl, fun hnone => ⟨?_, List.forall_mem_nil _⟩⟩
        rw [hnone]
        exact Nat.le_refl _
      | cons e before =>
        obtain ⟨rfl, hlater⟩ := List.cons.inj h
        obtain ⟨hnamed, hnone⟩ := ih hlater
        refine ⟨hnamed, fun hn => ?_⟩
        obtain ⟨hle, hbefore⟩ := hnone hn
        refine ⟨by omega, List.forall_mem_cons.2 ⟨by dsimp only; omega, hbefore⟩⟩
    · exact ih h

/-! ## The code of a merge -/

variable {set : PassSet} {d : Document} {body : Tree} {p q : PassData}

/-- A pass that a merge starts with goes on with the code that the body has for it. -/
theorem exists_of_mem_started (hnodup : (set.started.map (·.index)).Nodup)
    (hexplicit : ∀ e ∈ set.explicit, (at? set.started e.1).isSome) (hp : p ∈ set.started) :
    ∃ q ∈ (merge d set body).passes, q.index = p.index ∧
      q.code = p.code ++ body.codeFor d p.index := by
  have hmerge := at?_merge_started hexplicit d body p.index
  rw [existing, at?_of_mem hnodup hp, Option.some_or, Option.map_some] at hmerge
  obtain ⟨hmem, hindex⟩ := mem_of_at? hmerge
  exact ⟨_, hmem, hindex, code_mergedPass ..⟩

/-- A pass that a merge makes is made by a `pass` statement of the body and has the code that the
body has for it. -/
theorem code_of_made (hnodup : ((merge d set body).passes.map (·.index)).Nodup)
    (hexplicit : ∀ e ∈ set.explicit, (at? set.started e.1).isSome)
    (hq : q ∈ (merge d set body).passes) (hmade : ∀ p ∈ set.started, p.index ≠ q.index) :
    q.index ∈ body.passStatements.map (·.1) ∧ q.code = body.codeFor d q.index := by
  have hmerge := at?_merge_started hexplicit d body q.index
  have hnone : at? set.started q.index = none :=
    List.find?_eq_none.2 fun p hp => by simpa using hmade p hp
  rw [at?_of_mem hnodup hq, existing, hnone, Option.none_or] at hmerge
  cases hcontains : (body.passStatements.map (·.1)).contains q.index with
  | false =>
    rw [hcontains] at hmerge
    cases hmerge
  | true =>
    rw [hcontains] at hmerge
    have hcode := congrArg PassData.code (Option.some.inj hmerge)
    rw [code_mergedPass] at hcode
    exact ⟨List.contains_iff_mem.1 hcontains, hcode.trans (String.empty_append ..)⟩

/-- A merge adds to each pass the code that the body has for it, in the order of the body: to the
passes there were, or the pass of number zero if there was none, behind their own code, and to those
that `pass` statements of the body make as their whole code. A `pass` statement is for the pass of
the number that it names last, zero if that is negative; one that names none has a number above all
those before it in the body. Passes stay and have distinct numbers, and each statement has its
pass. -/
theorem merge_adds_code (d : Document) (set : PassSet) (body : Tree)
    (hnodup : (set.passes.map (·.index)).Nodup)
    (hexplicit : ∀ e ∈ set.explicit, ∃ p ∈ set.passes, p.index = e.1) :
    (∀ p ∈ set.started, ∃ q ∈ (merge d set body).passes, q.index = p.index ∧
      q.code = p.code ++ body.codeFor d p.index) ∧
    (∀ q ∈ (merge d set body).passes, (∀ p ∈ set.started, p.index ≠ q.index) →
      q.index ∈ body.passStatements.map (·.1) ∧ q.code = body.codeFor d q.index) ∧
    ((merge d set body).passes.map (·.index)).Nodup ∧
    (merge d set body).explicit = set.explicit ++ body.passStatements ∧
    (∀ e ∈ (merge d set body).explicit, ∃ p ∈ (merge d set body).passes, p.index = e.1) ∧
    ∀ before i statement later, body.passStatements = before ++ (i, statement) :: later →
      (∀ n, statement.writtenIndex? = some n → i = n.toNat) ∧
      (statement.writtenIndex? = none → ∀ e ∈ before, e.1 < i) := by
  -- No explicit statement is left without its pass when the set is started.
  have hmade : ∀ e ∈ set.explicit, (at? set.started e.1).isSome := by
    intro e he
    obtain ⟨p, hp, hindex⟩ := hexplicit e he
    rw [at?_started_of_at? (hindex ▸ at?_of_mem hnodup hp)]
    rfl
  have hmerged := nodup_merge hnodup d body
  refine ⟨fun p hp => exists_of_mem_started (nodup_started hnodup) hmade hp,
    fun q hq hne => code_of_made hmerged hmade hq hne, hmerged, explicit_merge d set body,
    fun e he => ?_, fun before i statement later h => ?_⟩
  · have hsome : (at? (merge d set body).passes e.1).isSome := by
      rw [at?_merge_started hmade, Option.isSome_map, isSome_existing]
      rw [explicit_merge, List.mem_append] at he
      exact he.imp (hmade e) fun he => List.contains_iff_mem.2 (List.mem_map_of_mem he)
    obtain ⟨p, hp⟩ := Option.isSome_iff_exists.1 hsome
    exact ⟨p, mem_of_at? hp⟩
  · obtain ⟨hnamed, hnone⟩ := index_of_numbered h
    exact ⟨hnamed, fun hn => (hnone hn).2⟩

/-! ### Passes out of order -/

/-- A `code` statement for the code block of a number. -/
def codeStatement (i : Int) : Setting Tree :=
  ⟨.code, .node (.node ⟨.code, [⟨.index, .leaf (.int i)⟩]⟩)⟩

/-- A `pass` statement with settings in the order in which they are written. -/
def passStatement (settings : List (Setting Tree)) : Setting Tree :=
  ⟨.pass, .node (.node ⟨.pass, settings.reverse⟩)⟩

/-- A pass of number one, shared code, a pass that names no number, and one of a negative number. -/
def interleavedBody : Tree :=
  .node ⟨.shader, [passStatement [⟨.index, .leaf (.int (-1))⟩], passStatement [codeStatement 1],
    codeStatement 0, passStatement [⟨.index, .leaf (.int 1)⟩, codeStatement 1]]⟩

/-- The code blocks of `interleavedBody`. -/
def interleavedDocument : Document := ⟨interleavedBody, [⟨.code, 0, "a"⟩, ⟨.code, 1, "b"⟩], []⟩

/-- A pass of an earlier merge, with code of its own. -/
def interleavedSet : PassSet := ⟨none, [{ PassData.fresh 0 with code := "x" }], []⟩

/-- The pass made before the shared code has it behind its own, and the one made after has it in
front. The negative number stands for the pass that there was. -/
theorem merge_adds_code_interleaved :
    (interleavedSet.passes.map (·.index)).Nodup ∧
    interleavedBody.passStatements.map (·.1) = [1, 2, 0] ∧
    ∀ e ∈ [(0, "xa"), (1, "ba"), (2, "ab")],
      ∃ q ∈ (merge interleavedDocument interleavedSet interleavedBody).passes,
        q.index = e.1 ∧ q.code = e.2 := by
  have hnodup : (interleavedSet.passes.map (·.index)).Nodup := by decide
  have hstatements : interleavedBody.passStatements.map (·.1) = [1, 2, 0] := by decide
  obtain ⟨hstarted, hmade, -, hexplicit, hpass, -⟩ :=
    merge_adds_code interleavedDocument interleavedSet interleavedBody hnodup nofun
  -- These numbers are new to the set, so that their passes have the code of the body alone.
  have hnew (i : Nat) (hi : i ∈ [1, 2]) :
      ∃ q ∈ (merge interleavedDocument interleavedSet interleavedBody).passes,
        q.index = i ∧ q.code = interleavedBody.codeFor interleavedDocument i := by
    have hmem : i ∈ interleavedBody.passStatements.map (·.1) := by
      rw [hstatements]
      grind
    obtain ⟨e, he, rfl⟩ := List.mem_map.1 hmem
    obtain ⟨q, hq, hindex⟩ := hpass e (hexplicit ▸ he)
    refine ⟨q, hq, hindex, hindex ▸ (hmade q hq ?_).2⟩
    rw [hindex]
    exact List.forall_mem_singleton.2 fun h => by
      rw [← h] at hi
      exact absurd hi (by decide)
  have hone : interleavedBody.codeFor interleavedDocument 1 = "ba" := by decide
  have htwo : interleavedBody.codeFor interleavedDocument 2 = "ab" := by decide
  have hzero : "x" ++ interleavedBody.codeFor interleavedDocument 0 = "xa" := by decide
  obtain ⟨p, hp, hindex, hcode⟩ := hstarted _ (List.mem_singleton_self _)
  refine ⟨hnodup, hstatements, List.forall_mem_cons.2 ⟨⟨p, hp, hindex, hcode.trans hzero⟩, ?_⟩⟩
  exact List.forall_mem_cons.2 ⟨hone ▸ hnew 1 (by decide),
    List.forall_mem_singleton.2 (htwo ▸ hnew 2 (by decide))⟩

end PassSet
end ShaderLang
