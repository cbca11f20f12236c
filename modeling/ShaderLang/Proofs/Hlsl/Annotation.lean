import ShaderLang.Hlsl.Declaration
import ShaderLang.Proofs.Hlsl.Cleaned
import ShaderLang.Proofs.Text.Group
/-!
# Attributes as they are read

A declaration is read together with the attributes in front of it, each of them in brackets and
without further ones inside. A word in whatever case says something of the declaration, with an
argument or without one, and the quotes around an argument may be missing.

## Main definitions

* `Hlsl.Attributes.Heeds` — a match that makes a difference to what attributes say
* `Hlsl.ReadAs` — an attribute that says something, with its name

## Main results

* `Hlsl.Attributes.heeds_iff` — just seven words make a difference
* `Hlsl.get_of_way_anyAttribute` — the name of an attribute stands behind its bracket
* `Hlsl.ReadAs.exists_eq` — an attribute that says something starts with one of the words
-/

namespace ShaderLang.Hlsl

open Pattern

/-! ## What attributes say -/

/-- The words that make a difference, in small letters. -/
def heeded : List String :=
  ["internal", "color", "hideininspector", "hdr", "name", "spriteuv", "alias"]

/-- A match makes a difference to what other attributes say. -/
def Attributes.Heeds (m : Match) : Prop := ∃ a : Attributes, a.add m ≠ a

variable {m : Match}

theorem Attributes.mem_heeded_of_heeds (h : Heeds m) :
    Text.small (String.ofList (m.get "name")) ∈ heeded := by
  obtain ⟨a, ha⟩ := h
  unfold add at ha
  dsimp only at ha
  split at ha
  case h_8 => exact absurd rfl ha
  all_goals
    next hname =>
      rw [hname]
      decide

theorem Attributes.heeds_of_mem_heeded (h : Text.small (String.ofList (m.get "name")) ∈ heeded) :
    Heeds m := by
  -- Without marks and with another text than the argument, all words make a difference.
  obtain ⟨s, hs⟩ := exists_ne (String.ofList (Text.trim (m.get "argument")))
  refine ⟨⟨.none, s, s, s⟩, fun hsame => ?_⟩
  unfold add at hsame
  simp only [heeded, List.mem_cons, List.not_mem_nil, or_false] at h
  rcases h with hname | hname | hname | hname | hname | hname | hname
  all_goals
    simp only [hname] at hsame
    exact absurd hsame (by simp [Marks.none, hs.symm])

/-- Just the heeded words make a difference, in whatever case. -/
theorem Attributes.heeds_iff : Heeds m ↔ Text.small (String.ofList (m.get "name")) ∈ heeded :=
  ⟨mem_heeded_of_heeds, heeds_of_mem_heeded⟩

/-- Whatever the case, there are characters that no heeded word has. -/
theorem not_mem_of_heeded {w : List Char} (h : Text.small (String.ofList w) ∈ heeded) {x : Char}
    (hx : ∀ word ∈ heeded, Text.smallLetter x ∉ word.toList) : x ∉ w := by
  intro hmem
  refine hx _ h ?_
  rw [Text.small, String.toList_ofList, String.toList_ofList]
  exact List.mem_map_of_mem hmem

/-! ## Where attributes are read -/

/-- What stands behind the name of an attribute. -/
def behindName : Pattern :=
  seqs [blanks,
    opt (seqs [lit "(", blanks, opt (lit "\""),
      group "argument" (lazyRun fun c => c != '"' && c != ')'),
      opt (lit "\""), blanks, lit ")"]),
    blanks, lit "]"]

theorem lacks_behindName : behindName.Lacks "name" := by
  simp [behindName, seqs, opt, blanks, run, lazyRun, Lacks, lacks_lit, Pattern.empty]

/-- The name of an attribute stands behind its bracket, and ends in front of what a bracket can
close. -/
theorem get_of_way_anyAttribute (h : anyAttribute.Way m.start m.marks m.stop) :
    ∃ b x r, AllBlank b ∧ behindName.startsBy x = true ∧
      m.start.rest = '[' :: (b ++ (m.get "name" ++ x :: r)) := by
  obtain ⟨_, c₁, _, hopen, h₁, hmarks⟩ := way_seqs_cons h
  obtain ⟨_, c₂, _, hblanks, h₂, rfl⟩ := way_seqs_cons h₁
  obtain ⟨_, c₃, ms, hname, hbehind, rfl⟩ := way_seqs_cons h₂
  obtain ⟨_, hinner, rfl⟩ := way_group hname
  obtain ⟨rfl, _, hu, hopen⟩ := hopen.over (unmarked_lit _)
  obtain ⟨rfl, b, hb, hblanks⟩ := hblanks.over trivial
  obtain ⟨rfl, n, -, hinner⟩ := hinner.over ⟨trivial, trivial⟩
  obtain rfl := (mem_language_lit _).1 hu
  have hget : m.get "name" = n := by
    have hothers := Way.filter_marks hbehind lacks_behindName
    simp [Match.get, Match.get?, Match.span?, hmarks, hinner.textTo, hothers]
  rcases Way.startsBy (p := behindName) hbehind with ⟨-, hnull⟩ | ⟨x, r, hx, hstart⟩
  · cases hnull
  · refine ⟨b, x, r, mem_language_blanks.1 hb, hstart, ?_⟩
    rw [hget, ← hx]
    simpa using (hopen.append (hblanks.append hinner)).rest

/-- A text in brackets, without further ones inside. -/
def Bracketed (u : List Char) : Prop := ∃ s, u = '[' :: (s ++ [']']) ∧ '[' ∉ s ∧ ']' ∉ s

/-- An attribute is read under a name, and says something. -/
structure ReadAs (u w : List Char) : Prop where
  bracketed : Bracketed u
  heeds : ∃ m ∈ anyAttribute.findAll u, m.get "name" = w ∧ Attributes.Heeds m

theorem readAs_of_any {u w : List Char} (h : Bracketed u)
    (hread : (anyAttribute.findAll u).any (·.get "name" == w) = true)
    (hw : Text.small (String.ofList w) ∈ heeded) : ReadAs u w := by
  obtain ⟨m, hm, hget⟩ := List.any_eq_true.1 hread
  obtain rfl := beq_iff_eq.1 hget
  exact ⟨h, m, hm, rfl, Attributes.heeds_iff.2 hw⟩

/-- An attribute that says something starts with a heeded word, in whatever case. -/
theorem ReadAs.exists_eq {u w : List Char} (h : ReadAs u w) :
    Text.small (String.ofList w) ∈ heeded ∧ ∃ b x r, AllBlank b ∧ behindName.startsBy x = true ∧
      u = '[' :: (b ++ (w ++ x :: r)) := by
  obtain ⟨m, hm, rfl, hheeds⟩ := h.heeds
  refine ⟨Attributes.heeds_iff.1 hheeds, ?_⟩
  obtain ⟨hstart, hway⟩ := way_of_mem_findAll hm
  obtain ⟨b, x, r, hb, hx, hrest⟩ := get_of_way_anyAttribute hway
  refine ⟨b, x, r, hb, hx, ?_⟩
  -- There is only one opening bracket, so that nothing stands in front of the match.
  obtain ⟨before, hbefore⟩ := Cursor.exists_spans_of_mem_points hstart
  obtain ⟨s, rfl, hs, -⟩ := h.bracketed
  have htext : '[' :: (s ++ [']']) = before ++ m.start.rest := hbefore.rest
  rw [hrest] at htext
  cases before with
  | nil => exact htext
  | cons y before =>
    obtain ⟨-, htext⟩ := List.cons.inj htext
    have hmem : '[' ∈ s ++ [']'] := htext ▸ List.mem_append_right before List.mem_cons_self
    simp [hs] at hmem

end ShaderLang.Hlsl
