import ShaderLang.Proofs.Text.Way
/-!
# Groups of one name

A way through a pattern passes the marks of groups. Those of one name come in pairs, and between the
marks of a pair lies a way through what the group is around. So the part of a match that a group
holds is passed over by such a way.

## Main definitions

* `Pattern.Lacks` — a pattern has no group of a name
* `Pattern.Groups` — the groups of a name are around one and the same pattern
* `Pattern.Paired` — the marks of a name come in pairs around ways

## Main results

* `Pattern.Way.paired` — the marks of a name on a way come in pairs
* `Match.exists_way_of_span?` — what a group of a match holds
-/

namespace ShaderLang
namespace Pattern

/-- A pattern has no group of a name. -/
def Lacks (name : String) : Pattern → Prop
  | one _ => True
  | seq a b => a.Lacks name ∧ b.Lacks name
  | alt a b => a.Lacks name ∧ b.Lacks name
  | many _ a => a.Lacks name
  | group other a => other ≠ name ∧ a.Lacks name
  | point _ => True

theorem Way.filter_marks {p : Pattern} {c d : Cursor} {ms : List Mark} {name : String}
    (h : p.Way c ms d) (hp : p.Lacks name) : ms.filter (·.name == name) = [] := by
  induction h with
  | one | done | point => rfl
  | seq _ _ iha ihb => rw [List.filter_append, iha hp.1, ihb hp.2, List.append_nil]
  | left _ ih => exact ih hp.1
  | right _ ih => exact ih hp.2
  | more _ _ _ iha ihmore => rw [List.filter_append, iha hp, ihmore hp, List.append_nil]
  | group _ ih => simp [ih hp.2, hp.1]

theorem lacks_lit (name s : String) : (lit s).Lacks name := by
  rw [lit]
  induction s.toList with
  | nil => trivial
  | cons x xs ih => exact ⟨trivial, ih⟩

/-- The groups of a name in a pattern, if there are any, are around one and the same pattern. -/
def Groups (name : String) (inner : Pattern) : Pattern → Prop
  | one _ => True
  | seq a b => Groups name inner a ∧ Groups name inner b
  | alt a b => Groups name inner a ∧ Groups name inner b
  | many _ a => Groups name inner a
  | group other a => if other = name then a = inner else Groups name inner a
  | point _ => True

theorem groups_of_lacks {name : String} {p : Pattern} (h : p.Lacks name) (inner : Pattern) :
    Groups name inner p := by
  induction p with
  | one | point => trivial
  | seq a b iha ihb | alt a b iha ihb => exact ⟨iha h.1, ihb h.2⟩
  | many lazy a ih => exact ih h
  | group other a ih =>
    rw [Groups, if_neg h.1]
    exact ih h.2

theorem groups_lit (name : String) (inner : Pattern) (s : String) : Groups name inner (lit s) :=
  groups_of_lacks (lacks_lit name s) inner

/-- The two marks of a group. -/
def groupMarks (name : String) (g : Cursor × Cursor) : List Mark :=
  [⟨name, true, g.1⟩, ⟨name, false, g.2⟩]

theorem filter_opens_groupMarks (name : String) (gs : List (Cursor × Cursor)) :
    (gs.flatMap (groupMarks name)).filter (·.opens) = gs.map fun g => ⟨name, true, g.1⟩ := by
  induction gs with
  | nil => rfl
  | cons g gs ih => simpa [groupMarks] using ih

theorem filter_closes_groupMarks (name : String) (gs : List (Cursor × Cursor)) :
    (gs.flatMap (groupMarks name)).filter (!·.opens) = gs.map fun g => ⟨name, false, g.2⟩ := by
  induction gs with
  | nil => rfl
  | cons g gs ih => simpa [groupMarks] using ih

/-- The marks of a name come in pairs, each around a way through a pattern behind a point. -/
def Paired (name : String) (inner : Pattern) (c : Cursor) (ms : List Mark) : Prop :=
  ∃ gs : List (Cursor × Cursor), ms.filter (·.name == name) = gs.flatMap (groupMarks name) ∧
    ∀ g ∈ gs, g.1 ∈ c.points ∧ ∃ ns, inner.Way g.1 ns g.2

variable {name : String} {inner p : Pattern} {c d : Cursor} {ms ns : List Mark}

theorem Paired.append (hd : d ∈ c.points) (hms : Paired name inner c ms)
    (hns : Paired name inner d ns) : Paired name inner c (ms ++ ns) := by
  obtain ⟨gs, hgs, hin⟩ := hms
  obtain ⟨gs', hgs', hin'⟩ := hns
  refine ⟨gs ++ gs', by rw [List.filter_append, hgs, hgs', List.flatMap_append], ?_⟩
  exact List.forall_mem_append.2
    ⟨hin, fun g hg => ⟨Cursor.mem_points_trans hd (hin' g hg).1, (hin' g hg).2⟩⟩

theorem Way.mem_points (h : p.Way c ms d) : d ∈ c.points := by
  obtain ⟨u, -, hspan⟩ := h.exists_mem_language
  exact hspan.mem_points

/-- On a way through a pattern the marks of a name come in pairs. -/
theorem Way.paired (hinner : inner.Lacks name) (h : p.Way c ms d) (hp : Groups name inner p) :
    Paired name inner c ms := by
  induction h with
  | one | done | point => exact ⟨[], rfl, List.forall_mem_nil _⟩
  | seq ha _ iha ihb => exact .append ha.mem_points (iha hp.1) (ihb hp.2)
  | left _ ih => exact ih hp.1
  | right _ ih => exact ih hp.2
  | more ha _ _ iha ihmore => exact .append ha.mem_points (iha hp) (ihmore hp)
  | @group other a c d ms ha ih =>
    rw [Groups] at hp
    by_cases hname : other = name
    · rw [if_pos hname] at hp
      subst hname hp
      refine ⟨[(c, d)], ?_, List.forall_mem_singleton.2 ⟨c.mem_points_self, ms, ha⟩⟩
      simp [ha.filter_marks hinner, groupMarks]
    · rw [if_neg hname] at hp
      simpa [Paired, hname] using ih hp

end Pattern

open Pattern

/-- What a group of a match holds is passed over by a way through what the group is around. -/
theorem Match.exists_way_of_span? {m : Match} {p inner : Pattern} {name : String} {s : Span}
    (h : p.Way m.start m.marks m.stop) (hp : Groups name inner p) (hinner : inner.Lacks name)
    (hs : m.span? name = some s) :
    ∃ c ∈ m.start.points, ∃ d ns, inner.Way c ns d ∧ s = ⟨c.offset, d.offset, c.textTo d⟩ := by
  obtain ⟨gs, hgs, hin⟩ := h.paired hinner hp
  simp only [span?, hgs, filter_opens_groupMarks, filter_closes_groupMarks,
    List.getLast?_map] at hs
  cases hlast : gs.getLast? with
  | none => simp [hlast] at hs
  | some g =>
    obtain ⟨hpoint, ns, hway⟩ := hin g (List.mem_of_getLast? hlast)
    refine ⟨g.1, hpoint, g.2, ns, hway, ?_⟩
    simpa [hlast] using hs.symm

end ShaderLang
