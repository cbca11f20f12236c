import Mathlib.Algebra.Order.BigOperators.Group.List
import Mathlib.Algebra.Order.Ring.Nat
import Mathlib.Data.Finset.Card
import Mathlib.Logic.Relation
import ShaderLang.Proofs.Hlsl.WellFormed
import ShaderLang.Param.Registration
/-!
# Sizes of structs

The size of a struct is a sum over its members, and that of a struct in it is a sum again. If no
struct holds itself, the structs on the way down are all different, so that the bound on the depth
is never met. The sums that are cut to 32 bits step by step are the whole sums, cut once; so sums
that fit are the sizes. An array of variables counts with all its elements. An array of structs
counts as one struct, so that the sizes are short wherever a struct that takes bytes is nested as
an array.

## Main definitions

* `StructInfo.Nests`, `StructInfo.Acyclic` — a struct in another one, and no struct within itself
* `StructInfo.SumsOver` — sizes that are sums over the members
* `StructInfo.sumTo` — the sums over the members, down to a depth
* `StructMember.counted` — how often a member counts

## Main results

* `StructInfo.structSizeTo_eq_wrap` — sizes are sums cut to 32 bits
* `StructInfo.Acyclic.structSizeTo_eq` — the bound on the depth is not met
* `StructInfo.Acyclic.sumsOver_sumTo`, `StructInfo.Acyclic.eq_of_sumsOver` — the sums down to as
  many structs as there are look into all of them, and no other sizes do
* `StructInfo.structSize_of_acyclic` — sizes of structs, and when arrays of structs count in full
* `StructInfo.structSize_misses_array` — an array of structs that counts once
-/

namespace ShaderLang

/-- The bytes of one element of a member, where the structs have the given sizes. -/
def StructMember.elementSize (size : Nat → Nat) (m : StructMember) : Nat :=
  match m.kind with
  | .variable type => type.paramType.size
  | .struct i => size i

/-- How often a member counts: an array of structs counts once. -/
def StructMember.counted (m : StructMember) : Nat :=
  match m.kind with
  | .variable _ => m.arraySize
  | .struct _ => 1

namespace StructInfo

/-- The members of a struct; one that is not there has none. -/
def membersAt (structs : List StructInfo) (i : Nat) : List StructMember :=
  structs[i]?.elim [] members

/-- The struct `j` is nested in the struct `i`. -/
def Nests (structs : List StructInfo) (i j : Nat) : Prop :=
  ∃ m ∈ membersAt structs i, m.kind = .struct j

/-- No struct holds itself, not even by way of others. -/
def Acyclic (structs : List StructInfo) : Prop :=
  ∀ i, ¬ Relation.TransGen (Nests structs) i i

/-- Every size is the sum of the elements of all members, with so many elements of each. -/
def SumsOver (structs : List StructInfo) (count : StructMember → Nat) (size : Nat → Nat) : Prop :=
  ∀ i, size i = ((membersAt structs i).map fun m => m.elementSize size * count m).sum

variable {structs : List StructInfo} {i j depth : Nat}

/-! ## Structs on the way down -/

theorem lt_of_mem_membersAt {m : StructMember} (hm : m ∈ membersAt structs i) :
    i < structs.length := by
  by_contra hle
  rw [membersAt, List.getElem?_eq_none (Nat.le_of_not_lt hle)] at hm
  cases hm

theorem Nests.lt (h : Nests structs i j) : i < structs.length := by
  obtain ⟨m, hm, -⟩ := h
  exact lt_of_mem_membersAt hm

theorem acyclic_of_descending (h : Reflection.Descending structs) : Acyclic structs := by
  have hlt : ∀ i j, Nests structs i j → j < i := by
    rintro i j ⟨m, hm, hkind⟩
    cases hinfo : structs[i]? with
    | none =>
      rw [membersAt, hinfo] at hm
      cases hm
    | some info =>
      rw [membersAt, hinfo] at hm
      exact h i info hinfo m hm j hkind
  intro i hi
  have hself : ∀ {j}, Relation.TransGen (Nests structs) i j → j < i := by
    intro j hj
    induction hj with
    | single hstep => exact hlt _ _ hstep
    | tail _ hstep ih => exact (hlt _ _ hstep).trans ih
  exact Nat.lt_irrefl i (hself hi)

open Classical in
/-- The structs that are met on the way down from a struct, itself included. -/
noncomputable def below (structs : List StructInfo) (i : Nat) : Finset Nat :=
  (Finset.range structs.length).filter (Relation.ReflTransGen (Nests structs) i)

theorem mem_below : j ∈ below structs i ↔
    j < structs.length ∧ Relation.ReflTransGen (Nests structs) i j := by
  simp [below]

theorem card_below_le (structs : List StructInfo) (i : Nat) :
    (below structs i).card ≤ structs.length := by
  have hsub : below structs i ⊆ Finset.range structs.length := fun j hj =>
    Finset.mem_range.2 (mem_below.1 hj).1
  exact (Finset.card_le_card hsub).trans_eq (Finset.card_range _)

/-- From a nested struct fewer structs are met, since the outer one is not met again. -/
theorem Acyclic.card_below_lt (h : Acyclic structs) (hij : Nests structs i j) :
    (below structs j).card < (below structs i).card := by
  refine Finset.card_lt_card ⟨fun k hk => ?_, fun hsub => ?_⟩
  · obtain ⟨hlt, hreach⟩ := mem_below.1 hk
    exact mem_below.2 ⟨hlt, hreach.head hij⟩
  · obtain ⟨-, hback⟩ := mem_below.1 (hsub (mem_below.2 ⟨hij.lt, .refl⟩))
    exact h i (.head' hij hback)

/-! ## Sums that are not cut -/

/-- The sums over the members, looking into structs at most `depth` deep. -/
def sumTo (structs : List StructInfo) : Nat → Nat → Nat
  | 0, _ => 0
  | depth + 1, i =>
    ((membersAt structs i).map fun m => m.elementSize (sumTo structs depth) * m.counted).sum

/-- A sum that is cut at every step is the whole sum, cut once. -/
theorem foldr_wrap {α : Type} (f : α → Nat) (l : List α) :
    (l.map fun a => Word.wrap (f a)).foldr (fun a b => Word.wrap (a + b)) 0 =
      Word.wrap (l.map f).sum := by
  induction l with
  | nil => rfl
  | cons a l ih =>
    rw [List.map_cons, List.foldr_cons, ih, Word.wrap_add_wrap, List.map_cons, List.sum_cons]

/-- Sizes are sums cut to 32 bits. -/
theorem structSizeTo_eq_wrap (structs : List StructInfo) (depth i : Nat) :
    structSizeTo structs depth i = Word.wrap (sumTo structs depth i) := by
  induction depth generalizing i with
  | zero => rfl
  | succ depth ih =>
    rw [structSizeTo, sumTo, membersAt]
    cases structs[i]? with
    | none => rfl
    | some info =>
      rw [Option.elim_some, ← foldr_wrap]
      refine congrArg (List.foldr _ 0) (List.map_congr_left fun m _ => ?_)
      unfold StructMember.elementSize StructMember.counted
      cases m.kind with
      | «variable» type => rfl
      | struct j => rw [Nat.mul_one, ← ih]

/-! ## The bound on the depth -/

/-- Elements have the same size where all nested structs have. -/
theorem elementSize_congr {size size' : Nat → Nat} {m : StructMember}
    (hm : m ∈ membersAt structs i) (h : ∀ j, Nests structs i j → size j = size' j) :
    m.elementSize size = m.elementSize size' := by
  unfold StructMember.elementSize
  split
  · rfl
  · next j hkind => exact h j ⟨m, hm, hkind⟩

/-- One level more makes no difference where no more structs are met. -/
theorem Acyclic.sumTo_succ_eq (h : Acyclic structs) (hdepth : (below structs i).card ≤ depth) :
    sumTo structs (depth + 1) i = sumTo structs depth i := by
  induction depth generalizing i with
  | zero =>
    -- A struct that is there is met on the way down from itself.
    have hout : membersAt structs i = [] := by
      by_contra hne
      obtain ⟨m, hm⟩ := List.exists_mem_of_ne_nil _ hne
      have hmem : i ∈ below structs i := mem_below.2 ⟨lt_of_mem_membersAt hm, .refl⟩
      rw [Finset.card_eq_zero.1 (Nat.le_zero.1 hdepth)] at hmem
      exact absurd hmem (Finset.notMem_empty i)
    simp only [sumTo, hout, List.map_nil, List.sum_nil]
  | succ depth ih =>
    rw [sumTo, sumTo]
    refine congrArg List.sum (List.map_congr_left fun m hm => ?_)
    rw [elementSize_congr hm fun j hj => ih (i := j) ?_]
    exact Nat.le_of_lt_succ ((h.card_below_lt hj).trans_le hdepth)

/-- The bound on the depth is not met. -/
theorem Acyclic.sumTo_eq (h : Acyclic structs) (hdepth : structs.length ≤ depth) :
    sumTo structs depth i = sumTo structs structs.length i := by
  induction depth, hdepth using Nat.le_induction with
  | base => rfl
  | succ depth hle ih => exact (h.sumTo_succ_eq ((card_below_le structs i).trans hle)).trans ih

theorem Acyclic.structSize_eq_wrap (h : Acyclic structs) (i : Nat) :
    structSize structs i = Word.wrap (sumTo structs structs.length i) := by
  rw [structSize, structSizeTo_eq_wrap, h.sumTo_eq (Nat.le_succ _)]

theorem Acyclic.structSizeTo_eq (h : Acyclic structs) (hdepth : structs.length ≤ depth) :
    structSizeTo structs depth i = structSize structs i := by
  rw [h.structSize_eq_wrap, structSizeTo_eq_wrap, h.sumTo_eq hdepth]

/-! ## Sizes are sums -/

theorem Acyclic.sumsOver_sumTo (h : Acyclic structs) :
    SumsOver structs StructMember.counted (sumTo structs structs.length) := by
  intro i
  rw [← h.sumTo_eq (Nat.le_succ _), sumTo]

/-- There is at most one way to give all structs sizes that are such sums. -/
theorem Acyclic.eq_of_sumsOver (h : Acyclic structs) {count : StructMember → Nat}
    {size size' : Nat → Nat} (hsize : SumsOver structs count size)
    (hsize' : SumsOver structs count size') : size = size' := by
  funext i
  induction hcard : (below structs i).card using Nat.strongRecOn generalizing i with
  | ind n ih =>
    subst hcard
    rw [hsize i, hsize' i]
    refine congrArg List.sum (List.map_congr_left fun m hm => ?_)
    rw [elementSize_congr hm fun j hj => ih _ (h.card_below_lt hj) j rfl]

/-! ## Arrays of structs -/

/-- A struct that is nested as an array of several takes no bytes. -/
def OnlySingle (structs : List StructInfo) : Prop :=
  ∀ i, ∀ m ∈ membersAt structs i, ∀ j, m.kind = .struct j →
    m.arraySize = 1 ∨ structSize structs j = 0

/-- Sums with terms that are at most those of another sum are equal only term by term. -/
theorem sum_map_eq_iff_of_le {α : Type} {l : List α} {f g : α → Nat} (h : ∀ x ∈ l, f x ≤ g x) :
    (l.map f).sum = (l.map g).sum ↔ ∀ x ∈ l, f x = g x := by
  induction l with
  | nil => simp
  | cons x l ih =>
    obtain ⟨hx, hl⟩ := List.forall_mem_cons.1 h
    have hle : (l.map f).sum ≤ (l.map g).sum := List.sum_le_sum hl
    rw [List.forall_mem_cons, ← ih hl, List.map_cons, List.map_cons, List.sum_cons, List.sum_cons]
    omega

/-- A member that is no empty array counts at most as often as it has elements. -/
theorem elementSize_mul_counted_le {size : Nat → Nat} {m : StructMember}
    (hpos : ∀ j, m.kind = .struct j → 0 < m.arraySize) :
    m.elementSize size * m.counted ≤ m.elementSize size * m.arraySize := by
  unfold StructMember.counted
  split
  · exact Nat.le_refl _
  · next j hkind => exact Nat.mul_le_mul_left _ (hpos j hkind)

theorem elementSize_mul_counted_eq_iff {size : Nat → Nat} {m : StructMember} :
    m.elementSize size * m.counted = m.elementSize size * m.arraySize ↔
      ∀ j, m.kind = .struct j → m.arraySize = 1 ∨ size j = 0 := by
  unfold StructMember.counted StructMember.elementSize
  cases m.kind with
  | «variable» type => simp
  | struct j =>
    simp only [MemberKind.struct.injEq, forall_eq', Nat.mul_one]
    rw [eq_comm, mul_right_eq_self₀]

/-- Where no array of structs is empty, the elements of all members count in full just if no struct
that takes bytes is nested as an array of several. -/
theorem sumsOver_arraySize_iff
    (hsums : SumsOver structs StructMember.counted (structSize structs))
    (hpos : ∀ i, ∀ m ∈ membersAt structs i, ∀ j, m.kind = .struct j → 0 < m.arraySize) :
    SumsOver structs StructMember.arraySize (structSize structs) ↔ OnlySingle structs := by
  refine forall_congr' fun i => ?_
  rw [hsums i, sum_map_eq_iff_of_le fun m hm => elementSize_mul_counted_le (hpos i m hm)]
  exact forall₂_congr fun m _ => elementSize_mul_counted_eq_iff

/-- If no struct holds itself, then the bound on the depth is not met, however many structs there
are. There is one way to give each struct a size that is the sum over its members, by way of all
structs in it, where an element of a variable counts for each element of an array, and a struct
counts once. Sizes are these sums, cut to 32 bits; and if the sums fit, they are the sizes. So all
elements of all members count, where no array of structs is empty, just if no struct that takes
bytes is nested as an array of several. -/
theorem structSize_of_acyclic (h : Acyclic structs) :
    (∀ depth i, structs.length ≤ depth →
      structSizeTo structs depth i = structSize structs i) ∧
    ∃ sums, (∀ size, SumsOver structs StructMember.counted size ↔ size = sums) ∧
      (∀ i, structSize structs i = Word.wrap (sums i)) ∧
      ((∀ i, sums i < Word.limit 4) →
        (∀ size, SumsOver structs StructMember.counted size ↔ size = structSize structs) ∧
        ((∀ i, ∀ m ∈ membersAt structs i, ∀ j, m.kind = .struct j → 0 < m.arraySize) →
          (SumsOver structs StructMember.arraySize (structSize structs) ↔
            OnlySingle structs))) := by
  have honly : ∀ size, SumsOver structs StructMember.counted size ↔
      size = sumTo structs structs.length := by
    refine fun size => ⟨fun hsize => h.eq_of_sumsOver hsize h.sumsOver_sumTo, ?_⟩
    rintro rfl
    exact h.sumsOver_sumTo
  refine ⟨fun depth i => h.structSizeTo_eq, _, honly, h.structSize_eq_wrap, fun hfits => ?_⟩
  -- Sums that fit are not cut.
  have hsame : sumTo structs structs.length = structSize structs := funext fun i => by
    rw [h.structSize_eq_wrap, Word.wrap_of_lt (hfits i)]
  rw [hsame] at honly
  exact ⟨honly, sumsOver_arraySize_iff ((honly _).2 rfl)⟩

/-- A struct within a struct, beside an array of variables. -/
def boxedLight : List StructInfo :=
  [⟨"Light", [⟨"position", .variable .float3, 1⟩, ⟨"radius", .variable .float, 2⟩]⟩,
    ⟨"Box", [⟨"light", .struct 0, 1⟩, ⟨"id", .variable .int, 1⟩]⟩]

theorem structSize_of_acyclic_boxed :
    Acyclic boxedLight ∧
      (∀ i, ∀ m ∈ membersAt boxedLight i, ∀ j, m.kind = .struct j → 0 < m.arraySize) ∧
      structSize boxedLight 1 = 24 ∧
      SumsOver boxedLight StructMember.arraySize (structSize boxedLight) := by
  have hmembers : ∀ i, ∀ m ∈ membersAt boxedLight i, ∀ j, m.kind = .struct j →
      j < i ∧ m.arraySize = 1 := by
    rintro (_ | _ | i) m hm j hkind
    · simp [membersAt, boxedLight] at hm
      rcases hm with rfl | rfl <;> cases hkind
    · simp [membersAt, boxedLight] at hm
      rcases hm with rfl | rfl <;> cases hkind
      exact ⟨by decide, rfl⟩
    · simp [membersAt, boxedLight] at hm
  have hacyclic : Acyclic boxedLight := acyclic_of_descending fun k info hinfo m hm j hkind =>
    (hmembers k m (by rwa [membersAt, hinfo]) j hkind).1
  have hpos : ∀ i, ∀ m ∈ membersAt boxedLight i, ∀ j, m.kind = .struct j → 0 < m.arraySize :=
    fun i m hm j hkind => (hmembers i m hm j hkind).2.symm ▸ Nat.one_pos
  obtain ⟨-, sums, honly, -, hfits⟩ := structSize_of_acyclic hacyclic
  have hsums : SumsOver boxedLight StructMember.counted fun i => [20, 24].getD i 0 := by
    rintro (_ | _ | i) <;> rfl
  have hfew : ∀ i, sums i < Word.limit 4 := by
    rw [← (honly _).1 hsums]
    rintro (_ | _ | i) <;> simp
  refine ⟨hacyclic, hpos, by decide, ((hfits hfew).2 hpos).2 ?_⟩
  exact fun i m hm j hkind => .inl (hmembers i m hm j hkind).2

/-- An array of two structs within a struct. -/
def pairedLights : String :=
  "struct Light \x7b float power; \x7d;\nstruct Pair \x7b Light lights[2]; \x7d;\nPair gPair;\n"

/-- The two elements of the array take eight bytes, and four are registered. -/
theorem structSize_misses_array :
    ∃ r, Hlsl.reflect? pairedLights 0 = some r ∧ Acyclic r.structs ∧
      ((membersAt r.structs 1).map fun m =>
        m.elementSize (structSize r.structs) * m.arraySize).sum = 8 ∧
      structSize r.structs 1 = 4 ∧
      ((Params.empty.register true r).1.data.get? "gPair").map DataParam.elementSize = some 4 ∧
      ¬ SumsOver r.structs StructMember.arraySize (structSize r.structs) := by
  have hread : (Hlsl.reflect? pairedLights 0).map (fun r =>
      (((membersAt r.structs 1).map fun m =>
        m.elementSize (structSize r.structs) * m.arraySize).sum, structSize r.structs 1,
        ((Params.empty.register true r).1.data.get? "gPair").map DataParam.elementSize)) =
      some (8, 4, some 4) := by decide +kernel
  obtain ⟨r, hr, hparts⟩ := Option.map_eq_some_iff.1 hread
  obtain ⟨hsum, hsize, hentry⟩ : _ = 8 ∧ structSize r.structs 1 = 4 ∧ _ = some 4 := by
    simpa only [Prod.mk.injEq] using hparts
  refine ⟨r, hr, acyclic_of_descending (Hlsl.reflect?_wellFormed hr).members, hsum, hsize, hentry,
    fun hsums => ?_⟩
  -- The registered size would have to be the sum over the members.
  have hfull := (hsums 1).trans hsum
  omega

end StructInfo
end ShaderLang
