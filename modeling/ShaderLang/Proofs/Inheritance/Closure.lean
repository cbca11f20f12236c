import Mathlib.Data.List.Basic
import Mathlib.Data.List.Range
import Mathlib.Data.List.Nodup
import ShaderLang.Catalog
/-!
# The mixins that a declaration inherits from

The names that a declaration includes mean mixins, these include names themselves, and so on. The
chains of includes that never come back to a mixin they are already in are followed in their order,
and each mixin is listed behind those that its own chains meet. What a declaration inherits from are
the mixins on this list, each where it stands first.

## Main definitions

* `Declaration.Means` — the mixin that a name stands for
* `Declaration.Reaches`, `Declaration.Missing` — the mixins reached from a declaration, and the
  names on the way that stand for nothing
* `Declaration.Chains` — the mixins met along the chains of includes, or the first missing name
* `Declaration.Inherits` — the mixins that a declaration inherits from, in order

## Main results

* `Declaration.Chains.unique` — the chains have one outcome
* `Declaration.Chains.closed` — all that the mixins on the list include is on the list
* `Declaration.chains_ok_of_finished` — chains that only meet finished mixins meet no missing name
-/

namespace ShaderLang
namespace Declaration

/-- A name stands for the last mixin of that name whose language is the one asked for, or any. -/
structure Means (ds : List Declaration) (name language : String) (i : Nat) (m : Declaration) :
    Prop where
  get : ds[i]? = some m
  provides : m.provides name language = true
  last : ∀ j n, i < j → ds[j]? = some n → n.provides name language = false

/-- A name stands for nothing. -/
def Unknown (ds : List Declaration) (name language : String) : Prop :=
  ∀ i m, ¬ Means ds name language i m

/-- The mixins reached from a declaration along its includes. -/
inductive Reaches (ds : List Declaration) (d : Declaration) : Nat → Declaration → Prop
  | named {name i m} (h : name ∈ d.includes) (hm : Means ds name d.language i m) : Reaches ds d i m
  | through {i m name j n} (h : Reaches ds d i m) (hname : name ∈ m.includes)
      (hn : Means ds name m.language j n) : Reaches ds d j n

/-- A name included by a declaration, or by a mixin that it reaches, stands for nothing. -/
inductive Missing (ds : List Declaration) (d : Declaration) (name : String) : Prop
  | named (h : name ∈ d.includes) (hn : Unknown ds name d.language)
  | through {i m} (h : Reaches ds d i m) (hname : name ∈ m.includes)
      (hn : Unknown ds name m.language)

/-- Follows the chains of includes from names, inside the mixins of a path and never back to one of
them. The outcome is the list of mixins met, each behind those that its own chains meet, or the
first name that stands for nothing. -/
inductive Chains (ds : List Declaration) :
    List Nat → String → List String → Except String (List Nat) → Prop
  | done {path language} : Chains ds path language [] (.ok [])
  | missing {path language name names} (h : Unknown ds name language) :
      Chains ds path language (name :: names) (.error name)
  | back {path language name names i m r} (h : Means ds name language i m) (hi : i ∈ path)
      (hs : Chains ds path language names r) : Chains ds path language (name :: names) r
  | failed {path language name names i m e} (h : Means ds name language i m) (hi : i ∉ path)
      (hm : Chains ds (i :: path) m.language m.includes (.error e)) :
      Chains ds path language (name :: names) (.error e)
  | into {path language name names i m met others} (h : Means ds name language i m) (hi : i ∉ path)
      (hm : Chains ds (i :: path) m.language m.includes (.ok met))
      (hs : Chains ds path language names (.ok others)) :
      Chains ds path language (name :: names) (.ok (met ++ i :: others))
  | later {path language name names i m met e} (h : Means ds name language i m) (hi : i ∉ path)
      (hm : Chains ds (i :: path) m.language m.includes (.ok met))
      (hs : Chains ds path language names (.error e)) :
      Chains ds path language (name :: names) (.error e)

/-- The mixins that a declaration inherits from: those it reaches, each once, in the order in which
the chains of its includes first meet them. -/
structure Inherits (ds : List Declaration) (d : Declaration) (is : List Nat) : Prop where
  nodup : is.Nodup
  mem_iff : ∀ i, i ∈ is ↔ ∃ m, Reaches ds d i m
  order : ∃ met, Chains ds [] d.language d.includes (.ok met) ∧ is = met.eraseDups

/-- The declarations at given positions. -/
def atPositions (ds : List Declaration) (is : List Nat) : List Declaration :=
  is.filterMap (ds[·]?)

variable {ds : List Declaration} {d m n : Declaration} {name language : String} {i j : Nat}
  {path finished met : List Nat} {names : List String}

/-! ## What names stand for -/

theorem Means.lt (h : Means ds name language i m) : i < ds.length :=
  (List.getElem?_eq_some_iff.1 h.get).1

theorem Means.unique (h : Means ds name language i m) (h' : Means ds name language j n) :
    i = j ∧ m = n := by
  have hle : ∀ {i j m n}, Means ds name language i m → Means ds name language j n → j ≤ i := by
    intro i j m n h h'
    by_contra hlt
    have hnot := h.last j n (Nat.lt_of_not_le hlt) h'.get
    rw [h'.provides] at hnot
    cases hnot
  obtain rfl : i = j := Nat.le_antisymm (hle h' h) (hle h h')
  exact ⟨rfl, Option.some.inj (h.get.symm.trans h'.get)⟩

theorem means_of_findMixin? (h : findMixin? ds name language = some i) :
    ∃ m, Means ds name language i m := by
  obtain ⟨k, hk, rfl⟩ := Option.map_eq_some_iff.1 h
  obtain ⟨hlt, hprovides, hlast⟩ := List.findIdx?_eq_some_iff_getElem.1 hk
  rw [List.length_reverse] at hlt
  have hpos : ds.length - 1 - k < ds.length := by omega
  rw [List.getElem_reverse] at hprovides
  refine ⟨_, List.getElem?_eq_getElem hpos, hprovides, fun j n hj hn => ?_⟩
  -- A later position stands before the one that was found in the reversed list.
  obtain ⟨hjlt, rfl⟩ := List.getElem?_eq_some_iff.1 hn
  have hbefore := hlast (ds.length - 1 - j) (by omega)
  rw [List.getElem_reverse, Bool.not_eq_true] at hbefore
  have hindex : ds.length - 1 - (ds.length - 1 - j) = j := by omega
  simpa only [hindex] using hbefore

theorem unknown_of_findMixin? (h : findMixin? ds name language = none) :
    Unknown ds name language := by
  intro i m hm
  have hnone := List.findIdx?_eq_none_iff.1 (Option.map_eq_none_iff.1 h)
  have hmem : m ∈ ds.reverse := List.mem_reverse.2 (List.mem_of_getElem? hm.get)
  have hnot := hnone m hmem
  rw [hm.provides] at hnot
  cases hnot

/-! ## Chains of includes -/

/-- The chains from the name of a mixin that is not on the path go through that mixin. -/
theorem Chains.through {r : Except String (List Nat)} (hm : Means ds name language i m)
    (hi : i ∉ path) (h : Chains ds path language (name :: names) r) :
    (∃ e, Chains ds (i :: path) m.language m.includes (.error e) ∧ r = .error e) ∨
      ∃ met others, Chains ds (i :: path) m.language m.includes (.ok met) ∧
        Chains ds path language names others ∧ r = others.map (met ++ i :: ·) := by
  cases h with
  | missing hunknown => exact absurd hm (hunknown _ _)
  | back hm' hi' =>
    obtain ⟨rfl, -⟩ := hm.unique hm'
    exact absurd hi' hi
  | failed hm' _ hinner =>
    obtain ⟨rfl, rfl⟩ := hm.unique hm'
    exact .inl ⟨_, hinner, rfl⟩
  | into hm' _ hinner hs =>
    obtain ⟨rfl, rfl⟩ := hm.unique hm'
    exact .inr ⟨_, _, hinner, hs, rfl⟩
  | later hm' _ hinner hs =>
    obtain ⟨rfl, rfl⟩ := hm.unique hm'
    exact .inr ⟨_, _, hinner, hs, rfl⟩

/-- The chains have one outcome. -/
theorem Chains.unique {r r' : Except String (List Nat)} (h : Chains ds path language names r)
    (h' : Chains ds path language names r') : r = r' := by
  -- By induction on the first chains. A name has one meaning, so that both take the same rule.
  induction h generalizing r' with
  | done =>
    cases h'
    rfl
  | missing hunknown =>
    cases h' with
    | missing => rfl
    | back h | failed h | into h | later h => exact absurd h (hunknown _ _)
  | back h hi _ ih =>
    cases h' with
    | missing hunknown => exact absurd h (hunknown _ _)
    | back _ _ hs => exact ih hs
    | failed h' hi' | into h' hi' | later h' hi' =>
      obtain ⟨rfl, -⟩ := h.unique h'
      exact absurd hi hi'
  | failed h hi _ ih =>
    rcases h'.through h hi with ⟨e, hm, rfl⟩ | ⟨met, others, hm, -⟩
    · exact ih hm
    · cases ih hm
  | into h hi _ _ ihm ihs | later h hi _ _ ihm ihs =>
    rcases h'.through h hi with ⟨e, hm, rfl⟩ | ⟨met, others, hm, hs, rfl⟩
    · cases ihm hm
    · cases ihm hm
      rw [← ihs hs]
      rfl

/-- No chain comes back to a mixin that it is in. -/
theorem Chains.not_mem_path {r : Except String (List Nat)} (h : Chains ds path language names r) :
    ∀ met, r = .ok met → ∀ i ∈ met, i ∉ path := by
  induction h with
  | done =>
    rintro _ ⟨⟩ i hi
    cases hi
  | missing | failed | later => rintro _ ⟨⟩
  | back _ _ _ ih => exact ih
  | into _ hi _ _ ihm ihs =>
    rintro _ ⟨⟩ j hj
    rcases List.mem_append.1 hj with hj | hj
    -- Inside the mixin the path is longer, which only excludes more.
    · exact fun hmem => ihm _ rfl j hj (List.mem_cons_of_mem _ hmem)
    · rcases List.mem_cons.1 hj with rfl | hj
      · exact hi
      · exact ihs _ rfl j hj

/-- The names all stand for mixins that are finished or on a path. -/
def Known (ds : List Declaration) (path finished : List Nat) (language : String)
    (names : List String) : Prop :=
  ∀ name ∈ names, ∃ i m, Means ds name language i m ∧ (i ∈ finished ∨ i ∈ path)

/-- All that finished mixins include is finished or on the path. -/
def Closed (ds : List Declaration) (path finished : List Nat) : Prop :=
  ∀ i ∈ finished, ∃ m, ds[i]? = some m ∧ Known ds path finished m.language m.includes

theorem Known.mono {path' finished' : List Nat} (h : Known ds path finished language names)
    (hsub : ∀ i, i ∈ finished ∨ i ∈ path → i ∈ finished' ∨ i ∈ path') :
    Known ds path' finished' language names := by
  intro name hname
  obtain ⟨i, m, hm, hi⟩ := h name hname
  exact ⟨i, m, hm, hsub i hi⟩

theorem Closed.append {finished' : List Nat} (h : Closed ds path finished)
    (h' : Closed ds path finished') : Closed ds path (finished ++ finished') := by
  intro i hi
  rcases List.mem_append.1 hi with hi | hi
  · obtain ⟨m, hm, hknown⟩ := h i hi
    exact ⟨m, hm, hknown.mono fun j => Or.imp_left (List.mem_append_left _)⟩
  · obtain ⟨m, hm, hknown⟩ := h' i hi
    exact ⟨m, hm, hknown.mono fun j => Or.imp_left (List.mem_append_right _)⟩

/-- All that the mixins on the list include is on the list, or on the path. -/
theorem Chains.closed {r : Except String (List Nat)} (h : Chains ds path language names r) :
    ∀ met, r = .ok met → Known ds path met language names ∧ Closed ds path met := by
  induction h with
  | done =>
    rintro _ ⟨⟩
    constructor
    · intro name hname
      cases hname
    · intro i hi
      cases hi
  | missing | failed | later => rintro _ ⟨⟩
  | back h hi _ ih =>
    rintro met rfl
    obtain ⟨hknown, hclosed⟩ := ih met rfl
    refine ⟨fun name hname => ?_, hclosed⟩
    rcases List.mem_cons.1 hname with rfl | hname
    · exact ⟨_, _, h, .inr hi⟩
    · exact hknown name hname
  | @into path language name names i m met others h hi _ _ ihm ihs =>
    rintro _ ⟨⟩
    obtain ⟨hinner, hinnerClosed⟩ := ihm met rfl
    obtain ⟨hknown, hclosed⟩ := ihs others rfl
    have hmem : i ∈ met ++ i :: others := List.mem_append_right _ List.mem_cons_self
    -- What the chains inside the mixin meet is on the list, and the mixin itself is too.
    have hleft : ∀ j, j ∈ met ∨ j ∈ i :: path → j ∈ met ++ i :: others ∨ j ∈ path := by
      rintro j (hj | hj)
      · exact .inl (List.mem_append_left _ hj)
      · rcases List.mem_cons.1 hj with rfl | hj
        · exact .inl hmem
        · exact .inr hj
    have hright : ∀ j, j ∈ others ∨ j ∈ path → j ∈ met ++ i :: others ∨ j ∈ path := fun j =>
      Or.imp_left fun hj => List.mem_append_right _ (List.mem_cons_of_mem _ hj)
    constructor
    · intro name hname
      rcases List.mem_cons.1 hname with rfl | hname
      · exact ⟨_, _, h, .inl hmem⟩
      · exact hknown.mono hright name hname
    · intro j hj
      rcases List.mem_append.1 hj with hj | hj
      · obtain ⟨n, hn, hnames⟩ := hinnerClosed j hj
        exact ⟨n, hn, hnames.mono hleft⟩
      · rcases List.mem_cons.1 hj with rfl | hj
        · exact ⟨m, h.get, hinner.mono hleft⟩
        · obtain ⟨n, hn, hnames⟩ := hclosed j hj
          exact ⟨n, hn, hnames.mono hright⟩

/-- Chains that only meet finished mixins meet no missing name. -/
theorem chains_ok_of_finished (hclosed : Closed ds path finished) {inside : List Nat}
    (hpath : path ⊆ inside) (hknown : Known ds inside finished language names) :
    ∃ met, Chains ds inside language names (.ok met) ∧ met ⊆ finished := by
  -- Every chain gets longer by a finished mixin that it was not in.
  induction hn : (finished.filter (· ∉ inside)).length using Nat.strong_induction_on
    generalizing inside language names with
  | _ n ih =>
    subst hn
    induction names with
    | nil => exact ⟨[], .done, List.nil_subset _⟩
    | cons name names ihnames =>
      obtain ⟨i, m, hm, hi⟩ := hknown name List.mem_cons_self
      obtain ⟨others, hothers, hsub⟩ :=
        ihnames fun name hname => hknown name (List.mem_cons_of_mem _ hname)
      by_cases hmem : i ∈ inside
      · exact ⟨others, .back hm hmem hothers, hsub⟩
      · have hfinished : i ∈ finished := hi.resolve_right hmem
        obtain ⟨m', hget, hnames⟩ := hclosed i hfinished
        obtain rfl : m = m' := Option.some.inj (hm.get.symm.trans hget)
        have hpath' : path ⊆ i :: inside := fun j hj => List.mem_cons_of_mem _ (hpath hj)
        have hlt : (finished.filter (· ∉ i :: inside)).length <
            (finished.filter (· ∉ inside)).length := by
          have hfilter : finished.filter (· ∉ i :: inside) =
              (finished.filter (· ∉ inside)).filter (· ≠ i) := by
            rw [List.filter_filter]
            exact List.filter_congr fun j _ => by simp
          rw [hfilter]
          exact List.length_filter_lt_length_iff_exists.2 ⟨i, by simp [hfinished, hmem], by simp⟩
        obtain ⟨met, hmet, hmetSub⟩ :=
          ih _ hlt hpath' (hnames.mono fun j => Or.imp_right (@hpath' j)) rfl
        refine ⟨met ++ i :: others, .into hm hmem hmet hothers, ?_⟩
        exact List.append_subset.2 ⟨hmetSub, List.cons_subset.2 ⟨hfinished, hsub⟩⟩

/-! ## What the chains reach -/

/-- All that the chains of a declaration meet is reached from it, and the name that stops them is
missing. -/
theorem Chains.reaches {r : Except String (List Nat)} (h : Chains ds path language names r)
    (hreaches : ∀ name ∈ names, ∀ i m, Means ds name language i m → Reaches ds d i m)
    (hmissing : ∀ name ∈ names, Unknown ds name language → Missing ds d name) :
    (∀ met, r = .ok met → ∀ i ∈ met, ∃ m, Reaches ds d i m) ∧
      ∀ name, r = .error name → Missing ds d name := by
  induction h with
  | done =>
    refine ⟨?_, by rintro _ ⟨⟩⟩
    rintro _ ⟨⟩ i hi
    cases hi
  | missing h =>
    refine ⟨by rintro _ ⟨⟩, ?_⟩
    rintro _ ⟨⟩
    exact hmissing _ List.mem_cons_self h
  | back _ _ _ ih =>
    exact ih (fun name hname => hreaches name (List.mem_cons_of_mem _ hname))
      fun name hname => hmissing name (List.mem_cons_of_mem _ hname)
  | failed h _ _ ih =>
    -- What a reached mixin includes is reached through it.
    have hm := hreaches _ List.mem_cons_self _ _ h
    exact ih (fun name hname i m => .through hm hname) fun name hname => .through hm hname
  | into h _ _ _ ihm ihs =>
    have hm := hreaches _ List.mem_cons_self _ _ h
    obtain ⟨hmet, -⟩ :=
      ihm (fun name hname i m => .through hm hname) fun name hname => .through hm hname
    obtain ⟨hothers, -⟩ := ihs (fun name hname => hreaches name (List.mem_cons_of_mem _ hname))
      fun name hname => hmissing name (List.mem_cons_of_mem _ hname)
    refine ⟨?_, by rintro _ ⟨⟩⟩
    rintro _ ⟨⟩ j hj
    rcases List.mem_append.1 hj with hj | hj
    · exact hmet _ rfl j hj
    · rcases List.mem_cons.1 hj with rfl | hj
      · exact ⟨_, hm⟩
      · exact hothers _ rfl j hj
  | later h _ _ _ _ ihs =>
    refine ⟨by rintro _ ⟨⟩, ?_⟩
    exact (ihs (fun name hname => hreaches name (List.mem_cons_of_mem _ hname))
      fun name hname => hmissing name (List.mem_cons_of_mem _ hname)).2

/-- The chains of a declaration that meet no missing name meet all that it reaches. -/
theorem mem_of_reaches (h : Chains ds [] d.language d.includes (.ok met)) (hr : Reaches ds d i m) :
    i ∈ met ∧ Known ds [] met m.language m.includes := by
  obtain ⟨hknown, hclosed⟩ := h.closed met rfl
  -- The list is closed: a name that is known stands for a mixin on it whose names are known.
  have hmem : ∀ {name language names i m}, name ∈ names → Means ds name language i m →
      Known ds [] met language names → i ∈ met ∧ Known ds [] met m.language m.includes := by
    intro name language names i m hname hm hknown
    obtain ⟨j, n, hn, hj⟩ := hknown name hname
    obtain ⟨rfl, rfl⟩ := hm.unique hn
    have hi : i ∈ met := hj.resolve_right List.not_mem_nil
    obtain ⟨n, hget, hincludes⟩ := hclosed i hi
    obtain rfl := Option.some.inj (hm.get.symm.trans hget)
    exact ⟨hi, hincludes⟩
  induction hr with
  | named hname hm => exact hmem hname hm hknown
  | through _ hname hn ih => exact hmem hname hn ih.2

theorem not_missing_of_chains (h : Chains ds [] d.language d.includes (.ok met)) (name : String) :
    ¬ Missing ds d name := by
  rintro (⟨hname, hunknown⟩ | ⟨hr, hname, hunknown⟩)
  · obtain ⟨i, m, hm, -⟩ := (h.closed met rfl).1 name hname
    exact hunknown i m hm
  · obtain ⟨i, m, hm, -⟩ := (mem_of_reaches h hr).2 name hname
    exact hunknown i m hm

theorem missing_of_chains (h : Chains ds [] d.language d.includes (.error name)) :
    Missing ds d name :=
  (h.reaches (fun _ hname _ _ => .named hname) fun _ hname => .named hname).2 name rfl

theorem nodup_eraseDups {α : Type} [DecidableEq α] (l : List α) : l.eraseDups.Nodup := by
  induction hn : l.length using Nat.strong_induction_on generalizing l with
  | _ n ih =>
    subst hn
    cases l with
    | nil => exact List.nodup_nil
    | cons a l =>
      have hlen : (l.filter fun b => !b == a).length < (a :: l).length :=
        Nat.lt_succ_of_le (List.length_filter_le _ _)
      rw [List.eraseDups_cons, List.nodup_cons]
      exact ⟨by simp [List.mem_eraseDups], ih _ hlen _ rfl⟩

/-- The mixins on the list of chains, each where it stands first, are those inherited from. -/
theorem Chains.inherits (h : Chains ds [] d.language d.includes (.ok met)) :
    Inherits ds d met.eraseDups where
  nodup := nodup_eraseDups met
  mem_iff i := by
    rw [List.mem_eraseDups]
    constructor
    · exact (h.reaches (fun _ hname _ _ => .named hname) fun _ hname => .named hname).1 met rfl i
    · rintro ⟨m, hr⟩
      exact (mem_of_reaches h hr).1
  order := ⟨met, h, rfl⟩

end Declaration
end ShaderLang
