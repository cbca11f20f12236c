import ShaderLang.Binary.Layout
import ShaderLang.Proofs.Hlsl.Initializer
import ShaderLang.Proofs.Number.Nearest
import ShaderLang.Proofs.Param.DefaultSize
/-!
# Defaults of integers

The integers of an initializer are read as single precision numbers. A variable of one component
stores the number as an integer again, and so stores the integer that was written just if it has no
more than 24 significant bits, or is the greatest one. A vector of integers has its default as the
entries of a matrix, which are stored as single precision numbers.

## Main definitions

* `DataType.isInteger` — the types of integers and of vectors of integers
* `Hlsl.storedIntegers` — the bytes that integers are stored as

## Main results

* `Hlsl.default?_dataParam_of_writes` — the default of a variable with an initializer of integers
* `Params.integer_default` — what is registered for such a variable
* `Params.integer_default_misses` — integers that are not stored as they are written
-/

namespace ShaderLang

/-! ## Bytes of words -/

namespace Word

theorem bytes32_injective : Function.Injective bytes32 := by
  intro v w h
  have hv := Layout.faithful_natural 4 v.toNat [] v.toNat_lt
  have hw := Layout.faithful_natural 4 w.toNat [] w.toNat_lt
  change Layout.readNatural? 4 (bytes32 v ++ []) = _ at hv
  change Layout.readNatural? 4 (bytes32 w ++ []) = _ at hw
  rw [h, hw] at hv
  exact UInt32.toNat_inj.1 (Prod.mk.inj (Option.some.inj hv)).1.symm

/-- Integers of 32 bits have different words. -/
theorem half_inj {a b : Int} (ha : -2147483648 ≤ a ∧ a ≤ 2147483647)
    (hb : -2147483648 ≤ b ∧ b ≤ 2147483647) : half a = half b ↔ a = b := by
  constructor
  · intro h
    have hnat := congrArg UInt32.toNat h
    simp only [half, UInt32.toNat_ofNat'] at hnat
    omega
  · exact congrArg half

end Word

/-- Rows of words of one length are equal just if they are word by word. -/
theorem Word.flatMap_bytes32_eq_iff {α : Type} {l : List α} {f g : α → UInt32} :
    (l.flatMap fun a => bytes32 (f a)) = (l.flatMap fun a => bytes32 (g a)) ↔
      ∀ a ∈ l, f a = g a := by
  induction l with
  | nil => simp
  | cons a l ih =>
    rw [List.flatMap_cons, List.flatMap_cons, List.forall_mem_cons, ← ih]
    constructor
    · intro h
      have hlength : (bytes32 (f a)).length = (bytes32 (g a)).length := by
        rw [length_bytes32, length_bytes32]
      obtain ⟨hfirst, hrest⟩ := List.append_inj h hlength
      exact ⟨bytes32_injective hfirst, hrest⟩
    · rintro ⟨hfirst, hrest⟩
      rw [hfirst, hrest]

/-- The types of integers and of vectors of integers. -/
def DataType.isInteger : DataType → Bool
  | .int | .int2 | .int3 | .int4 | .uInt | .uInt2 | .uInt3 | .uInt4 => true
  | _ => false

/-! ## Integers as single precision numbers -/

namespace Number.Numeral

theorem range (w : Numeral) : -2147483648 ≤ w.value ∧ w.value ≤ 2147483647 := by
  obtain ⟨_, _, _, _, _, _, _, hrange⟩ := exists_of_read32 w.reads
  exact hrange

/-- A decimal integer with a minus sign is not above zero, and one without is not below. -/
theorem sign (w : Numeral) :
    if w.text.head? == some '-' then w.value ≤ 0 else 0 ≤ w.value := by
  obtain ⟨sign, hsign, ds, n, htext, hn, hvalue, -⟩ := exists_of_read32 w.reads
  rw [htext]
  simp only [signs, List.mem_cons, List.not_mem_nil, or_false] at hsign
  rcases hsign with rfl | rfl | rfl
  · rw [List.nil_append, beq_false_of_ne (head_of_natural? hn).1, if_neg Bool.false_ne_true, hvalue]
    exact Int.natCast_nonneg n
  · change 0 ≤ w.value
    rw [hvalue]
    exact Int.natCast_nonneg n
  · change w.value ≤ 0
    rw [hvalue, if_pos rfl]
    omega

theorem natAbs_le (w : Numeral) : w.value.natAbs ≤ 2147483648 := by
  have := w.range
  omega

theorem range_toInt32 (w : Numeral) :
    -2147483648 ≤ w.single.toInt32 ∧ w.single.toInt32 ≤ 2147483647 := by
  rw [single, Binary32.toInt32_ofRatio _ (Binary32.log2_le w.natAbs_le), Binary32.clamped]
  split <;> omega

/-- A decimal integer is stored as it is written just if it is exact. -/
theorem toInt32_single_eq_iff (w : Numeral) :
    w.single.toInt32 = w.value ↔ Binary32.Exact w.value :=
  Binary32.toInt32_ofRatio_eq_iff w.range.1 w.range.2 w.sign

/-- The bits of the number nearest to a small integer are not those of the integer. -/
theorem bits_single_ne (w : Numeral) (hpos : w.value ≠ 0) (hsmall : w.value.natAbs < 536870912) :
    w.single.bits ≠ Word.half w.value := by
  have hnat : 0 < w.value.natAbs := Int.natAbs_pos.2 hpos
  have hlog : w.value.natAbs.log2 ≤ 28 := Nat.le_of_lt_succ ((Nat.log2_lt hnat.ne').2 hsmall)
  obtain ⟨hlow, hhigh⟩ := Binary32.units_bounds hnat
  have hbits := Binary32.toNat_bits_ofRatio (w.text.head? == some '-') hnat (by omega)
  have hsign := w.sign
  intro heq
  have hword : w.single.bits.toNat = (w.value % 4294967296).toNat := by
    rw [heq, Word.half, UInt32.toNat_ofNat']
    omega
  rw [single] at hword
  rw [hword] at hbits
  unfold Binary32.fractionCount Binary32.signBit at *
  cases hminus : w.text.head? == some '-' <;> simp [hminus] at hbits hsign <;> omega

end Number.Numeral

namespace Hlsl

open Number (Numeral)

variable {text : List Char} {ws : List Numeral} {x : Declared × DataType} {t : DataType}

/-! ## What is stored -/

/-- The word that an integer is stored as, for a variable of some type. -/
def storedWord (t : DataType) (w : Numeral) : UInt32 :=
  if t.paramType.scalars = 1 then Word.half w.single.toInt32 else w.single.bits

/-- The bytes that integers are stored as. -/
def storedIntegers (t : DataType) (ws : List Numeral) : List UInt8 :=
  ws.flatMap fun w => Word.bytes32 (storedWord t w)

/-- The bytes that integers are encoded as. -/
def encodedIntegers (ws : List Numeral) : List UInt8 :=
  ws.flatMap fun w => Word.bytes32 (Word.half w.value)

/-- What an initializer of integers gives a variable of integers. -/
theorem defaultOf?_of_writes (ht : t.isInteger = true) (h : Writes true text ws) (hne : ws ≠ []) :
    defaultOf? t text = some (if t.paramType.scalars = 1 then .int (ws.head hne).single.toInt32
      else .matrix (entriesOf (ws.map Numeral.single))) := by
  obtain ⟨w, vs, rfl⟩ := List.exists_cons_of_ne_nil hne
  unfold defaultOf?
  rw [h.numbers_eq]
  cases t <;> first | rfl | cases ht

/-- The first entries of a matrix are those that it was made of. -/
theorem toList_entriesOf {xs : List Binary32} (h : xs.length ≤ 16) :
    (entriesOf xs).toList = xs ++ List.replicate (16 - xs.length) .zero := by
  refine List.ext_getElem ?_ fun i hi hi' => ?_
  · simp
    omega
  · simp only [entriesOf, Vector.getElem_toList, Vector.getElem_ofFn]
    rcases Nat.lt_or_ge i xs.length with hlt | hge
    · simp [List.getElem_append_left hlt, hlt]
    · simp [List.getElem_append_right hge, hge]

/-- The bytes of the default that an initializer gives which writes one integer for each
component. -/
theorem default?_dataParam_of_writes (ht : x.2.isInteger = true)
    (htext : x.1.initializer? = some text) (h : Writes true text ws)
    (hlength : ws.length = x.2.paramType.scalars) :
    (dataParam x).default? = some (storedIntegers x.2 ws) := by
  obtain ⟨d, t⟩ := x
  have hpos : 0 < t.paramType.scalars := by
    cases t <;> first | decide | cases ht
  have hne : ws ≠ [] := List.length_pos_iff.1 (hlength ▸ hpos)
  -- No integers are colors.
  have htype : (d.uniform (.variable t)).paramType t = t.paramType := by
    cases t <;> first | (cases ht; done) | simp [Uniform.paramType, DataType.paramType]
  have hsize : t.paramType.size = 4 * ws.length := by
    rw [hlength, DataParamType.size]
  dsimp only [dataParam] at *
  rw [htext, Option.bind_some, defaultOf?_of_writes ht h hne, Option.map_some, htype,
    Params.defaultBytes, if_pos (by omega), hsize]
  congr 1
  unfold storedIntegers storedWord
  split
  · next hone =>
    obtain ⟨w, rfl⟩ := List.length_eq_one_iff.1 (hlength.trans hone)
    exact (List.append_nil _).symm
  · have hle : (ws.map Numeral.single).length ≤ 16 := by
      have := t.paramType.size_le
      rw [List.length_map]
      omega
    rw [DefaultValue.bytes, toList_entriesOf hle, List.flatMap_append, List.take_left',
      List.flatMap_map]
    rw [Binary32.length_flatMap_bytes, List.length_map]

/-- A variable of one component stores the integer that is written just if it is exact. -/
theorem storedIntegers_eq_iff (ht : t.paramType.scalars = 1) :
    storedIntegers t ws = encodedIntegers ws ↔ ∀ w ∈ ws, Binary32.Exact w.value := by
  rw [storedIntegers, encodedIntegers, Word.flatMap_bytes32_eq_iff]
  refine forall₂_congr fun w _ => ?_
  rw [storedWord, if_pos ht, Word.half_inj w.range_toInt32 w.range, w.toInt32_single_eq_iff]

/-- A vector stores none of its small integers as it is written, apart from zero. -/
theorem storedIntegers_ne (ht : t.paramType.scalars ≠ 1) {w : Numeral} (hw : w ∈ ws)
    (hne : w.value ≠ 0) (hsmall : w.value.natAbs < 536870912) :
    storedIntegers t ws ≠ encodedIntegers ws := by
  rw [storedIntegers, encodedIntegers, Ne, Word.flatMap_bytes32_eq_iff]
  intro hall
  have hword := hall w hw
  rw [storedWord, if_neg ht] at hword
  exact w.bits_single_ne hne hsmall hword

end Hlsl

namespace Params

open Number (Numeral)

/-- The entry of a variable is made where its name is free. -/
theorem exists_registerUniform {r : Reflection} {u : Uniform} {x : Hlsl.Declared × DataType}
    (hux : Hlsl.Describes r.defaults u x) (hshown : ¬ r.Hides u) (strict : Bool) {p : Params}
    (hfree : p.data.get? x.1.name = none) :
    ∃ q, registerUniform r strict p u = .ok q ∧
      q.data.get? x.1.name = some (Hlsl.dataParam x) := by
  obtain ⟨attributes, hdemand⟩ := hux.demand hshown
  have hstep := registers_uniform r strict p u
  rw [hdemand, hux.ident] at hstep
  generalize registerUniform r strict p u = result at hstep
  cases hstep with
  | met =>
    refine ⟨_, rfl, ?_⟩
    rw [data_met, hfree, Option.getD_none]
  | clash _ hclash =>
    cases hclash with
    | dataType hfirst => cases hfree.symm.trans hfirst
    | arraySize hfirst => cases hfree.symm.trans hfirst

/-- A variable of integers whose initializer writes one integer for each component has a uniform,
and unless this is hidden, it is registered wherever its name is free, with the integers as they
are stored. With one component they are stored as they are written just if the integer has no more
than 24 significant bits or is the greatest one of 32 bits; with several, no integer below `2 ^ 29`
is, apart from zero. -/
theorem integer_default {code text : String} {start : Nat} {r : Reflection}
    {x : Hlsl.Declared × DataType} {ws : List Numeral} (h : Hlsl.reflect? code start = some r)
    (hx : x ∈ Hlsl.variablesIn code) (ht : x.2.isInteger = true)
    (htext : x.1.initializer? = some text.toList) (hw : Hlsl.Writes true text.toList ws)
    (hlength : ws.length = x.2.paramType.scalars) :
    (∃ u ∈ r.uniforms, Hlsl.Describes r.defaults u x ∧
      (¬ r.Hides u → ∀ strict p, p.data.get? x.1.name = none →
        ∃ q param, registerUniform r strict p u = .ok q ∧ q.data.get? x.1.name = some param ∧
          param.default? = some (Hlsl.storedIntegers x.2 ws))) ∧
      (x.2.paramType.scalars = 1 →
        (Hlsl.storedIntegers x.2 ws = Hlsl.encodedIntegers ws ↔
          ∀ w ∈ ws, Binary32.Exact w.value)) ∧
      (x.2.paramType.scalars ≠ 1 → ∀ w ∈ ws, w.value ≠ 0 → w.value.natAbs < 536870912 →
        Hlsl.storedIntegers x.2 ws ≠ Hlsl.encodedIntegers ws) := by
  refine ⟨?_, Hlsl.storedIntegers_eq_iff, fun hvector w hmem => Hlsl.storedIntegers_ne hvector hmem⟩
  obtain ⟨u, hu, hux⟩ := Hlsl.exists_uniform_of_variable h hx
  refine ⟨u, hu, hux, fun hshown strict p hfree => ?_⟩
  obtain ⟨q, hq, hentry⟩ := exists_registerUniform hux hshown strict hfree
  exact ⟨q, Hlsl.dataParam x, hq, hentry, Hlsl.default?_dataParam_of_writes ht htext hw hlength⟩

/-- A vector of integers. -/
def cellVector : String := "int2 gCell = int2(-3, 4);\n"

theorem integer_default_cell :
    ∃ r u, Hlsl.reflect? cellVector 0 = some r ∧ u ∈ r.uniforms ∧ ¬ r.Hides u ∧
      ∀ strict, ∃ q param, registerUniform r strict empty u = .ok q ∧
        q.data.get? "gCell" = some param ∧
        param.default? = some [0, 0, 0x40, 0xC0, 0, 0, 0x80, 0x40] := by
  have hread : (Hlsl.reflect? cellVector 0).any (fun r =>
      r.uniforms.all fun u => decide (¬ r.Hides u)) = true := by decide +kernel
  obtain ⟨r, hr, hshown⟩ := (Option.any_eq_true ..).1 hread
  have hvariables : (Hlsl.variablesIn cellVector).map (fun x =>
      (x.1.name, x.2, x.1.initializer?)) = [("gCell", .int2, some "int2(-3, 4)".toList)] := by
    decide +kernel
  obtain ⟨x, hlist, hparts⟩ := List.map_eq_singleton_iff.1 hvariables
  obtain ⟨hname, ht, htext⟩ : x.1.name = "gCell" ∧ x.2 = .int2 ∧
      x.1.initializer? = some "int2(-3, 4)".toList := by simpa only [Prod.mk.injEq] using hparts
  let three : Numeral := ⟨"-3".toList, -3, by decide +kernel⟩
  let four : Numeral := ⟨"4".toList, 4, by decide +kernel⟩
  -- The initializer is a name, marks and two numerals.
  have hcall : Hlsl.Writes true "(-3, 4)".toList [three, four] :=
    .mark (by decide) <| .numeral three (Hlsl.marked_cons (by decide)) <| .mark (by decide) <|
      .mark (by decide) <| .numeral four (Hlsl.marked_cons (by decide)) <| .mark (by decide) .nil
  have hletters : "nt2".toList.all Text.isWord = true := by decide +kernel
  have hw : Hlsl.Writes true "int2(-3, 4)".toList [three, four] :=
    .name (Hlsl.mem_language_ident.2 ⟨'i', _, rfl, by decide, List.all_eq_true.1 hletters⟩)
      (Hlsl.marked_cons (by decide)) hcall
  obtain ⟨⟨u, hu, hux, hentry⟩, -⟩ := integer_default hr (hlist ▸ List.mem_singleton_self x)
    (by rw [ht]; rfl) htext hw (by rw [ht]; rfl)
  have huser : ¬ r.Hides u := of_decide_eq_true (List.all_eq_true.1 hshown u hu)
  refine ⟨r, u, hr, hu, huser, fun strict => ?_⟩
  obtain ⟨q, param, hq, hparam, hdefault⟩ := hentry huser strict empty rfl
  refine ⟨q, param, hq, hname ▸ hparam, hdefault.trans ?_⟩
  rw [ht]
  decide +kernel

/-- An integer of 25 bits, and a vector. -/
def largeAndVector : String := "int a = 16777217;\nint2 b = int2(1, 2);\n"

/-- The integer is stored one too small, and the vector as single precision numbers. -/
theorem integer_default_misses :
    ∃ r a b, Hlsl.reflect? largeAndVector 0 = some r ∧
      (empty.register true r).1.data.get? "a" = some a ∧
      (empty.register true r).1.data.get? "b" = some b ∧
      a.default? = some [0, 0, 0, 1] ∧ Word.bytes32 (Word.half 16777217) = [1, 0, 0, 1] ∧
      b.default? = some [0, 0, 0x80, 0x3F, 0, 0, 0, 0x40] ∧
      Word.bytes32 (Word.half 1) ++ Word.bytes32 (Word.half 2) = [1, 0, 0, 0, 2, 0, 0, 0] := by
  have hread : (Hlsl.reflect? largeAndVector 0).any (fun r =>
      ((empty.register true r).1.data.get? "a").any (fun e => e.default? = some [0, 0, 0, 1]) &&
      ((empty.register true r).1.data.get? "b").any (fun e =>
        e.default? = some [0, 0, 0x80, 0x3F, 0, 0, 0, 0x40])) = true := by decide +kernel
  obtain ⟨r, hr, hread⟩ := (Option.any_eq_true ..).1 hread
  rw [Bool.and_eq_true] at hread
  obtain ⟨a, ha, hfirst⟩ := (Option.any_eq_true ..).1 hread.1
  obtain ⟨b, hb, hsecond⟩ := (Option.any_eq_true ..).1 hread.2
  exact ⟨r, a, b, hr, ha, hb, of_decide_eq_true hfirst, by decide +kernel,
    of_decide_eq_true hsecond, by decide +kernel⟩

end Params
end ShaderLang
